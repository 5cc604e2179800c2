import Mathlib.Data.List.Destutter
import Mathlib.Data.List.Sort

/-! # Removing repetitions from a sorted list

`List.destutter (· ≠ ·)` drops every element that equals the one before. It
keeps every value that occurs; on a sorted list it keeps each only once. -/
namespace Challenger.Lib
variable {α : Type}

section
variable [DecidableEq α]

theorem mem_destutter'_ne {a b : α} {l : List α} :
    b ∈ l.destutter' (· ≠ ·) a ↔ b ∈ a :: l := by
  induction l generalizing a with
  | nil => rfl
  | cons c l ih =>
    rw [List.destutter'_cons]
    split
    · rw [List.mem_cons, ih, ← List.mem_cons]
    · rename_i hac
      rw [ih, not_not.mp hac]
      simp only [List.mem_cons, or_self_left]

theorem mem_destutter_ne {b : α} {l : List α} : b ∈ l.destutter (· ≠ ·) ↔ b ∈ l := by
  cases l with
  | nil => rfl
  | cons a l => rw [List.destutter_cons', mem_destutter'_ne]

end

/-- A sorted list without equal neighbours is strictly sorted. -/
theorem isChain_lt [PartialOrder α] {l : List α} (hle : l.Pairwise (· ≤ ·))
    (hne : l.IsChain (· ≠ ·)) : l.IsChain (· < ·) := by
  induction hne with
  | nil => exact .nil
  | singleton a => exact .singleton a
  | cons_cons hab _ ih =>
    have hlt := lt_of_le_of_ne (List.rel_of_pairwise_cons hle List.mem_cons_self) hab
    exact .cons_cons hlt (ih hle.of_cons)

theorem nodup_destutter_ne [PartialOrder α] [DecidableEq α] {l : List α}
    (h : l.Pairwise (· ≤ ·)) : (l.destutter (· ≠ ·)).Nodup := by
  have hlt := isChain_lt (h.sublist (List.destutter_sublist _ l)) (List.isChain_destutter _ l)
  exact hlt.pairwise.imp fun hab => hab.ne

/-- Sorting and removing repetitions leaves the values, each once. -/
theorem nodup_destutter_insertionSort [LinearOrder α] (l : List α) :
    ((l.insertionSort (· ≤ ·)).destutter (· ≠ ·)).Nodup ∧
      ∀ a, a ∈ (l.insertionSort (· ≤ ·)).destutter (· ≠ ·) ↔ a ∈ l := by
  refine ⟨nodup_destutter_ne (List.pairwise_insertionSort _ l), ?_⟩
  intro a
  rw [mem_destutter_ne, List.mem_insertionSort]

/-- A list has no repetitions when it is as long as another list of the same
values has different ones. -/
theorem nodup_iff_length_dedup [DecidableEq α] {l l' : List α} (h : ∀ a, a ∈ l ↔ a ∈ l') :
    l.Nodup ↔ l.length = l'.dedup.length := by
  have hperm : l.dedup.Perm l'.dedup := by
    rw [List.perm_ext_iff_of_nodup (List.nodup_dedup _) (List.nodup_dedup _)]
    intro a
    rw [List.mem_dedup, List.mem_dedup, h]
  rw [← hperm.length_eq]
  constructor
  · intro hl
    rw [hl.dedup]
  · intro hlen
    exact List.dedup_eq_self.mp ((List.dedup_sublist l).eq_of_length hlen.symm)

end Challenger.Lib
