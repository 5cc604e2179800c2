import Mathlib.Algebra.Order.Floor.Div
import Mathlib.Data.List.Basic

/-! # Cutting lists and ranges into consecutive pieces

`chunks n` cuts a list into pieces of `n` elements, `Tiles lo rs hi` says that
the inclusive ranges `rs` follow one another from `lo` to just before `hi`. A
list that is ordered by a key can be read range by range: the pieces put
together are the part of the list the whole range selects. -/
namespace Challenger.Lib
variable {α β : Type}

/-! ## Chunks of a list -/

/-- Pieces of `n` elements, the last one possibly shorter (`n` is positive). -/
def chunks (n : Nat) : List α → List (List α)
  | [] => []
  | x :: xs => (x :: xs.take (n - 1)) :: chunks n (xs.drop (n - 1))
termination_by l => l.length
decreasing_by
  simp only [List.length_cons, List.length_drop]
  omega

@[simp] theorem flatten_chunks (n : Nat) (l : List α) : (chunks n l).flatten = l := by
  fun_induction chunks n l with
  | case1 => rfl
  | case2 x xs ih => rw [List.flatten_cons, ih, List.cons_append, List.take_append_drop]

/-- No piece is empty or longer than `n`. -/
theorem length_of_mem_chunks {n : Nat} (hn : 0 < n) {l c : List α} (h : c ∈ chunks n l) :
    1 ≤ c.length ∧ c.length ≤ n := by
  fun_induction chunks n l with
  | case1 => cases h
  | case2 x xs ih =>
    rcases List.mem_cons.mp h with rfl | h
    · rw [List.length_cons, List.length_take]
      omega
    · exact ih h

theorem length_chunks {n : Nat} (hn : 0 < n) (l : List α) : (chunks n l).length = l.length ⌈/⌉ n := by
  simp only [Nat.ceilDiv_eq_add_pred_div]
  fun_induction chunks n l with
  | case1 => rw [List.length_nil, List.length_nil, Nat.zero_add, Nat.div_eq_of_lt (by omega)]
  | case2 x xs ih =>
    rw [List.length_cons, List.length_cons, ih, List.length_drop]
    by_cases hlong : n - 1 ≤ xs.length
    · rw [← Nat.add_div_right _ hn]
      congr 1
      omega
    · -- the last piece
      rw [show xs.length - (n - 1) + n - 1 = n - 1 by omega, Nat.div_eq_of_lt (by omega),
        show xs.length + 1 + n - 1 = xs.length + n by omega, Nat.add_div_right _ hn,
        Nat.div_eq_of_lt (by omega)]

/-- Only one piece of a list without duplicates holds a given element. -/
theorem flatMap_ite_mem_of_nodup [DecidableEq α] {cs : List (List α)} (hn : cs.flatten.Nodup)
    {a : α} (ha : a ∈ cs.flatten) (L : List β) :
    (cs.flatMap fun c => if a ∈ c then L else []) = L := by
  induction cs with
  | nil => simp at ha
  | cons c cs ih =>
    rw [List.flatten_cons, List.nodup_append] at hn
    rw [List.flatten_cons, List.mem_append] at ha
    rw [List.flatMap_cons]
    by_cases hc : a ∈ c
    · have hcs : ∀ d ∈ cs, a ∉ d := fun d hd had =>
        hn.2.2 a hc a (List.mem_flatten.mpr ⟨d, hd, had⟩) rfl
      rw [if_pos hc, List.flatMap_eq_nil_iff.mpr fun d hd => if_neg (hcs d hd), List.append_nil]
    · rw [if_neg hc, List.nil_append]
      exact ih hn.2.1 (ha.resolve_left hc)

/-! ## Ranges that follow one another -/

/-- The inclusive ranges start at `lo`, each begins where the one before
ended, and the last one ends just before `hi`. -/
def Tiles : Nat → List (Nat × Nat) → Nat → Prop
  | lo, [], hi => lo = hi
  | lo, r :: rs, hi => r.1 = lo ∧ lo ≤ r.2 ∧ Tiles (r.2 + 1) rs hi

theorem Tiles.le {lo hi : Nat} {rs : List (Nat × Nat)} (h : Tiles lo rs hi) : lo ≤ hi := by
  induction rs generalizing lo with
  | nil => exact Nat.le_of_eq h
  | cons r rs ih =>
    have := ih h.2.2
    have := h.2.1
    omega

/-- One more range at the end. -/
theorem Tiles.snoc {lo mid : Nat} {rs : List (Nat × Nat)} (h : Tiles lo rs mid) {b : Nat}
    (hb : mid ≤ b) : Tiles lo (rs ++ [(mid, b)]) (b + 1) := by
  induction rs generalizing lo with
  | nil => exact ⟨h.symm, h ▸ hb, rfl⟩
  | cons r rs ih => exact ⟨h.1, h.2.1, ih h.2.2⟩

/-- Each range is inside the whole. -/
theorem Tiles.mem {lo hi : Nat} {rs : List (Nat × Nat)} (h : Tiles lo rs hi) {r : Nat × Nat}
    (hr : r ∈ rs) : lo ≤ r.1 ∧ r.1 ≤ r.2 ∧ r.2 < hi := by
  induction rs generalizing lo with
  | nil => cases hr
  | cons s rs ih =>
    obtain ⟨rfl, hle, hrs⟩ := h
    rcases List.mem_cons.mp hr with rfl | hr
    · have := hrs.le
      exact ⟨le_rfl, hle, by omega⟩
    · have := ih hrs hr
      omega

theorem Tiles.pairwise {lo hi : Nat} {rs : List (Nat × Nat)} (h : Tiles lo rs hi) :
    rs.Pairwise fun r s => r.2 < s.1 := by
  induction rs generalizing lo with
  | nil => exact .nil
  | cons r rs ih =>
    refine .cons ?_ (ih h.2.2)
    intro s hs
    exact (h.2.2.mem hs).1

/-- Each number is in one of the ranges, exactly. -/
theorem Tiles.countP {lo hi b : Nat} {rs : List (Nat × Nat)} (h : Tiles lo rs hi) (hlo : lo ≤ b)
    (hhi : b < hi) : rs.countP (fun r => r.1 ≤ b ∧ b ≤ r.2) = 1 := by
  induction rs generalizing lo with
  | nil =>
    have : lo = hi := h
    omega
  | cons r rs ih =>
    obtain ⟨rfl, hle, hrs⟩ := h
    by_cases hb : b ≤ r.2
    · rw [List.countP_cons_of_pos (by simpa using ⟨hlo, hb⟩), List.countP_eq_zero.mpr]
      intro s hs
      have := (hrs.mem hs).1
      simp only [decide_eq_true_eq]
      omega
    · rw [List.countP_cons_of_neg (by simp; omega)]
      exact ih hrs (by omega)

/-! ## Reading an ordered list range by range -/

section
variable {key : α → Nat} {l : List α}

theorem filter_ge_append_filter (hl : l.Pairwise fun x y => key x ≤ key y) {lo mid hi : Nat}
    (h1 : lo ≤ mid) (h2 : mid ≤ hi) :
    (l.filter fun x => lo ≤ key x ∧ key x < mid) ++ (l.filter fun x => mid ≤ key x ∧ key x < hi) =
      l.filter fun x => lo ≤ key x ∧ key x < hi := by
  induction l with
  | nil => rfl
  | cons x xs ih =>
    obtain ⟨hx, hxs⟩ := List.pairwise_cons.mp hl
    by_cases hm : key x < mid
    · -- `x` is not in the second part
      have ih := ih hxs
      by_cases hlo : lo ≤ key x
      · rw [List.filter_cons_of_pos (by simpa using ⟨hlo, hm⟩),
          List.filter_cons_of_neg (by simp; omega), List.filter_cons_of_pos (by simp; omega),
          List.cons_append, ih]
      · rw [List.filter_cons_of_neg (by simp; omega), List.filter_cons_of_neg (by simp; omega),
          List.filter_cons_of_neg (by simp; omega), ih]
    · -- nothing from `x` on is in the first part
      have hnil : ((x :: xs).filter fun y => lo ≤ key y ∧ key y < mid) = [] := by
        refine List.filter_eq_nil_iff.mpr ?_
        intro y hy
        rcases List.mem_cons.mp hy with rfl | hy
        · simp; omega
        · have := hx y hy
          simp; omega
      rw [hnil, List.nil_append]
      refine List.filter_congr ?_
      intro y hy
      have : key x ≤ key y := by
        rcases List.mem_cons.mp hy with rfl | hy
        · exact Nat.le_refl _
        · exact hx y hy
      simp only [decide_eq_decide]
      omega

theorem flatMap_filter_of_tiles (hl : l.Pairwise fun x y => key x ≤ key y) {lo hi : Nat}
    {rs : List (Nat × Nat)} (h : Tiles lo rs hi) :
    (rs.flatMap fun r => l.filter fun x => r.1 ≤ key x ∧ key x ≤ r.2) =
      l.filter fun x => lo ≤ key x ∧ key x < hi := by
  induction rs generalizing lo with
  | nil =>
    refine (List.filter_eq_nil_iff.mpr ?_).symm
    intro x _
    have : lo = hi := h
    simp; omega
  | cons r rs ih =>
    obtain ⟨rfl, hr, hrs⟩ := h
    rw [List.flatMap_cons, ih hrs]
    simp only [← Nat.lt_succ_iff (n := r.2)]
    exact filter_ge_append_filter hl (by omega) hrs.le

end
end Challenger.Lib
