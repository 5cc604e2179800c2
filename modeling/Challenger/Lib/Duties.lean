import Challenger.Lib.Run
import Mathlib.Algebra.BigOperators.Group.Finset.Basic
import Mathlib.Logic.Hydra

/-! # Systems that come to rest

A state owes a multiset of duties. A step does one of them and leaves any
number of smaller ones in its place, as in the hydra game. If the order of the
duties is well-founded then no run goes on for ever, and every run can be
taken to a state in which no step is left. -/
namespace Challenger.Lib
open Relation
variable {σ ℓ δ ι : Type} {R : σ → ℓ → σ → Prop} {s : σ} {below : δ → δ → Prop}

/-- There is no infinite run from `s`. -/
def ComesToRest (R : σ → ℓ → σ → Prop) (s : σ) : Prop := Acc (fun s' s => ∃ l, R s l s') s

def AtRest (R : σ → ℓ → σ → Prop) (s : σ) : Prop := ∀ l s', ¬ R s l s'

theorem ComesToRest.exists_atRest (h : ComesToRest R s) : ∃ ls s', Run R s ls s' ∧ AtRest R s' := by
  induction h with
  | intro s _ ih =>
    by_cases hrest : AtRest R s
    · exact ⟨[], s, .nil, hrest⟩
    · simp only [AtRest, not_forall, not_not] at hrest
      obtain ⟨l, s', hl⟩ := hrest
      obtain ⟨ls, s'', hrun, hrest'⟩ := ih s' ⟨l, hl⟩
      exact ⟨l :: ls, s'', .cons hl hrun, hrest'⟩

/-- Whoever does a duty with every step comes to rest. -/
theorem comesToRest (hwf : WellFounded below) (duties : σ → Multiset δ) {P : σ → Prop}
    (hP : ∀ {s l s'}, P s → R s l s' → P s')
    (hstep : ∀ {s l s'}, P s → R s l s' → CutExpand below (duties s') (duties s)) (hs : P s) :
    ComesToRest R s := by
  have hacc : Acc (CutExpand below) (duties s) := hwf.cutExpand.apply _
  generalize hd : duties s = d at hacc
  induction hacc generalizing s with
  | intro d _ ih =>
    subst hd
    refine ⟨s, ?_⟩
    intro s' hl
    obtain ⟨l, hl⟩ := hl
    exact ih _ (hstep hs hl) (hP hs hl) rfl

/-! ## Duties of the parts -/

/-- What was done, what it left, and the rest. -/
theorem cutExpand_of_eq {d d' t : Multiset δ} {a : δ} (rest : Multiset δ)
    (ht : ∀ a' ∈ t, below a' a) (hd' : d' = rest + t) (hd : d = rest + {a}) :
    CutExpand below d' d :=
  ⟨t, a, ht, by rw [hd', hd, add_right_comm]⟩

/-- A part does a duty, and the others stay as they are. -/
theorem cutExpand_sum [DecidableEq ι] {u : Finset ι} {f f' : ι → Multiset δ} {i : ι} (hi : i ∈ u)
    (h : CutExpand below (f' i) (f i)) (hne : ∀ j ∈ u, j ≠ i → f' j = f j) :
    CutExpand below (∑ j ∈ u, f' j) (∑ j ∈ u, f j) := by
  have hrest : ∑ j ∈ u.erase i, f' j = ∑ j ∈ u.erase i, f j := by
    refine Finset.sum_congr rfl ?_
    intro j hj
    exact hne j (Finset.mem_of_mem_erase hj) (Finset.ne_of_mem_erase hj)
  rw [← Finset.add_sum_erase u f' hi, ← Finset.add_sum_erase u f hi, hrest]
  exact (cutExpand_add_right _).mpr h

/-- A part takes on more, and the others stay as they are. -/
theorem sum_eq_add [DecidableEq ι] {u : Finset ι} {f f' : ι → Multiset δ} {i : ι} {t : Multiset δ}
    (hi : i ∈ u) (h : f' i = f i + t) (hne : ∀ j ∈ u, j ≠ i → f' j = f j) :
    ∑ j ∈ u, f' j = ∑ j ∈ u, f j + t := by
  have hrest : ∑ j ∈ u.erase i, f' j = ∑ j ∈ u.erase i, f j := by
    refine Finset.sum_congr rfl ?_
    intro j hj
    exact hne j (Finset.mem_of_mem_erase hj) (Finset.ne_of_mem_erase hj)
  rw [← Finset.add_sum_erase u f' hi, ← Finset.add_sum_erase u f hi, hrest, h, add_right_comm]

end Challenger.Lib
