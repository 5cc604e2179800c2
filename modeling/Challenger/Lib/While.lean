import Mathlib.Data.Fintype.Pigeonhole
import Mathlib.Logic.Function.Iterate

/-! # `while` loops with an iteration count

`whileLoop cond body n s` runs the loop for at most `n` iterations and is
`none` when the condition still holds after them. The rules are an invariant,
the iterates of the body up to the first at which the condition fails, and an
invariant under which the loop is never left. A loop whose control depends on a
finite type only is left within as many iterations as that type has values, or
never (`whileLoop_none_of_card`). -/
namespace Challenger.Lib
variable {σ τ : Type} {cond : σ → Bool} {body : σ → σ}

def whileLoop (cond : σ → Bool) (body : σ → σ) : Nat → σ → Option σ
  | 0, s => if cond s then none else some s
  | n + 1, s => if cond s then whileLoop cond body n (body s) else some s

theorem whileLoop_exit {s : σ} (h : cond s = false) (n : Nat) :
    whileLoop cond body n s = some s := by
  cases n <;> simp [whileLoop, h]

/-- What the body keeps while the condition holds, the loop ends in. -/
theorem whileLoop_invariant {P : σ → Prop} (hP : ∀ s, cond s = true → P s → P (body s))
    {n : Nat} {s r : σ} (hs : P s) (h : whileLoop cond body n s = some r) :
    P r ∧ cond r = false := by
  induction n generalizing s with
  | zero =>
    simp only [whileLoop] at h
    split at h
    · cases h
    · rw [← Option.some.inj h]; exact ⟨hs, by simpa using ‹¬cond s = true›⟩
  | succ n ih =>
    simp only [whileLoop] at h
    split at h
    · exact ih (hP s ‹_› hs) h
    · rw [← Option.some.inj h]; exact ⟨hs, by simpa using ‹¬cond s = true›⟩

/-- A loop that cannot leave an invariant in which its condition holds is
never left. -/
theorem whileLoop_diverges {P : σ → Prop} (hP : ∀ s, P s → cond s = true ∧ P (body s))
    {s : σ} (hs : P s) (n : Nat) : whileLoop cond body n s = none := by
  induction n generalizing s with
  | zero => simp [whileLoop, (hP s hs).1]
  | succ n ih => simp [whileLoop, (hP s hs).1, ih (hP s hs).2]

theorem whileLoop_eq_none_iff {n : Nat} {s : σ} :
    whileLoop cond body n s = none ↔ ∀ i ≤ n, cond (body^[i] s) = true := by
  induction n generalizing s with
  | zero => simp [whileLoop]
  | succ n ih =>
    simp only [whileLoop]
    constructor
    · intro h
      split at h
      · intro i hi
        cases i with
        | zero => simpa
        | succ i => exact ih.mp h i (by omega)
      · cases h
    · intro h
      rw [if_pos (show cond s = true from h 0 (by omega))]
      exact ih.mpr fun i hi => h (i + 1) (by omega)

/-- The loop makes the iterations in which its condition holds, and ends where
it fails. -/
theorem whileLoop_eq_iterate {n m : Nat} {s : σ} (hc : ∀ i < n, cond (body^[i] s) = true)
    (hn : cond (body^[n] s) = false) (hm : n ≤ m) :
    whileLoop cond body m s = some (body^[n] s) := by
  induction n generalizing m s with
  | zero => exact whileLoop_exit hn m
  | succ n ih =>
    obtain ⟨m, rfl⟩ : ∃ m', m = m' + 1 := ⟨m - 1, by omega⟩
    rw [whileLoop, if_pos (show cond s = true from hc 0 (by omega))]
    exact ih (fun i hi => hc (i + 1) (by omega)) hn (by omega)

/-- Every iterate of a map on a finite type is among its first ones, as many
as the type has values and one more. -/
theorem iterate_eq_early [Fintype τ] (step : τ → τ) (x : τ) (m : Nat) :
    ∃ l ≤ Fintype.card τ, step^[m] x = step^[l] x := by
  -- two of the first `card τ + 1` iterates agree
  obtain ⟨i, j, hij, he⟩ := Fintype.exists_ne_map_eq_of_card_lt
    (fun i : Fin (Fintype.card τ + 1) => step^[i.val] x) (by simp)
  wlog hlt : i.val < j.val generalizing i j
  · exact this j i hij.symm he.symm (by have := Fin.val_ne_of_ne hij; omega)
  have he : step^[i.val] x = step^[j.val] x := he
  have hj := j.isLt
  induction m with
  | zero => exact ⟨0, by omega, rfl⟩
  | succ m ih =>
    obtain ⟨l, hl, hm⟩ := ih
    rw [Function.iterate_succ_apply', hm, ← Function.iterate_succ_apply' step]
    by_cases hl' : l + 1 ≤ Fintype.card τ
    · exact ⟨l + 1, hl', rfl⟩
    · -- past the last one, go back by the period `j - i`
      obtain ⟨d, hd⟩ : ∃ d, l.succ = d + j.val := ⟨l + 1 - j.val, by omega⟩
      refine ⟨d + i.val, by omega, ?_⟩
      rw [hd, Function.iterate_add_apply, Function.iterate_add_apply, he]

/-- The part of the state that controls a loop takes at most as many values
as its type has: if they did not suffice to leave the loop, it goes round for
ever. -/
theorem whileLoop_none_of_card [Fintype τ] (π : σ → τ) (step : τ → τ) (test : τ → Bool)
    (hc : ∀ s, cond s = test (π s)) (hb : ∀ s, π (body s) = step (π s))
    {s : σ} (h : whileLoop cond body (Fintype.card τ) s = none) (n : Nat) :
    whileLoop cond body n s = none := by
  have hit : ∀ i, π (body^[i] s) = step^[i] (π s) := by
    intro i
    induction i with
    | zero => rfl
    | succ i ih => rw [Function.iterate_succ_apply', Function.iterate_succ_apply', hb, ih]
  rw [whileLoop_eq_none_iff] at h ⊢
  simp only [hc, hit] at h ⊢
  intro m _
  obtain ⟨l, hl, hm⟩ := iterate_eq_early step (π s) m
  rw [hm]
  exact h l hl

end Challenger.Lib
