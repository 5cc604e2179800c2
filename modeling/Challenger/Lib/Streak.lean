import Mathlib.Data.List.Basic
import Mathlib.Data.List.Induction

/-! # Streaks

The streak of a history of booleans is the number of `true` it ends with. A
history ends with a block of `n` exactly when its streak has reached `n`, so a
counter that is reset by `false` finds the first such block. -/
namespace Challenger.Lib

def streak (l : List Bool) : Nat := (l.reverse.takeWhile id).length

@[simp] theorem streak_nil : streak [] = 0 := rfl

@[simp] theorem streak_snoc_true (l : List Bool) : streak (l ++ [true]) = streak l + 1 := by
  simp [streak]

@[simp] theorem streak_snoc_false (l : List Bool) : streak (l ++ [false]) = 0 := by
  simp [streak]

theorem replicate_suffix_iff {n : Nat} {l : List Bool} :
    List.replicate n true <:+ l ↔ n ≤ streak l := by
  induction l using List.reverseRecOn generalizing n with
  | nil => simp
  | append_singleton l b ih =>
    cases n with
    | zero => simp
    | succ n =>
      rw [List.replicate_succ', List.suffix_concat_iff]
      cases b with
      | false => simp
      | true => simp [ih]

/-- A longer history has a block that the shorter one lacks only at its end. -/
theorem replicate_infix_snoc {n : Nat} {l : List Bool} {b : Bool} :
    List.replicate n true <:+: l ++ [b] ↔
      List.replicate n true <:+: l ∨ n ≤ streak (l ++ [b]) := by
  rw [List.infix_concat_iff, replicate_suffix_iff, or_comm]

end Challenger.Lib
