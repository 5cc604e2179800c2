import Challenger.Lib.Async

/-! # Requests and the answers before them

What a program may ask can depend on what it has been told. `AsksAfter P` says
that every request the program makes is one that the answers before it allow.
Its rules follow the program; what is told in between is kept, as `P` speaks
of all answers before a request. -/
namespace Challenger.Lib.Async
variable {I : Interface} {α β ε : Type} {P : List I.Event → I.Op → Prop}

/-- Every request that the program can make when it has got the answers `t`. -/
def AsksAfter (P : List I.Event → I.Op → Prop) : Async I α → List I.Event → Prop
  | .done _, _ => True
  | .await op k, t => P t op ∧ ∀ r, AsksAfter P (k r) (t ++ [⟨op, r⟩])

theorem AsksAfter.bind {p : Async I α} {f : α → Async I β} {t : List I.Event}
    (hp : AsksAfter P p t) (hf : ∀ a u, AsksAfter P (f a) (t ++ u)) : AsksAfter P (p >>= f) t := by
  induction p generalizing t with
  | done a =>
    have hfa : AsksAfter P (f a) t := by simpa using hf a []
    exact hfa
  | await op k ih =>
    refine ⟨hp.1, fun r => ih r (hp.2 r) ?_⟩
    intro a u
    rw [List.append_assoc]
    exact hf a _

theorem AsksAfter.forEach {f : α → Async I (Except ε Unit)} {xs : List α} {t : List I.Event}
    (hf : ∀ x ∈ xs, ∀ u, AsksAfter P (f x) (t ++ u)) : AsksAfter P (forEach f xs) t := by
  induction xs generalizing t with
  | nil => trivial
  | cons x xs ih =>
    have hx : AsksAfter P (f x) t := by simpa using hf x List.mem_cons_self []
    refine hx.bind ?_
    intro a u
    cases a with
    | error e => trivial
    | ok _ =>
      refine ih ?_
      intro y hy v
      rw [List.append_assoc]
      exact hf y (List.mem_cons_of_mem _ hy) _

/-- What is left of a program asks what the program can ask then. -/
theorem AsksAfter.exec {p q : Async I α} {t u : List I.Event} (hp : AsksAfter P p t)
    (h : Exec p u q) : AsksAfter P q (t ++ u) := by
  induction h generalizing t with
  | nil => simpa using hp
  | cons _ ih => simpa using ih (hp.2 _)

/-- The request that an answer came to. -/
theorem AsksAfter.answered {p q : Async I α} {e : I.Event} {t : List I.Event}
    (hp : AsksAfter P p t) (h : Exec p [e] q) : P t e.1 := by
  obtain ⟨k, rfl⟩ := h.awaits
  exact hp.1

end Challenger.Lib.Async
