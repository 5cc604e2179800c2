import Challenger.Lib.Async

/-! # Programs under way

A program is kept with the answers it has got and what is left of it. Whatever
the answers were, they are an execution of the program, so a property of all
executions holds of every program under way. -/
namespace Challenger.Lib.Async
variable {I : Interface} {α : Type}

/-- The request a program awaits the answer of. -/
def awaiting : Async I α → List I.Op
  | .done _ => []
  | .await op _ => [op]

@[simp] theorem awaiting_done (a : α) : (Async.done a : Async I α).awaiting = [] := rfl

@[simp] theorem awaiting_await (op : I.Op) (k : I.Ans op → Async I α) :
    (Async.await op k).awaiting = [op] := rfl

/-- Induction on what is left of a program after more answers. -/
theorem rest_induction {P : Async I α → Prop}
    (h : ∀ p, (∀ e t q, Exec p (e :: t) q → P q) → P p) (p : Async I α) : P p := by
  suffices hrest : ∀ t q, Exec p t q → P q from hrest [] p (.nil p)
  induction p with
  | done a =>
    intro t q hq
    rw [hq.done_inv.2]
    refine h _ ?_
    intro e u q' hq'
    cases hq'
  | await op k ih =>
    intro t q hq
    rcases Exec.await_inv hq with ⟨-, rfl⟩ | ⟨r, u, -, hu⟩
    · refine h _ ?_
      intro e u q' hq'
      rcases Exec.await_inv hq' with ⟨hnil, -⟩ | ⟨r, v, -, hv⟩
      · cases hnil
      · exact ih r v q' hv
    · exact ih r u q hu

structure Call (I : Interface) (α : Type) where
  program : Async I α
  answered : List I.Event
  rest : Async I α
  exec : Exec program answered rest

namespace Call

def start (p : Async I α) : Call I α := ⟨p, [], p, .nil p⟩

def result (c : Call I α) : Option α :=
  match c.rest with
  | .done a => some a
  | .await _ _ => none

/-- The requests made so far, the one that is awaited included. -/
def requests (c : Call I α) : List I.Op := c.answered.map Sigma.fst ++ c.rest.awaiting

/-- Answers some requests in turn. -/
def answer [DecidableEq I.Op] (c : Call I α) (t : List I.Event) : Option (Call I α) :=
  match h : replay c.rest t with
  | none => none
  | some rest => some ⟨c.program, c.answered ++ t, rest, c.exec.append (exec_of_replay h)⟩

variable {c c' : Call I α} {t : List I.Event} {a : α}

theorem answer_eq_some [DecidableEq I.Op] (h : c.answer t = some c') :
    c'.program = c.program ∧ c'.answered = c.answered ++ t ∧ Exec c.rest t c'.rest := by
  unfold answer at h
  split at h
  · cases h
  · rename_i rest hrest
    rw [← Option.some.inj h]
    exact ⟨rfl, rfl, exec_of_replay hrest⟩

@[simp] theorem answer_nil [DecidableEq I.Op] (c : Call I α) : c.answer [] = some c := by
  unfold answer
  split
  · rename_i hnone
    cases hnone
  · rename_i rest hrest
    obtain rfl : c.rest = rest := Option.some.inj hrest
    cases c
    simp

/-- A request that is awaited can get any answer. -/
theorem exists_answer [DecidableEq I.Op] {op : I.Op} {k : I.Ans op → Async I α}
    (h : c.rest = .await op k) (r : I.Ans op) : ∃ c', c.answer [⟨op, r⟩] = some c' := by
  have hreplay : replay c.rest [⟨op, r⟩] = some (k r) := by simp [h, replay, Async.answer]
  unfold answer
  split
  · rename_i hnone
    rw [hreplay] at hnone
    cases hnone
  · exact ⟨_, rfl⟩

theorem rest_of_result (h : c.result = some a) : c.rest = .done a := by
  unfold result at h
  split at h
  · rw [← Option.some.inj h]; assumption
  · cases h

theorem returns_of_result (h : c.result = some a) : Returns c.program c.answered a := by
  have hexec := c.exec
  rw [rest_of_result h] at hexec
  exact hexec

end Call
end Challenger.Lib.Async
