import Mathlib.Control.Basic
import Mathlib.Data.List.Basic

/-! # Programs that wait for answers

A program over an interface either is finished or awaits the answer to one
request and continues with it. Which answer comes is left to the
environment, so one program has many executions: a list of answered requests
leads from a program to what is left of it. An execution can be cut at every
request, which is what an interleaving with other programs needs. -/
namespace Challenger.Lib

/-- What a program may ask, and what each request is answered with. -/
structure Interface where
  Op : Type
  Ans : Op → Type

/-- A request together with the answer it got. -/
abbrev Interface.Event (I : Interface) : Type := (op : I.Op) × I.Ans op

inductive Async (I : Interface) (α : Type) : Type where
  | done (a : α)
  | await (op : I.Op) (k : I.Ans op → Async I α)

namespace Async
variable {I : Interface} {α β γ ε : Type}

protected def bind : Async I α → (α → Async I β) → Async I β
  | .done a, f => f a
  | .await op k, f => .await op fun r => (k r).bind f

instance : Monad (Async I) where
  pure := .done
  bind := Async.bind

/-- One request on its own. -/
def request (op : I.Op) : Async I (I.Ans op) := .await op .done

@[simp] theorem pure_eq (a : α) : (pure a : Async I α) = .done a := rfl

theorem await_ne_done {op : I.Op} {k : I.Ans op → Async I α} {a : α} :
    Async.await op k ≠ .done a := by
  intro h; cases h

/-! ## Executions -/

/-- `Exec p t q`: answering the requests of `t` in turn takes `p` to `q`. -/
inductive Exec : Async I α → List I.Event → Async I α → Prop where
  | nil (p : Async I α) : Exec p [] p
  | cons {op : I.Op} {k : I.Ans op → Async I α} {r : I.Ans op} {t q} :
      Exec (k r) t q → Exec (.await op k) (⟨op, r⟩ :: t) q

/-- A complete execution. -/
def Returns (p : Async I α) (t : List I.Event) (a : α) : Prop := Exec p t (.done a)

theorem Exec.append {p q r : Async I α} {t u} (h : Exec p t q) (h' : Exec q u r) :
    Exec p (t ++ u) r := by
  induction h with
  | nil => exact h'
  | cons _ ih => exact .cons (ih h')

theorem Exec.done_inv {a : α} {t} {q : Async I α} (h : Exec (.done a) t q) :
    t = [] ∧ q = .done a := by
  cases h; exact ⟨rfl, rfl⟩

theorem Exec.await_inv {op : I.Op} {k : I.Ans op → Async I α} {t q}
    (h : Exec (.await op k) t q) :
    (t = [] ∧ q = .await op k) ∨ ∃ r u, t = ⟨op, r⟩ :: u ∧ Exec (k r) u q := by
  cases h with
  | nil => exact .inl ⟨rfl, rfl⟩
  | cons h => exact .inr ⟨_, _, rfl, h⟩

/-- A program that takes an answer was waiting for it. -/
theorem Exec.awaits {p q : Async I α} {op : I.Op} {r : I.Ans op} {t}
    (h : Exec p (⟨op, r⟩ :: t) q) : ∃ k, p = .await op k := by
  cases h; exact ⟨_, rfl⟩

/-- An execution of a sequence waits in its first part, or the first part
returned on the way. -/
theorem Exec.bind_inv {p : Async I α} {f : α → Async I β} {t q} (h : Exec (p >>= f) t q) :
    (∃ op k, Exec p t (.await op k) ∧ q = .await op fun r => k r >>= f) ∨
      ∃ u v a, t = u ++ v ∧ Returns p u a ∧ Exec (f a) v q := by
  induction p generalizing t with
  | done a => exact .inr ⟨[], t, a, rfl, .nil _, h⟩
  | await op k ih =>
    rcases Exec.await_inv h with ⟨rfl, rfl⟩ | ⟨r, u, rfl, hk⟩
    · exact .inl ⟨op, k, .nil _, rfl⟩
    · rcases ih r hk with ⟨op', k', hp, rfl⟩ | ⟨u', v, a, rfl, hp, hf⟩
      · exact .inl ⟨op', k', .cons hp, rfl⟩
      · exact .inr ⟨⟨op, r⟩ :: u', v, a, rfl, .cons hp, hf⟩

theorem Exec.bind {p p' : Async I α} {t} (h : Exec p t p') (f : α → Async I β) :
    Exec (p >>= f) t (p' >>= f) := by
  induction h with
  | nil => exact .nil _
  | cons _ ih => exact .cons ih

@[simp] theorem returns_done {a b : α} {t : List I.Event} :
    Returns (.done a) t b ↔ t = [] ∧ a = b := by
  constructor
  · intro h
    obtain ⟨rfl, hb⟩ := Exec.done_inv h
    exact ⟨rfl, (Async.done.inj hb).symm⟩
  · rintro ⟨rfl, rfl⟩; exact .nil _

theorem returns_await {op : I.Op} {k : I.Ans op → Async I α} {t : List I.Event} {a : α} :
    Returns (.await op k) t a ↔ ∃ r u, t = ⟨op, r⟩ :: u ∧ Returns (k r) u a := by
  constructor
  · intro h
    rcases Exec.await_inv h with ⟨_, h⟩ | h
    · cases h
    · exact h
  · rintro ⟨r, u, rfl, h⟩; exact .cons h

theorem returns_bind {p : Async I α} {f : α → Async I β} {t : List I.Event} {b : β} :
    Returns (p >>= f) t b ↔ ∃ u v a, t = u ++ v ∧ Returns p u a ∧ Returns (f a) v b := by
  constructor
  · intro h
    rcases Exec.bind_inv h with ⟨op, k, -, hq⟩ | h
    · cases hq
    · exact h
  · rintro ⟨u, v, a, rfl, hp, hf⟩
    exact (hp.bind f).append hf

/-! ## Replaying a trace -/

section
variable [DecidableEq I.Op]

/-- Answers one request, if it is the one the program awaits. -/
def answer : Async I α → I.Event → Option (Async I α)
  | .done _, _ => none
  | .await op k, e => if h : e.1 = op then some (k (h ▸ e.2)) else none

/-- Runs the program on a trace. -/
def replay : Async I α → List I.Event → Option (Async I α)
  | p, [] => some p
  | p, e :: t => (answer p e).bind fun q => replay q t

theorem exec_of_replay {p q : Async I α} {t : List I.Event} (h : replay p t = some q) :
    Exec p t q := by
  induction t generalizing p with
  | nil => rw [← Option.some.inj h]; exact .nil _
  | cons e t ih =>
    obtain ⟨q', hq', hr⟩ := Option.bind_eq_some_iff.mp h
    cases p with
    | done => cases hq'
    | await op k =>
      by_cases he : e.1 = op
      · subst he
        simp only [answer, dif_pos] at hq'
        rw [← Option.some.inj hq'] at hr
        exact .cons (ih hr)
      · simp only [answer, dif_neg he] at hq'
        cases hq'

/-- The result of a complete trace satisfies the test. -/
def returnsWith (p : Async I α) (t : List I.Event) (test : α → Bool) : Bool :=
  match replay p t with
  | some (.done a) => test a
  | _ => false

theorem returns_of_returnsWith {p : Async I α} {t : List I.Event} (test : α → Bool)
    (h : returnsWith p t test = true) : ∃ a, Returns p t a ∧ test a = true := by
  unfold returnsWith at h
  split at h
  · exact ⟨_, exec_of_replay ‹_›, h⟩
  · cases h

end

/-! ## Answers fixed in advance -/

/-- The result when every request has one answer, whenever it is made. -/
def eval (oracle : ∀ op, I.Ans op) : Async I α → α
  | .done a => a
  | .await op k => eval oracle (k (oracle op))

/-- All answers of a trace are these. -/
def AnsweredBy (oracle : ∀ op, I.Ans op) (t : List I.Event) : Prop := ∀ e ∈ t, e.2 = oracle e.1

variable {oracle : ∀ op, I.Ans op}

@[simp] theorem eval_done (a : α) : (Async.done a : Async I α).eval oracle = a := rfl

@[simp] theorem eval_await (op : I.Op) (k : I.Ans op → Async I α) :
    (Async.await op k).eval oracle = (k (oracle op)).eval oracle := rfl

@[simp] theorem eval_request (op : I.Op) : (request op : Async I (I.Ans op)).eval oracle = oracle op :=
  rfl

@[simp] theorem eval_bind (p : Async I α) (f : α → Async I β) :
    (p >>= f).eval oracle = (f (p.eval oracle)).eval oracle := by
  induction p with
  | done a => rfl
  | await op k ih => exact ih (oracle op)

/-- There is one execution with these answers. -/
theorem forall_returns_iff {p : Async I α} {P : α → Prop} :
    (∀ t a, Returns p t a → AnsweredBy oracle t → P a) ↔ P (p.eval oracle) := by
  induction p with
  | done a => simp [AnsweredBy]
  | await op k ih =>
    rw [eval_await, ← ih (oracle op)]
    constructor
    · intro h t a ht ha
      refine h (⟨op, oracle op⟩ :: t) a (.cons ht) ?_
      exact List.forall_mem_cons.mpr ⟨rfl, ha⟩
    · intro h t a ht ha
      obtain ⟨r, u, rfl, hu⟩ := returns_await.mp ht
      obtain ⟨hr, hrest⟩ := List.forall_mem_cons.mp ha
      obtain rfl : r = oracle op := hr
      exact h u a hu hrest

/-! ## Loops -/

/-- `for x in xs`, left at the first error. -/
def forEach (f : α → Async I (Except ε Unit)) : List α → Async I (Except ε Unit)
  | [] => pure (.ok ())
  | x :: xs => do
    match ← f x with
    | .error e => pure (.error e)
    | .ok () => forEach f xs

/-- A loop runs its body on a prefix and is inside the body of the next
element, unless it went through all of them. -/
theorem Exec.forEach_inv {f : α → Async I (Except ε Unit)} {xs : List α} {t q}
    (h : Exec (forEach f xs) t q) :
    Returns (forEach f xs) t (.ok ()) ∨
      ∃ ys x zs u v p, xs = ys ++ x :: zs ∧ t = u ++ v ∧
        Returns (forEach f ys) u (.ok ()) ∧ Exec (f x) v p := by
  induction xs generalizing t with
  | nil =>
    obtain ⟨rfl, rfl⟩ := Exec.done_inv h
    exact .inl (.nil _)
  | cons x xs ih =>
    rcases Exec.bind_inv h with ⟨op, k, hx, -⟩ | ⟨u, v, a, rfl, hx, hv⟩
    · exact .inr ⟨[], x, xs, [], t, .await op k, rfl, rfl, .nil _, hx⟩
    · cases a with
      | error e => exact .inr ⟨[], x, xs, [], u ++ v, .done (.error e), rfl, rfl, .nil _,
          by rw [(Exec.done_inv hv).1, List.append_nil]; exact hx⟩
      | ok _ =>
        rcases ih hv with hv | ⟨ys, x', zs, u', v', p, rfl, rfl, hu, hx'⟩
        · exact .inl (returns_bind.mpr ⟨u, v, .ok (), rfl, hx, hv⟩)
        · exact .inr ⟨x :: ys, x', zs, u ++ u', v', p, rfl, (List.append_assoc ..).symm,
            returns_bind.mpr ⟨u, u', .ok (), rfl, hx, hu⟩, hx'⟩

/-- A loop that fails completed its body on a prefix and failed on the next
element. -/
theorem returns_forEach_error {f : α → Async I (Except ε Unit)} {xs : List α}
    {t : List I.Event} {e : ε} (h : Returns (forEach f xs) t (.error e)) :
    ∃ ys x zs u v, xs = ys ++ x :: zs ∧ t = u ++ v ∧
      Returns (forEach f ys) u (.ok ()) ∧ Returns (f x) v (.error e) := by
  induction xs generalizing t with
  | nil => simp [forEach] at h
  | cons x xs ih =>
    obtain ⟨u, v, a, rfl, hx, hv⟩ := returns_bind.mp h
    cases a with
    | error e' =>
      simp only [pure_eq, returns_done, Except.error.injEq] at hv
      obtain ⟨rfl, rfl⟩ := hv
      exact ⟨[], x, xs, [], u, rfl, by simp, .nil _, hx⟩
    | ok _ =>
      obtain ⟨ys, x', zs, u', v', rfl, rfl, hu, hx'⟩ := ih hv
      exact ⟨x :: ys, x', zs, u ++ u', v', rfl, (List.append_assoc ..).symm,
        returns_bind.mpr ⟨u, u', .ok (), rfl, hx, hu⟩, hx'⟩

/-- Whenever `p` fails, its last answer is one of those in `bad`. -/
def FailsAt (bad : I.Event → Prop) (p : Async I (Except ε α)) : Prop :=
  ∀ t e, Returns p t (.error e) → ∃ u x, t = u ++ [x] ∧ bad x

theorem failsAt_forEach {bad : I.Event → Prop} {f : α → Async I (Except ε Unit)} {xs : List α}
    (hf : ∀ x ∈ xs, FailsAt bad (f x)) : FailsAt bad (forEach f xs) := by
  intro t e h
  obtain ⟨ys, x, zs, u, v, rfl, rfl, -, hx⟩ := returns_forEach_error h
  obtain ⟨w, b, rfl, hb⟩ := hf x (List.mem_append_right _ List.mem_cons_self) v e hx
  exact ⟨u ++ w, b, (List.append_assoc ..).symm, hb⟩

/-! ## What a program asks -/

/-- Every request the program can make satisfies `P`. -/
def Asks (P : I.Op → Prop) : Async I α → Prop
  | .done _ => True
  | .await op k => P op ∧ ∀ r, Asks P (k r)

theorem Asks.mono {P Q : I.Op → Prop} (hPQ : ∀ op, P op → Q op) {p : Async I α} (h : Asks P p) :
    Asks Q p := by
  induction p with
  | done a => trivial
  | await op k ih => exact ⟨hPQ op h.1, fun r => ih r (h.2 r)⟩

theorem Asks.bind {P : I.Op → Prop} {p : Async I α} {f : α → Async I β} (hp : Asks P p)
    (hf : ∀ a, Asks P (f a)) : Asks P (p >>= f) := by
  induction p with
  | done a => exact hf a
  | await op k ih => exact ⟨hp.1, fun r => ih r (hp.2 r)⟩

theorem Asks.forEach {P : I.Op → Prop} {f : α → Async I (Except ε Unit)} {xs : List α}
    (hf : ∀ x ∈ xs, Asks P (f x)) : Asks P (forEach f xs) := by
  induction xs with
  | nil => trivial
  | cons x xs ih =>
    refine (hf x List.mem_cons_self).bind ?_
    intro r
    cases r with
    | error e => trivial
    | ok _ => exact ih fun y hy => hf y (List.mem_cons_of_mem _ hy)

theorem Asks.exec {P : I.Op → Prop} {p q : Async I α} {t} (hp : Asks P p) (h : Exec p t q) :
    ∀ e ∈ t, P e.1 := by
  induction h with
  | nil => intro e he; cases he
  | cons _ ih => exact List.forall_mem_cons.mpr ⟨hp.1, ih (hp.2 _)⟩

/-- What is left of the program asks nothing else. -/
theorem Asks.rest {P : I.Op → Prop} {p q : Async I α} {t} (hp : Asks P p) (h : Exec p t q) :
    Asks P q := by
  induction h with
  | nil => exact hp
  | cons _ ih => exact ih (hp.2 _)

/-! ## What an execution emits

`out` picks from each answered request what it emits, `env` is what is
assumed of the answers. -/

section
variable {out : I.Event → List β} {env : I.Event → Prop}

/-- Every complete execution of `p` that ends in `a` emits `l`. -/
def Emits (env : I.Event → Prop) (out : I.Event → List β) (p : Async I α) (a : α)
    (l : List β) : Prop :=
  ∀ t, (∀ e ∈ t, env e) → Returns p t a → t.flatMap out = l

/-- Every execution of `p`, complete or not, emits a prefix of `l`. -/
def EmitsPrefix (env : I.Event → Prop) (out : I.Event → List β) (p : Async I α)
    (l : List β) : Prop :=
  ∀ t q, (∀ e ∈ t, env e) → Exec p t q → t.flatMap out <+: l

theorem emits_forEach {f : α → Async I (Except ε Unit)} {g : α → List β} {xs : List α}
    (hf : ∀ x ∈ xs, Emits env out (f x) (.ok ()) (g x)) :
    Emits env out (forEach f xs) (.ok ()) (xs.flatMap g) := by
  induction xs with
  | nil =>
    intro t _ h
    rw [(returns_done.mp h).1]; rfl
  | cons x xs ih =>
    intro t he h
    obtain ⟨u, v, a, rfl, hx, hv⟩ := returns_bind.mp h
    simp only [List.mem_append] at he
    cases a with
    | error e => simp at hv
    | ok _ =>
      have hu := hf x List.mem_cons_self u (fun e h => he e (.inl h)) hx
      have hv := ih (fun y hy => hf y (List.mem_cons_of_mem _ hy)) v (fun e h => he e (.inr h)) hv
      rw [List.flatMap_append, hu, hv, List.flatMap_cons]

theorem emitsPrefix_forEach {f : α → Async I (Except ε Unit)} {g : α → List β} {xs : List α}
    (hf : ∀ x ∈ xs, Emits env out (f x) (.ok ()) (g x))
    (hp : ∀ x ∈ xs, EmitsPrefix env out (f x) (g x)) :
    EmitsPrefix env out (forEach f xs) (xs.flatMap g) := by
  intro t q he h
  rcases h.forEach_inv with h | ⟨ys, x, zs, u, v, p, rfl, rfl, hu, hv⟩
  · have ht := emits_forEach hf t he h
    exact ht ▸ List.prefix_rfl
  · simp only [List.mem_append, List.mem_cons] at hf hp he
    have hu := emits_forEach (fun y hy => hf y (.inl hy)) u (fun e h => he e (.inl h)) hu
    have hv := hp x (.inr (.inl rfl)) v p (fun e h => he e (.inr h)) hv
    rw [List.flatMap_append, List.flatMap_append, List.flatMap_cons, hu]
    exact (List.prefix_append_right_inj _).mpr (hv.trans (List.prefix_append _ _))

end
end Async
end Challenger.Lib
