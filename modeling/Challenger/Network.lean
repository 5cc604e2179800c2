import Challenger.Challenge
import Challenger.Lib.Run
import Mathlib.Data.List.Perm.Subperm
import Mathlib.Logic.Function.Basic

/-! # One account behind several challenges

All processors sign with one account. Any number of challenge calls run
concurrently over it, while blocks include its transactions one nonce at a
time. The node tells the pending nonce: the first one from the account's
nonce on that no transaction in the public mempool uses. Transactions given
to the private relay do not count until they are included. -/
namespace Challenger
open Lib Lib.Async

/-! ## The first free number -/

/-- The first number from `n` on that is not in the list, looking at so many
numbers. -/
def firstFree (used : List Nat) : Nat → Nat → Nat
  | 0, n => n
  | fuel + 1, n => if n ∈ used then firstFree used fuel (n + 1) else n

theorem firstFree_not_mem_or (used : List Nat) (fuel n : Nat) :
    firstFree used fuel n ∉ used ∨ ∀ m ∈ List.range' n fuel, m ∈ used := by
  induction fuel generalizing n with
  | zero => exact .inr fun m hm => by simp at hm
  | succ fuel ih =>
    unfold firstFree
    split
    · rename_i hn
      rcases ih (n + 1) with h | h
      · exact .inl h
      · refine .inr ?_
        intro m hm
        rw [List.range'_succ] at hm
        rcases List.mem_cons.mp hm with rfl | hm
        · exact hn
        · exact h m hm
    · exact .inl ‹_›

/-- One more number than the list is long is enough to find a free one. -/
theorem firstFree_not_mem (used : List Nat) (n : Nat) :
    firstFree used (used.length + 1) n ∉ used := by
  rcases firstFree_not_mem_or used (used.length + 1) n with h | h
  · exact h
  · have hnodup : (List.range' n (used.length + 1)).Nodup := List.nodup_range'
    have hle := (hnodup.subperm h).length_le
    rw [List.length_range'] at hle
    omega

/-! ## The account -/

inductive Mempool where
  | flashbots
  | publicPool
  deriving DecidableEq

/-- A transaction in a mempool, with the call it comes from. -/
structure Submission (ι : Type) where
  call : ι
  mempool : Mempool
  tx : Transaction
  deriving DecidableEq

structure Account (ι : Type) where
  nonce : Nat
  submitted : List (Submission ι)
  included : List (Submission ι)

variable {ι : Type} [DecidableEq ι]

namespace Account

/-- The nonces of the transactions in the public mempool, or that once were. -/
def publicNonces (a : Account ι) : List Nat :=
  (a.submitted.filter fun x => x.mempool = .publicPool).map fun x => x.tx.nonce

def pendingNonce (a : Account ι) : Nat :=
  firstFree a.publicNonces (a.publicNonces.length + 1) a.nonce

def submit (a : Account ι) (x : Submission ι) : Account ι :=
  { a with submitted := a.submitted ++ [x] }

/-- A block includes one transaction at the account's nonce. -/
def includeNext (a : Account ι) (x : Submission ι) : Option (Account ι) :=
  if x ∈ a.submitted ∧ x.tx.nonce = a.nonce then
    some { a with nonce := a.nonce + 1, included := a.included ++ [x] }
  else none

omit [DecidableEq ι] in
/-- No public transaction has the pending nonce. -/
theorem pendingNonce_free {a : Account ι} {x : Submission ι} (hx : x ∈ a.submitted)
    (hp : x.mempool = .publicPool) : x.tx.nonce ≠ a.pendingNonce := by
  intro he
  have hmem : x.tx.nonce ∈ a.publicNonces :=
    List.mem_map.mpr ⟨x, List.mem_filter.mpr ⟨hx, decide_eq_true hp⟩, rfl⟩
  rw [he] at hmem
  exact firstFree_not_mem _ _ hmem

end Account

/-! ## The calls over it -/

structure Network (ι : Type) where
  calls : ι → ContractM (ContractResult TxHash)
  account : Account ι

/-- A request of a call is answered, with whether a transaction sent by it
reached its mempool; or a transaction is included. -/
inductive NetworkLabel (ι : Type) where
  | request (call : ι) (e : ContractI.Event) (accepted : Bool)
  | inclusion (x : Submission ι)

/-- The transaction a request submits, and where. -/
def submission : ContractI.Event → Option (Mempool × Transaction)
  | ⟨.sendRawTransaction tx, _⟩ => some (.flashbots, tx)
  | ⟨.send tx, _⟩ => some (.publicPool, tx)
  | _ => none

namespace Network

def start (contracts : ι → ScribeContractInstance) (schnorrData : ι → SchnorrData) (nonce : Nat) :
    Network ι where
  calls i := (contracts i).challenge (schnorrData i)
  account := ⟨nonce, [], []⟩

/-- What a request does to the account. -/
def effect (a : Account ι) (i : ι) (e : ContractI.Event) (accepted : Bool) : Account ι :=
  match submission e, accepted with
  | some (mempool, tx), true => a.submit ⟨i, mempool, tx⟩
  | _, _ => a

def step (s : Network ι) : NetworkLabel ι → Option (Network ι)
  | .request i e accepted =>
    ((s.calls i).answer e).map fun rest =>
      ⟨Function.update s.calls i rest, effect s.account i e accepted⟩
  | .inclusion x => (s.account.includeNext x).map fun a => { s with account := a }

/-- What the node and the relay promise: the nonce the node tells is the
pending one, a filled transaction makes the call it was filled for, with
whatever nonce, and one they say they sent is in its mempool. -/
def node (s : Network ι) : NetworkLabel ι → Bool
  | .request _ ⟨.getTransactionCount _, .ok nonce⟩ _ => nonce = s.account.pendingNonce
  | .request _ ⟨.fill call, .ok (some tx)⟩ _ => tx.call = call
  | .request _ ⟨.sendRawTransaction _, .ok _⟩ accepted => accepted
  | .request _ ⟨.send _, .ok _⟩ accepted => accepted
  | _ => true

def Step : Network ι → NetworkLabel ι → Network ι → Prop :=
  Guarded (Takes step) fun s l => node s l = true

/-- All a step can do. -/
inductive StepCases (s : Network ι) : NetworkLabel ι → Network ι → Prop where
  | request {i : ι} {e : ContractI.Event} {accepted rest} (h : Exec (s.calls i) [e] rest) :
      StepCases s (.request i e accepted)
        ⟨Function.update s.calls i rest, effect s.account i e accepted⟩
  | inclusion {x : Submission ι} (hx : x ∈ s.account.submitted)
      (hn : x.tx.nonce = s.account.nonce) :
      StepCases s (.inclusion x) { s with account :=
        { s.account with nonce := s.account.nonce + 1, included := s.account.included ++ [x] } }

theorem step_cases {s s' : Network ι} {l : NetworkLabel ι} (h : s.step l = some s') :
    StepCases s l s' := by
  cases l with
  | request i e accepted =>
    obtain ⟨rest, hr, rfl⟩ := Option.map_eq_some_iff.mp h
    exact .request (exec_of_replay (t := [e]) (by simp [replay, hr]))
  | inclusion x =>
    obtain ⟨a, ha, rfl⟩ := Option.map_eq_some_iff.mp h
    unfold Account.includeNext at ha
    split at ha
    · rename_i hx
      rw [← Option.some.inj ha]
      exact .inclusion hx.1 hx.2
    · cases ha

/-- The answers one call has got. -/
def traceOf (i : ι) (ls : List (NetworkLabel ι)) : List ContractI.Event :=
  ls.filterMap fun
    | .request j e _ => if j = i then some e else none
    | .inclusion _ => none

theorem traceOf_append (i : ι) (ls ls' : List (NetworkLabel ι)) :
    traceOf i (ls ++ ls') = traceOf i ls ++ traceOf i ls' := List.filterMap_append

theorem mem_traceOf {i : ι} {ls : List (NetworkLabel ι)} {e : ContractI.Event} :
    e ∈ traceOf i ls ↔ ∃ accepted, .request i e accepted ∈ ls := by
  simp only [traceOf, List.mem_filterMap]
  constructor
  · rintro ⟨l, hl, he⟩
    cases l with
    | request j e' accepted =>
      simp only [Option.ite_none_right_eq_some, Option.some.injEq] at he
      obtain ⟨rfl, rfl⟩ := he
      exact ⟨accepted, hl⟩
    | inclusion x => cases he
  · rintro ⟨accepted, hl⟩
    exact ⟨_, hl, if_pos rfl⟩

end Network

/-! ## The requests of one call -/

/-- The transactions a trace submits. -/
def submissions (t : List ContractI.Event) : List (Mempool × Transaction) := t.filterMap submission

def nonceRead : ContractI.Event → Option Nat
  | ⟨.getTransactionCount _, .ok nonce⟩ => some nonce
  | _ => none

/-- The nonces a trace reads. -/
def noncesRead (t : List ContractI.Event) : List Nat := t.filterMap nonceRead

theorem eq_send_of_submission {e : ContractI.Event} {tx : Transaction}
    (h : submission e = some (.publicPool, tx)) : ∃ r, e = ⟨.send tx, r⟩ := by
  unfold submission at h
  split at h
  · cases h
  · cases h; exact ⟨_, rfl⟩
  · cases h

theorem eq_sendRawTransaction_of_submission {e : ContractI.Event} {tx : Transaction}
    (h : submission e = some (.flashbots, tx)) : ∃ r, e = ⟨.sendRawTransaction tx, r⟩ := by
  unfold submission at h
  split at h
  · cases h; exact ⟨_, rfl⟩
  · cases h
  · cases h

theorem eq_count_of_nonceRead {e : ContractI.Event} {nonce : Nat}
    (h : nonceRead e = some nonce) :
    ∃ signer, e = ⟨.getTransactionCount signer, .ok nonce⟩ := by
  unfold nonceRead at h
  split at h
  · cases h; exact ⟨_, rfl⟩
  · cases h

namespace ScribeContractInstance
variable {c : ScribeContractInstance} {schnorrData : SchnorrData} {t : List ContractI.Event}
  {q : ContractM (ContractResult TxHash)}

theorem flashbots_submissions (h : c.FlashbotsCases schnorrData t q) :
    noncesRead t = [] ∧ ∃ tx, ∀ x ∈ submissions t, x = (.flashbots, tx) := by
  have hnone : ∀ {t}, submissions t = [] →
      ∃ tx : Transaction, ∀ x ∈ submissions t, x = (.flashbots, tx) := fun h =>
    ⟨⟨0, c.address, schnorrData⟩, fun x hx => by rw [h] at hx; cases hx⟩
  have hone : ∀ {t tx}, submissions t = [(.flashbots, tx)] →
      ∃ tx : Transaction, ∀ x ∈ submissions t, x = (.flashbots, tx) := fun h =>
    ⟨_, fun x hx => by rw [h] at hx; exact List.mem_singleton.mp hx⟩
  cases h with
  | missing _ => exact ⟨rfl, hnone rfl⟩
  | start _ => exact ⟨rfl, hnone rfl⟩
  | notFilled _ => exact ⟨rfl, hnone rfl⟩
  | noEnvelope => exact ⟨rfl, hnone rfl⟩
  | filled _ _ => exact ⟨rfl, hnone rfl⟩
  | notSent _ _ => exact ⟨rfl, hone rfl⟩
  | sent _ _ _ => exact ⟨rfl, hone rfl⟩
  | included _ _ _ => exact ⟨rfl, hone rfl⟩
  | unseen _ _ _ _ => exact ⟨rfl, hone rfl⟩
  | found _ _ _ _ => exact ⟨rfl, hone rfl⟩
  | lost _ _ _ _ _ => exact ⟨rfl, hone rfl⟩

theorem public_submissions (h : c.PublicCases schnorrData t q) :
    ∃ nonce, ∀ x ∈ submissions t,
      x = (.publicPool, ⟨nonce, c.address, schnorrData⟩) ∧ noncesRead t = [nonce] := by
  have hnone : ∀ {t}, submissions t = [] → ∃ nonce, ∀ x ∈ submissions t,
      x = (.publicPool, ⟨nonce, c.address, schnorrData⟩) ∧ noncesRead t = [nonce] := fun h =>
    ⟨0, fun x hx => by rw [h] at hx; cases hx⟩
  have hone : ∀ {t nonce}, submissions t = [(.publicPool, ⟨nonce, c.address, schnorrData⟩)] →
      noncesRead t = [nonce] → ∃ nonce, ∀ x ∈ submissions t,
        x = (.publicPool, ⟨nonce, c.address, schnorrData⟩) ∧ noncesRead t = [nonce] := fun h hn =>
    ⟨_, fun x hx => by rw [h] at hx; exact ⟨List.mem_singleton.mp hx, hn⟩⟩
  cases h with
  | start => exact hnone rfl
  | noNonce _ => exact hnone rfl
  | nonce _ _ => exact hnone rfl
  | notSent _ _ => exact hone rfl rfl
  | sent _ _ _ => exact hone rfl rfl
  | lost _ _ _ => exact hone rfl rfl
  | included _ _ _ => exact hone rfl rfl

/-- A call submits one transaction through the relay and one to the public
mempool, if any. It reads its nonce after the private path, and only one. -/
theorem challenge_submissions (h : Exec (c.challenge schnorrData) t q) :
    (∃ tx nonce, ∀ x ∈ submissions t, x = (.flashbots, tx) ∨
      x = (.publicPool, ⟨nonce, c.address, schnorrData⟩) ∧ noncesRead t = [nonce]) ∧
    ∀ tx k, q = .await (.sendRawTransaction tx) k → noncesRead t = [] := by
  cases challenge_cases h with
  | privately hp =>
    obtain ⟨hn, tx, hs⟩ := flashbots_submissions hp
    exact ⟨⟨tx, 0, fun x hx => .inl (hs x hx)⟩, fun _ _ _ => hn⟩
  | included hp =>
    obtain ⟨hn, tx, hs⟩ := flashbots_submissions hp
    exact ⟨⟨tx, 0, fun x hx => .inl (hs x hx)⟩, fun _ _ _ => hn⟩
  | @fellBack t u e q hp hu =>
    obtain ⟨hn, tx, hs⟩ := flashbots_submissions hp
    obtain ⟨nonce, hs'⟩ := public_submissions hu
    have hnonces : noncesRead (t ++ u) = noncesRead u := by
      rw [noncesRead, List.filterMap_append]
      exact congrArg (· ++ noncesRead u) hn
    refine ⟨⟨tx, nonce, ?_⟩, ?_⟩
    · intro x hx
      rw [submissions, List.filterMap_append, List.mem_append] at hx
      rw [hnonces]
      exact hx.imp (hs x) (hs' x)
    · intro tx k hq
      cases hu <;> cases hq

/-- The transactions a call submits to one mempool are one. -/
theorem submission_unique (h : Exec (c.challenge schnorrData) t q) {mempool : Mempool}
    {tx tx' : Transaction} (hx : (mempool, tx) ∈ submissions t)
    (hy : (mempool, tx') ∈ submissions t) : tx = tx' := by
  obtain ⟨⟨tx₀, nonce, hs⟩, -⟩ := challenge_submissions h
  rcases hs _ hx with hx | ⟨hx, -⟩ <;> rcases hs _ hy with hy | ⟨hy, -⟩ <;> grind

/-- The public transaction carries the one nonce that was read. -/
theorem nonce_of_submission (h : Exec (c.challenge schnorrData) t q) {tx : Transaction}
    (hx : (.publicPool, tx) ∈ submissions t) : noncesRead t = [tx.nonce] := by
  obtain ⟨⟨tx₀, nonce, hs⟩, -⟩ := challenge_submissions h
  rcases hs _ hx with hx | ⟨hx, hn⟩
  · cases hx
  · cases hx
    exact hn

end ScribeContractInstance

namespace Network
variable {ι : Type} [DecidableEq ι] {contracts : ι → ScribeContractInstance}
  {schnorrData : ι → SchnorrData} {nonce : Nat} {ls : List (NetworkLabel ι)} {s s' : Network ι}

/-! ## What every run keeps -/

omit [DecidableEq ι] in
@[simp] theorem effect_nonce (a : Account ι) (i : ι) (e : ContractI.Event) (accepted : Bool) :
    (effect a i e accepted).nonce = a.nonce := by
  unfold effect; split <;> rfl

omit [DecidableEq ι] in
@[simp] theorem effect_included (a : Account ι) (i : ι) (e : ContractI.Event) (accepted : Bool) :
    (effect a i e accepted).included = a.included := by
  unfold effect; split <;> rfl

omit [DecidableEq ι] in
theorem mem_effect_submitted {a : Account ι} {i : ι} {e : ContractI.Event} {accepted : Bool}
    {x : Submission ι} : x ∈ (effect a i e accepted).submitted ↔ x ∈ a.submitted ∨
      accepted = true ∧ x.call = i ∧ submission e = some (x.mempool, x.tx) := by
  unfold effect
  split
  · rename_i mempool tx hs
    simp only [Account.submit, List.mem_append, List.mem_singleton, hs, Option.some.injEq,
      Prod.mk.injEq, true_and]
    refine or_congr_right ⟨?_, ?_⟩
    · rintro rfl; exact ⟨rfl, rfl, rfl⟩
    · rintro ⟨hi, hm, ht⟩
      cases x; simp only at hi hm ht; rw [hi, hm, ht]
  · rename_i h
    refine ⟨.inl, fun hx => hx.resolve_right fun ⟨ha, _, hs⟩ => h _ _ hs ha⟩

/-- Every call has run along the answers it got, every submission is one of
its call, and no two included transactions have the same nonce. -/
structure NetInv (contracts : ι → ScribeContractInstance) (schnorrData : ι → SchnorrData)
    (ls : List (NetworkLabel ι)) (s : Network ι) : Prop where
  exec : ∀ i, Exec ((contracts i).challenge (schnorrData i)) (traceOf i ls) (s.calls i)
  submitted : ∀ x ∈ s.account.submitted, (x.mempool, x.tx) ∈ submissions (traceOf x.call ls)
  included : ∀ x ∈ s.account.included, x ∈ s.account.submitted ∧ x.tx.nonce < s.account.nonce
  nodup : (s.account.included.map fun x => x.tx.nonce).Nodup

theorem NetInv.start : NetInv contracts schnorrData [] (start contracts schnorrData nonce) where
  exec _ := .nil _
  submitted _ hx := absurd hx List.not_mem_nil
  included _ hx := absurd hx List.not_mem_nil
  nodup := List.nodup_nil

theorem submissions_mono {i : ι} {l : NetworkLabel ι} {x : Mempool × Transaction}
    (h : x ∈ submissions (traceOf i ls)) : x ∈ submissions (traceOf i (ls ++ [l])) := by
  rw [traceOf_append, submissions, List.filterMap_append]
  exact List.mem_append_left _ h

theorem traceOf_request (i j : ι) (e : ContractI.Event) (accepted : Bool) :
    traceOf j (ls ++ [.request i e accepted]) =
      traceOf j ls ++ if i = j then [e] else [] := by
  rw [traceOf_append]
  congr 1
  by_cases h : i = j <;> simp [traceOf, h]

theorem traceOf_inclusion (i : ι) (x : Submission ι) :
    traceOf i (ls ++ [.inclusion x]) = traceOf i ls := by
  rw [traceOf_append]
  exact List.append_nil _

theorem NetInv.step {l : NetworkLabel ι} (h : NetInv contracts schnorrData ls s)
    (hl : s.step l = some s') : NetInv contracts schnorrData (ls ++ [l]) s' := by
  cases step_cases hl with
  | @request i e accepted rest hr =>
    constructor
    case exec =>
      intro j
      rw [traceOf_request]
      by_cases hij : i = j
      · subst hij
        simp only [if_true, Function.update_self]
        exact (h.exec i).append hr
      · simp only [if_neg hij, List.append_nil, Function.update_of_ne (Ne.symm hij)]
        exact h.exec j
    case submitted =>
      intro x hx
      rcases mem_effect_submitted.mp hx with hx | ⟨-, rfl, hs⟩
      · exact submissions_mono (h.submitted x hx)
      · rw [traceOf_request, if_pos rfl, submissions, List.filterMap_append]
        exact List.mem_append_right _ (List.mem_filterMap.mpr ⟨e, List.mem_singleton_self _, hs⟩)
    case included =>
      intro x hx
      rw [effect_included] at hx
      rw [effect_nonce]
      exact (h.included x hx).imp_left fun hx => mem_effect_submitted.mpr (.inl hx)
    case nodup =>
      simp only [effect_included]
      exact h.nodup
  | @inclusion x hx hn =>
    constructor
    case exec =>
      intro j
      rw [traceOf_inclusion]
      exact h.exec j
    case submitted =>
      intro y hy
      exact submissions_mono (h.submitted y hy)
    case included =>
      intro y hy
      rcases List.mem_append.mp hy with hy | hy
      · have := (h.included y hy).2
        exact ⟨(h.included y hy).1, by simp only; omega⟩
      · rw [List.mem_singleton.mp hy]
        exact ⟨hx, by simp only; omega⟩
    case nodup =>
      -- the nonce just used is above all that were used before
      simp only [List.map_append, List.map_cons, List.map_nil]
      rw [List.nodup_append]
      refine ⟨h.nodup, by simp, ?_⟩
      intro n hn' m hm
      obtain ⟨y, hy, rfl⟩ := List.mem_map.mp hn'
      have := (h.included y hy).2
      rw [List.mem_singleton.mp hm]
      omega

theorem NetInv.run {R : Network ι → NetworkLabel ι → Network ι → Prop}
    (hR : ∀ s l s', R s l s' → s.step l = some s')
    (h : Run R (Network.start contracts schnorrData nonce) ls s) :
    NetInv contracts schnorrData ls s :=
  h.invariant .start fun _ ih hl => ih.step (hR _ _ _ hl)

end Network
end Challenger
