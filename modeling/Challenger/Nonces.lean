import Challenger.Network

/-! # Nonces of concurrent challenges

The nonce of a public transaction is read in one request and used in a later
one. Two calls that both read before either has sent use the same nonce
(`nonces_collide`). There is no other way: two public transactions of
different calls have the same nonce only if each call read its nonce before
the other's transaction was submitted (`same_nonce_overlap`). -/
namespace Challenger
open Lib Lib.Async ScribeContractInstance

namespace Network
variable {ι : Type} [DecidableEq ι] {contracts : ι → ScribeContractInstance}
  {schnorrData : ι → SchnorrData} {nonce : Nat} {ls : List (NetworkLabel ι)} {s s' : Network ι}

/-- Call `j` read this nonce before a transaction of call `i` with the same
nonce was submitted. -/
def ReadBeforeSend (j i : ι) (nonce : Nat) (ls : List (NetworkLabel ι)) : Prop :=
  ∃ ls₁ ls₂ tx r signer accepted, tx.nonce = nonce ∧
    ls = ls₁ ++ .request i ⟨.send tx, r⟩ true :: ls₂ ∧
    .request j ⟨.getTransactionCount signer, .ok nonce⟩ accepted ∈ ls₁

omit [DecidableEq ι] in
theorem ReadBeforeSend.append {j i : ι} (h : ReadBeforeSend j i nonce ls)
    (ls' : List (NetworkLabel ι)) : ReadBeforeSend j i nonce (ls ++ ls') := by
  obtain ⟨ls₁, ls₂, tx, r, signer, accepted, hn, rfl, hmem⟩ := h
  exact ⟨ls₁, ls₂ ++ ls', tx, r, signer, accepted, hn, by simp, hmem⟩

theorem mem_noncesRead {i : ι} (h : nonce ∈ noncesRead (traceOf i ls)) :
    ∃ signer accepted,
      .request i ⟨.getTransactionCount signer, .ok nonce⟩ accepted ∈ ls := by
  obtain ⟨e, he, hn⟩ := List.mem_filterMap.mp h
  obtain ⟨signer, rfl⟩ := eq_count_of_nonceRead hn
  obtain ⟨accepted, hmem⟩ := mem_traceOf.mp he
  exact ⟨signer, accepted, hmem⟩

/-- A nonce that one call has read and another has used was read before it was
used. -/
def ReadsFirst (ls : List (NetworkLabel ι)) (s : Network ι) : Prop :=
  ∀ x ∈ s.account.submitted, x.mempool = .publicPool → ∀ j, x.call ≠ j →
    x.tx.nonce ∈ noncesRead (traceOf j ls) → ReadBeforeSend j x.call x.tx.nonce ls

theorem ReadsFirst.step {l : NetworkLabel ι} (h : ReadsFirst ls s) (hl : Step s l s') :
    ReadsFirst (ls ++ [l]) s' := by
  intro x hx hp j hij hn
  cases step_cases hl.1 with
  | @request i e accepted rest hr =>
    rw [traceOf_request, noncesRead, List.filterMap_append, List.mem_append] at hn
    rcases mem_effect_submitted.mp hx with hx | ⟨rfl, rfl, hs⟩
    · rcases hn with hn | hn
      · exact (h x hx hp j hij hn).append _
      · -- the nonce is read only now, and a public transaction has it: not the pending one
        by_cases hj : i = j
        · subst hj
          rw [if_pos rfl] at hn
          obtain ⟨e', he', hn⟩ := List.mem_filterMap.mp hn
          rw [List.mem_singleton.mp he'] at hn
          obtain ⟨signer, rfl⟩ := eq_count_of_nonceRead hn
          exact absurd (of_decide_eq_true hl.2) (Account.pendingNonce_free hx hp)
        · rw [if_neg hj] at hn
          cases hn
    · -- the transaction is submitted now, the nonce was read before
      rw [if_neg hij] at hn
      obtain ⟨r, rfl⟩ := eq_send_of_submission (hp ▸ hs)
      obtain ⟨signer, accepted, hmem⟩ := mem_noncesRead (hn.resolve_right fun h => by cases h)
      exact ⟨ls, [], x.tx, r, signer, accepted, rfl, rfl, hmem⟩
  | inclusion hy hn' =>
    rw [traceOf_inclusion] at hn
    exact (h x hx hp j hij hn).append _

/-- **Nonces collide only between overlapping calls.** If the public
transactions of two calls carry the same nonce, then each call read it before
the other's transaction was submitted. -/
theorem same_nonce_overlap (h : Run Step (start contracts schnorrData nonce) ls s)
    {x y : Submission ι} (hx : x ∈ s.account.submitted) (hy : y ∈ s.account.submitted)
    (hxp : x.mempool = .publicPool) (hyp : y.mempool = .publicPool) (hcall : x.call ≠ y.call)
    (hnonce : x.tx.nonce = y.tx.nonce) :
    ReadBeforeSend y.call x.call x.tx.nonce ls ∧ ReadBeforeSend x.call y.call y.tx.nonce ls := by
  have hinv := NetInv.run (fun _ _ _ hl => hl.1) h
  have hfirst : ReadsFirst ls s := h.invariant (fun x hx => absurd hx List.not_mem_nil)
    fun _ ih hl => ih.step hl
  have hread : ∀ z ∈ s.account.submitted, z.mempool = .publicPool →
      z.tx.nonce ∈ noncesRead (traceOf z.call ls) := fun z hz hp => by
    rw [nonce_of_submission (hinv.exec z.call)
      (hp ▸ hinv.submitted z hz)]
    exact List.mem_singleton_self _
  exact ⟨hfirst x hx hxp _ hcall (hnonce ▸ hread y hy hyp),
    hfirst y hy hyp _ hcall.symm (hnonce ▸ hread x hx hxp)⟩

/-! ## Two challenges at once -/

/-- Two contracts without a private relay. -/
def sampleContracts (second : Bool) : ScribeContractInstance :=
  ⟨if second then 0x2b5ad5c4795c026514f8317c7a215e218dccd6cf else sampleAddress, false, sampleSigner⟩

/-- The transaction the second or the first contract is challenged with. -/
def sampleTransaction (second : Bool) : Transaction :=
  ⟨0, (sampleContracts second).address, sampleOpPoked.schnorrData⟩

/-- Both calls read the pending nonce, then both send. -/
def sampleCollision : List (NetworkLabel Bool) :=
  [.request false ⟨.getTransactionCount sampleSigner, .ok 0⟩ false,
    .request true ⟨.getTransactionCount sampleSigner, .ok 0⟩ false,
    .request false ⟨.send (sampleTransaction false), .ok sampleHash⟩ true,
    .request true ⟨.send (sampleTransaction true), .ok (sampleHash + 1)⟩ true]

theorem run_sampleCollision : ∃ s, Run Step
    (start sampleContracts (fun _ => sampleOpPoked.schnorrData) 0) sampleCollision s ∧
      s.account.submitted = [⟨false, .publicPool, sampleTransaction false⟩,
        ⟨true, .publicPool, sampleTransaction true⟩] := by
  obtain ⟨s, hrun, htest⟩ : ∃ s : Network Bool, Run Step
      (start sampleContracts (fun _ => sampleOpPoked.schnorrData) 0) sampleCollision s ∧
        decide (s.account.submitted = [⟨false, .publicPool, sampleTransaction false⟩,
          ⟨true, .publicPool, sampleTransaction true⟩]) = true :=
    exists_run_of_runGuarded (fun s : Network Bool => decide (s.account.submitted =
      [⟨false, .publicPool, sampleTransaction false⟩, ⟨true, .publicPool, sampleTransaction true⟩]))
      (by decide +kernel)
  exact ⟨s, hrun, of_decide_eq_true htest⟩

/-- The transactions of two contracts carry the same nonce. -/
theorem nonces_collide : ∃ (s : Network Bool) (x y : Submission Bool),
    Run Step (start sampleContracts (fun _ => sampleOpPoked.schnorrData) 0) sampleCollision s ∧
      x ∈ s.account.submitted ∧ y ∈ s.account.submitted ∧
      x.tx.call.contract ≠ y.tx.call.contract ∧ x.tx.nonce = y.tx.nonce := by
  obtain ⟨s, hrun, hs⟩ := run_sampleCollision
  refine ⟨s, ⟨false, .publicPool, sampleTransaction false⟩,
    ⟨true, .publicPool, sampleTransaction true⟩, hrun, ?_, ?_, by decide, rfl⟩ <;> rw [hs]
  · exact List.mem_cons_self
  · exact List.mem_cons_of_mem _ List.mem_cons_self

theorem same_nonce_overlap_sample : ∃ s, Run Step
    (start sampleContracts (fun _ => sampleOpPoked.schnorrData) 0) sampleCollision s ∧
      ReadBeforeSend true false 0 sampleCollision ∧
      ReadBeforeSend false true 0 sampleCollision := by
  obtain ⟨s, hrun, hs⟩ := run_sampleCollision
  refine ⟨s, hrun, ?_⟩
  exact same_nonce_overlap hrun (x := ⟨false, .publicPool, sampleTransaction false⟩)
    (y := ⟨true, .publicPool, sampleTransaction true⟩) (by rw [hs]; exact List.mem_cons_self)
    (by rw [hs]; exact List.mem_cons_of_mem _ List.mem_cons_self) rfl rfl (by decide) rfl

end Network
end Challenger
