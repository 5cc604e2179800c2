import Challenger.Network
import Mathlib.Data.List.Nodup

/-! # The private transaction and its fallback

A call whose private transaction was not seen included submits a second one.
Both can be included when the nonce it reads for the second is not the nonce
of the first, because that one was included after all and its receipt was not
found (`both_included`). When at every such read the private nonce is still
the pending one, or was used by another transaction, every call gets at most
one transaction included (`challenge_included_once`). -/
namespace Challenger
open Lib Lib.Async ScribeContractInstance

namespace Network
variable {ι : Type} [DecidableEq ι] {contracts : ι → ScribeContractInstance}
  {schnorrData : ι → SchnorrData} {nonce : Nat} {ls : List (NetworkLabel ι)} {s s' : Network ι}

/-- Another transaction was included with this nonce. -/
def Superseded (a : Account ι) (x : Submission ι) : Prop :=
  ∃ y ∈ a.included, y ≠ x ∧ y.tx.nonce = x.tx.nonce

/-- Whenever a call reads its public nonce, its private transaction, if any,
has the pending nonce or is superseded. -/
def FallbackSafe (s : Network ι) : NetworkLabel ι → Prop
  | .request i ⟨.getTransactionCount _, .ok _⟩ _ =>
    ∀ x ∈ s.account.submitted, x.call = i → x.mempool = .flashbots →
      x.tx.nonce = s.account.pendingNonce ∨ Superseded s.account x
  | _ => True

instance (a : Account ι) (x : Submission ι) : Decidable (Superseded a x) :=
  inferInstanceAs (Decidable (∃ y ∈ a.included, y ≠ x ∧ y.tx.nonce = x.tx.nonce))

instance (s : Network ι) (l : NetworkLabel ι) : Decidable (FallbackSafe s l) := by
  unfold FallbackSafe; split <;> infer_instance

/-- What the guard leaves behind: the private transaction of a call has the
nonce the call read, or is superseded. -/
def FallbackInv (ls : List (NetworkLabel ι)) (s : Network ι) : Prop :=
  ∀ x ∈ s.account.submitted, x.mempool = .flashbots →
    ∀ n ∈ noncesRead (traceOf x.call ls), x.tx.nonce = n ∨ Superseded s.account x

omit [DecidableEq ι] in
theorem Superseded.effect {a : Account ι} {x : Submission ι} (h : Superseded a x) (i : ι)
    (e : ContractI.Event) (accepted : Bool) : Superseded (effect a i e accepted) x := by
  unfold Superseded
  rw [effect_included]
  exact h

theorem FallbackInv.step {l : NetworkLabel ι} (hinv : NetInv contracts schnorrData ls s)
    (h : FallbackInv ls s) (hl : Guarded Step FallbackSafe s l s') :
    FallbackInv (ls ++ [l]) s' := by
  intro x hx hp n hn
  cases step_cases hl.1.1 with
  | @request i e accepted rest hr =>
    rw [traceOf_request, noncesRead, List.filterMap_append, List.mem_append] at hn
    rcases mem_effect_submitted.mp hx with hx | ⟨rfl, rfl, hs⟩
    · rcases hn with hn | hn
      · exact (h x hx hp n hn).imp_right fun hsup => hsup.effect ..
      · -- the nonce is read in this step
        by_cases hi : i = x.call
        · rw [if_pos hi] at hn
          obtain ⟨e', he', hn⟩ := List.mem_filterMap.mp hn
          rw [List.mem_singleton.mp he'] at hn
          obtain ⟨signer, rfl⟩ := eq_count_of_nonceRead hn
          rw [of_decide_eq_true hl.1.2]
          exact (hl.2 x hx hi.symm hp).imp_right fun hsup => hsup.effect ..
        · rw [if_neg hi] at hn
          cases hn
    · -- the private transaction is submitted in this step, before any nonce is read
      obtain ⟨r, rfl⟩ := eq_sendRawTransaction_of_submission (hp ▸ hs)
      obtain ⟨k, hk⟩ := hr.awaits
      rw [← noncesRead, (challenge_submissions (hinv.exec x.call)).2 _ _ hk] at hn
      rcases hn with hn | hn
      · cases hn
      · rw [if_pos rfl] at hn
        cases hn
  | inclusion hy hn' =>
    rw [traceOf_inclusion] at hn
    refine (h x hx hp n hn).imp_right ?_
    rintro ⟨y, hmem, hy⟩
    exact ⟨y, List.mem_append_left _ hmem, hy⟩

theorem FallbackInv.not_superseded (hinv : NetInv contracts schnorrData ls s) {x : Submission ι}
    (hx : x ∈ s.account.included) : ¬ Superseded s.account x := by
  rintro ⟨y, hy, hne, hn⟩
  exact hne (List.inj_on_of_nodup_map hinv.nodup hy hx hn)

/-- The included transactions of one call all carry one nonce. -/
theorem FallbackInv.same_nonce (hinv : NetInv contracts schnorrData ls s) (h : FallbackInv ls s)
    {x y : Submission ι} (hx : x ∈ s.account.included) (hy : y ∈ s.account.included)
    (hcall : x.call = y.call) : x.tx.nonce = y.tx.nonce := by
  have hsx := hinv.submitted x (hinv.included x hx).1
  have hsy := hinv.submitted y (hinv.included y hy).1
  have hmixed : ∀ {x y : Submission ι}, x ∈ s.account.included → y ∈ s.account.included →
      x.call = y.call → x.mempool = .flashbots → y.mempool = .publicPool →
      x.tx.nonce = y.tx.nonce := by
    intro x y hx hy hcall hxp hyp
    have hread := nonce_of_submission (hinv.exec y.call)
      (hyp ▸ hinv.submitted y (hinv.included y hy).1)
    refine (h x (hinv.included x hx).1 hxp y.tx.nonce ?_).resolve_right (not_superseded hinv hx)
    rw [hcall, hread]
    exact List.mem_singleton_self _
  cases hxp : x.mempool <;> cases hyp : y.mempool
  · rw [hxp] at hsx
    rw [hyp, ← hcall] at hsy
    exact congrArg Transaction.nonce (submission_unique (hinv.exec x.call) hsx hsy)
  · exact hmixed hx hy hcall hxp hyp
  · exact (hmixed hy hx hcall.symm hyp hxp).symm
  · rw [hxp] at hsx
    rw [hyp, ← hcall] at hsy
    exact congrArg Transaction.nonce (submission_unique (hinv.exec x.call) hsx hsy)

/-- **A challenge is included once.** In every run in which no call reads its
public nonce while a private transaction of it with another nonce is included
or still can be, at most one transaction of each call is included. -/
theorem challenge_included_once
    (h : Run (Guarded Step FallbackSafe) (start contracts schnorrData nonce) ls s) (i : ι) :
    (s.account.included.filter fun x => x.call = i).length ≤ 1 := by
  obtain ⟨hinv, hsafe⟩ := h.invariant
    (P := fun ls s => NetInv contracts schnorrData ls s ∧ FallbackInv ls s)
    ⟨.start, fun x hx => absurd hx List.not_mem_nil⟩
    fun _ ih hl => ⟨ih.1.step hl.1.1, ih.2.step ih.1 hl⟩
  have hcall : ∀ x ∈ s.account.included.filter fun x => x.call = i,
      x ∈ s.account.included ∧ x.call = i := fun x hx => by simpa using hx
  have hnodup := (List.Nodup.of_map _ hinv.nodup).filter fun x => decide (x.call = i)
  cases hl : s.account.included.filter fun x => x.call = i with
  | nil => exact Nat.zero_le _
  | cons x l =>
    cases l with
    | nil => exact Nat.le_refl _
    | cons y l =>
      rw [hl] at hcall hnodup
      obtain ⟨hx, hxi⟩ := hcall x List.mem_cons_self
      obtain ⟨hy, hyi⟩ := hcall y (List.mem_cons_of_mem _ List.mem_cons_self)
      have hxy := List.inj_on_of_nodup_map hinv.nodup hx hy
        (hsafe.same_nonce hinv hx hy (hxi.trans hyi.symm))
      exact absurd (hxy ▸ List.mem_cons_self) (List.nodup_cons.mp hnodup).1

/-! ## A fallback after an unseen inclusion -/

/-- The private transaction of the sample call, and the one it falls back to. -/
def sampleSubmission (mempool : Mempool) (nonce : Nat) : Submission Unit :=
  ⟨(), mempool, nonce, sampleCall⟩

/-- The watch and the receipt lookup fail, then the private transaction is
included, before the public nonce is read. -/
def sampleFallback : List (NetworkLabel Unit) :=
  [.request () ⟨.fill sampleCall, .ok (some ⟨0, sampleCall⟩)⟩ false,
    .request () ⟨.sendRawTransaction ⟨0, sampleCall⟩, .ok sampleHash⟩ true,
    .request () ⟨.watch sampleHash, .error ⟨"timeout"⟩⟩ false,
    .request () ⟨.getTransactionReceipt sampleHash, .ok none⟩ false,
    .inclusion (sampleSubmission .flashbots 0),
    .request () ⟨.getTransactionCount sampleSigner, .ok 1⟩ false,
    .request () ⟨.send ⟨1, sampleCall⟩, .ok (sampleHash + 1)⟩ true,
    .inclusion (sampleSubmission .publicPool 1)]

/-- The nonce that is filled in is the pending one. -/
def fillsPending (s : Network ι) : NetworkLabel ι → Bool
  | .request _ ⟨.fill _, .ok (some tx)⟩ _ => tx.nonce = s.account.pendingNonce
  | _ => true

/-- Two transactions of one call are included, although its private transaction
was filled in with the pending nonce. -/
theorem both_included : ∃ s : Network Unit, Run (Guarded Step fun s l => fillsPending s l = true)
    (start (fun _ => sampleContract true) (fun _ => sampleOpPoked.schnorrData) 0) sampleFallback s ∧
      (s.account.included.filter fun x => x.call = ()).length = 2 := by
  obtain ⟨s, hrun, htest⟩ : ∃ s : Network Unit, Run (Guarded (Takes step) fun s l =>
      (node s l && fillsPending s l) = true) (start (fun _ => sampleContract true)
        (fun _ => sampleOpPoked.schnorrData) 0) sampleFallback s ∧
        ((s.account.included.filter fun x => x.call = ()).length == 2) = true :=
    exists_run_of_runGuarded
      (fun s : Network Unit => (s.account.included.filter fun x => x.call = ()).length == 2)
      (by decide +kernel)
  refine ⟨s, hrun.mono ?_, eq_of_beq htest⟩
  intro s l s' hl
  obtain ⟨hnode, hfill⟩ := (Bool.and_eq_true _ _).mp hl.2
  exact ⟨⟨hl.1, hnode⟩, hfill⟩

/-- The private transaction is still pending when the public nonce is read,
and included afterwards. -/
def sampleReplacement : List (NetworkLabel Unit) :=
  sampleFallback.take 4 ++
    [.request () ⟨.getTransactionCount sampleSigner, .ok 0⟩ false,
      .request () ⟨.send ⟨0, sampleCall⟩, .ok (sampleHash + 1)⟩ true,
      .inclusion (sampleSubmission .flashbots 0)]

theorem challenge_included_once_sample : ∃ s : Network Unit,
    Run (Guarded Step FallbackSafe) (start (fun _ => sampleContract true)
      (fun _ => sampleOpPoked.schnorrData) 0) sampleReplacement s ∧
      s.account.submitted.length = 2 ∧
      (s.account.included.filter fun x => x.call = ()).length ≤ 1 := by
  obtain ⟨s, hrun, htest⟩ : ∃ s : Network Unit, Run (Guarded
      (Takes fun s l => if FallbackSafe s l then step s l else none) fun s l => node s l = true)
      (start (fun _ => sampleContract true) (fun _ => sampleOpPoked.schnorrData) 0)
      sampleReplacement s ∧ (s.account.submitted.length == 2) = true :=
    exists_run_of_runGuarded (fun s : Network Unit => s.account.submitted.length == 2)
      (by decide +kernel)
  have hrun : Run (Guarded Step FallbackSafe) (start (fun _ => sampleContract true)
      (fun _ => sampleOpPoked.schnorrData) 0) sampleReplacement s := by
    refine hrun.mono ?_
    intro s l s' hl
    have hstep : (if FallbackSafe s l then step s l else none) = some s' := hl.1
    split at hstep
    · exact ⟨⟨hstep, hl.2⟩, ‹_›⟩
    · cases hstep
  exact ⟨s, hrun, eq_of_beq htest, challenge_included_once hrun ()⟩

end Network
end Challenger
