import Challenger.Contract
import Challenger.Event

/-! # The outcome of a challenge

Every execution of `challenge` is one of a few traces (`challenge_cases`). A
complete one ends in `Ok` exactly when the call was told that a transaction of
its was included, by a watch or by a receipt, and returns that transaction.
Nobody looks at the execution status: the transaction succeeded if and only if
none the call was told of was reverted (`challenge_effective_iff`). -/
namespace Challenger
open Lib Lib.Async

namespace ScribeContractInstance
variable (c : ScribeContractInstance)

/-! ## All a challenge can do -/

/-- The answers `challengeWithPublic` has got, and where it stands. -/
inductive PublicCases (schnorrData : SchnorrData) :
    List ContractI.Event → ContractM (ContractResult TxHash) → Prop where
  | start : PublicCases schnorrData [] (c.challengeWithPublic schnorrData)
  | noNonce (e : RpcError) : PublicCases schnorrData
      [⟨.getTransactionCount c.signerAddress, .error e⟩] (.done (.error (.rpcError e)))
  | nonce (nonce : Nat) (k) : PublicCases schnorrData
      [⟨.getTransactionCount c.signerAddress, .ok nonce⟩]
      (.await (.send ⟨nonce, ⟨c.address, schnorrData⟩⟩) k)
  | notSent (nonce : Nat) (e : AlloyContractError) : PublicCases schnorrData
      [⟨.getTransactionCount c.signerAddress, .ok nonce⟩,
        ⟨.send ⟨nonce, ⟨c.address, schnorrData⟩⟩, .error e⟩]
      (.done (.error (.alloyContractError c.address e)))
  | sent (nonce : Nat) (pendingTx : TxHash) (k) : PublicCases schnorrData
      [⟨.getTransactionCount c.signerAddress, .ok nonce⟩,
        ⟨.send ⟨nonce, ⟨c.address, schnorrData⟩⟩, .ok pendingTx⟩] (.await (.watch pendingTx) k)
  | lost (nonce : Nat) (pendingTx : TxHash) (e : AlloyPendingTransactionError) :
      PublicCases schnorrData
      [⟨.getTransactionCount c.signerAddress, .ok nonce⟩,
        ⟨.send ⟨nonce, ⟨c.address, schnorrData⟩⟩, .ok pendingTx⟩, ⟨.watch pendingTx, .error e⟩]
      (.done (.error (.pendingTransactionError c.address e)))
  | included (nonce : Nat) (pendingTx txHash : TxHash) : PublicCases schnorrData
      [⟨.getTransactionCount c.signerAddress, .ok nonce⟩,
        ⟨.send ⟨nonce, ⟨c.address, schnorrData⟩⟩, .ok pendingTx⟩, ⟨.watch pendingTx, .ok txHash⟩]
      (.done (.ok txHash))

/-- The same for `challengeWithFlashbots`. -/
inductive FlashbotsCases (schnorrData : SchnorrData) :
    List ContractI.Event → ContractM (ContractResult TxHash) → Prop where
  | missing (h : c.privateProvider = false) : FlashbotsCases schnorrData []
      (.done (.error (.missingPrivateProvider c.address)))
  | start (k) : FlashbotsCases schnorrData [] (.await (.fill ⟨c.address, schnorrData⟩) k)
  | notFilled (e : RpcError) : FlashbotsCases schnorrData
      [⟨.fill ⟨c.address, schnorrData⟩, .error e⟩] (.done (.error (.rpcError e)))
  | noEnvelope : FlashbotsCases schnorrData [⟨.fill ⟨c.address, schnorrData⟩, .ok none⟩]
      (.done (.error (.privateTransactionBuildError c.address)))
  | filled (tx : Transaction) (k) : FlashbotsCases schnorrData
      [⟨.fill ⟨c.address, schnorrData⟩, .ok (some tx)⟩] (.await (.sendRawTransaction tx) k)
  | notSent (tx : Transaction) (e : RpcError) : FlashbotsCases schnorrData
      [⟨.fill ⟨c.address, schnorrData⟩, .ok (some tx)⟩, ⟨.sendRawTransaction tx, .error e⟩]
      (.done (.error (.rpcError e)))
  | sent (tx : Transaction) (privateTxHash : TxHash) (k) : FlashbotsCases schnorrData
      [⟨.fill ⟨c.address, schnorrData⟩, .ok (some tx)⟩,
        ⟨.sendRawTransaction tx, .ok privateTxHash⟩] (.await (.watch privateTxHash) k)
  | included (tx : Transaction) (privateTxHash txHash : TxHash) : FlashbotsCases schnorrData
      [⟨.fill ⟨c.address, schnorrData⟩, .ok (some tx)⟩,
        ⟨.sendRawTransaction tx, .ok privateTxHash⟩, ⟨.watch privateTxHash, .ok txHash⟩]
      (.done (.ok txHash))
  | unseen (tx : Transaction) (privateTxHash : TxHash) (e : AlloyPendingTransactionError) (k) :
      FlashbotsCases schnorrData
      [⟨.fill ⟨c.address, schnorrData⟩, .ok (some tx)⟩,
        ⟨.sendRawTransaction tx, .ok privateTxHash⟩, ⟨.watch privateTxHash, .error e⟩]
      (.await (.getTransactionReceipt privateTxHash) k)
  | found (tx : Transaction) (privateTxHash : TxHash) (e : AlloyPendingTransactionError)
      (receipt : Receipt) : FlashbotsCases schnorrData
      [⟨.fill ⟨c.address, schnorrData⟩, .ok (some tx)⟩,
        ⟨.sendRawTransaction tx, .ok privateTxHash⟩, ⟨.watch privateTxHash, .error e⟩,
        ⟨.getTransactionReceipt privateTxHash, .ok (some receipt)⟩] (.done (.ok privateTxHash))
  | lost (tx : Transaction) (privateTxHash : TxHash) (e : AlloyPendingTransactionError)
      (r : Except RpcError (Option Receipt)) (hr : ∀ receipt, r ≠ .ok (some receipt)) :
      FlashbotsCases schnorrData
      [⟨.fill ⟨c.address, schnorrData⟩, .ok (some tx)⟩,
        ⟨.sendRawTransaction tx, .ok privateTxHash⟩, ⟨.watch privateTxHash, .error e⟩,
        ⟨.getTransactionReceipt privateTxHash, r⟩]
      (.done (.error (.pendingTransactionError c.address e)))

/-- The private path is under way, it brought the result, or the public path
follows on its failure. -/
inductive ChallengeCases (schnorrData : SchnorrData) :
    List ContractI.Event → ContractM (ContractResult TxHash) → Prop where
  | privately {t op k k'} (h : c.FlashbotsCases schnorrData t (.await op k)) :
      ChallengeCases schnorrData t (.await op k')
  | included {t txHash} (h : c.FlashbotsCases schnorrData t (.done (.ok txHash))) :
      ChallengeCases schnorrData t (.done (.ok txHash))
  | fellBack {t u e q} (h : c.FlashbotsCases schnorrData t (.done (.error e)))
      (hu : c.PublicCases schnorrData u q) : ChallengeCases schnorrData (t ++ u) q

variable {c} {schnorrData : SchnorrData} {t : List ContractI.Event}
  {q : ContractM (ContractResult TxHash)}

theorem challengeWithPublic_cases (h : Exec (c.challengeWithPublic schnorrData) t q) :
    c.PublicCases schnorrData t q := by
  rcases h.await_inv with ⟨rfl, rfl⟩ | ⟨r, t, rfl, hcount⟩
  · exact .start
  cases r with
  | error e =>
    obtain ⟨rfl, rfl⟩ := hcount.done_inv
    exact .noNonce e
  | ok nonce =>
    rcases hcount.await_inv with ⟨rfl, rfl⟩ | ⟨r, t, rfl, hsend⟩
    · exact .nonce nonce _
    cases r with
    | error e =>
      obtain ⟨rfl, rfl⟩ := hsend.done_inv
      exact .notSent nonce e
    | ok pendingTx =>
      rcases hsend.await_inv with ⟨rfl, rfl⟩ | ⟨r, t, rfl, hwatch⟩
      · exact .sent nonce pendingTx _
      cases r with
      | error e =>
        obtain ⟨rfl, rfl⟩ := hwatch.done_inv
        exact .lost nonce pendingTx e
      | ok txHash =>
        obtain ⟨rfl, rfl⟩ := hwatch.done_inv
        exact .included nonce pendingTx txHash

theorem challengeWithFlashbots_cases (h : Exec (c.challengeWithFlashbots schnorrData) t q) :
    c.FlashbotsCases schnorrData t q := by
  unfold challengeWithFlashbots at h
  split at h
  · rcases h.await_inv with ⟨rfl, rfl⟩ | ⟨r, t, rfl, hfill⟩
    · exact .start _
    match r with
    | .error e =>
      obtain ⟨rfl, rfl⟩ := hfill.done_inv
      exact .notFilled e
    | .ok none =>
      obtain ⟨rfl, rfl⟩ := hfill.done_inv
      exact .noEnvelope
    | .ok (some tx) =>
      rcases hfill.await_inv with ⟨rfl, rfl⟩ | ⟨r, t, rfl, hsend⟩
      · exact .filled tx _
      cases r with
      | error e =>
        obtain ⟨rfl, rfl⟩ := hsend.done_inv
        exact .notSent tx e
      | ok privateTxHash =>
        rcases hsend.await_inv with ⟨rfl, rfl⟩ | ⟨r, t, rfl, hwatch⟩
        · exact .sent tx privateTxHash _
        cases r with
        | ok txHash =>
          obtain ⟨rfl, rfl⟩ := hwatch.done_inv
          exact .included tx privateTxHash txHash
        | error e =>
          rcases hwatch.await_inv with ⟨rfl, rfl⟩ | ⟨r, t, rfl, hreceipt⟩
          · exact .unseen tx privateTxHash e _
          match r with
          | .ok (some receipt) =>
            obtain ⟨rfl, rfl⟩ := hreceipt.done_inv
            exact .found tx privateTxHash e receipt
          | .ok none =>
            obtain ⟨rfl, rfl⟩ := hreceipt.done_inv
            exact .lost tx privateTxHash e _ fun _ h => by cases h
          | .error e' =>
            obtain ⟨rfl, rfl⟩ := hreceipt.done_inv
            exact .lost tx privateTxHash e _ fun _ h => by cases h
  · obtain ⟨rfl, rfl⟩ := h.done_inv
    exact .missing (by simpa using ‹¬c.privateProvider = true›)

theorem challenge_cases (h : Exec (c.challenge schnorrData) t q) :
    c.ChallengeCases schnorrData t q := by
  rcases h.bind_inv with ⟨op, k, hp, rfl⟩ | ⟨u, v, r, rfl, hp, hq⟩
  · exact .privately (challengeWithFlashbots_cases hp)
  · cases r with
    | ok txHash =>
      obtain ⟨rfl, rfl⟩ := hq.done_inv
      rw [List.append_nil]
      exact .included (challengeWithFlashbots_cases hp)
    | error e => exact .fellBack (challengeWithFlashbots_cases hp) (challengeWithPublic_cases hq)

/-! ## Reported and successful challenges -/

/-- The transactions an answer says are included. -/
def toldIncluded : ContractI.Event → List TxHash
  | ⟨.watch _, .ok txHash⟩ => [txHash]
  | ⟨.getTransactionReceipt txHash, .ok (some _)⟩ => [txHash]
  | _ => []

/-- A complete challenge was told of one included transaction and returns it,
or of none and fails. -/
theorem challenge_told {r : ContractResult TxHash} (h : Returns (c.challenge schnorrData) t r) :
    t.flatMap toldIncluded = r.toOption.toList := by
  have hprivate : ∀ {t q}, c.FlashbotsCases schnorrData t q → ∀ r : ContractResult TxHash,
      q = .done r → t.flatMap toldIncluded = r.toOption.toList := by
    intro t q h r hq
    cases h <;> cases hq <;> try rfl
    rename_i tx privateTxHash e r hr
    match r with
    | .ok (some receipt) => exact absurd rfl (hr receipt)
    | .ok none => rfl
    | .error _ => rfl
  cases challenge_cases h with
  | included hp => exact hprivate hp _ rfl
  | fellBack hp hu =>
    rw [List.flatMap_append, hprivate hp _ rfl]
    cases hu <;> rfl

/-- The final status of the transactions on chain, `none` for those that are
not included. -/
abbrev Ledger := TxHash → Option ExecutionStatus

/-- A watch resolves to its transaction once that is included, whatever its
status; a receipt carries the status. -/
def Truthful (ledger : Ledger) : ContractI.Event → Prop
  | ⟨.watch txHash, .ok txHash'⟩ => txHash' = txHash ∧ ledger txHash ≠ none
  | ⟨.getTransactionReceipt txHash, .ok (some receipt)⟩ => ledger txHash = some receipt.status
  | _ => True

theorem Truthful.included {ledger : Ledger} {e : ContractI.Event} (h : Truthful ledger e) :
    ∀ txHash ∈ toldIncluded e, ledger txHash ≠ none := by
  intro txHash hmem
  unfold toldIncluded at hmem
  split at hmem
  · obtain ⟨rfl, hin⟩ := h
    rw [List.mem_singleton.mp hmem]
    exact hin
  · have h : ledger _ = some _ := h
    rw [List.mem_singleton.mp hmem, h]
    nofun
  · cases hmem

/-- A returned transaction succeeded, and the counter counts only such. -/
def Effective (ledger : Ledger) (r : ContractResult TxHash) (u : List ContractI.Event) : Prop :=
  (∀ txHash, r = .ok txHash → ledger txHash = some .success) ∧
    ∀ address, (⟨.incChallengeCounter address, ()⟩ : ContractI.Event) ∈ u →
      ∃ txHash, r = .ok txHash ∧ ledger txHash = some .success

theorem reportChallenge_returns {r : ContractResult TxHash} {u : List ContractI.Event}
    (h : Returns (c.reportChallenge r) u ()) {address : Address}
    (hu : (⟨.incChallengeCounter address, ()⟩ : ContractI.Event) ∈ u) :
    ∃ txHash, r = .ok txHash := by
  cases r with
  | ok txHash => exact ⟨txHash, rfl⟩
  | error e =>
    rw [(returns_done.mp h).1] at hu
    cases hu

/-- **A reported challenge is effective** if and only if no transaction the
call was told was included has been reverted. -/
theorem challenge_effective_iff {ledger : Ledger} {r : ContractResult TxHash}
    {u : List ContractI.Event} (htrue : ∀ e ∈ t, Truthful ledger e)
    (h : Returns (c.challenge schnorrData) t r) (hu : Returns (c.reportChallenge r) u ()) :
    Effective ledger r u ↔ ∀ txHash ∈ t.flatMap toldIncluded, ledger txHash ≠ some .reverted := by
  have htold := challenge_told h
  constructor
  · intro heff txHash hmem
    rw [htold] at hmem
    cases r with
    | error e => cases hmem
    | ok txHash' =>
      rw [List.mem_singleton.mp hmem, heff.1 txHash' rfl]
      nofun
  · intro hno
    have hok : ∀ txHash, r = .ok txHash → ledger txHash = some .success := by
      rintro txHash rfl
      have hmem : txHash ∈ t.flatMap toldIncluded := by rw [htold]; exact List.mem_singleton_self _
      obtain ⟨e, he, hin⟩ := List.mem_flatMap.mp hmem
      have hsome := (htrue e he).included txHash hin
      have hnr := hno txHash hmem
      cases hst : ledger txHash with
      | none => exact absurd hst hsome
      | some status =>
        cases status with
        | success => rfl
        | reverted => exact absurd hst hnr
    refine ⟨hok, ?_⟩
    intro address hmem
    obtain ⟨txHash, hr⟩ := reportChallenge_returns hu hmem
    exact ⟨txHash, hr, hok txHash hr⟩

/-! ## Sample challenges -/

def sampleSigner : Address := 0x1f7acda376ef37ec371235a094113df9cb4efee1

/-- A contract that is challenged through a private relay, or without one. -/
def sampleContract (privateProvider : Bool) : ScribeContractInstance :=
  ⟨sampleAddress, privateProvider, sampleSigner⟩

def sampleCall : OpChallenge := ⟨sampleAddress, sampleOpPoked.schnorrData⟩

/-- The answers to a challenge whose private transaction is included. -/
def sampleChallenge : List ContractI.Event :=
  [⟨.fill sampleCall, .ok (some ⟨0, sampleCall⟩)⟩,
    ⟨.sendRawTransaction ⟨0, sampleCall⟩, .ok sampleHash⟩, ⟨.watch sampleHash, .ok sampleHash⟩]

theorem returns_sampleChallenge :
    Returns ((sampleContract true).challenge sampleOpPoked.schnorrData) sampleChallenge
      (.ok sampleHash) := by
  obtain ⟨r, hret, hr⟩ := returns_of_returnsWith
    (p := (sampleContract true).challenge sampleOpPoked.schnorrData) (t := sampleChallenge)
    (fun r => r.toOption == some sampleHash) (by decide +kernel)
  cases r with
  | ok txHash => exact Option.some.inj (eq_of_beq hr) ▸ hret
  | error e => cases hr

theorem truthful_sampleChallenge (status : ExecutionStatus) :
    ∀ e ∈ sampleChallenge, Truthful (fun _ => some status) e := by
  simp only [sampleChallenge, List.forall_mem_cons]
  exact ⟨trivial, trivial, ⟨rfl, by nofun⟩, fun _ h => absurd h List.not_mem_nil⟩

/-- A transaction that was included and reverted is returned all the same. -/
theorem challenge_returns_reverted : ∃ (ledger : Ledger) (t : List ContractI.Event),
    (∀ e ∈ t, Truthful ledger e) ∧
      Returns ((sampleContract true).challenge sampleOpPoked.schnorrData) t (.ok sampleHash) ∧
      ledger sampleHash = some .reverted :=
  ⟨fun _ => some .reverted, sampleChallenge, truthful_sampleChallenge .reverted,
    returns_sampleChallenge, rfl⟩

theorem challenge_effective_iff_sample :
    Returns ((sampleContract true).challenge sampleOpPoked.schnorrData) sampleChallenge
      (.ok sampleHash) ∧
    Returns ((sampleContract true).reportChallenge (.ok sampleHash))
      [⟨.incChallengeCounter sampleAddress, ()⟩] () ∧
    Effective (fun _ => some .success) (.ok sampleHash)
      [⟨.incChallengeCounter sampleAddress, ()⟩] := by
  have hreport : Returns ((sampleContract true).reportChallenge (.ok sampleHash))
      [⟨.incChallengeCounter sampleAddress, ()⟩] () := .cons (.nil _)
  refine ⟨returns_sampleChallenge, hreport, ?_⟩
  refine (challenge_effective_iff (truthful_sampleChallenge .success) returns_sampleChallenge
    hreport).mpr ?_
  intro txHash _
  nofun

end ScribeContractInstance
end Challenger
