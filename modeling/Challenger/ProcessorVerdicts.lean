import Challenger.Challenge
import Challenger.ProcessorCalls
import Challenger.ProcessorClosed

/-! # What is behind a challenge

The answers a processor gets are those to its challenge period, then those of
its validations, one after the other, and then those of the validation under
way (`Verdicts`). So behind every request of a task that submits a challenge
there is a log that was sent to the processor, and a validation of it in which
the contract said that its signature is not acceptable. -/
namespace Challenger
open Lib Lib.Async

namespace ScribeContractInstance
variable {contract : ScribeContractInstance} {log : Log OpPoked} {opPoked : OpPoked}
  {data : SchnorrData} {challengePeriod : UInt64} {t : List ContractI.Event}

/-! ## What the contract was asked -/

/-- The timestamp is the log's own, or else that of its block as the node told
it. -/
def Timestamp (log : Log OpPoked) (t : List ContractI.Event) (timestamp : UInt64) : Prop :=
  log.blockTimestamp = some timestamp ∨ log.blockTimestamp = none ∧
    ∃ number, log.blockNumber = some number ∧ ⟨.getBlock number, .ok (some timestamp)⟩ ∈ t

/-- What the answers say on which a log is found challengeable: it is not older
than the challenge period, and the contract does not accept its signature. -/
structure FoundInvalid (contract : ScribeContractInstance) (log : Log OpPoked)
    (challengePeriod : UInt64) (t : List ContractI.Event) : Prop where
  fresh : ∃ timestamp now : UInt64, Timestamp log t timestamp ∧ ⟨.now, now⟩ ∈ t ∧
    ¬ now - timestamp > challengePeriod
  unacceptable : ∃ message, ⟨.constructPokeMessage contract.address log.data.pokeData,
      .ok message⟩ ∈ t ∧
    ⟨.isAcceptableSchnorrSignatureNow contract.address message log.data.schnorrData,
      .ok false⟩ ∈ t

theorem eventTimestamp_ok {timestamp : UInt64}
    (h : Returns (eventTimestamp log) t (.ok timestamp)) : Timestamp log t timestamp := by
  unfold eventTimestamp at h
  split at h
  · rename_i own hown
    simp only [pure_eq, returns_done, Except.ok.injEq] at h
    exact .inl (by rw [hown, h.2])
  · rename_i hown
    split at h
    · simp at h
    · rename_i number hnumber
      obtain ⟨r, u, rfl, hu⟩ := returns_await.mp h
      refine .inr ⟨hown, number, hnumber, ?_⟩
      rcases r with e | block
      · cases hu.done_inv.2
      · cases block with
        | none => cases hu.done_inv.2
        | some told =>
          cases hu.done_inv.2
          exact List.mem_cons_self

theorem isLogStale_ok {stale : Bool} (h : Returns (isLogStale log challengePeriod) t (.ok stale)) :
    ∃ timestamp now : UInt64, Timestamp log t timestamp ∧ ⟨.now, now⟩ ∈ t ∧
      stale = decide (now - timestamp > challengePeriod) := by
  obtain ⟨u, v, a, rfl, ha, hv⟩ := returns_bind.mp h
  cases a with
  | error e => cases hv.done_inv.2
  | ok timestamp =>
    obtain ⟨now, w, rfl, hw⟩ := returns_await.mp hv
    have hstale := hw.done_inv.2
    simp only [Async.done.injEq, Except.ok.injEq] at hstale
    refine ⟨timestamp, now, ?_, by simp, hstale⟩
    rcases eventTimestamp_ok ha with hown | ⟨hown, number, hnumber, hblock⟩
    · exact .inl hown
    · exact .inr ⟨hown, number, hnumber, List.mem_append_left _ hblock⟩

theorem isSignatureValid_ok {valid : Bool}
    (h : Returns (contract.isSignatureValid opPoked) t (.ok valid)) :
    ∃ message, ⟨.constructPokeMessage contract.address opPoked.pokeData, .ok message⟩ ∈ t ∧
      ⟨.isAcceptableSchnorrSignatureNow contract.address message opPoked.schnorrData,
        .ok valid⟩ ∈ t := by
  obtain ⟨r, u, rfl, hu⟩ := returns_await.mp h
  rcases r with e | message
  · cases hu.done_inv.2
  · obtain ⟨r, v, rfl, hv⟩ := returns_await.mp hu
    rcases r with e | acceptable
    · cases hv.done_inv.2
    · cases hv.done_inv.2
      exact ⟨message, by simp, by simp⟩

theorem Timestamp.mono {t' : List ContractI.Event} {timestamp : UInt64}
    (h : Timestamp log t timestamp) (ht : ∀ e ∈ t, e ∈ t') : Timestamp log t' timestamp := by
  rcases h with hown | ⟨hown, number, hnumber, hblock⟩
  · exact .inl hown
  · exact .inr ⟨hown, number, hnumber, ht _ hblock⟩

/-- What the answers say on which a log is not challenged. -/
inductive Dismissed (contract : ScribeContractInstance) (log : Log OpPoked)
    (challengePeriod : UInt64) (t : List ContractI.Event) : Prop where
  | stale {timestamp now : UInt64} (htime : Timestamp log t timestamp) (hnow : ⟨.now, now⟩ ∈ t)
      (h : now - timestamp > challengePeriod)
  | acceptable {message} (hmessage : ⟨.constructPokeMessage contract.address log.data.pokeData,
        .ok message⟩ ∈ t)
      (h : ⟨.isAcceptableSchnorrSignatureNow contract.address message log.data.schnorrData,
        .ok true⟩ ∈ t)

/-- A validation that came to a judgement has its reasons in the answers. -/
theorem isOpPokeChallengeable_ok {challengeable : Bool}
    (h : Returns (contract.isOpPokeChallengeable log challengePeriod) t (.ok challengeable)) :
    if challengeable then contract.FoundInvalid log challengePeriod t
    else contract.Dismissed log challengePeriod t := by
  obtain ⟨u, v, stale, rfl, hstale, hv⟩ := returns_bind.mp h
  rcases stale with e | stale
  · cases hv.done_inv.2
  · obtain ⟨timestamp, now, htime, hnow, rfl⟩ := isLogStale_ok hstale
    have htime : Timestamp log (u ++ v) timestamp :=
      htime.mono fun e he => List.mem_append_left _ he
    by_cases hold : now - timestamp > challengePeriod
    · rw [decide_eq_true hold] at hv
      obtain ⟨rfl, hfalse⟩ := hv.done_inv
      simp only [Async.done.injEq, Except.ok.injEq] at hfalse
      rw [hfalse]
      exact .stale htime (List.mem_append_left _ hnow) hold
    · rw [decide_eq_false hold] at hv
      obtain ⟨u', v', valid, rfl, hvalid, hv'⟩ := returns_bind.mp hv
      rcases valid with e | valid
      · cases hv'.done_inv.2
      · obtain ⟨message, hmessage, hacceptable⟩ := isSignatureValid_ok hvalid
        obtain ⟨rfl, hjudged⟩ := hv'.done_inv
        simp only [Async.done.injEq, Except.ok.injEq] at hjudged
        rw [hjudged]
        cases valid with
        | true =>
          have hmessage : ⟨.constructPokeMessage contract.address log.data.pokeData, .ok message⟩ ∈
              u ++ (u' ++ []) := by simp [hmessage]
          exact .acceptable hmessage (by simp [hacceptable])
        | false =>
          exact ⟨⟨timestamp, now, htime, by simp [hnow], hold⟩, message, by simp [hmessage],
            by simp [hacceptable]⟩

/-- The requests of a challenge of these data. What goes to the private relay
is what its provider filled in for the call. -/
def Challenges (contract : ScribeContractInstance) (data : SchnorrData)
    (answered : List ContractI.Event) : ContractOp → Prop
  | .fill call => call = ⟨contract.address, data⟩
  | .sendRawTransaction tx => ⟨.fill ⟨contract.address, data⟩, .ok (some tx)⟩ ∈ answered
  | .send tx => tx.call = ⟨contract.address, data⟩
  | .watch _ => True
  | .getTransactionReceipt _ => True
  | .getTransactionCount signer => signer = contract.signerAddress
  | _ => False

theorem Challenges.mono {t' : List ContractI.Event} (ht : ∀ e ∈ t, e ∈ t') {op : ContractOp}
    (h : contract.Challenges data t op) : contract.Challenges data t' op := by
  cases op with
  | sendRawTransaction tx => exact ht _ h
  | _ => exact h

theorem flashbots_requested {q : ContractM (ContractResult TxHash)}
    (h : contract.FlashbotsCases data t q) :
    ∀ op ∈ t.map Sigma.fst ++ q.awaiting, contract.Challenges data t op := by
  cases h <;> simp [Challenges]

theorem public_requested {q : ContractM (ContractResult TxHash)}
    (h : contract.PublicCases data t q) :
    ∀ op ∈ t.map Sigma.fst ++ q.awaiting, contract.Challenges data t op := by
  have hstart : (contract.challengeWithPublic data).awaiting =
      [.getTransactionCount contract.signerAddress] := rfl
  cases h <;> simp [Challenges, hstart]

theorem challenge_requested {q : ContractM (ContractResult TxHash)}
    (h : contract.ChallengeCases data t q) :
    ∀ op ∈ t.map Sigma.fst ++ q.awaiting, contract.Challenges data t op := by
  cases h with
  | privately h => simpa using flashbots_requested h
  | included h => exact flashbots_requested h
  | @fellBack t u e q h hu =>
    intro op hop
    rw [List.map_append, List.append_assoc] at hop
    rcases List.mem_append.mp hop with hop | hop
    · exact (flashbots_requested h op (List.mem_append_left _ hop)).mono
        fun e he => List.mem_append_left _ he
    · exact (public_requested hu op hop).mono fun e he => List.mem_append_right _ he

/-- A challenge under way has made only requests of a challenge of its data. -/
theorem challenge_requests {call : Call ContractI (ContractResult TxHash)}
    (h : call.program = contract.challenge data) :
    ∀ op ∈ call.requests, contract.Challenges data call.answered op := by
  have hexec := call.exec
  rw [h] at hexec
  exact challenge_requested (challenge_cases hexec)

end ScribeContractInstance

namespace Contracts
variable {ι : Type} [DecidableEq ι] {c : ι → ScribeContractInstance} {s s' : Contracts ι} {i j : ι}
  {k : Nat} {l : ContractsLabel ι} {ls : List (ContractsLabel ι)}

/-! ## What a run answers and judges -/

def worldLabels (ls : List (ContractsLabel ι)) : List (WorldLabel ι) :=
  ls.flatMap ContractsLabel.world

def answerTo (i : ι) : ContractsLabel ι → Option ContractI.Event
  | .answer j e => if j = i then some e else none
  | _ => none

/-- The answers that processor `i` got itself. -/
def answersTo (i : ι) (ls : List (ContractsLabel ι)) : List ContractI.Event :=
  ls.filterMap (answerTo i)

def judgement (i : ι) : WorldLabel ι → Option (Log OpPoked × ContractResult Bool)
  | .judged j log r => if j = i then some (log, r) else none
  | _ => none

def judgements (i : ι) (ls : List (WorldLabel ι)) : List (Log OpPoked × ContractResult Bool) :=
  ls.filterMap (judgement i)

theorem answersTo_snoc (i : ι) (ls : List (ContractsLabel ι)) (l : ContractsLabel ι) :
    answersTo i (ls ++ [l]) = answersTo i ls ++ (answerTo i l).toList := by
  unfold answersTo
  cases h : answerTo i l <;> simp [h]

theorem judgements_snoc (i : ι) (ls : List (ContractsLabel ι)) (l : ContractsLabel ι) :
    judgements i (worldLabels (ls ++ [l])) =
      judgements i (worldLabels ls) ++ l.world.filterMap (judgement i) := by
  simp [judgements, worldLabels]

/-! ## One validation at a time -/

/-- A validation that is over. -/
structure Verdict where
  log : Log OpPoked
  answers : List ContractI.Event
  result : ContractResult Bool

/-- The verdict is what the contract's validation comes to on these answers. -/
def Verdict.Given (contract : ScribeContractInstance) (challengePeriod : Option UInt64)
    (v : Verdict) : Prop :=
  ∃ period, challengePeriod = some period ∧
    Returns (contract.isOpPokeChallengeable v.log period) v.answers v.result

/-- The call that a processor in this state awaits. -/
inductive ValidationOf (contract : ScribeContractInstance) (p : ScribeEventsProcessor ι) :
    Option (Call ContractI (ContractResult Bool)) → Prop where
  | noCall (hp : ∀ log, p.phase ≠ .validating log) : ValidationOf contract p none
  | awaited {log period call} (hp : p.phase = .validating log)
      (hperiod : p.challengePeriod = some period)
      (hprogram : call.program = contract.isOpPokeChallengeable log period) :
      ValidationOf contract p (some call)

/-- Processor `i` has given these verdicts, in this order and with all the
answers it got. -/
structure Verdicts (c : ι → ScribeContractInstance) (i : ι) (ls : List (ContractsLabel ι))
    (s : Contracts ι) (vs : List Verdict) : Prop where
  program : (s.challengePeriod i).program = (c i).getChallengePeriod
  starting : (s.world.processors i).phase = .starting →
    (s.world.processors i).challengePeriod = none
  known : ∀ period, (s.world.processors i).challengePeriod = some period →
    ∃ r, (s.challengePeriod i).result = some (.ok r) ∧ period = r.toUInt64
  validation : ValidationOf (c i) (s.world.processors i) (s.validation i)
  judged : judgements i (worldLabels ls) = vs.map fun v => (v.log, v.result)
  given : ∀ v ∈ vs, v.Given (c i) (s.world.processors i).challengePeriod
  answers : answersTo i ls = (s.challengePeriod i).answered ++ vs.flatMap Verdict.answers ++
    (s.validation i).elim [] Call.answered

variable {vs : List Verdict}

theorem Verdicts.init : Verdicts c i [] (start c) [] where
  program := rfl
  starting _ := rfl
  known _ h := by cases h
  validation := .noCall fun _ h => by cases h
  judged := rfl
  given _ h := absurd h List.not_mem_nil
  answers := rfl

/-- No verdict is given before the challenge period is known. -/
theorem Verdicts.eq_nil (h : Verdicts c i ls s vs)
    (hperiod : (s.world.processors i).challengePeriod = none) : vs = [] := by
  refine List.eq_nil_iff_forall_not_mem.mpr ?_
  intro v hv
  obtain ⟨period, hp, -⟩ := h.given v hv
  rw [hperiod] at hp
  cases hp

theorem Verdicts.validation_eq_none (h : Verdicts c i ls s vs)
    (hp : ∀ log, (s.world.processors i).phase ≠ .validating log) : s.validation i = none := by
  have hold := h.validation
  generalize s.validation i = call at hold
  cases hold with
  | noCall _ => rfl
  | awaited hlog _ _ => exact absurd hlog (hp _)

/-- Steps without an answer or a verdict. -/
theorem Verdicts.move (h : Verdicts c i ls s vs)
    (hcall : s'.challengePeriod i = s.challengePeriod i)
    (ha : answerTo i l = none) (hj : l.world.filterMap (judgement i) = [])
    (hstarting : (s'.world.processors i).phase = .starting →
      (s'.world.processors i).challengePeriod = none)
    (hknown : ∀ period, (s'.world.processors i).challengePeriod = some period →
      (s.world.processors i).challengePeriod = some period ∨
        vs = [] ∧ ∃ r, (s.challengePeriod i).result = some (.ok r) ∧ period = r.toUInt64)
    (hkept : ∀ period, (s.world.processors i).challengePeriod = some period →
      (s'.world.processors i).challengePeriod = some period)
    (hv : ValidationOf (c i) (s'.world.processors i) (s'.validation i))
    (hanswered : (s'.validation i).elim [] Call.answered =
      (s.validation i).elim [] Call.answered) : Verdicts c i (ls ++ [l]) s' vs := by
  constructor
  case program => rw [hcall]; exact h.program
  case starting => exact hstarting
  case known =>
    intro period hperiod
    rw [hcall]
    rcases hknown period hperiod with hperiod | ⟨-, hr⟩
    · exact h.known period hperiod
    · exact hr
  case validation => exact hv
  case judged => rw [judgements_snoc, hj, List.append_nil]; exact h.judged
  case given =>
    intro v hmem
    obtain ⟨period, hperiod, hreturns⟩ := h.given v hmem
    exact ⟨period, hkept period hperiod, hreturns⟩
  case answers => rw [answersTo_snoc, ha, hcall, hanswered, h.answers]; exact List.append_nil _

/-- Steps that concern neither what the processor awaits nor what it knows. -/
theorem Verdicts.snoc (h : Verdicts c i ls s vs)
    (hphase : (s'.world.processors i).phase = (s.world.processors i).phase)
    (hperiod : (s'.world.processors i).challengePeriod = (s.world.processors i).challengePeriod)
    (hcall : s'.challengePeriod i = s.challengePeriod i) (hv : s'.validation i = s.validation i)
    (ha : answerTo i l = none) (hj : l.world.filterMap (judgement i) = []) :
    Verdicts c i (ls ++ [l]) s' vs := by
  refine h.move hcall ha hj ?_ ?_ ?_ ?_ (by rw [hv])
  · rw [hphase, hperiod]; exact h.starting
  · rw [hperiod]; exact fun _ => .inl
  · rw [hperiod]; exact fun _ => id
  · have hold := h.validation
    rw [hv]
    generalize s.validation i = call at hold
    cases hold with
    | noCall hp => exact .noCall (by rw [hphase]; exact hp)
    | awaited hp hk hprogram => exact .awaited (hphase.trans hp) (hperiod.trans hk) hprogram

/-- The processor leaves its phase for one in which it awaits no call. -/
theorem Verdicts.leave (h : Verdicts c i ls s vs) (hv : s.validation i = none)
    (hv' : s'.validation i = none)
    (hperiod : (s'.world.processors i).challengePeriod = (s.world.processors i).challengePeriod)
    (hcall : s'.challengePeriod i = s.challengePeriod i)
    (hp : (s'.world.processors i).phase ≠ .starting)
    (hp' : ∀ log, (s'.world.processors i).phase ≠ .validating log)
    (ha : answerTo i l = none) (hj : l.world.filterMap (judgement i) = []) :
    Verdicts c i (ls ++ [l]) s' vs := by
  refine h.move hcall ha hj (fun hs => absurd hs hp) ?_ ?_ ?_ (by rw [hv, hv'])
  · rw [hperiod]; exact fun _ => .inl
  · rw [hperiod]; exact fun _ => id
  · rw [hv']; exact .noCall hp'

theorem Verdicts.answerPeriod (h : Verdicts c i ls s vs)
    (hp : (s.world.processors i).phase = .starting) {e : ContractI.Event}
    {call : Call ContractI (ContractResult UInt16)}
    (hcall : (s.challengePeriod i).answer [e] = some call) :
    Verdicts c i (ls ++ [.answer i e])
      { s with challengePeriod := Function.update s.challengePeriod i call } vs := by
  obtain ⟨hprogram, hanswered, -⟩ := Call.answer_eq_some hcall
  have hself : Function.update s.challengePeriod i call i = call := Function.update_self ..
  have hnone := h.starting hp
  constructor
  case program => dsimp only; rw [hself, hprogram]; exact h.program
  case starting => exact h.starting
  case known =>
    intro period hperiod
    rw [hnone] at hperiod
    cases hperiod
  case validation => exact h.validation
  case judged => rw [judgements_snoc]; simpa [ContractsLabel.world] using h.judged
  case given => exact h.given
  case answers =>
    have hv := h.validation_eq_none (by simp [hp])
    have hvs := h.eq_nil hnone
    subst hvs
    dsimp only
    rw [answersTo_snoc, hself, hanswered, h.answers, hv]
    simp [answerTo]

theorem Verdicts.answerValidation (h : Verdicts c i ls s vs) {e : ContractI.Event}
    {call call' : Call ContractI (ContractResult Bool)} (hv : s.validation i = some call)
    (hcall : call.answer [e] = some call') : Verdicts c i (ls ++ [.answer i e])
      { s with validation := Function.update s.validation i (some call') } vs := by
  obtain ⟨hprogram, hanswered, -⟩ := Call.answer_eq_some hcall
  have hself : Function.update s.validation i (some call') i = some call' :=
    Function.update_self ..
  constructor
  case program => exact h.program
  case starting => exact h.starting
  case known => exact h.known
  case validation =>
    have hold := h.validation
    rw [hv] at hold
    dsimp only
    rw [hself]
    cases hold with
    | awaited hp hk hold => exact .awaited hp hk (hprogram.trans hold)
  case judged => rw [judgements_snoc]; simpa [ContractsLabel.world] using h.judged
  case given => exact h.given
  case answers =>
    dsimp only
    rw [answersTo_snoc, hself, h.answers, hv]
    simp [answerTo, hanswered]

/-- The step that ends a validation gives its verdict. -/
theorem Verdicts.judge (h : Verdicts c i ls s vs) {world : World ι} {log : Log OpPoked}
    {r : ContractResult Bool} (ha : s.agrees (.judged i log r) = true)
    (hp : (s.world.processors i).phase = .validating log)
    (hp' : (world.processors i).phase = .idle)
    (hperiod : (world.processors i).challengePeriod = (s.world.processors i).challengePeriod) :
    ∃ vs', Verdicts c i (ls ++ [.step (.judged i log r)])
      (s.follow c (.judged i log r) world) vs' := by
  obtain ⟨call, hv, hresult⟩ := Option.bind_eq_some_iff.mp (of_decide_eq_true ha)
  have hold := h.validation
  rw [hv] at hold
  cases hold with
  | @awaited log' period _ hlog hk hprogram =>
    obtain rfl : log' = log := ProcessorPhase.validating.inj (hlog.symm.trans hp)
    have hself : Function.update s.validation i none i = none := Function.update_self ..
    refine ⟨vs ++ [⟨log', call.answered, r⟩], ?_⟩
    constructor
    case program => exact h.program
    case starting =>
      intro hs
      rw [follow_world, hp'] at hs
      cases hs
    case known => rw [follow_world, hperiod]; exact h.known
    case validation =>
      rw [follow_world]
      show ValidationOf _ _ (Function.update s.validation i none i)
      rw [hself]
      exact .noCall fun log hlog => by rw [hp'] at hlog; cases hlog
    case judged =>
      rw [judgements_snoc, h.judged, List.map_append]
      simp [ContractsLabel.world, judgement]
    case given =>
      rw [follow_world, hperiod]
      intro v hmem
      rcases List.mem_append.mp hmem with hmem | hmem
      · exact h.given v hmem
      · rw [List.mem_singleton.mp hmem]
        exact ⟨period, hk, hprogram ▸ Call.returns_of_result hresult⟩
    case answers =>
      show _ = _ ++ _ ++ (Function.update s.validation i none i).elim [] Call.answered
      rw [answersTo_snoc, hself, h.answers, hv]
      simp [answerTo, follow]

/-- A step of the processor's own loop. -/
theorem Verdicts.step_self (h : Verdicts c i ls s vs)
    (hknown : World.PeriodKnown (s.world.processors i)) {l : WorldLabel ι} {world : World ι}
    (ha : s.agrees l = true) (hp : World.ProcessorCases s.world i l (world.processors i)) :
    ∃ vs', Verdicts c i (ls ++ [.step l]) (s.follow c l world) vs' := by
  generalize hq : world.processors i = q at hp
  have hw : ((s.follow c l world).world.processors i) = q := by rw [follow_world, hq]
  cases hp with
  | send => exact ⟨vs, h.snoc (by rw [hw]) (by rw [hw]) rfl rfl rfl rfl⟩
  | close => exact ⟨vs, h.snoc (by rw [hw]) (by rw [hw]) rfl rfl rfl rfl⟩
  | @periodOk period hphase =>
    have hnone := h.starting hphase
    have hv := h.validation_eq_none (by simp [hphase])
    refine ⟨vs, h.move rfl rfl rfl ?_ ?_ ?_ ?_ rfl⟩
    · rw [hw]; intro hs; cases hs
    · rw [hw]
      intro p hperiod
      exact .inr ⟨h.eq_nil hnone, period, of_decide_eq_true ha, (Option.some.inj hperiod).symm⟩
    · rw [hnone]; intro p hperiod; cases hperiod
    · rw [hw]
      show ValidationOf _ _ (s.validation i)
      rw [hv]
      exact .noCall (by simp)
  | periodError hphase =>
    have hv := h.validation_eq_none (by simp [hphase])
    exact ⟨vs, h.leave hv hv (by rw [hw]) rfl (by simp [hw]) (by simp [hw]) rfl rfl⟩
  | @validate log rest hphase hrx =>
    obtain ⟨period, hk⟩ := Option.ne_none_iff_exists'.mp (hknown (.inl hphase))
    have hv := h.validation_eq_none (by simp [hphase])
    have hself : (s.follow c (.recv i (.opPoked log)) world).validation i =
        some (.start ((c i).isOpPokeChallengeable log period)) := by
      simp [follow, handleCall, hk]
    refine ⟨vs, h.move rfl rfl rfl ?_ ?_ ?_ ?_ ?_⟩
    · rw [hw]; intro hs; cases hs
    · rw [hw]; exact fun _ => .inl
    · rw [hw]; exact fun _ => id
    · rw [hw, hself]; exact .awaited rfl hk rfl
    · rw [hself, hv]; rfl
  | ignore hphase _ hnone => exact absurd hnone (hknown (.inl hphase))
  | @cancel log rest hphase hrx =>
    have hv := h.validation_eq_none (by simp [hphase])
    refine ⟨vs, h.snoc (by rw [hw]) (by rw [hw]) rfl ?_ rfl rfl⟩
    simp [follow, handleCall, hv]
  | recvNone _ => exact ⟨vs, h.snoc (by rw [hw]) (by rw [hw]) rfl rfl rfl rfl⟩
  | judged hphase => exact h.judge ha hphase (by rw [hq]) (by rw [hq])
  | stop hphase _ =>
    have hv := h.validation_eq_none (by simp [hphase])
    exact ⟨vs, h.leave hv hv (by rw [hw]) rfl (by simp [hw]) (by simp [hw]) rfl rfl⟩
  | elapse => exact ⟨vs, h.snoc (by rw [hw]) (by rw [hw]) rfl rfl rfl rfl⟩
  | wake => cases ha

theorem follow_validation_of_ne {l : WorldLabel ι} {world : World ι}
    (hi : World.processorOf l ≠ some i) : (s.follow c l world).validation i = s.validation i := by
  unfold follow
  split
  · exact Function.update_of_ne (fun he => hi (congrArg some (Eq.symm he))) _ _
  · exact Function.update_of_ne (fun he => hi (congrArg some (Eq.symm he))) _ _
  · rfl

theorem judgement_of_ne {l : WorldLabel ι} (hi : World.processorOf l ≠ some i) :
    judgement i l = none := by
  unfold judgement
  split
  · exact if_neg fun he => hi (congrArg some he)
  · rfl

/-- A wake-up of a task leaves what the processors do as it is. -/
theorem wake_phase {w w' : World ι} {cancelledFirst : Bool}
    {returned : Option (ContractResult TxHash)}
    (hw : w.step (.wake j k cancelledFirst returned) = some w') (i : ι) :
    (w'.processors i).phase = (w.processors i).phase ∧
      (w'.processors i).challengePeriod = (w.processors i).challengePeriod := by
  cases World.step_cases hw with
  | wake _ _ =>
    by_cases hij : i = j
    · rw [hij, World.wakeTask_processor]
      exact ⟨rfl, rfl⟩
    · have hsame := World.step_frame hw (i := i) (fun he => hij (Option.some.inj he).symm)
      rw [hsame]
      exact ⟨rfl, rfl⟩

theorem Verdicts.step (h : Verdicts c i ls s vs)
    (hknown : World.PeriodKnown (s.world.processors i)) (hl : s.step c l = some s') :
    ∃ vs', Verdicts c i (ls ++ [l]) s' vs' := by
  cases step_cases hl with
  | @answerPeriod j e call hp hcall =>
    by_cases hij : i = j
    · subst hij
      exact ⟨vs, h.answerPeriod hp hcall⟩
    · exact ⟨vs, h.snoc rfl rfl (Function.update_of_ne hij _ _) rfl
        (if_neg (Ne.symm hij)) rfl⟩
  | @answerValidation j e log call call' hp hv hcall =>
    by_cases hij : i = j
    · subst hij
      exact ⟨vs, h.answerValidation hv hcall⟩
    · exact ⟨vs, h.snoc rfl rfl rfl (Function.update_of_ne hij _ _)
        (if_neg (Ne.symm hij)) rfl⟩
  | @step l world ha hw =>
    by_cases hi : World.processorOf l = some i
    · exact h.step_self hknown ha (World.step_processor hw hi)
    · have hsame : (s.follow c l world).world.processors i = s.world.processors i := by
        rw [follow_world, World.step_frame hw hi]
      refine ⟨vs, h.snoc (by rw [hsame]) (by rw [hsame]) (by rw [follow_challengePeriod])
        (follow_validation_of_ne hi) rfl ?_⟩
      simp [ContractsLabel.world, judgement_of_ne hi]
  | call _ _ _ _ hw =>
    exact ⟨vs, h.snoc (wake_phase hw i).1 (wake_phase hw i).2 rfl rfl rfl rfl⟩
  | noCall _ _ hw =>
    exact ⟨vs, h.snoc (wake_phase hw i).1 (wake_phase hw i).2 rfl rfl rfl rfl⟩

/-- In every run the answers a processor got are those of its challenge period
and of its validations, in order and without interleaving. -/
theorem exists_verdicts (h : Run (Step c) (start c) ls s) (i : ι) : ∃ vs, Verdicts c i ls s vs := by
  refine h.invariant (P := fun ls s => ∃ vs, Verdicts c i ls s vs) ⟨[], .init⟩ ?_
  intro ls s l s' hr ih hl
  obtain ⟨vs, hvs⟩ := ih
  exact hvs.step (World.EventsInv.run ((toWorld c).run hr) i).period hl

/-! ## What a challenge rests on -/

/-- What is behind a call of processor `i` that challenges: a log it was sent,
and its verdict on this log. -/
structure RestsOn (c : ι → ScribeContractInstance) (i : ι) (ls : List (ContractsLabel ι))
    (s : Contracts ι) (call : Call ContractI (ContractResult TxHash)) (v : Verdict) : Prop where
  sent : .send i (.opPoked v.log) ∈ worldLabels ls
  verdict : ∃ r : UInt16, (s.challengePeriod i).result = some (.ok r) ∧
    Returns ((c i).isOpPokeChallengeable v.log r.toUInt64) v.answers (.ok true) ∧
    (c i).FoundInvalid v.log r.toUInt64 v.answers
  answered : v.answers <:+: answersTo i ls
  requests : ∀ op ∈ call.requests, (c i).Challenges v.log.data.schnorrData call.answered op

theorem sent_of_judged {w : World ι} {wls : List (WorldLabel ι)}
    (h : Run World.Step (World.start ι) wls w) {log : Log OpPoked} {r : ContractResult Bool}
    (hj : .judged i log r ∈ wls) : .send i (.opPoked log) ∈ wls := by
  have hmem := World.mem_judgedLogs.mpr ⟨r, hj⟩
  refine World.mem_sentLogs.mp ?_
  rw [World.run_fifo h]
  exact List.mem_append_left _ hmem

/-- A verdict is given on a part of the answers the processor got. -/
theorem Verdicts.infix (h : Verdicts c i ls s vs) {v : Verdict} (hv : v ∈ vs) :
    v.answers <:+: answersTo i ls := by
  obtain ⟨us, ws, rfl⟩ := List.append_of_mem hv
  rw [h.answers, List.flatMap_append, List.flatMap_cons]
  exact ⟨(s.challengePeriod i).answered ++ us.flatMap Verdict.answers,
    ws.flatMap Verdict.answers ++ (s.validation i).elim [] Call.answered, by simp⟩

/-- What processor `i` judged is what its contract's validation came to on a
part of the answers it got. -/
theorem exists_verdict (h : Run (Step c) (start c) ls s) {log : Log OpPoked}
    {r : ContractResult Bool} (hj : .judged i log r ∈ worldLabels ls) :
    ∃ (answers : List ContractI.Event) (period : UInt16), answers <:+: answersTo i ls ∧
      (s.challengePeriod i).result = some (.ok period) ∧
      Returns ((c i).isOpPokeChallengeable log period.toUInt64) answers r := by
  obtain ⟨vs, hvs⟩ := exists_verdicts h i
  have hverdict : (log, r) ∈ judgements i (worldLabels ls) :=
    List.mem_filterMap.mpr ⟨_, hj, if_pos rfl⟩
  rw [hvs.judged] at hverdict
  obtain ⟨v, hv, heq⟩ := List.mem_map.mp hverdict
  obtain ⟨rfl, rfl⟩ := Prod.mk.inj heq
  obtain ⟨period, hperiod, hreturns⟩ := hvs.given v hv
  obtain ⟨p, hp, rfl⟩ := hvs.known period hperiod
  exact ⟨v.answers, p, hvs.infix hv, hp, hreturns⟩

theorem challenge_restsOn (h : Run (Step c) (start c) ls s)
    {call : Call ContractI (ContractResult TxHash)} (hcall : s.challenge i k = some call) :
    ∃ v, RestsOn c i ls s call v := by
  have hworld : Run World.Step (World.start ι) (worldLabels ls) s.world := (toWorld c).run h
  have htask := TaskCalls.run h i k
  rw [hcall] at htask
  generalize ht : (s.world.processors i).tasks[k]? = found at htask
  cases htask with
  | @called task _ hprogram _ _ =>
    -- the task was spawned on a verdict
    obtain ⟨-, hdata⟩ := (World.TasksInv.run hworld).task ht
    obtain ⟨log, hj, hlog⟩ := World.mem_challengeable (List.mem_of_getElem? hdata)
    obtain ⟨answers, period, hinfix, hperiod, hreturns⟩ := exists_verdict h hj
    refine ⟨⟨log, answers, .ok true⟩, sent_of_judged hworld hj, ⟨period, hperiod, hreturns, ?_⟩,
      hinfix, ?_⟩
    · exact ScribeContractInstance.isOpPokeChallengeable_ok hreturns
    · exact ScribeContractInstance.challenge_requests (by rw [hprogram, hlog])

end Contracts
end Challenger
