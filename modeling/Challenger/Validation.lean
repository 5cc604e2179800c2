import Challenger.Challenge

/-! # The clock in the validation

A log is stale when its age is over the challenge period. The age is a `u64`
difference of two clocks: the local one and the chain's. Where the chain is
not ahead, the decision is the one exact arithmetic gives, and only there
(`isOpPokeChallengeable_exact_iff`): a release build takes a log from the
future for a very old one, a debug build panics. -/
namespace Challenger
open Lib Lib.Async

/-- The answers of the providers and of the clock. -/
abbrev Answers := ∀ op : ContractOp, op.Ans

/-- The local time. -/
def clock (answers : Answers) : UInt64 := answers .now

namespace ContractM
variable {α β : Type} {answers : Answers}

/-- The result of a program with these answers. -/
def eval (answers : Answers) (p : ContractM α) : α := Async.eval answers p

@[simp] theorem eval_done (a : α) : eval answers (.done a) = a := rfl

@[simp] theorem eval_bind (p : ContractM α) (f : α → ContractM β) :
    eval answers (p >>= f) = eval answers (f (eval answers p)) := Async.eval_bind p f

@[simp] theorem eval_getBlock (number : UInt64) :
    eval answers (getBlock number) = answers (.getBlock number) := Async.eval_request _

@[simp] theorem eval_now : eval answers now = clock answers := Async.eval_request _

@[simp] theorem eval_constructPokeMessage (contract : Address) (pokeData : PokeData) :
    eval answers (constructPokeMessage contract pokeData) =
      answers (.constructPokeMessage contract pokeData) := Async.eval_request _

@[simp] theorem eval_isAcceptableSchnorrSignatureNow (contract : Address) (message : B256)
    (schnorrData : SchnorrData) :
    eval answers (isAcceptableSchnorrSignatureNow contract message schnorrData) =
      answers (.isAcceptableSchnorrSignatureNow contract message schnorrData) := Async.eval_request _

end ContractM

namespace ScribeContractInstance
variable (c : ScribeContractInstance)

/-! ## The decision of a debug build -/

/-- `a - b` in a debug build, which panics on underflow (`none`). -/
def checkedSub (a b : UInt64) : Option UInt64 := if b ≤ a then some (a - b) else none

def isLogStaleDebug (log : Log OpPoked) (challengePeriod : UInt64) :
    ContractM (Option (ContractResult Bool)) := do
  match ← eventTimestamp log with
  | .error e => pure (some (.error e))
  | .ok eventTimestamp =>
    let currentTimestamp ← ContractM.now
    match checkedSub currentTimestamp eventTimestamp with
    | none => pure none
    | some age => pure (some (.ok (decide (age > challengePeriod))))

def isOpPokeChallengeableDebug (opPokedLog : Log OpPoked) (challengePeriod : UInt64) :
    ContractM (Option (ContractResult Bool)) := do
  match ← isLogStaleDebug opPokedLog challengePeriod with
  | none => pure none
  | some (.error e) => pure (some (.error e))
  | some (.ok true) => pure (some (.ok false))
  | some (.ok false) =>
    match ← c.isSignatureValid opPokedLog.data with
    | .error e => pure (some (.error e))
    | .ok valid => pure (some (.ok !valid))

/-! ## The decision in exact arithmetic -/

/-- The timestamp of a log as these answers give it. -/
def timestampRef (answers : Answers) (log : Log OpPoked) : Option UInt64 :=
  match log.blockTimestamp, log.blockNumber with
  | some timestamp, _ => some timestamp
  | none, none => none
  | none, some blockNumber =>
    match answers (.getBlock blockNumber) with
    | .ok (some timestamp) => some timestamp
    | _ => none

/-- Whether the signature is acceptable, when both calls succeed. -/
def acceptableRef (answers : Answers) (opPoked : OpPoked) : Option Bool :=
  match answers (.constructPokeMessage c.address opPoked.pokeData) with
  | .error _ => none
  | .ok message =>
    match answers (.isAcceptableSchnorrSignatureNow c.address message opPoked.schnorrData) with
    | .error _ => none
    | .ok acceptable => some acceptable

/-- The decision over the integers, `none` being an error. -/
def challengeableRef (answers : Answers) (log : Log OpPoked) (challengePeriod : UInt64) :
    Option Bool :=
  match timestampRef answers log with
  | none => none
  | some timestamp =>
    if (clock answers).toNat > timestamp.toNat + challengePeriod.toNat then some false
    else (c.acceptableRef answers log.data).map (!·)

variable {c} {answers : Answers} {log : Log OpPoked} {challengePeriod : UInt64}

/-- With these answers a release build decides as exact arithmetic does. -/
def ReleaseExact (c : ScribeContractInstance) (answers : Answers) (log : Log OpPoked)
    (challengePeriod : UInt64) : Prop :=
  ∀ t r, Returns (c.isOpPokeChallengeable log challengePeriod) t r → AnsweredBy answers t →
    r.toOption = c.challengeableRef answers log challengePeriod

/-- With these answers a debug build does not panic. -/
def DebugReturns (c : ScribeContractInstance) (answers : Answers) (log : Log OpPoked)
    (challengePeriod : UInt64) : Prop :=
  ∀ t r, Returns (c.isOpPokeChallengeableDebug log challengePeriod) t r → AnsweredBy answers t →
    r ≠ none

/-! ## Evaluating the validation -/

theorem eval_eventTimestamp (answers : Answers) (log : Log OpPoked) :
    (ContractM.eval answers (eventTimestamp log)).toOption = timestampRef answers log := by
  unfold eventTimestamp timestampRef
  cases log.blockTimestamp with
  | some timestamp => rfl
  | none =>
    cases log.blockNumber with
    | none => rfl
    | some blockNumber =>
      simp only [getTimestampFromBlock, ContractM.eval_bind, ContractM.eval_getBlock]
      cases answers (.getBlock blockNumber) with
      | error e => rfl
      | ok block => cases block <;> rfl

theorem eval_isSignatureValid (c : ScribeContractInstance) (answers : Answers) (opPoked : OpPoked) :
    (ContractM.eval answers (c.isSignatureValid opPoked)).toOption =
      c.acceptableRef answers opPoked := by
  unfold isSignatureValid acceptableRef
  simp only [ContractM.eval_bind, ContractM.eval_constructPokeMessage]
  cases answers (.constructPokeMessage c.address opPoked.pokeData) with
  | error e => rfl
  | ok message =>
    simp only [wrapContractError, ContractM.eval_bind, ContractM.eval_isAcceptableSchnorrSignatureNow]
    cases answers (.isAcceptableSchnorrSignatureNow c.address message opPoked.schnorrData) <;> rfl

/-- Without a timestamp both builds fail. -/
theorem eval_of_error {e : ContractError}
    (h : ContractM.eval answers (eventTimestamp log) = .error e) :
    ContractM.eval answers (c.isOpPokeChallengeable log challengePeriod) = .error e ∧
      ContractM.eval answers (c.isOpPokeChallengeableDebug log challengePeriod) =
        some (.error e) := by
  simp [isOpPokeChallengeable, isOpPokeChallengeableDebug, isLogStale, isLogStaleDebug, h]

/-- A release build compares the wrapped age. -/
theorem eval_release_of_ok {timestamp : UInt64}
    (h : ContractM.eval answers (eventTimestamp log) = .ok timestamp) :
    (ContractM.eval answers (c.isOpPokeChallengeable log challengePeriod)).toOption =
      if clock answers - timestamp > challengePeriod then some false
      else (c.acceptableRef answers log.data).map (!·) := by
  rw [← eval_isSignatureValid]
  simp only [isOpPokeChallengeable, isLogStale, ContractM.eval_bind, pure_eq, h, ContractM.eval_done,
    ContractM.eval_now]
  by_cases hage : clock answers - timestamp > challengePeriod
  · simp only [hage, decide_true, if_true, ContractM.eval_done]
    rfl
  · simp only [hage, decide_false, if_false, ContractM.eval_bind]
    cases ContractM.eval answers (c.isSignatureValid log.data) <;> rfl

/-- A debug build panics when the timestamp is ahead of the clock. -/
theorem eval_debug_of_ok {timestamp : UInt64}
    (h : ContractM.eval answers (eventTimestamp log) = .ok timestamp) :
    ContractM.eval answers (c.isOpPokeChallengeableDebug log challengePeriod) ≠ none ↔
      timestamp ≤ clock answers := by
  simp only [isOpPokeChallengeableDebug, isLogStaleDebug, checkedSub, ContractM.eval_bind, pure_eq,
    h, ContractM.eval_now]
  by_cases hle : timestamp ≤ clock answers
  · simp only [hle, if_true, ContractM.eval_done, iff_true]
    cases decide (clock answers - timestamp > challengePeriod) with
    | true => exact Option.some_ne_none _
    | false =>
      simp only [ContractM.eval_bind]
      cases ContractM.eval answers (c.isSignatureValid log.data) <;> exact Option.some_ne_none _
  · simp only [hle, if_false, ContractM.eval_done, iff_false, not_not]

/-! ## When the decision is exact -/

/-- The age is right as long as the timestamp is not ahead of the clock. -/
theorem age_gt_iff {now timestamp : UInt64} (h : timestamp ≤ now) :
    now - timestamp > challengePeriod ↔ now.toNat > timestamp.toNat + challengePeriod.toNat := by
  rw [UInt64.le_iff_toNat_le] at h
  show challengePeriod < now - timestamp ↔ _
  rw [UInt64.lt_iff_toNat_lt, UInt64.toNat_sub_of_le _ _ (UInt64.le_iff_toNat_le.mpr h)]
  omega

/-- Ahead of the clock it is what is missing to `2 ^ 64`. -/
theorem age_gt_iff_of_lt {now timestamp : UInt64} (h : ¬ timestamp ≤ now) :
    now - timestamp > challengePeriod ↔
      challengePeriod.toNat < 2 ^ 64 - (timestamp.toNat - now.toNat) := by
  have := now.toNat_lt
  have := timestamp.toNat_lt
  rw [UInt64.le_iff_toNat_le] at h
  show challengePeriod < now - timestamp ↔ _
  rw [UInt64.lt_iff_toNat_lt, UInt64.toNat_sub]
  omega

theorem releaseExact_iff_eval : ReleaseExact c answers log challengePeriod ↔
    (ContractM.eval answers (c.isOpPokeChallengeable log challengePeriod)).toOption =
      c.challengeableRef answers log challengePeriod :=
  forall_returns_iff (P := fun r : ContractResult Bool =>
    r.toOption = c.challengeableRef answers log challengePeriod)

theorem debugReturns_iff_eval : DebugReturns c answers log challengePeriod ↔
    ContractM.eval answers (c.isOpPokeChallengeableDebug log challengePeriod) ≠ none :=
  forall_returns_iff (P := fun r : Option (ContractResult Bool) => r ≠ none)

/-- Without a timestamp both builds return the error. -/
theorem exact_of_error {e : ContractError}
    (h : ContractM.eval answers (eventTimestamp log) = .error e) :
    timestampRef answers log = none ∧ ReleaseExact c answers log challengePeriod ∧
      DebugReturns c answers log challengePeriod := by
  have hts : timestampRef answers log = none := by
    rw [← eval_eventTimestamp, h]; rfl
  obtain ⟨hrelease, hdebug⟩ := @eval_of_error c answers log challengePeriod e h
  refine ⟨hts, ?_, ?_⟩
  · rw [releaseExact_iff_eval, hrelease, challengeableRef, hts]; rfl
  · rw [debugReturns_iff_eval, hdebug]; exact Option.some_ne_none _

/-- A release build is right about a timestamp that is not ahead of the clock,
and about one that is so far ahead that its age wraps below the period. The
rest it takes for stale, which is right if the signature is acceptable. -/
theorem releaseExact_of_ok {timestamp : UInt64}
    (h : ContractM.eval answers (eventTimestamp log) = .ok timestamp) :
    ReleaseExact c answers log challengePeriod ↔ timestamp ≤ clock answers ∨
      2 ^ 64 - (timestamp.toNat - (clock answers).toNat) ≤ challengePeriod.toNat ∨
      c.acceptableRef answers log.data = some true := by
  have hts : timestampRef answers log = some timestamp := by
    rw [← eval_eventTimestamp, h]; rfl
  rw [releaseExact_iff_eval, eval_release_of_ok h, challengeableRef, hts]
  show (if _ then _ else _) = (if _ then _ else _) ↔ _
  by_cases hle : timestamp ≤ clock answers
  · simp only [age_gt_iff hle, hle, true_or]
  · have hfresh : ¬ (clock answers).toNat > timestamp.toNat + challengePeriod.toNat := by
      rw [UInt64.le_iff_toNat_le] at hle
      omega
    rw [if_neg hfresh]
    have hage : clock answers - timestamp > challengePeriod ↔ _ := age_gt_iff_of_lt hle
    by_cases hstale : clock answers - timestamp > challengePeriod
    · have hlt := hage.mp hstale
      simp only [hstale, hle, if_true, false_or, Nat.not_le.mpr hlt]
      cases c.acceptableRef answers log.data with
      | none => simp
      | some acceptable => cases acceptable <;> simp
    · have hge := Nat.not_lt.mp fun hlt => hstale (hage.mpr hlt)
      simp only [hstale, if_false, hge, true_or, or_true]

/-- A local clock at 100 and a chain that is five seconds ahead of it. The
signature is not acceptable. -/
def skewedAnswers : Answers
  | .now => (100 : UInt64)
  | .getBlock _ => .ok (some 105)
  | .constructPokeMessage _ _ => .ok 0
  | .isAcceptableSchnorrSignatureNow _ _ _ => .ok false
  | .opChallengePeriod _ => .ok 1200
  | .fill _ => .ok none
  | .sendRawTransaction _ => .ok sampleHash
  | .watch _ => .ok sampleHash
  | .getTransactionReceipt _ => .ok none
  | .getTransactionCount _ => .ok (0 : Nat)
  | .send _ => .ok sampleHash
  | .incChallengeCounter _ => ()

def sampleOpPokedLog : Log OpPoked := { sampleLog 10 1 with data := sampleOpPoked }

/-- A fresh log with an invalid signature that is not challenged. -/
theorem skewed_log_ignored :
    (ContractM.eval skewedAnswers
      ((sampleContract true).isOpPokeChallengeable sampleOpPokedLog 1200)).toOption = some false ∧
    (sampleContract true).challengeableRef skewedAnswers sampleOpPokedLog 1200 = some true ∧
    ¬ ReleaseExact (sampleContract true) skewedAnswers sampleOpPokedLog 1200 ∧
    ¬ DebugReturns (sampleContract true) skewedAnswers sampleOpPokedLog 1200 := by
  have h : ContractM.eval skewedAnswers (eventTimestamp sampleOpPokedLog) = .ok 105 := rfl
  have hresult : (ContractM.eval skewedAnswers
      ((sampleContract true).isOpPokeChallengeable sampleOpPokedLog 1200)).toOption = some false := by
    rw [eval_release_of_ok h]
    rfl
  have href : (sampleContract true).challengeableRef skewedAnswers sampleOpPokedLog 1200 =
      some true := rfl
  refine ⟨hresult, href, ?_, ?_⟩
  · rw [releaseExact_iff_eval, hresult, href]
    intro hsame
    cases hsame
  · rw [debugReturns_iff_eval, eval_debug_of_ok h]
    show ¬ (105 : UInt64) ≤ 100
    decide

/-- **The decision is the exact one where the chain is not ahead of the local
clock.** A release build takes a log from the future for stale, unless its age
wraps to at most the challenge period; a debug build panics. So the decision is
exact in both if and only if the timestamp, when there is one, is not ahead;
the second part says what remains right in a release build. -/
theorem isOpPokeChallengeable_exact_iff (c : ScribeContractInstance) (answers : Answers)
    (log : Log OpPoked) (challengePeriod : UInt64) :
    (ReleaseExact c answers log challengePeriod ∧ DebugReturns c answers log challengePeriod ↔
      ∀ timestamp, timestampRef answers log = some timestamp →
        timestamp.toNat ≤ (clock answers).toNat) ∧
    (ReleaseExact c answers log challengePeriod ↔
      ∀ timestamp, timestampRef answers log = some timestamp →
        timestamp.toNat ≤ (clock answers).toNat ∨
        2 ^ 64 - (timestamp.toNat - (clock answers).toNat) ≤ challengePeriod.toNat ∨
        c.acceptableRef answers log.data = some true) := by
  cases h : ContractM.eval answers (eventTimestamp log) with
  | error e =>
    obtain ⟨hts, hrelease, hdebug⟩ := @exact_of_error c answers log challengePeriod e h
    simp [hts, hrelease, hdebug]
  | ok timestamp =>
    have hts : timestampRef answers log = some timestamp := by
      rw [← eval_eventTimestamp, h]; rfl
    have hrelease : ReleaseExact c answers log challengePeriod ↔ _ := releaseExact_of_ok h
    simp only [hts, Option.some.injEq, forall_eq', ← UInt64.le_iff_toNat_le]
    refine ⟨?_, hrelease⟩
    rw [debugReturns_iff_eval, eval_debug_of_ok h, hrelease]
    exact ⟨fun hboth => hboth.2, fun hle => ⟨.inl hle, hle⟩⟩

end ScribeContractInstance
end Challenger
