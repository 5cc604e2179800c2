import Challenger.Lib.Streak
import Challenger.PollerTask

/-! # When the poller gives up

`retry_count` is the streak of failed polls, so the loop returns
`MaxRetryAttemptsExceeded` at the first poll that ends a block of one failure
more than the retries allowed, and at no other (`start_gives_up_exactly`). How
many polls fail in total makes no difference. -/
namespace Challenger
open Lib Lib.Async

namespace PollerTask

/-- Whether each poll that returned had failed, in order. -/
def failures (ls : List PollerLabel) : List Bool :=
  ls.filterMap fun
    | .polled (.error _) => some true
    | .polled (.ok _) => some false
    | _ => none

/-- One failure more than the retries allowed. -/
def tooMany : List Bool := List.replicate (maxRetryCount + 1) true

@[simp] theorem failures_snoc_tick (ls : List PollerLabel) :
    failures (ls ++ [.tick]) = failures ls := by simp [failures]

@[simp] theorem failures_snoc_answer (ls : List PollerLabel) (e : PollI.Event) :
    failures (ls ++ [.answer e]) = failures ls := by simp [failures]

@[simp] theorem failures_snoc_ok (ls : List PollerLabel) (u : Unit) :
    failures (ls ++ [.polled (.ok u)]) = failures ls ++ [false] := by simp [failures]

@[simp] theorem failures_snoc_error (ls : List PollerLabel) (e : PollerError) :
    failures (ls ++ [.polled (.error e)]) = failures ls ++ [true] := by simp [failures]

/-- The streak is the counter while the loop runs. A loop that has returned
did so at the end of the first block. -/
structure RetryInv (ls : List PollerLabel) (s : PollerTask) : Prop where
  running : (∀ r, s.phase ≠ .stopped r) →
    s.poller.retryCount = streak (failures ls) ∧ ¬ tooMany <:+: failures ls
  stopped : ∀ r, s.phase = .stopped r →
    r = .error (.maxRetryAttemptsExceeded maxRetryCount) ∧
      tooMany <:+ failures ls ∧ ¬ tooMany <:+: (failures ls).dropLast
  le : s.poller.retryCount ≤ maxRetryCount

variable {p : Poller} {ls : List PollerLabel} {s s' : PollerTask}

theorem RetryInv.init (hp : p.retryCount = 0) : RetryInv [] ⟨p, .idle⟩ := by
  constructor
  case running => intro _; exact ⟨hp, by decide⟩
  case stopped => intro r h; cases h
  case le => show p.retryCount ≤ _; omega

/-- A failed poll: one more in the streak, which may end the first block. -/
theorem RetryInv.failed (h : RetryInv ls s) (hs : ∀ r, s.phase ≠ .stopped r) {p' : Poller}
    (hp' : p'.retryCount = s.poller.retryCount) (e : PollerError) :
    RetryInv (ls ++ [.polled (.error e)]) (afterPoll p' (.error e)) := by
  obtain ⟨hcount, hno⟩ := h.running hs
  have hle := h.le
  by_cases hmax : maxRetryCount ≤ p'.retryCount
  · simp only [afterPoll, if_pos hmax]
    constructor
    case running => intro hs; exact absurd rfl (hs _)
    case stopped =>
      intro r hr
      refine ⟨(PollerPhase.stopped.inj hr).symm, ?_, ?_⟩
      · rw [failures_snoc_error, tooMany, replicate_suffix_iff, streak_snoc_true]
        omega
      · rw [failures_snoc_error, List.dropLast_concat]
        exact hno
    case le => show p'.retryCount ≤ _; omega
  · simp only [afterPoll, if_neg hmax]
    constructor
    case running =>
      intro _
      show p'.retryCount + 1 = _ ∧ _
      rw [failures_snoc_error, streak_snoc_true, tooMany, replicate_infix_snoc, streak_snoc_true]
      refine ⟨by omega, ?_⟩
      rintro (hblock | hlen)
      · exact hno hblock
      · omega
    case stopped => intro r hr; cases hr
    case le => show p'.retryCount + 1 ≤ _; omega

/-- A successful poll resets the streak and the counter. -/
theorem RetryInv.succeeded (h : RetryInv ls s) (hs : ∀ r, s.phase ≠ .stopped r) (p' : Poller)
    (u : Unit) : RetryInv (ls ++ [.polled (.ok u)]) (afterPoll p' (.ok u)) := by
  constructor
  case running =>
    intro _
    show 0 = _ ∧ _
    rw [failures_snoc_ok, streak_snoc_false, tooMany, replicate_infix_snoc, streak_snoc_false]
    refine ⟨rfl, ?_⟩
    rintro (hblock | hlen)
    · exact (h.running hs).2 hblock
    · omega
  case stopped => intro r hr; cases hr
  case le => exact Nat.zero_le _

variable [ScribeAbi]

theorem RetryInv.step (h : RetryInv ls s) (htask : TaskInv p ls s) {l : PollerLabel}
    (hl : s.step l = some s') (hno : l ≠ .cancelled) : RetryInv (ls ++ [l]) s' := by
  cases step_cases hl with
  | cancelled _ => exact absurd rfl hno
  | tick hidle =>
    constructor
    case running =>
      intro _
      rw [failures_snoc_tick]
      exact h.running fun r hr => by rw [hidle] at hr; cases hr
    case stopped => intro r hr; cases hr
    case le => exact h.le
  | answer hp hq =>
    constructor
    case running =>
      intro _
      rw [failures_snoc_answer]
      exact h.running fun r hr => by rw [hp] at hr; cases hr
    case stopped => intro r hr; cases hr
    case le => exact h.le
  | @polled t r p' hp =>
    obtain ⟨c, hmoved⟩ := pollForNewEvents_moved (htask.poll _ _ hp).1
    have hs : ∀ r, s.phase ≠ .stopped r := fun r hr => by rw [hp] at hr; cases hr
    cases r with
    | ok u => exact h.succeeded hs p' u
    | error e => exact h.failed hs (by rw [hmoved]; rfl) e

theorem RetryInv.run (hp : p.retryCount = 0) (h : Run (Takes PollerTask.step) ⟨p, .idle⟩ ls s)
    (hno : .cancelled ∉ ls) : RetryInv ls s := by
  refine h.invariant (P := fun ls s => .cancelled ∉ ls → RetryInv ls s)
    (fun _ => .init hp) ?_ hno
  intro ls s l s' hr ih hl hno
  rw [List.mem_append, List.mem_singleton, not_or] at hno
  exact (ih hno.1).step (.run hr) hl (Ne.symm hno.2)

/-- A poll that finds nothing to scan has returned `Ok`. -/
theorem skips_ok (htask : TaskInv p ls s) {t q} (hp : s.phase = .polling t q)
    {latestBlock : UInt64} (hhead : Poller.headRead t = some latestBlock)
    (hle : latestBlock ≤ (s.poller.firstRun latestBlock).lastProcessesBlock) :
    q = .done (.ok (), s.poller.firstRun latestBlock) := by
  cases Poller.pollForNewEvents_cases (htask.poll t q hp).1 with
  | start => cases hhead
  | noHead e => cases hhead
  | skip n _ => cases hhead; rfl
  | scan n hlt _ => cases hhead; exact absurd hle hlt

/-! ## Every sequence of outcomes -/

omit [ScribeAbi] in
/-- The labels of a poll that ends with the head: a failed call, or block 0,
which no cursor is behind. -/
def headPoll (failed : Bool) : List PollerLabel :=
  if failed then [.tick, .answer ⟨.getBlockNumber, .error (.rpcError ⟨"timeout"⟩)⟩,
    .polled (.error (.providerError (.rpcError ⟨"timeout"⟩)))]
  else [.tick, .answer ⟨.getBlockNumber, .ok 0⟩, .polled (.ok ())]

theorem run_headPoll (q : Poller) (failed : Bool) :
    ∃ q' r, Run (Takes PollerTask.step) ⟨q, .idle⟩ (headPoll failed) (afterPoll q' r) := by
  cases failed with
  | true => exact ⟨q, _, run_of_runSteps rfl⟩
  | false =>
    have hle : (0 : UInt64) ≤ (q.firstRun 0).lastProcessesBlock := by
      rw [UInt64.le_iff_toNat_le]; exact Nat.zero_le _
    have hskip : q.pollForNewEvents.answer ⟨.getBlockNumber, .ok 0⟩ =
        some (.done (.ok (), q.firstRun 0)) := by
      show some (if (0 : UInt64) ≤ (q.firstRun 0).lastProcessesBlock then
        pure (.ok (), q.firstRun 0) else (q.firstRun 0).scan 0) = _
      rw [if_pos hle]
      rfl
    refine ⟨q.firstRun 0, .ok (), run_of_runSteps ?_⟩
    simp [headPoll, runSteps, PollerTask.step, hskip]

theorem exists_outcomes (hp : p.retryCount = 0) {os : List Bool}
    (hos : ¬ tooMany <:+: os.dropLast) :
    ∃ ls s, Run (Takes PollerTask.step) ⟨p, .idle⟩ ls s ∧ .cancelled ∉ ls ∧ failures ls = os ∧
      ∀ t q, s.phase ≠ .polling t q := by
  induction os using List.reverseRecOn with
  | nil => exact ⟨[], _, .nil, List.not_mem_nil, rfl, fun t q h => by cases h⟩
  | append_singleton os b ih =>
    rw [List.dropLast_concat] at hos
    obtain ⟨ls, s, hrun, hno, rfl, hphase⟩ :=
      ih fun h => hos (h.trans (List.dropLast_prefix _).isInfix)
    have hinv := RetryInv.run hp hrun hno
    obtain ⟨q, phase⟩ := s
    cases phase with
    | polling t q => exact absurd rfl (hphase t q)
    | stopped r => exact absurd (hinv.stopped r rfl).2.1.isInfix hos
    | idle =>
      obtain ⟨q', r, hpoll⟩ := run_headPoll q b
      refine ⟨_, _, hrun.append hpoll, ?_, ?_, (afterPoll_poller q' r).2⟩
      · cases b <;> simp [hno, headPoll]
      · cases b <;> simp [failures, headPoll]

/-- **The poller gives up exactly on one failure more than the retries
allowed, in a row.** While the loop runs, `retry_count` is the number of
consecutive failures and no block of six has occurred; a loop that has returned
did so with `MaxRetryAttemptsExceeded`, at the poll that ended the first block;
polls that find nothing to scan reset the count. Every sequence of outcomes
without a block before its end is taken by some run. -/
theorem start_gives_up_exactly (hp : p.retryCount = 0) :
    (∀ {ls s}, Run (Takes PollerTask.step) ⟨p, .idle⟩ ls s → .cancelled ∉ ls →
      s.poller.retryCount ≤ maxRetryCount ∧
      ((∀ r, s.phase ≠ .stopped r) →
        s.poller.retryCount = streak (failures ls) ∧ ¬ tooMany <:+: failures ls) ∧
      (∀ r, s.phase = .stopped r → r = .error (.maxRetryAttemptsExceeded maxRetryCount) ∧
        tooMany <:+ failures ls ∧ ¬ tooMany <:+: (failures ls).dropLast) ∧
      (∀ t q latestBlock, s.phase = .polling t q → Poller.headRead t = some latestBlock →
        latestBlock ≤ (s.poller.firstRun latestBlock).lastProcessesBlock →
        ∃ s', s.step (.polled (.ok ())) = some s' ∧ s'.phase = .idle ∧ s'.poller.retryCount = 0)) ∧
    ∀ os, ¬ tooMany <:+: os.dropLast →
      ∃ ls s, Run (Takes PollerTask.step) ⟨p, .idle⟩ ls s ∧ .cancelled ∉ ls ∧ failures ls = os ∧
        ∀ t q, s.phase ≠ .polling t q := by
  refine ⟨fun {ls s} hrun hno => ?_, fun os hos => exists_outcomes hp hos⟩
  have hinv := RetryInv.run hp hrun hno
  refine ⟨hinv.le, hinv.running, hinv.stopped, ?_⟩
  intro t q latestBlock hphase hhead hle
  have hq := skips_ok (.run hrun) hphase hhead hle
  refine ⟨afterPoll (s.poller.firstRun latestBlock) (.ok ()), ?_, rfl, rfl⟩
  simp [PollerTask.step, hphase, hq]

omit [ScribeAbi] in
/-- A poller whose first six polls fail stops. -/
theorem start_gives_up_exactly_sample : ∃ ls s,
    Run (Takes (@PollerTask.step sampleAbi)) ⟨samplePoller 9 (some 2), .idle⟩ ls s ∧
      failures ls = tooMany ∧
      s.phase = .stopped (.error (.maxRetryAttemptsExceeded maxRetryCount)) := by
  obtain ⟨hruns, hall⟩ := @start_gives_up_exactly (samplePoller 9 (some 2)) sampleAbi rfl
  obtain ⟨ls, s, hrun, hno, hfail, hphase⟩ := hall tooMany (by decide)
  obtain ⟨-, hrunning, hstopped, -⟩ := hruns hrun hno
  refine ⟨ls, s, hrun, hfail, ?_⟩
  cases h : s.phase with
  | polling t q => exact absurd h (hphase t q)
  | stopped r => rw [(hstopped r h).1]
  | idle =>
    have hblock := (hrunning fun r hr => by rw [h] at hr; cases hr).2
    rw [hfail] at hblock
    exact absurd List.infix_rfl hblock

end PollerTask
end Challenger
