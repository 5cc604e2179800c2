import Challenger.ProcessorEvents

/-! # Cancelled before the call

Cancelling a task whose delay is not over, or over and not yet noticed, is
meant to keep it from calling the contract. When the task is woken with both
branches of its `select!` ready, the branch that is polled first decides: the
call can still be made (`sampleTie_breaks`). A run keeps every cancelled task
from its call exactly when the cancellation comes first at each such wake-up
(`cancelledNeverStarts_iff`). -/
namespace Challenger
open Lib

namespace World
variable {ι : Type} [DecidableEq ι] {w w' : World ι} {i j : ι} {k : Nat} {l : WorldLabel ι}
  {ls : List (WorldLabel ι)}

/-! ## One wake-up -/

section
variable {cancelled cancelledFirst elapsed : Bool} {phase : TaskPhase}
  {returned : Option (Except ContractError TxHash)}

theorem pollWork_calls : (pollWork phase returned).2 = true ↔ phase = .sleeping true := by
  unfold pollWork
  split <;> simp_all

theorem pollWork_sleeping (h : (pollWork phase returned).1 = .sleeping elapsed) :
    phase = .sleeping elapsed ∧ (pollWork phase returned).2 = false := by
  revert h
  unfold pollWork
  split <;> intro h
  · cases returned <;> cases h
  · cases returned <;> cases h
  · exact ⟨h, rfl⟩

theorem pollCancelled_sleeping (h : pollCancelled cancelled phase = .sleeping elapsed) :
    phase = .sleeping elapsed := by
  unfold pollCancelled at h
  split at h
  · cases h
  · split at h
    · cases h
    · exact h

/-- A wake-up calls the contract when the delay is over and the cancellation,
if it comes first, is not there. -/
theorem select_calls : (select cancelled cancelledFirst phase returned).2 = true ↔
    phase = .sleeping true ∧ (cancelledFirst = true → cancelled = false) := by
  unfold select
  cases cancelledFirst <;> cases cancelled <;> simp [pollWork_calls]

/-- A task sleeps after a wake-up only if it slept before and did not call. -/
theorem select_sleeping
    (h : (select cancelled cancelledFirst phase returned).1 = .sleeping elapsed) :
    phase = .sleeping elapsed ∧ (select cancelled cancelledFirst phase returned).2 = false := by
  unfold select at h ⊢
  cases cancelledFirst with
  | false => exact pollWork_sleeping (pollCancelled_sleeping h)
  | true =>
    cases cancelled with
    | false => exact pollWork_sleeping h
    | true => cases h

end

/-! ## One step -/

@[simp] theorem handleEvent_challenges (w : World ι) (i : ι) (event : Event) :
    (w.handleEvent i event).challenges = w.challenges := by
  cases event with
  | opPoked log => rcases handleEvent_opPoked w i log with h | h <;> rw [h]; rfl
  | opPokeChallengedSuccessfully _ => exact cancelChallenge_challenges w i

@[simp] theorem handleJudged_challenges (w : World ι) (i : ι) (log : Log OpPoked)
    (r : Except ContractError Bool) : (w.handleJudged i log r).challenges = w.challenges := by
  match r with
  | .ok true => exact spawnChallenge_challenges _ i log
  | .ok false => rfl
  | .error _ => rfl

/-- All a step can do to the calls: none is made, or a task that is woken
makes one. -/
inductive CallCases (w : World ι) (l : WorldLabel ι) (w' : World ι) : Prop where
  | same (h : w'.challenges = w.challenges)
  | call {i : ι} {k : Nat} {task : ChallengeTask ι} {cancelledFirst : Bool}
      {returned : Option (Except ContractError TxHash)}
      (hl : l = .wake i k cancelledFirst returned)
      (ht : (w.processors i).tasks[k]? = some task) (hp : task.phase = .sleeping true)
      (hfirst : cancelledFirst = true →
        ¬ Token.Cancelled w.cancelled task.childCancellationToken)
      (h : w'.challenges = w.challenges ++ [(i, k, task.schnorrData)])

theorem step_callCases (h : w.step l = some w') : CallCases w l w' := by
  cases step_cases h with
  | send _ => exact .same rfl
  | close => exact .same rfl
  | periodOk _ => exact .same rfl
  | periodError _ => exact .same rfl
  | recv _ _ => exact .same (handleEvent_challenges ..)
  | recvNone _ _ _ => exact .same rfl
  | judged _ => exact .same (handleJudged_challenges ..)
  | stop _ _ => exact .same rfl
  | shutdown => exact .same rfl
  | elapse _ _ => exact .same rfl
  | @wake i k task cancelledFirst returned ht _ =>
    by_cases hcalls : (select (Token.Cancelled w.cancelled task.childCancellationToken)
      cancelledFirst task.phase returned).2 = true
    · obtain ⟨hp, hfirst⟩ := select_calls.mp hcalls
      refine .call rfl ht hp (fun hf => of_decide_eq_false (hfirst hf)) ?_
      rw [wakeTask, if_pos hcalls]
    · refine .same ?_
      rw [wakeTask, if_neg hcalls]
      exact List.append_nil _

/-- A new call is that of a task that is woken. -/
theorem step_challenges (h : w.step l = some w') {data : SchnorrData}
    (hd : (i, k, data) ∈ w'.challenges) : (i, k, data) ∈ w.challenges ∨
      ∃ cancelledFirst returned task, l = .wake i k cancelledFirst returned ∧
        (w.processors i).tasks[k]? = some task ∧ task.phase = .sleeping true ∧
        (cancelledFirst = true → ¬ Token.Cancelled w.cancelled task.childCancellationToken) := by
  cases step_callCases h with
  | same he => rw [he] at hd; exact .inl hd
  | call hl ht hp hfirst he =>
    rw [he] at hd
    rcases List.mem_append.mp hd with hd | hd
    · exact .inl hd
    · cases List.mem_singleton.mp hd
      exact .inr ⟨_, _, _, hl, ht, hp, hfirst⟩

/-- All a step can do to the cancelled tokens. -/
inductive CancelCases (w : World ι) (l : WorldLabel ι) (w' : World ι) : Prop where
  | same (h : w'.cancelled = w.cancelled)
  | shutdown (hl : l = .shutdown) (h : w'.cancelled = Token.root :: w.cancelled)
  | stored {i : ι} {t : Token (ι × Nat)} (hi : processorOf l = some i)
      (ht : (w.processors i).challengeProcessCancelationToken = some t)
      (h : w'.cancelled = t :: w.cancelled)

theorem cancelCases_cancelChallenge {p : ScribeEventsProcessor ι} (hi : processorOf l = some i)
    (hw' : w'.cancelled = ((w.setProcessor i p).cancelChallenge i).cancelled)
    (hp : p.challengeProcessCancelationToken =
      (w.processors i).challengeProcessCancelationToken) : CancelCases w l w' := by
  rw [cancelChallenge_cancelled, setProcessor_self, hp] at hw'
  cases ht : (w.processors i).challengeProcessCancelationToken with
  | none => rw [ht] at hw'; exact .same hw'
  | some t => rw [ht] at hw'; exact .stored hi ht hw'

theorem step_cancelCases (h : w.step l = some w') : CancelCases w l w' := by
  cases step_cases h with
  | send _ => exact .same rfl
  | close => exact .same rfl
  | periodOk _ => exact .same rfl
  | periodError _ => exact .same rfl
  | @recv i event rest _ _ =>
    cases event with
    | opPoked log =>
      rcases handleEvent_opPoked (w.setProcessor i { w.processors i with rx := rest }) i log with
        hw | hw <;> rw [hw] <;> exact .same rfl
    | opPokeChallengedSuccessfully _ =>
      exact cancelCases_cancelChallenge rfl rfl rfl
  | recvNone _ _ _ => exact .same rfl
  | @judged i log r _ =>
    match r with
    | .ok true => exact cancelCases_cancelChallenge rfl rfl rfl
    | .ok false => exact .same rfl
    | .error _ => exact .same rfl
  | stop _ _ => exact .same rfl
  | shutdown => exact .shutdown rfl rfl
  | elapse _ _ => exact .same rfl
  | wake _ _ => exact .same rfl

/-- What is cancelled stays cancelled. -/
theorem step_cancelled (h : w.step l = some w') {t : Token (ι × Nat)}
    (ht : Token.Cancelled w.cancelled t) : Token.Cancelled w'.cancelled t := by
  cases step_cancelCases h with
  | same he => rw [he]; exact ht
  | shutdown _ he => rw [he]; exact ht.mono fun c hc => List.mem_cons_of_mem _ hc
  | stored _ _ he => rw [he]; exact ht.mono fun c hc => List.mem_cons_of_mem _ hc

theorem setTaskPhase_task {k' : Nat} {phase : TaskPhase} {task' : ChallengeTask ι}
    (h : ((w.setTaskPhase j k' phase).processors i).tasks[k]? = some task') :
    ∃ task, (w.processors i).tasks[k]? = some task ∧
      (task' = task ∧ ¬ (j = i ∧ k' = k) ∨ (j = i ∧ k' = k) ∧ task'.phase = phase) := by
  by_cases hij : j = i
  · subst hij
    rw [setTaskPhase_processor, List.getElem?_modify] at h
    obtain ⟨task, ht, rfl⟩ := Option.map_eq_some_iff.mp h
    refine ⟨task, ht, ?_⟩
    by_cases hk : k' = k
    · exact .inr ⟨⟨rfl, hk⟩, by simp [hk]⟩
    · exact .inl ⟨by simp [hk], fun hc => hk hc.2⟩
  · rw [setTaskPhase, setProcessor_of_ne _ (Ne.symm hij)] at h
    exact ⟨task', h, .inl ⟨rfl, fun hc => hij hc.1⟩⟩

/-! ## A task that called does not sleep -/

def CalledAwake (w : World ι) : Prop := ∀ i k data, (i, k, data) ∈ w.challenges →
  ∀ task, (w.processors i).tasks[k]? = some task → ∀ elapsed, task.phase ≠ .sleeping elapsed

omit [DecidableEq ι] in
theorem CalledAwake.same (h : CalledAwake w) (hc : w'.challenges = w.challenges)
    (ht : ∀ j, (w'.processors j).tasks = (w.processors j).tasks) : CalledAwake w' := by
  intro i k data hd task htask
  rw [hc] at hd
  rw [ht] at htask
  exact h i k data hd task htask

theorem CalledAwake.setProcessor (h : CalledAwake w) {p : ScribeEventsProcessor ι}
    (ht : p.tasks = (w.processors i).tasks) : CalledAwake (w.setProcessor i p) :=
  h.same rfl (setProcessor_congr (fun p => p.tasks) ht)

theorem cancelChallenge_tasks (w : World ι) (i j : ι) :
    ((w.cancelChallenge i).processors j).tasks = (w.processors j).tasks := by
  by_cases hji : j = i
  · rw [hji, cancelChallenge_processor]
  · rw [cancelChallenge_of_ne hji]

theorem handleEvent_tasks (w : World ι) (i : ι) (event : Event) (j : ι) :
    ((w.handleEvent i event).processors j).tasks = (w.processors j).tasks := by
  cases event with
  | opPoked log =>
    rcases handleEvent_opPoked w i log with h | h <;> rw [h]
    refine setProcessor_congr (fun p => p.tasks) ?_ j
    rfl
  | opPokeChallengedSuccessfully _ => exact cancelChallenge_tasks w i j

theorem CalledAwake.spawn (h : CalledAwake w) (hinv : TasksInv ls w) (i : ι) (log : Log OpPoked) :
    CalledAwake (w.spawnChallenge i log) := by
  intro j k data hd task ht
  rw [spawnChallenge_challenges] at hd
  by_cases hji : j = i
  · -- a task that called is older than the new one
    subst hji
    have hk := (List.getElem?_eq_some_iff.mp (hinv.calls j k data hd)).1
    rw [← hinv.length] at hk
    rw [spawnChallenge_processor, List.getElem?_append_left hk] at ht
    exact h j k data hd task ht
  · rw [spawnChallenge_of_ne log hji] at ht
    exact h j k data hd task ht

theorem CalledAwake.step (h : CalledAwake w) (hinv : TasksInv ls w) (hl : w.step l = some w') :
    CalledAwake w' := by
  cases step_cases hl with
  | send _ => exact h.setProcessor rfl
  | close => exact h.setProcessor rfl
  | periodOk _ => exact h.setProcessor rfl
  | periodError _ => exact h.setProcessor rfl
  | @recv i event rest _ _ =>
    have hrx : CalledAwake (w.setProcessor i { w.processors i with rx := rest }) :=
      h.setProcessor rfl
    exact hrx.same (handleEvent_challenges _ i event) (handleEvent_tasks _ i event)
  | recvNone _ _ _ => exact h
  | @judged i log r _ =>
    have hidle : CalledAwake (w.setProcessor i { w.processors i with phase := .idle }) :=
      h.setProcessor rfl
    match r with
    | .ok true => exact hidle.spawn (hinv.setProcessor rfl rfl) i log
    | .ok false => exact hidle
    | .error _ => exact hidle
  | stop _ _ => exact h.setProcessor rfl
  | shutdown => exact h.same rfl fun _ => rfl
  | @elapse i k task ht hp =>
    intro j k' data hd task' ht' elapsed
    obtain ⟨task₁, ht₁, ⟨rfl, -⟩ | ⟨⟨rfl, rfl⟩, -⟩⟩ := setTaskPhase_task ht'
    · exact h j k' data hd _ ht₁ elapsed
    · exact absurd hp (h _ _ data hd task ht false)
  | @wake i k task cancelledFirst returned ht _ =>
    intro j k' data hd task' ht' elapsed hp'
    obtain ⟨task₁, ht₁, ⟨rfl, hne⟩ | ⟨⟨rfl, rfl⟩, hp⟩⟩ := setTaskPhase_task ht'
    · -- another task
      rcases List.mem_append.mp hd with hd | hd
      · exact h j k' data hd _ ht₁ elapsed hp'
      · split at hd
        · cases List.mem_singleton.mp hd
          exact hne ⟨rfl, rfl⟩
        · cases hd
    · rw [hp] at hp'
      obtain ⟨hsleep, hcalls⟩ := select_sleeping hp'
      rcases List.mem_append.mp hd with hd | hd
      · exact h _ _ data hd task ht elapsed hsleep
      · rw [hcalls] at hd
        cases hd

theorem CalledAwake.run (h : Run Step (start ι) ls w) : CalledAwake w :=
  h.invariant (P := fun _ w => CalledAwake w) (fun _ _ _ hd => absurd hd List.not_mem_nil)
    fun hr ih hl => ih.step (TasksInv.run hr) hl

/-! ## Runs -/

/-- The task's `select!` has both branches ready: the token is cancelled and
the delay is over, and the contract is not called yet. -/
def bothReady (w : World ι) (i : ι) (k : Nat) : Bool :=
  (w.processors i).tasks[k]?.any fun task =>
    task.phase = .sleeping true && Token.Cancelled w.cancelled task.childCancellationToken

/-- A task with both branches ready is woken with the cancellation first. -/
def CancellationFirst (w : World ι) : WorldLabel ι → Prop
  | .wake i k false _ => bothReady w i k = false
  | _ => True

instance (w : World ι) (l : WorldLabel ι) : Decidable (CancellationFirst w l) := by
  unfold CancellationFirst; split <;> infer_instance

/-- At no point of the run is there a task with a cancelled token that has not
called the contract then and has called it at a later point. -/
def CancelledNeverStarts (ls : List (WorldLabel ι)) : Prop :=
  ∀ ls₁ ls₂ w₁ w₂, ls₁ ++ ls₂ <+: ls → Run Step (start ι) ls₁ w₁ → Run Step w₁ ls₂ w₂ →
    ∀ i k task, (w₁.processors i).tasks[k]? = some task →
      Token.Cancelled w₁.cancelled task.childCancellationToken →
      (∀ data, (i, k, data) ∉ w₁.challenges) → ∀ data, (i, k, data) ∉ w₂.challenges

theorem bothReady_iff : bothReady w i k = true ↔ ∃ task, (w.processors i).tasks[k]? = some task ∧
    task.phase = .sleeping true ∧ Token.Cancelled w.cancelled task.childCancellationToken := by
  unfold bothReady
  cases (w.processors i).tasks[k]? <;> simp

/-- A step that meets the condition does not start a cancelled task. -/
theorem step_cancelled_not_started (hinv : TasksInv ls w) (hl : Guarded Step CancellationFirst w l w')
    (hc : Token.Cancelled w.cancelled (Token.root.child (i, k)))
    (hno : ∀ data, (i, k, data) ∉ w.challenges) (data : SchnorrData) :
    (i, k, data) ∉ w'.challenges := by
  intro hd
  rcases step_challenges hl.1 hd with hd | ⟨cancelledFirst, returned, task, rfl, ht, hp, hfirst⟩
  · exact hno data hd
  · rw [← (hinv.task ht).1] at hc
    cases cancelledFirst with
    | true => exact hfirst rfl hc
    | false =>
      have hready : bothReady w i k = false := hl.2
      rw [bothReady_iff.mpr ⟨task, ht, hp, hc⟩] at hready
      cases hready

theorem run_cancelled_not_started {ls' : List (WorldLabel ι)} (hinv : TasksInv ls w)
    (h : Run (Guarded Step CancellationFirst) w ls' w')
    (hc : Token.Cancelled w.cancelled (Token.root.child (i, k)))
    (hno : ∀ data, (i, k, data) ∉ w.challenges) : ∀ data, (i, k, data) ∉ w'.challenges := by
  have hall := h.preserves (P := fun w => (∃ ls, TasksInv ls w) ∧
    Token.Cancelled w.cancelled (Token.root.child (i, k)) ∧ ∀ data, (i, k, data) ∉ w.challenges)
    (fun ⟨⟨_, hinv⟩, hc, hno⟩ hl => ⟨⟨_, hinv.step hl.1⟩, step_cancelled hl.1 hc,
      step_cancelled_not_started hinv hl hc hno⟩) ⟨⟨ls, hinv⟩, hc, hno⟩
  exact hall.2.2

/-- **A cancelled challenge does not start, unless the tie goes the other
way.** In a run no task calls the contract after it was cancelled before its
call, if and only if every task that is woken with its token cancelled and its
delay over polls the cancellation first. -/
theorem cancelledNeverStarts_iff (h : Run Step (start ι) ls w) :
    CancelledNeverStarts ls ↔ Run (Guarded Step CancellationFirst) (start ι) ls w := by
  constructor
  · intro hnever
    induction h with
    | nil => exact .nil
    | @snoc ls l w w' hr hl ih =>
      refine .snoc (ih fun ls₁ ls₂ w₁ w₂ hpre => hnever ls₁ ls₂ w₁ w₂
        (hpre.trans (List.prefix_append _ _))) ⟨hl, ?_⟩
      unfold CancellationFirst
      split
      · rename_i i k returned
        by_contra hready
        obtain ⟨task, ht, hp, hc⟩ := bothReady_iff.mp (eq_true_of_ne_false hready)
        -- it has not called yet, and it calls in this step
        have hno : ∀ data, (i, k, data) ∉ w.challenges := fun data hd =>
          CalledAwake.run hr i k data hd task ht true hp
        refine hnever ls [_] w w' List.prefix_rfl hr (.single hl) i k task ht hc hno
          task.schnorrData ?_
        cases step_cases hl with
        | @wake _ _ task' _ _ ht' _ =>
          obtain rfl : task' = task := Option.some.inj (ht'.symm.trans ht)
          refine List.mem_append_right _ ?_
          rw [if_pos (select_calls.mpr ⟨hp, fun hf => Bool.noConfusion hf⟩)]
          exact List.mem_singleton_self _
      · trivial
  · rintro hguarded ls₁ ls₂ w₁ w₂ ⟨ls₃, rfl⟩ h₁ h₂ i k task ht hc hno
    obtain ⟨w₂', hg, -⟩ := hguarded.split
    obtain ⟨w₁', hg₁, hg₂⟩ := hg.split
    obtain rfl : w₁' = w₁ := hg₁.unguarded.det h₁
    obtain rfl : w₂' = w₂ := hg₂.unguarded.det h₂
    have hinv := TasksInv.run h₁
    rw [(hinv.task ht).1] at hc
    exact run_cancelled_not_started hinv hg₂ hc hno

/-! ## A wake-up with both branches ready -/

def sampleChallenged : Log OpPokeChallengedSuccessfully :=
  { sampleLog 11 0 with data := ⟨sampleOpPoked.caller, [0x56, 0xd7, 0xd2, 0xe8]⟩ }

/-- The delay of a challenge is over, and before its task is woken the event
that cancels it is handled. -/
def sampleCancelled : List (WorldLabel Unit) :=
  [.period () (.ok 600), .send () (.opPoked samplePoked), .recv () (.opPoked samplePoked),
    .judged () samplePoked (.ok true), .elapse () 0,
    .send () (.opPokeChallengedSuccessfully sampleChallenged),
    .recv () (.opPokeChallengedSuccessfully sampleChallenged)]

/-- The task is woken, and polls the challenge first. -/
def sampleTie : List (WorldLabel Unit) := sampleCancelled ++ [.wake () 0 false none]

theorem sampleTie_breaks :
    (∃ w, Run Step (start Unit) sampleTie w) ∧ ¬ CancelledNeverStarts sampleTie := by
  obtain ⟨w₁, h₁, htest⟩ : ∃ w, Run Step (start Unit) sampleCancelled w ∧
      (bothReady w () 0 && w.challenges == []) = true :=
    exists_run_of_runSteps (fun w : World Unit => bothReady w () 0 && w.challenges == [])
      (by decide +kernel)
  obtain ⟨w₂, h, hcalled⟩ : ∃ w, Run Step (start Unit) sampleTie w ∧
      (w.challenges == [((), 0, sampleOpPoked.schnorrData)]) = true :=
    exists_run_of_runSteps
      (fun w : World Unit => w.challenges == [((), 0, sampleOpPoked.schnorrData)])
      (by decide +kernel)
  obtain ⟨w₁', h₁', h₂⟩ := h.split
  obtain rfl : w₁' = w₁ := h₁'.det h₁
  refine ⟨⟨w₂, h⟩, ?_⟩
  intro hnever
  obtain ⟨hready, hno⟩ := (Bool.and_eq_true _ _).mp htest
  obtain ⟨task, ht, -, hc⟩ := bothReady_iff.mp hready
  refine hnever _ _ _ _ List.prefix_rfl h₁ h₂ () 0 task ht hc ?_
    sampleOpPoked.schnorrData ?_
  · intro data hd
    rw [eq_of_beq hno] at hd
    cases hd
  · rw [eq_of_beq hcalled]
    exact List.mem_singleton_self _

/-- The task is woken, and polls the cancellation first. -/
def sampleTieCancelled : List (WorldLabel Unit) := sampleCancelled ++ [.wake () 0 true none]

theorem cancelledNeverStarts_iff_sample : (∃ w, Run Step (start Unit) sampleTieCancelled w) ∧
    CancelledNeverStarts sampleTieCancelled := by
  obtain ⟨w, hrun, -⟩ : ∃ w, Run (Guarded Step fun w l => decide (CancellationFirst w l) = true)
      (start Unit) sampleTieCancelled w ∧ (w.challenges == []) = true :=
    exists_run_of_runGuarded (fun w : World Unit => w.challenges == []) (by decide +kernel)
  have hguarded : Run (Guarded Step CancellationFirst) (start Unit) sampleTieCancelled w :=
    hrun.mono fun _ _ _ hl => ⟨hl.1, of_decide_eq_true hl.2⟩
  exact ⟨⟨w, hrun.unguarded⟩, (cancelledNeverStarts_iff hrun.unguarded).mpr hguarded⟩

end World
end Challenger
