import Challenger.Process
import Challenger.ProcessorCancel

/-! # The supervision of the tasks

`main` cancels the shutdown token exactly when it leaves its `select!`. A task
of the set returns `Ok` only on a cancelled token, so the task whose end makes
`main` leave has failed: its arm for a task that terminated successfully is
never taken (`supervised`). -/
namespace Challenger
open Lib

namespace World
variable {ι : Type} [DecidableEq ι] {w w' : World ι} {i : ι} {l : WorldLabel ι}
  {ls : List (WorldLabel ι)} {r : Except ProcessorError Unit}

/-- A processor that has returned does not go on. -/
theorem step_stopped_stays (h : w.step l = some w') (hp : (w.processors i).phase = .stopped r) :
    (w'.processors i).phase = .stopped r := by
  by_cases hi : processorOf l = some i
  · have hcases := step_processor h hi
    generalize w'.processors i = p' at hcases ⊢
    cases hcases with
    | send => exact hp
    | close => exact hp
    | recvNone _ => exact hp
    | elapse => exact hp
    | wake => exact hp
    | periodOk hs => rw [hp] at hs; cases hs
    | periodError hs => rw [hp] at hs; cases hs
    | validate hs _ => rw [hp] at hs; cases hs
    | ignore hs _ _ => rw [hp] at hs; cases hs
    | cancel hs _ => rw [hp] at hs; cases hs
    | judged hs => rw [hp] at hs; cases hs
    | stop hs _ => rw [hp] at hs; cases hs
  · rw [step_frame h hi]; exact hp

/-- It returns `Ok` only after the shutdown. -/
theorem stopped_ok (h : Run Step (start ι) ls w) (hp : (w.processors i).phase = .stopped (.ok ())) :
    Token.Cancelled w.cancelled Token.root := by
  refine h.invariant (P := fun _ w => (w.processors i).phase = .stopped (.ok ()) →
    Token.Cancelled w.cancelled Token.root) (fun hp => by cases hp) ?_ hp
  intro ls w l w' _ ih hl hp
  by_cases hi : processorOf l = some i
  · have hcases := step_processor hl hi
    generalize w'.processors i = p' at hcases hp
    cases hcases with
    | send => exact step_cancelled hl (ih hp)
    | close => exact step_cancelled hl (ih hp)
    | recvNone _ => exact step_cancelled hl (ih hp)
    | elapse => exact step_cancelled hl (ih hp)
    | wake => exact step_cancelled hl (ih hp)
    | ignore hs _ _ => exact step_cancelled hl (ih hp)
    | cancel hs _ => exact step_cancelled hl (ih hp)
    | stop _ hc => exact step_cancelled hl hc
    | periodOk _ => cases hp
    | periodError _ => cases hp
    | validate _ _ => cases hp
    | judged _ => cases hp
  · rw [step_frame hl hi] at hp
    exact step_cancelled hl (ih hp)

/-- After the shutdown every task is cancelled, whenever it was spawned. -/
theorem task_cancelled (h : Run Step (start ι) ls w)
    (hroot : Token.Cancelled w.cancelled Token.root) {task : ChallengeTask ι}
    (ht : task ∈ (w.processors i).tasks) :
    Token.Cancelled w.cancelled task.childCancellationToken := by
  obtain ⟨k, hk⟩ := List.mem_iff_getElem?.mp ht
  rw [((TasksInv.run h).task hk).1]
  exact Token.cancelled_child.mpr (.inr hroot)

end World

namespace Process
variable [ScribeAbi] {m : Wiring} {s s' : Process} {l : ProcessLabel} {ls ls' : List ProcessLabel}
  {task : SetTask} {r : JoinResult}

/-! ## What a task ended with -/

omit [ScribeAbi] in
theorem stopped_of_result {phase : ProcessorPhase} (h : phase.result = some r) :
    ∃ x, phase = .stopped x := by
  unfold ProcessorPhase.result at h
  split at h
  · exact ⟨_, rfl⟩
  · exact ⟨_, rfl⟩
  · cases h

omit [ScribeAbi] in
theorem poller_stopped_of_result {phase : PollerPhase} (h : phase.result = some r) :
    ∃ x, phase = .stopped x := by
  unfold PollerPhase.result at h
  split at h
  · exact ⟨_, rfl⟩
  · exact ⟨_, rfl⟩
  · cases h

omit [ScribeAbi] in
/-- Processors that keep what they returned keep their results. -/
theorem result_of_world {t : Process} (hr : s.result task = some r)
    (hw : ∀ i x, (s.contracts.world.processors i).phase = .stopped x →
      (t.contracts.world.processors i).phase = .stopped x)
    (hp : t.poller = s.poller) (hc : t.collector = s.collector) : t.result task = some r := by
  cases task with
  | processor i =>
    obtain ⟨x, hx⟩ := stopped_of_result hr
    rw [result, hw i x hx, ← hx]
    exact hr
  | poller => rw [result, hp]; exact hr
  | collector => rw [result, hc]; exact hr

/-- A poller that has returned does not go on. -/
theorem pollerStep_stopped {p p' : PollerTask} {l : PollerLabel} {x : Except PollerError Unit}
    (h : p.step l = some p') (hp : p.phase = .stopped x) : False := by
  cases PollerTask.step_cases h with
  | cancelled hs => rw [hp] at hs; cases hs
  | tick hs => rw [hp] at hs; cases hs
  | answer hs _ => rw [hp] at hs; cases hs
  | polled hs => rw [hp] at hs; cases hs

omit [ScribeAbi] in
theorem world_stopped_stays {w w' : World Nat} {wls : List (WorldLabel Nat)}
    (h : Run World.Step w wls w') : ∀ i x, (w.processors i).phase = .stopped x →
      (w'.processors i).phase = .stopped x :=
  fun _ _ => h.preserves fun hp hl => World.step_stopped_stays hl hp

/-- What a task has ended with stays. -/
theorem result_step (h : s.step m l = some s') (hr : s.result task = some r) :
    s'.result task = some r := by
  have hworld := world_stopped_stays (world_step h)
  cases (step_cases h).2 with
  | @poller l poller world hp hw =>
    cases task with
    | processor i =>
      obtain ⟨x, hx⟩ := stopped_of_result hr
      have hx' := hworld i x hx
      rw [result, hx] at hr
      rw [result]
      exact hx' ▸ hr
    | poller =>
      obtain ⟨x, hx⟩ := poller_stopped_of_result hr
      exact (pollerStep_stopped hp hx).elim
    | collector => exact hr
  | contracts _ _ => exact result_of_world hr hworld rfl rfl
  | close _ _ _ _ => exact result_of_world hr hworld rfl rfl
  | collect _ => exact hr
  | collectorCancelled hc _ =>
    cases task with
    | collector => rw [result, hc] at hr; cases hr
    | _ => exact hr
  | collectorPanicked hc =>
    cases task with
    | collector => rw [result, hc] at hr; cases hr
    | _ => exact hr
  | ctrlC _ => exact result_of_world hr hworld rfl rfl
  | joinNext _ _ _ => exact result_of_world hr hworld rfl rfl
  | joinAll _ _ _ _ => exact result_of_world hr hworld rfl rfl
  | joinPanicked _ _ _ _ => exact result_of_world hr hworld rfl rfl
  | finish _ _ => exact result_of_world hr hworld rfl rfl

/-! ## The shutdown -/

/-- The shutdown token is cancelled. -/
def Down (s : Process) : Prop := Token.Cancelled s.contracts.world.cancelled Token.root

theorem down_step (h : s.step m l = some s') (hd : s.Down) : s'.Down :=
  (world_step h).preserves (P := fun w : World Nat => Token.Cancelled w.cancelled Token.root)
    (fun hc hl => World.step_cancelled hl hc) hd

/-- The poller returns `Ok` from its own `select!` only; the loop itself ends
with an error. -/
theorem poller_down (h : Run (Step m) (start m) ls s)
    (hr : s.result .poller = some (some (.ok ()))) : s.Down := by
  refine h.invariant (P := fun _ s => s.result .poller = some (some (.ok ())) → s.Down)
    (fun h0 => by cases h0) ?_ hr
  intro ls s l s' _ ih hl hr
  have hsame : s'.poller = s.poller → s'.Down := fun hp =>
    down_step hl (ih (by rw [result, hp] at hr; exact hr))
  cases (step_cases hl).2 with
  | @poller l poller world hp hw =>
    cases PollerTask.step_cases hp with
    | cancelled _ =>
      have hc : Token.Cancelled s.contracts.world.cancelled Token.root := by
        by_contra hc
        simp [System.answered, hc] at hw
      exact down_step hl hc
    | tick _ => cases hr
    | answer _ _ => cases hr
    | @polled t r p _ =>
      cases r with
      | ok _ => cases hr
      | error e =>
        simp only [result, PollerTask.afterPoll] at hr
        split at hr <;> cases hr
  | _ => exact hsame rfl

theorem collector_down (h : Run (Step m) (start m) ls s) (hr : s.collector = .stopped) :
    s.Down := by
  refine h.invariant (P := fun _ s => s.collector = .stopped → s.Down) (fun h0 => by cases h0) ?_ hr
  intro ls s l s' _ ih hl hr
  have hsame : s'.collector = s.collector → s'.Down := fun hp => down_step hl (ih (hp ▸ hr))
  cases (step_cases hl).2 with
  | collectorCancelled _ hc => exact down_step hl hc
  | collectorPanicked _ => cases hr
  | _ => exact hsame rfl

/-- A task that returned `Ok` was told to. -/
theorem down_of_ok (h : Run (Step m) (start m) ls s) (hr : s.result task = some (some (.ok ()))) :
    s.Down := by
  cases task with
  | processor i =>
    obtain ⟨x, hx⟩ := stopped_of_result hr
    rw [result, hx] at hr
    cases x with
    | ok _ => exact World.stopped_ok (world_run h) hx
    | error e => cases hr
  | poller => exact poller_down h hr
  | collector =>
    refine collector_down h ?_
    unfold result CollectorPhase.result at hr
    cases hc : s.collector with
    | running => rw [hc] at hr; cases hr
    | stopped => rfl
    | panicked => rw [hc] at hr; cases hr

/-- `main` has left its `select!`. -/
def Left (ls : List ProcessLabel) : Prop :=
  .ctrlC ∈ ls ∨ ∃ task, .joinNext (some task) ∈ ls

omit [ScribeAbi] in
theorem left_snoc_of_ne (hc : l ≠ .ctrlC) (hj : ∀ task, l ≠ .joinNext (some task)) :
    Left (ls ++ [l]) ↔ Left ls := by
  simp [Left, Ne.symm hc, fun task => Ne.symm (hj task)]

/-- The steps that cancel the token are those with which `main` leaves. -/
theorem shutdown_mem_labels (h : StepCases m s l s') :
    .shutdown ∈ (contractsLabels l).flatMap ContractsLabel.world ↔
      l = .ctrlC ∨ ∃ task, l = .joinNext (some task) := by
  cases h with
  | @poller l poller world _ hw =>
    rcases System.answered_cases hw with ⟨hl, -, -⟩ | ⟨tx, event, rfl, -⟩
    · simp [contractsLabels, hl]
    · simp [contractsLabels, System.sendLabels, sent, ContractsLabel.world]
  | @contracts l contracts ho _ =>
    have hne : l ≠ .step .shutdown := fun he => by rw [he] at ho; cases ho
    cases l with
    | answer i e => simp [contractsLabels, ContractsLabel.world]
    | step l =>
      have hne : .shutdown ≠ l := fun he => hne (he ▸ rfl)
      simp [contractsLabels, ContractsLabel.world, hne]
    | wake i k cancelledFirst answers returned => simp [contractsLabels, ContractsLabel.world]
  | _ => simp [contractsLabels, ContractsLabel.world]

/-- The token is cancelled once `main` has left its `select!`. -/
theorem down_iff_left (h : Run (Step m) (start m) ls s) : s.Down ↔ Left ls := by
  have hhistory : .shutdown ∈ (contractsHistory m ls).flatMap ContractsLabel.world ↔ Left ls := by
    refine h.invariant (P := fun ls _ => .shutdown ∈ (contractsHistory m ls).flatMap
      ContractsLabel.world ↔ Left ls) ?_ ?_
    · simp [contractsHistory, closes, Left, ContractsLabel.world, List.flatMap_map]
    · intro ls s l s' _ ih hl
      have hnew := shutdown_mem_labels (step_cases hl).2
      have happend : contractsHistory m (ls ++ [l]) = contractsHistory m ls ++ contractsLabels l := by
        simp [contractsHistory]
      rw [happend, List.flatMap_append, List.mem_append, ih, hnew]
      simp only [Left, List.mem_append, List.mem_singleton, exists_or]
      constructor
      · intro hor
        rcases hor with (hl | hl) | hl | ⟨task, hl⟩
        · exact .inl (.inl hl)
        · exact .inr (.inl hl)
        · exact .inl (.inr hl.symm)
        · exact .inr (.inr ⟨task, hl.symm⟩)
      · intro hor
        rcases hor with (hl | hl) | hl | ⟨task, hl⟩
        · exact .inl (.inl hl)
        · exact .inr (.inl hl.symm)
        · exact .inl (.inr hl)
        · exact .inr (.inr ⟨task, hl.symm⟩)
  rw [← hhistory, ← (World.TasksInv.run (world_run h)).shutdown]
  exact Token.cancelled_root

/-! ## What `main` knows of the tasks -/

omit [ScribeAbi] in
/-- Only the collector panics. -/
theorem panicked_of_result (h : s.result task = some none) : s.collector = .panicked := by
  cases task with
  | processor i =>
    obtain ⟨x, hx⟩ := stopped_of_result h
    rw [result, hx] at h
    cases x <;> cases h
  | poller =>
    obtain ⟨x, hx⟩ := poller_stopped_of_result h
    rw [result, hx] at h
    cases x <;> cases h
  | collector =>
    unfold result CollectorPhase.result at h
    cases hc : s.collector with
    | running => rw [hc] at h; cases h
    | stopped => rw [hc] at h; cases h
    | panicked => rfl

structure MainInv (m : Wiring) (ls : List ProcessLabel) (s : Process) : Prop where
  left : s.main = .selecting ↔ ¬ Left ls
  joined : ∀ task ∈ s.joined, ∃ r, s.result task = some r
  cause : ∀ task, .joinNext (some task) ∈ ls →
    task ∈ m.tasks ∧ ∃ r, s.result task = some r ∧ r ≠ some (.ok ())
  returned : s.main = .returned → ∀ task ∈ m.tasks, task ∈ s.joined
  panicked : s.main = .panicked → s.collector = .panicked

/-- Steps that are not `main`'s. -/
theorem MainInv.snoc (h : MainInv m ls s) (hl : s.step m l = some s') (hmain : s'.main = s.main)
    (hjoined : s'.joined = s.joined) (hc : l ≠ .ctrlC) (hj : ∀ task, l ≠ .joinNext (some task)) :
    MainInv m (ls ++ [l]) s' := by
  have hrun := (step_cases hl).1
  simp only [exited, Bool.or_eq_false_iff, decide_eq_false_iff_not] at hrun
  constructor
  case left => rw [left_snoc_of_ne hc hj, hmain]; exact h.left
  case joined =>
    intro task htask
    obtain ⟨r, hr⟩ := h.joined task (hjoined ▸ htask)
    exact ⟨r, result_step hl hr⟩
  case cause =>
    intro task htask
    rcases List.mem_append.mp htask with htask | htask
    · obtain ⟨ht, r, hr, hne⟩ := h.cause task htask
      exact ⟨ht, r, result_step hl hr, hne⟩
    · exact absurd (List.mem_singleton.mp htask).symm (hj task)
  case returned => intro hr; exact absurd (hmain ▸ hr) hrun.1
  case panicked => intro hp; exact absurd (hmain ▸ hp) hrun.2

/-- The steps in which `main` joins tasks, or returns. -/
theorem MainInv.join (h : MainInv m ls s) (hl : s.step m l = some s') (hmain : s.main = .joining)
    (hmain' : s'.main ≠ .selecting) (hc : l ≠ .ctrlC) (hj : ∀ task, l ≠ .joinNext (some task))
    (hjoined : ∀ task ∈ s'.joined, task ∈ s.joined ∨ ∃ r, s.result task = some r)
    (hreturned : s'.main = .returned → ∀ task ∈ m.tasks, task ∈ s'.joined)
    (hpanicked : s'.main = .panicked → s'.collector = .panicked) : MainInv m (ls ++ [l]) s' := by
  have hne : s.main ≠ .selecting := by rw [hmain]; simp
  constructor
  case left =>
    rw [left_snoc_of_ne hc hj]
    exact ⟨fun hs => absurd hs hmain', fun hn => absurd (h.left.mpr hn) hne⟩
  case joined =>
    intro task htask
    rcases hjoined task htask with htask | ⟨r, hr⟩
    · obtain ⟨r, hr⟩ := h.joined task htask
      exact ⟨r, result_step hl hr⟩
    · exact ⟨r, result_step hl hr⟩
  case cause =>
    intro task htask
    rcases List.mem_append.mp htask with htask | htask
    · obtain ⟨ht, r, hr, hne⟩ := h.cause task htask
      exact ⟨ht, r, result_step hl hr, hne⟩
    · exact absurd (List.mem_singleton.mp htask).symm (hj task)
  case returned => exact hreturned
  case panicked => exact hpanicked

/-- The step with which `main` leaves its `select!`. -/
theorem MainInv.leave (h : MainInv m ls s) (hl : s.step m l = some s') (hmain : s.main = .selecting)
    (hmain' : s'.main = .joining) (hleft : Left (ls ++ [l]))
    (hjoined : ∀ task ∈ s'.joined, ∃ r, s.result task = some r)
    (hcause : ∀ task, l = .joinNext (some task) →
      task ∈ m.tasks ∧ ∃ r, s.result task = some r ∧ r ≠ some (.ok ())) :
    MainInv m (ls ++ [l]) s' := by
  constructor
  case left =>
    rw [hmain']
    exact ⟨fun hs => (by cases hs), fun hn => absurd hleft hn⟩
  case joined =>
    intro task htask
    obtain ⟨r, hr⟩ := hjoined task htask
    exact ⟨r, result_step hl hr⟩
  case cause =>
    intro task htask
    rcases List.mem_append.mp htask with htask | htask
    · exact absurd (.inr ⟨task, htask⟩) (h.left.mp hmain)
    · obtain ⟨ht, r, hr, hne⟩ := hcause task (List.mem_singleton.mp htask).symm
      exact ⟨ht, r, result_step hl hr, hne⟩
  case returned => rw [hmain']; intro hr; cases hr
  case panicked => rw [hmain']; intro hp; cases hp

theorem MainInv.step (hrun : Run (Step m) (start m) ls s) (h : MainInv m ls s)
    (hl : s.step m l = some s') : MainInv m (ls ++ [l]) s' := by
  cases (step_cases hl).2 with
  | poller _ _ => exact h.snoc hl rfl rfl (by simp) (by simp)
  | contracts _ _ => exact h.snoc hl rfl rfl (by simp) (by simp)
  | close _ _ _ _ => exact h.snoc hl rfl rfl (by simp) (by simp)
  | collect _ => exact h.snoc hl rfl rfl (by simp) (by simp)
  | collectorCancelled _ _ => exact h.snoc hl rfl rfl (by simp) (by simp)
  | collectorPanicked _ => exact h.snoc hl rfl rfl (by simp) (by simp)
  | ctrlC hmain =>
    refine h.leave hl hmain rfl (.inl (by simp)) ?_ (fun task ht => by cases ht)
    exact h.joined
  | @joinNext task r hmain ht hr =>
    refine h.leave hl hmain rfl (.inr ⟨task, by simp⟩) ?_ ?_
    · intro task' htask'
      rw [List.mem_singleton.mp htask']
      exact ⟨r, hr⟩
    · intro task' htask'
      cases htask'
      -- a task that returned `Ok` was told to shut down, which nobody was yet
      refine ⟨ht, r, hr, ?_⟩
      intro hok
      exact h.left.mp hmain ((down_iff_left hrun).mp (down_of_ok hrun (hok ▸ hr)))
  | @joinAll task r hmain ht hj hr =>
    refine h.join hl hmain (by simp [hmain]) (by simp) (by simp) ?_ ?_ ?_
    · intro task' htask'
      rcases List.mem_cons.mp htask' with rfl | htask'
      · exact .inr ⟨_, hr⟩
      · exact .inl htask'
    · intro hr
      rw [hmain] at hr
      cases hr
    · intro hp
      rw [hmain] at hp
      cases hp
  | joinPanicked hmain ht hj hr =>
    refine h.join hl hmain (by simp) (by simp) (by simp) (fun _ => .inl) ?_
      (fun _ => panicked_of_result hr)
    intro hr
    cases hr
  | finish hmain hj =>
    refine h.join hl hmain (by simp) (by simp) (by simp) (fun _ => .inl) (fun _ => hj) ?_
    intro hp
    cases hp

theorem MainInv.run (h : Run (Step m) (start m) ls s) : MainInv m ls s := by
  refine h.invariant ?_ fun hr ih hl => ih.step hr hl
  constructor
  case left => simp [start, Left]
  case joined => intro task htask; cases htask
  case cause => intro task htask; cases htask
  case returned => intro hr; cases hr
  case panicked => intro hp; cases hp

theorem down_iff_main (h : Run (Step m) (start m) ls s) : s.Down ↔ s.main ≠ .selecting := by
  rw [down_iff_left h, Ne, (MainInv.run h).left, not_not]

/-- What `main` sees to, in a state that a run leads to. -/
structure Supervised (m : Wiring) (ls : List ProcessLabel) (s : Process) : Prop where
  shutdown : s.Down ↔ s.main ≠ .selecting
  ok_after : ∀ task, s.result task = some (some (.ok ())) → s.main ≠ .selecting
  cause : s.main ≠ .selecting → .ctrlC ∈ ls ∨ ∃ task ∈ m.tasks, .joinNext (some task) ∈ ls ∧
    ∃ r, s.result task = some r ∧ r ≠ some (.ok ())
  challenges : s.main ≠ .selecting → ∀ i, ∀ task ∈ (s.contracts.world.processors i).tasks,
    Token.Cancelled s.contracts.world.cancelled task.childCancellationToken
  returned : s.main = .returned → ∀ task ∈ m.tasks, ∃ r, s.result task = some r
  panicked : s.main = .panicked → s.collector = .panicked

/-- **The tasks end together.** In every run: the token is cancelled exactly
when `main` has left its `select!`, and until then no task of the set has
returned `Ok`; `main` leaves on ctrl-c or on a task that failed; from then on
every challenge is cancelled; `main` returns only when all tasks of the set
have ended, and panics only when the collector did. -/
theorem supervised (h : Run (Step m) (start m) ls s) : Supervised m ls s := by
  have hinv := MainInv.run h
  have hdown := down_iff_main h
  constructor
  case shutdown => exact hdown
  case ok_after =>
    intro task hr
    exact hdown.mp (down_of_ok h hr)
  case cause =>
    intro hmain
    rcases not_not.mp (mt hinv.left.mpr hmain) with hc | ⟨task, hj⟩
    · exact .inl hc
    · obtain ⟨ht, hr⟩ := hinv.cause task hj
      exact .inr ⟨task, ht, hj, hr⟩
  case challenges =>
    intro hmain i task ht
    exact World.task_cancelled (world_run h) (hdown.mpr hmain) ht
  case returned =>
    intro hr task ht
    exact hinv.joined task (hinv.returned hr task ht)
  case panicked => exact hinv.panicked

/-- On ctrl-c every task ends before `main` does. -/
def sampleShutdown : List ProcessLabel :=
  [.contracts (.answer 0 ⟨.opChallengePeriod sampleAddress, .ok 600⟩), .collect,
    .contracts (.step (.period 0 (.ok 600))), .ctrlC, .poller .cancelled, .collectorCancelled,
    .joinAll .collector, .contracts (.step (.stop 0)), .joinAll (.processor 0), .joinAll .poller,
    .finish]

omit [ScribeAbi] in
theorem supervised_sample : ∃ s, Run (@Step sampleAbi sampleWiring) (start sampleWiring)
    sampleShutdown s ∧ s.main = .returned ∧ Supervised sampleWiring sampleShutdown s := by
  let _ := sampleAbi
  obtain ⟨s, hrun, htest⟩ : ∃ s, Run (Step sampleWiring) (start sampleWiring) sampleShutdown s ∧
      decide (s.main = .returned) = true :=
    exists_run_of_runSteps (fun s : Process => decide (s.main = .returned)) (by decide +kernel)
  exact ⟨s, hrun, of_decide_eq_true htest, supervised hrun⟩

end Process
end Challenger
