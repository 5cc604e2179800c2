import Challenger.ProcessorCancel

/-! # Cancellation stays with its processor

All processors share one shutdown token, and every challenge has a child of
its own. A processor cancels the token it stores, which is that of its own
latest challenge, so no other processor sees the difference: what a processor
does in a run it does in the run without the others. The shutdown reaches all
(`cancellation_confined`). -/
namespace Challenger
open Lib

namespace World
variable {ι : Type} [DecidableEq ι] {w w' v : World ι} {i j : ι} {k : Nat} {l : WorldLabel ι}
  {ls : List (WorldLabel ι)}

/-! ## What a stored token reaches -/

/-- A stored token is no ancestor of another challenge's token. -/
theorem TasksInv.stored_suffix_child (h : TasksInv ls w) {t : Token (ι × Nat)}
    (ht : (w.processors i).challengeProcessCancelationToken = some t) :
    t <:+ Token.root.child (j, k) ↔ j = i ∧ t = Token.root.child (j, k) := by
  obtain ⟨rfl, -⟩ := h.stored_child ht
  constructor
  · intro hsuf
    rcases List.suffix_cons_iff.mp hsuf with he | hsuf
    · exact ⟨(Prod.mk.inj (Token.child_injective he)).1.symm, he⟩
    · exact absurd (List.suffix_nil.mp hsuf) Token.child_ne_root
  · rintro ⟨-, he⟩
    rw [he]

theorem TasksInv.stored_suffix_root (h : TasksInv ls w) {t : Token (ι × Nat)}
    (ht : (w.processors i).challengeProcessCancelationToken = some t) : ¬ t <:+ Token.root := by
  rw [(h.stored_child ht).1]
  intro hsuf
  exact Token.child_ne_root (List.suffix_nil.mp hsuf)

/-- `cancel_challenge` does not cancel the shutdown token. -/
theorem TasksInv.cancelled_root_cancelChallenge (h : TasksInv ls w) (i : ι) :
    Token.Cancelled (w.cancelChallenge i).cancelled Token.root ↔
      Token.Cancelled w.cancelled Token.root := by
  rw [Token.cancelled_root, Token.cancelled_root]
  exact h.root_mem_cancelChallenge i

/-- It cancels the stored token of its processor, and no other. -/
theorem TasksInv.cancelled_cancelChallenge (h : TasksInv ls w) (i : ι) {task : ChallengeTask ι}
    (ht : (w.processors j).tasks[k]? = some task) :
    Token.Cancelled (w.cancelChallenge i).cancelled task.childCancellationToken ↔
      Token.Cancelled w.cancelled task.childCancellationToken ∨
        j = i ∧ (w.processors i).challengeProcessCancelationToken =
          some task.childCancellationToken := by
  rw [cancelChallenge_cancelled, (h.task ht).1]
  cases hs : (w.processors i).challengeProcessCancelationToken with
  | none => simp
  | some t =>
    show Token.Cancelled (t :: w.cancelled) _ ↔ _
    rw [Token.cancelled_cons, h.stored_suffix_child hs, Option.some_inj]
    exact or_comm

/-! ## What a processor sees -/

/-- The tokens a processor looks at: the shutdown token and those of its own
challenges. -/
def Concerns (i : ι) (t : Token (ι × Nat)) : Prop := t = Token.root ∨ ∃ k, t = Token.root.child (i, k)

/-- Two worlds look the same from processor `i`. -/
structure View (i : ι) (w v : World ι) : Prop where
  processor : v.processors i = w.processors i
  cancelled : ∀ t, Concerns i t → (Token.Cancelled v.cancelled t ↔ Token.Cancelled w.cancelled t)
  challenges : v.challenges.filter (fun call => call.1 = i) =
    w.challenges.filter fun call => call.1 = i

namespace View

theorem refl (i : ι) (w : World ι) : View i w w := ⟨rfl, fun _ _ => Iff.rfl, rfl⟩

/-- Both worlds change the processor in the same way. -/
theorem setProcessor (h : View i w v) (p : ScribeEventsProcessor ι) :
    View i (w.setProcessor i p) (v.setProcessor i p) where
  processor := by rw [setProcessor_self, setProcessor_self]
  cancelled := h.cancelled
  challenges := h.challenges

theorem cancel (h : View i w v) (t : Token (ι × Nat)) : View i (w.cancel t) (v.cancel t) where
  processor := h.processor
  cancelled t' ht' := by
    simp only [World.cancel, Token.cancelled_cons, h.cancelled t' ht']
  challenges := h.challenges

theorem cancelChallenge (h : View i w v) : View i (w.cancelChallenge i) (v.cancelChallenge i) := by
  unfold World.cancelChallenge
  rw [h.processor]
  split
  · exact (h.cancel _).setProcessor _
  · exact h

theorem spawnChallenge (h : View i w v) (log : Log OpPoked) :
    View i (w.spawnChallenge i log) (v.spawnChallenge i log) := by
  have hc := h.cancelChallenge
  simp only [World.spawnChallenge, childToken, hc.processor]
  exact hc.setProcessor _

theorem handleEvent (h : View i w v) (event : Event) :
    View i (w.handleEvent i event) (v.handleEvent i event) := by
  cases event with
  | opPoked log =>
    simp only [World.handleEvent, h.processor]
    split
    · exact h
    · exact h.setProcessor _
  | opPokeChallengedSuccessfully _ => exact h.cancelChallenge

theorem handleJudged (h : View i w v) (log : Log OpPoked) (r : Except ContractError Bool) :
    View i (w.handleJudged i log r) (v.handleJudged i log r) := by
  have hidle := h.setProcessor { w.processors i with phase := .idle }
  simp only [World.handleJudged, h.processor]
  cases r with
  | error _ => exact hidle
  | ok challengeable =>
    cases challengeable with
    | true => exact hidle.spawnChallenge log
    | false => exact hidle

theorem setTaskPhase (h : View i w v) (k : Nat) (phase : TaskPhase) :
    View i (w.setTaskPhase i k phase) (v.setTaskPhase i k phase) := by
  simp only [World.setTaskPhase, h.processor]
  exact h.setProcessor _

theorem wakeTask (h : View i w v) {task : ChallengeTask ι}
    (ht : Concerns i task.childCancellationToken) (cancelledFirst : Bool)
    (returned : Option (Except ContractError TxHash)) :
    View i (w.wakeTask i k task cancelledFirst returned)
      (v.wakeTask i k task cancelledFirst returned) := by
  have hcancelled : decide (Token.Cancelled v.cancelled task.childCancellationToken) =
      decide (Token.Cancelled w.cancelled task.childCancellationToken) :=
    decide_eq_decide.mpr (h.cancelled _ ht)
  simp only [World.wakeTask, hcancelled]
  have hphase := h.setTaskPhase k (select (Token.Cancelled w.cancelled task.childCancellationToken)
    cancelledFirst task.phase returned).1
  refine ⟨hphase.processor, hphase.cancelled, ?_⟩
  rw [List.filter_append, List.filter_append, h.challenges]

end View

/-! ## The other processors -/

/-- A step of which processor `i` is part, or the shutdown. -/
def concerns (i : ι) (l : WorldLabel ι) : Bool := processorOf l = none ∨ processorOf l = some i

/-- The run without what happens at the other processors. -/
def alone (i : ι) (ls : List (WorldLabel ι)) : List (WorldLabel ι) := ls.filter (concerns i)

/-- What a step that concerns processor `i` does is decided by what the
processor sees. -/
theorem View.step (hv : View i w v) (hinv : TasksInv ls w) (hl : w.step l = some w')
    (hi : concerns i l = true) : ∃ v', v.step l = some v' ∧ View i w' v' := by
  have hp := hv.processor
  have hj : ∀ {j}, processorOf l = some j → j = i := by
    intro j hj
    rcases of_decide_eq_true hi with hnone | hsome
    · rw [hnone] at hj; cases hj
    · exact Option.some.inj (hj.symm.trans hsome)
  cases step_cases hl with
  | send h =>
    obtain rfl := hj rfl
    exact ⟨_, by simp only [World.step, hp, h]; rfl, hv.setProcessor _⟩
  | close =>
    obtain rfl := hj rfl
    exact ⟨_, by simp only [World.step, hp], hv.setProcessor _⟩
  | periodOk h =>
    obtain rfl := hj rfl
    exact ⟨_, by simp only [World.step, hp, h], hv.setProcessor _⟩
  | periodError h =>
    obtain rfl := hj rfl
    exact ⟨_, by simp only [World.step, hp, h], hv.setProcessor _⟩
  | @recv i event rest h hrx =>
    obtain rfl := hj rfl
    exact ⟨_, by simp only [World.step, hp, h, hrx, if_true], (hv.setProcessor _).handleEvent event⟩
  | recvNone h hrx hc =>
    obtain rfl := hj rfl
    exact ⟨_, by simp only [World.step, hp, h, hrx, hc], hv⟩
  | judged h =>
    obtain rfl := hj rfl
    exact ⟨_, by simp only [World.step, hp, h, if_true], hv.handleJudged _ _⟩
  | stop h hc =>
    obtain rfl := hj rfl
    have hc' := (hv.cancelled _ (.inl rfl)).mpr hc
    exact ⟨_, by simp only [World.step, hp, h, hc', if_true], hv.setProcessor _⟩
  | shutdown => exact ⟨_, rfl, hv.cancel _⟩
  | elapse ht h =>
    obtain rfl := hj rfl
    exact ⟨_, by simp only [World.step, hp, ht, Option.map_some, h], hv.setTaskPhase _ _⟩
  | wake ht h =>
    obtain rfl := hj rfl
    exact ⟨_, by simp only [World.step, hp, ht, h, if_true],
      hv.wakeTask (.inr ⟨_, (hinv.task ht).1⟩) _ _⟩

/-- A call is made by a task of the processor the step is about. -/
theorem step_challenges_frame (h : w.step l = some w') (hi : processorOf l ≠ some i) :
    w'.challenges.filter (fun call => call.1 = i) = w.challenges.filter fun call => call.1 = i := by
  cases step_callCases h with
  | same he => rw [he]
  | @call j k task cancelledFirst returned hl _ _ _ he =>
    have hne : j ≠ i := by
      rintro rfl
      exact hi (by rw [hl]; rfl)
    rw [he]
    simp [hne]

/-- What happens at another processor is not seen. -/
theorem View.step_other (hv : View i w v) (hinv : TasksInv ls w) (hl : w.step l = some w')
    (hi : concerns i l = false) : View i w' v := by
  obtain ⟨hnone, hne⟩ := not_or.mp (of_decide_eq_false hi)
  constructor
  case processor => rw [step_frame hl hne]; exact hv.processor
  case cancelled =>
    intro t ht
    rw [hv.cancelled t ht]
    cases step_cancelCases hl with
    | same h => rw [h]
    | shutdown hs _ => exact absurd (by rw [hs]; rfl) hnone
    | @stored j t' hj ht' h =>
      rw [h, Token.cancelled_cons]
      refine ⟨.inr, fun hc => hc.resolve_left ?_⟩
      rcases ht with rfl | ⟨k, rfl⟩
      · exact hinv.stored_suffix_root ht'
      · rw [hinv.stored_suffix_child ht']
        rintro ⟨rfl, -⟩
        exact hne hj
  case challenges => rw [step_challenges_frame hl hne]; exact hv.challenges

/-- A processor does in a run what it does in the run without the others. -/
theorem run_alone (h : Run Step (start ι) ls w) (i : ι) :
    ∃ v, Run Step (start ι) (alone i ls) v ∧ View i w v := by
  refine h.filter (V := View i) (View.refl i _) ?_ ?_
  · intro ls w l w' v hr hl hi hv
    exact hv.step (TasksInv.run hr) hl hi
  · intro ls w l w' v hr hl hi hv
    exact hv.step_other (TasksInv.run hr) hl hi

/-! ## Confinement -/

/-- Whom the cancellations reach, after the history `ls`. -/
structure Confined (ls : List (WorldLabel ι)) (w : World ι) : Prop where
  stored : ∀ {i t}, (w.processors i).challengeProcessCancelationToken = some t →
    ∃ task ∈ (w.processors i).tasks, task.childCancellationToken = t
  cancel_shutdown : ∀ i, Token.Cancelled (w.cancelChallenge i).cancelled Token.root ↔
    Token.Cancelled w.cancelled Token.root
  cancel_task : ∀ i {j} {k : Nat} {task : ChallengeTask ι}, (w.processors j).tasks[k]? = some task →
    (Token.Cancelled (w.cancelChallenge i).cancelled task.childCancellationToken ↔
      Token.Cancelled w.cancelled task.childCancellationToken ∨
        j = i ∧ (w.processors i).challengeProcessCancelationToken =
          some task.childCancellationToken)
  step_task : ∀ {l w' j} {k : Nat} {task : ChallengeTask ι}, Step w l w' →
    (w.processors j).tasks[k]? = some task →
    Token.Cancelled w'.cancelled task.childCancellationToken →
    Token.Cancelled w.cancelled task.childCancellationToken ∨ l = .shutdown ∨
      processorOf l = some j ∧ (w.processors j).challengeProcessCancelationToken =
        some task.childCancellationToken
  step_spawned : ∀ {l w' j} {k : Nat} {task : ChallengeTask ι}, Step w l w' →
    (w'.processors j).tasks[k]? = some task → (w.processors j).tasks.length ≤ k →
    Token.Cancelled w'.cancelled task.childCancellationToken →
    Token.Cancelled w'.cancelled Token.root
  alone : ∀ i, ∃ v, Run Step (start ι) (alone i ls) v ∧ View i w v
  shutdown : Token.Cancelled w.cancelled Token.root ↔ .shutdown ∈ ls
  shutdown_all : .shutdown ∈ ls → ∀ i,
    (∀ task ∈ (w.processors i).tasks, Token.Cancelled w.cancelled task.childCancellationToken) ∧
      ∀ t, (w.processors i).challengeProcessCancelationToken = some t → Token.Cancelled w.cancelled t

theorem TasksInv.stored_task (h : TasksInv ls w) {t : Token (ι × Nat)}
    (ht : (w.processors i).challengeProcessCancelationToken = some t) :
    ∃ task ∈ (w.processors i).tasks, task.childCancellationToken = t := by
  obtain ⟨rfl, hpos⟩ := h.stored_child ht
  obtain ⟨task, htask, -⟩ := h.exists_task (List.getElem?_eq_getElem (Nat.sub_one_lt_of_lt hpos))
  exact ⟨task, List.mem_of_getElem? htask, (h.task htask).1⟩

/-- A step cancels the task of the processor it is about, and only the one
whose token is stored. -/
theorem TasksInv.step_task (h : TasksInv ls w) (hl : w.step l = some w') {task : ChallengeTask ι}
    (ht : (w.processors j).tasks[k]? = some task)
    (hc : Token.Cancelled w'.cancelled task.childCancellationToken) :
    Token.Cancelled w.cancelled task.childCancellationToken ∨ l = .shutdown ∨
      processorOf l = some j ∧ (w.processors j).challengeProcessCancelationToken =
        some task.childCancellationToken := by
  cases step_cancelCases hl with
  | same he => rw [he] at hc; exact .inl hc
  | shutdown hs _ => exact .inr (.inl hs)
  | stored hi hs he =>
    rw [he, Token.cancelled_cons, (h.task ht).1, h.stored_suffix_child hs, ← (h.task ht).1] at hc
    rcases hc with ⟨rfl, rfl⟩ | hc
    · exact .inr (.inr ⟨hi, hs⟩)
    · exact .inl hc

/-- A task that a step has spawned is cancelled only by the shutdown. -/
theorem TasksInv.step_spawned (h : TasksInv ls w) (hl : w.step l = some w') {task : ChallengeTask ι}
    (ht : (w'.processors j).tasks[k]? = some task) (hk : (w.processors j).tasks.length ≤ k)
    (hc : Token.Cancelled w'.cancelled task.childCancellationToken) :
    Token.Cancelled w'.cancelled Token.root := by
  have h' := h.step hl
  by_contra hroot
  rw [(h'.task ht).1, Token.cancelled_child] at hc
  have hmem := hc.resolve_right hroot
  -- a token that was cancelled before, or stored, is an older task's
  have hold : Token.root.child (j, k) ∉ w.cancelled := by
    rw [h.cancelled, ← h.length]
    exact fun hc => absurd hc.1 (by omega)
  cases step_cancelCases hl with
  | same he => rw [he] at hmem; exact hold hmem
  | shutdown _ he => exact hroot (by rw [he, Token.cancelled_root]; exact List.mem_cons_self)
  | @stored i t _ hs he =>
    rw [he] at hmem
    rcases List.mem_cons.mp hmem with rfl | hmem
    · obtain ⟨hlast, hpos⟩ := h.stored_child hs
      obtain ⟨rfl, hk'⟩ := Prod.mk.inj (Token.child_injective hlast)
      rw [h.length] at hk
      omega
    · exact hold hmem

/-- **Cancellation is confined to its own challenge.** In every reachable state
of any number of processors: a stored token is that of an own task;
`cancel_challenge` cancels this token and neither the shutdown token nor any
other; a step cancels a task only as a shutdown or by the task's own
processor, and never one it spawns; every processor is as it is after the same
run without the others; and after a shutdown all tasks are cancelled, those
spawned later as well. -/
theorem cancellation_confined (h : Run Step (start ι) ls w) : Confined ls w := by
  have hinv := TasksInv.run h
  have hshutdown : Token.Cancelled w.cancelled Token.root ↔ .shutdown ∈ ls :=
    Token.cancelled_root.trans hinv.shutdown
  constructor
  case stored => exact hinv.stored_task
  case cancel_shutdown => exact hinv.cancelled_root_cancelChallenge
  case cancel_task => intro i j k task ht; exact hinv.cancelled_cancelChallenge i ht
  case step_task => intro l w' j k task hl; exact hinv.step_task hl
  case step_spawned => intro l w' j k task hl; exact hinv.step_spawned hl
  case alone => exact run_alone h
  case shutdown => exact hshutdown
  case shutdown_all =>
    intro hs i
    have hroot := hshutdown.mpr hs
    have htask : ∀ task ∈ (w.processors i).tasks,
        Token.Cancelled w.cancelled task.childCancellationToken := by
      intro task ht
      obtain ⟨k, hk⟩ := List.mem_iff_getElem?.mp ht
      rw [(hinv.task hk).1]
      exact Token.cancelled_child.mpr (.inr hroot)
    refine ⟨htask, ?_⟩
    intro t ht
    obtain ⟨task, hmem, rfl⟩ := hinv.stored_task ht
    exact htask task hmem

/-- Two processors spawn a challenge each, and the event that ends the first
one's comes in. -/
def sampleTwo : List (WorldLabel Bool) :=
  [.period false (.ok 600), .period true (.ok 600), .send false (.opPoked samplePoked),
    .send true (.opPoked samplePoked), .recv false (.opPoked samplePoked),
    .recv true (.opPoked samplePoked), .judged true samplePoked (.ok true),
    .judged false samplePoked (.ok true),
    .send false (.opPokeChallengedSuccessfully sampleChallenged),
    .recv false (.opPokeChallengedSuccessfully sampleChallenged)]

theorem cancellation_confined_sample : ∃ w, Run Step (start Bool) sampleTwo w ∧
    Token.Cancelled w.cancelled (Token.root.child (false, 0)) ∧
    ¬ Token.Cancelled w.cancelled (Token.root.child (true, 0)) ∧ Confined sampleTwo w := by
  obtain ⟨w, hrun, htest⟩ : ∃ w, Run Step (start Bool) sampleTwo w ∧
      (w.cancelled == [Token.root.child (false, 0)]) = true :=
    exists_run_of_runSteps (fun w : World Bool => w.cancelled == [Token.root.child (false, 0)])
      (by decide +kernel)
  refine ⟨w, hrun, ?_, ?_, cancellation_confined hrun⟩
  · rw [eq_of_beq htest]; decide
  · rw [eq_of_beq htest]; decide

end World
end Challenger
