import Challenger.Contract
import Challenger.Lib.Call
import Challenger.Lib.Refinement
import Challenger.ProcessorEvents

/-! # The processors over their contracts

Behind each processor is a contract instance, and the answers it acts on are
what the instance's programs come to, request by request: the challenge period
at the start, one validation at a time, and the challenges of the tasks, which
run beside each other and can be cancelled at any request. The trait's calls
become arbitrary results when the programs are forgotten, so this refines the
processors with arbitrary calls (`toWorld`), and what was shown of their runs
holds here. -/
namespace Challenger
open Lib Lib.Async

/-- The processors and the calls of their contracts under way. The challenge
counter is the list of its increments. -/
structure Contracts (ι : Type) where
  world : World ι
  challengePeriod : ι → Call ContractI (ContractResult UInt16)
  validation : ι → Option (Call ContractI (ContractResult Bool))
  challenge : ι → Nat → Option (Call ContractI (ContractResult TxHash))
  challengeCounter : List Address

/-- A request of a processor's call is answered, a step that no task's call is
involved in, or one wake-up of a task, with the answers its call gets. -/
inductive ContractsLabel (ι : Type) where
  | answer (i : ι) (e : ContractI.Event)
  | step (l : WorldLabel ι)
  | wake (i : ι) (k : Nat) (cancelledFirst : Bool) (answers : List ContractI.Event)
      (returned : Option (ContractResult TxHash))

/-- The steps of the processors that a step makes. -/
def ContractsLabel.world {ι : Type} : ContractsLabel ι → List (WorldLabel ι)
  | .answer _ _ => []
  | .step l => [l]
  | .wake i k cancelledFirst _ returned => [.wake i k cancelledFirst returned]

/-- What a returned challenge adds to the counter. -/
def ScribeContractInstance.counted (c : ScribeContractInstance) :
    Option (ContractResult TxHash) → List Address
  | some (.ok _) => [c.address]
  | _ => []

namespace World
variable {ι : Type} [DecidableEq ι] {w w' : World ι} {i : ι} {l : WorldLabel ι}

/-- All a step can do to the tasks of a processor. -/
inductive TasksCases (w : World ι) (i : ι) : WorldLabel ι → List (ChallengeTask ι) → Prop where
  | same {l : WorldLabel ι} : TasksCases w i l (w.processors i).tasks
  | spawned {log} : TasksCases w i (.judged i log (.ok true)) ((w.processors i).tasks ++
      [⟨w.childToken i, log.data.schnorrData, .sleeping false⟩])
  | elapsed {k task} (ht : (w.processors i).tasks[k]? = some task)
      (hp : task.phase = .sleeping false) : TasksCases w i (.elapse i k)
        ((w.processors i).tasks.modify k fun task => { task with phase := .sleeping true })
  | woken {k task cancelledFirst returned} (ht : (w.processors i).tasks[k]? = some task)
      (hp : running task.phase = true) : TasksCases w i (.wake i k cancelledFirst returned)
        ((w.processors i).tasks.modify k fun t => { t with phase :=
          (select (Token.Cancelled w.cancelled task.childCancellationToken) cancelledFirst
            task.phase returned).1 })

theorem handleEvent_same_tasks (w : World ι) (i : ι) (event : Event) :
    ((w.handleEvent i event).processors i).tasks = (w.processors i).tasks := by
  cases event with
  | opPoked log =>
    rcases handleEvent_opPoked w i log with h | h <;> rw [h]
    rw [setProcessor_self]
  | opPokeChallengedSuccessfully _ => rw [handleEvent, cancelChallenge_processor]

theorem step_tasks (h : w.step l = some w') (i : ι) : TasksCases w i l (w'.processors i).tasks := by
  by_cases hi : processorOf l = some i
  · cases step_cases h with
    | send _ => cases hi; rw [setProcessor_self]; exact .same
    | close => cases hi; rw [setProcessor_self]; exact .same
    | periodOk _ => cases hi; rw [setProcessor_self]; exact .same
    | periodError _ => cases hi; rw [setProcessor_self]; exact .same
    | recv _ _ => cases hi; rw [handleEvent_same_tasks, setProcessor_self]; exact .same
    | recvNone _ _ _ => exact .same
    | @judged _ log r _ =>
      cases hi
      cases r with
      | error e => rw [handleJudged, setProcessor_self]; exact .same
      | ok challengeable =>
        cases challengeable with
        | false => rw [handleJudged, setProcessor_self]; exact .same
        | true =>
          rw [handleJudged, spawnChallenge_processor, childToken, setProcessor_self]
          exact .spawned
    | stop _ _ => cases hi; rw [setProcessor_self]; exact .same
    | shutdown => exact .same
    | elapse ht hp => cases hi; rw [setTaskPhase_processor]; exact .elapsed ht hp
    | wake ht hp => cases hi; rw [wakeTask_processor]; exact .woken ht hp
  · rw [step_frame h hi]; exact .same

end World

namespace Contracts
variable {ι : Type} [DecidableEq ι] (c : ι → ScribeContractInstance)

def start : Contracts ι where
  world := .start ι
  challengePeriod i := .start (c i).getChallengePeriod
  validation _ := none
  challenge _ _ := none
  challengeCounter := []

/-! ## Steps -/

/-- The call that `handle_event` awaits. -/
def handleCall (contract : ScribeContractInstance) (p : ScribeEventsProcessor ι) :
    Event → Option (Call ContractI (ContractResult Bool))
  | .opPoked log =>
    p.challengePeriod.map fun period => .start (contract.isOpPokeChallengeable log period)
  | .opPokeChallengedSuccessfully _ => none

/-- The results a processor acts on are those of its calls. -/
def agrees (s : Contracts ι) : WorldLabel ι → Bool
  | .period i r => (s.challengePeriod i).result = some r
  | .judged i _ r => (s.validation i).bind Call.result = some r
  | .wake _ _ _ _ => false
  | _ => true

/-- The call a step starts, or is over with it. -/
def follow (s : Contracts ι) (l : WorldLabel ι) (world : World ι) : Contracts ι :=
  match l with
  | .recv i event => { s with
      world := world
      validation := Function.update s.validation i (handleCall (c i) (s.world.processors i) event) }
  | .judged i _ _ => { s with world := world, validation := Function.update s.validation i none }
  | _ => { s with world := world }

def answerProcessor (s : Contracts ι) (i : ι) (e : ContractI.Event) : Option (Contracts ι) :=
  match (s.world.processors i).phase with
  | .starting => ((s.challengePeriod i).answer [e]).map fun call =>
      { s with challengePeriod := Function.update s.challengePeriod i call }
  | .validating _ => ((s.validation i).bind fun call => call.answer [e]).map fun call =>
      { s with validation := Function.update s.validation i (some call) }
  | _ => none

/-- Whether a wake-up of a task gets to its call of the contract. -/
def pollsCall (cancelled cancelledFirst : Bool) : TaskPhase → Bool
  | .sleeping true => !(cancelledFirst && cancelled)
  | .challenging => !(cancelledFirst && cancelled)
  | _ => false

/-- The task's call, which starts when it is polled for the first time. -/
def taskCall (s : Contracts ι) (i : ι) (k : Nat) (task : ChallengeTask ι) :
    Call ContractI (ContractResult TxHash) :=
  (s.challenge i k).getD (.start ((c i).challenge task.schnorrData))

def setChallenge (s : Contracts ι) (i : ι) (k : Nat) (call : Call ContractI (ContractResult TxHash)) :
    ι → Nat → Option (Call ContractI (ContractResult TxHash)) :=
  Function.update s.challenge i (Function.update (s.challenge i) k (some call))

def wakeTask (s : Contracts ι) (i : ι) (k : Nat) (task : ChallengeTask ι) (cancelledFirst : Bool)
    (answers : List ContractI.Event) (returned : Option (ContractResult TxHash)) :
    Option (Contracts ι) :=
  if pollsCall (Token.Cancelled s.world.cancelled task.childCancellationToken) cancelledFirst
      task.phase then
    (((s.taskCall c i k task).answer answers).filter fun call => call.result = returned).bind
      fun call => (s.world.step (.wake i k cancelledFirst returned)).map fun world => { s with
        world := world
        challenge := s.setChallenge i k call
        challengeCounter := s.challengeCounter ++ (c i).counted returned }
  else if answers = [] ∧ returned = none then
    (s.world.step (.wake i k cancelledFirst none)).map fun world => { s with world := world }
  else none

def step (s : Contracts ι) : ContractsLabel ι → Option (Contracts ι)
  | .answer i e => s.answerProcessor i e
  | .step l => if s.agrees l then (s.world.step l).map (s.follow c l) else none
  | .wake i k cancelledFirst answers returned =>
    (s.world.processors i).tasks[k]?.bind fun task =>
      s.wakeTask c i k task cancelledFirst answers returned

def Step : Contracts ι → ContractsLabel ι → Contracts ι → Prop := Takes (step c)

variable {c} {s s' : Contracts ι} {i j : ι} {k : Nat} {l : ContractsLabel ι}
  {ls : List (ContractsLabel ι)}

/-- All a step can do. -/
inductive StepCases (c : ι → ScribeContractInstance) (s : Contracts ι) :
    ContractsLabel ι → Contracts ι → Prop where
  | answerPeriod {i e call} (hp : (s.world.processors i).phase = .starting)
      (h : (s.challengePeriod i).answer [e] = some call) : StepCases c s (.answer i e)
        { s with challengePeriod := Function.update s.challengePeriod i call }
  | answerValidation {i e log call call'} (hp : (s.world.processors i).phase = .validating log)
      (hv : s.validation i = some call) (h : call.answer [e] = some call') :
      StepCases c s (.answer i e)
        { s with validation := Function.update s.validation i (some call') }
  | step {l world} (ha : s.agrees l = true) (hw : s.world.step l = some world) :
      StepCases c s (.step l) (s.follow c l world)
  | call {i k task cancelledFirst answers returned call world}
      (ht : (s.world.processors i).tasks[k]? = some task)
      (hpolls : pollsCall (Token.Cancelled s.world.cancelled task.childCancellationToken)
        cancelledFirst task.phase = true)
      (h : (s.taskCall c i k task).answer answers = some call) (hr : call.result = returned)
      (hw : s.world.step (.wake i k cancelledFirst returned) = some world) :
      StepCases c s (.wake i k cancelledFirst answers returned) { s with
        world := world
        challenge := s.setChallenge i k call
        challengeCounter := s.challengeCounter ++ (c i).counted returned }
  | noCall {i k task cancelledFirst world} (ht : (s.world.processors i).tasks[k]? = some task)
      (hpolls : pollsCall (Token.Cancelled s.world.cancelled task.childCancellationToken)
        cancelledFirst task.phase = false)
      (hw : s.world.step (.wake i k cancelledFirst none) = some world) :
      StepCases c s (.wake i k cancelledFirst [] none) { s with world := world }

theorem step_cases (h : s.step c l = some s') : StepCases c s l s' := by
  cases l with
  | answer i e =>
    simp only [step, answerProcessor] at h
    split at h
    · obtain ⟨call, hcall, rfl⟩ := Option.map_eq_some_iff.mp h
      exact .answerPeriod ‹_› hcall
    · obtain ⟨call', hcall, rfl⟩ := Option.map_eq_some_iff.mp h
      obtain ⟨call, hv, hcall⟩ := Option.bind_eq_some_iff.mp hcall
      exact .answerValidation ‹_› hv hcall
    · cases h
  | step l =>
    simp only [step] at h
    split at h
    · obtain ⟨world, hw, rfl⟩ := Option.map_eq_some_iff.mp h
      exact .step ‹_› hw
    · cases h
  | wake i k cancelledFirst answers returned =>
    obtain ⟨task, ht, h⟩ := Option.bind_eq_some_iff.mp h
    unfold wakeTask at h
    split at h
    · obtain ⟨call, hcall, h⟩ := Option.bind_eq_some_iff.mp h
      obtain ⟨hcall, hr⟩ := Option.filter_eq_some_iff.mp hcall
      obtain ⟨world, hw, rfl⟩ := Option.map_eq_some_iff.mp h
      exact .call ht ‹_› hcall (of_decide_eq_true hr) hw
    · rename_i hpolls
      split at h
      · rename_i hnone
        obtain ⟨world, hw, rfl⟩ := Option.map_eq_some_iff.mp h
        obtain ⟨rfl, rfl⟩ := hnone
        exact .noCall ht (by simpa using hpolls) hw
      · cases h

/-! ## The programs forgotten -/

theorem follow_world (s : Contracts ι) (l : WorldLabel ι) (world : World ι) :
    (s.follow c l world).world = world := by
  unfold follow
  split <;> rfl

theorem follow_challengePeriod (s : Contracts ι) (l : WorldLabel ι) (world : World ι) :
    (s.follow c l world).challengePeriod = s.challengePeriod := by
  unfold follow
  split <;> rfl

theorem follow_challenge (s : Contracts ι) (l : WorldLabel ι) (world : World ι) :
    (s.follow c l world).challenge = s.challenge := by
  unfold follow
  split <;> rfl

/-- The processors with arbitrary calls. -/
def toWorld (c : ι → ScribeContractInstance) : Refinement (Step c) (World.Step (ι := ι)) where
  state := Contracts.world
  labels := ContractsLabel.world
  step {s l s'} h := by
    cases step_cases h with
    | answerPeriod _ _ => exact .nil
    | answerValidation _ _ _ => exact .nil
    | step _ hw => rw [follow_world]; exact .single hw
    | call _ _ _ _ hw => exact .single hw
    | noCall _ _ hw => exact .single hw

/-! ## The calls of the tasks -/

section
variable {cancelled cancelledFirst : Bool} {phase : TaskPhase}
  {returned : Option (ContractResult TxHash)}

/-- A wake-up that gets to the call ends with its result, or with the
cancellation. -/
theorem select_of_polls (h : pollsCall cancelled cancelledFirst phase = true) :
    (World.select cancelled cancelledFirst phase returned).1 =
      returned.elim (if cancelled then .cancelled else .challenging) .finished := by
  unfold pollsCall at h
  split at h
  · cases cancelledFirst <;> cases cancelled <;> cases returned <;>
      simp_all [World.select, World.pollWork, World.pollCancelled]
  · cases cancelledFirst <;> cases cancelled <;> cases returned <;>
      simp_all [World.select, World.pollWork, World.pollCancelled]
  · cases h

/-- Any other one can only cancel. -/
theorem select_of_not_polls (h : pollsCall cancelled cancelledFirst phase = false)
    (hp : World.running phase = true) :
    (World.select cancelled cancelledFirst phase none).1 =
      if cancelled then .cancelled else phase := by
  cases phase with
  | sleeping elapsed =>
    cases elapsed <;> cases cancelledFirst <;> cases cancelled <;>
      simp_all [World.select, World.pollWork, World.pollCancelled, pollsCall]
  | challenging =>
    cases cancelledFirst <;> cases cancelled <;> simp_all [World.select, pollsCall]
  | cancelled => cases hp
  | finished r => cases hp

end

/-- The call of a task: there is none before the task is polled after its
delay, and its result is what the task finished with. -/
inductive TaskCall (contract : ScribeContractInstance) :
    Option (ChallengeTask ι) → Option (Call ContractI (ContractResult TxHash)) → Prop where
  | noTask : TaskCall contract none none
  | notCalled {task} (h : (∃ elapsed, task.phase = .sleeping elapsed) ∨ task.phase = .cancelled) :
      TaskCall contract (some task) none
  | called {task call} (hprogram : call.program = contract.challenge task.schnorrData)
      (hsleep : ∀ elapsed, task.phase ≠ .sleeping elapsed)
      (hresult : ∀ r, task.phase = .finished r ↔ call.result = some r) :
      TaskCall contract (some task) (some call)

omit [DecidableEq ι] in
/-- The call that a wake-up polls. -/
theorem TaskCall.program {task : ChallengeTask ι}
    (h : TaskCall (c i) (some task) (s.challenge i k)) :
    (s.taskCall c i k task).program = (c i).challenge task.schnorrData := by
  unfold taskCall
  generalize s.challenge i k = call at h
  cases h with
  | notCalled _ => rfl
  | called hprogram _ _ => exact hprogram

/-- Every task has the call that it should have. -/
def TaskCalls (c : ι → ScribeContractInstance) (s : Contracts ι) : Prop :=
  ∀ i k, TaskCall (c i) (s.world.processors i).tasks[k]? (s.challenge i k)

omit [DecidableEq ι] in
theorem TaskCalls.init : TaskCalls c (start c) := fun _ _ => .noTask

/-- A step without any call at most spawns a task, ends a delay, or cancels. -/
theorem TaskCall.of_tasksCases {w : World ι} {l : WorldLabel ι} {tasks : List (ChallengeTask ι)}
    {contract : ScribeContractInstance} {call : Option (Call ContractI (ContractResult TxHash))}
    (h : TaskCall contract (w.processors i).tasks[k]? call) (hl : World.TasksCases w i l tasks)
    (hwake : ∀ k cancelledFirst returned, l ≠ .wake i k cancelledFirst returned) :
    TaskCall contract tasks[k]? call := by
  cases hl with
  | same => exact h
  | spawned =>
    by_cases hk : k < (w.processors i).tasks.length
    · rw [List.getElem?_append_left hk]; exact h
    · have hlen := Nat.le_of_not_lt hk
      rw [List.getElem?_append_right hlen]
      rw [List.getElem?_eq_none hlen] at h
      cases h
      cases k - (w.processors i).tasks.length with
      | zero => exact .notCalled (.inl ⟨false, rfl⟩)
      | succ n => exact .noTask
  | @elapsed k' task ht hp =>
    rw [List.getElem?_modify]
    by_cases hk : k' = k
    · subst hk
      rw [ht] at h ⊢
      cases h with
      | notCalled _ => simpa using .notCalled (.inl ⟨true, rfl⟩)
      | called _ hsleep _ => exact absurd hp (hsleep false)
    · simpa [hk] using h
  | woken _ _ => exact absurd rfl (hwake _ _ _)

/-- A wake-up changes the phase of its task and nothing else. -/
theorem wake_tasks {w w' : World ι} {cancelledFirst : Bool}
    {returned : Option (ContractResult TxHash)} {task : ChallengeTask ι}
    (hw : w.step (.wake i k cancelledFirst returned) = some w')
    (ht : (w.processors i).tasks[k]? = some task) :
    World.running task.phase = true ∧ ∀ j k', (w'.processors j).tasks[k']? =
      if j = i ∧ k' = k then some { task with phase := (World.select
        (Token.Cancelled w.cancelled task.childCancellationToken) cancelledFirst task.phase
          returned).1 }
      else (w.processors j).tasks[k']? := by
  cases World.step_cases hw with
  | @wake _ _ task' _ _ ht' hp =>
    obtain rfl : task = task' := Option.some.inj (ht.symm.trans ht')
    refine ⟨hp, ?_⟩
    intro j k'
    by_cases hj : j = i
    · subst hj
      rw [World.wakeTask_processor, List.getElem?_modify]
      by_cases hk : k' = k
      · subst hk
        simp [ht]
      · simp [hk, Ne.symm hk]
    · rw [if_neg fun h => hj h.1]
      exact congrArg (fun p => p.tasks[k']?) (World.setProcessor_of_ne _ hj)

theorem setChallenge_self (call : Call ContractI (ContractResult TxHash)) :
    s.setChallenge i k call i k = some call := by
  rw [setChallenge, Function.update_self, Function.update_self]

theorem setChallenge_of_ne {k' : Nat} (h : ¬ (j = i ∧ k' = k))
    (call : Call ContractI (ContractResult TxHash)) :
    s.setChallenge i k call j k' = s.challenge j k' := by
  unfold setChallenge
  by_cases hj : j = i
  · subst hj
    rw [Function.update_self, Function.update_of_ne fun hk => h ⟨rfl, hk⟩]
  · rw [Function.update_of_ne hj]

theorem TaskCalls.step (h : TaskCalls c s) (hl : s.step c l = some s') : TaskCalls c s' := by
  cases step_cases hl with
  | answerPeriod _ _ => exact h
  | answerValidation _ _ _ => exact h
  | @step l world ha hw =>
    intro j k
    rw [follow_world, follow_challenge]
    refine (h j k).of_tasksCases (World.step_tasks hw j) ?_
    intro k' cancelledFirst returned hwake
    subst hwake
    cases ha
  | @call i k task cancelledFirst answers returned call world ht hpolls hcall hr hw =>
    obtain ⟨-, htasks⟩ := wake_tasks hw ht
    intro j k'
    by_cases hjk : j = i ∧ k' = k
    · obtain ⟨rfl, rfl⟩ := hjk
      have hprogram : call.program = (c j).challenge task.schnorrData := by
        rw [(Call.answer_eq_some hcall).1]
        exact TaskCall.program (ht ▸ h j k')
      rw [htasks, if_pos ⟨rfl, rfl⟩]
      show TaskCall (c j) _ (s.setChallenge j k' call j k')
      rw [setChallenge_self, select_of_polls hpolls]
      cases returned with
      | none =>
        refine .called hprogram ?_ ?_
        · intro elapsed
          simp only [Option.elim_none]
          split <;> simp
        · intro r
          simp only [Option.elim_none, hr]
          split <;> simp
      | some r' => exact .called hprogram (by simp) (by simp [hr])
    · rw [htasks, if_neg hjk]
      show TaskCall (c j) _ (s.setChallenge i k call j k')
      rw [setChallenge_of_ne hjk]
      exact h j k'
  | @noCall i k task cancelledFirst world ht hpolls hw =>
    obtain ⟨hp, htasks⟩ := wake_tasks hw ht
    intro j k'
    rw [htasks]
    by_cases hjk : j = i ∧ k' = k
    · obtain ⟨rfl, rfl⟩ := hjk
      have hold := h j k'
      rw [if_pos ⟨rfl, rfl⟩, select_of_not_polls hpolls hp]
      rw [ht] at hold
      generalize s.challenge j k' = call at hold ⊢
      cases hold with
      | notCalled hphase =>
        refine .notCalled ?_
        dsimp only
        split
        · exact .inr rfl
        · exact hphase
      | called hprogram hsleep hresult =>
        refine .called hprogram ?_ ?_
        · intro elapsed
          dsimp only
          split
          · simp
          · exact hsleep elapsed
        · intro r
          rw [← hresult]
          dsimp only
          split
          · -- a task that runs has not finished
            have hne : task.phase ≠ .finished r := fun he => by rw [he] at hp; cases hp
            simp [hne]
          · rfl
    · rw [if_neg hjk]
      exact h j k'

theorem TaskCalls.run (h : Run (Step c) (start c) ls s) : TaskCalls c s :=
  h.preserves (fun ih hl => ih.step hl) .init

end Contracts
end Challenger
