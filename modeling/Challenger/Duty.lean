import Challenger.Lib.Duties
import Challenger.Process
import Challenger.ProcessorVerdicts
import Mathlib.Tactic.Abel

/-! # What is left to be done

A state of the process owes the polls, calls and events under way, and that its
tasks stop. A step that does something owed leaves only smaller duties in its
place, so the process cannot go on for ever with such steps alone
(`cut_works`). And whoever awaits an answer can get one, so that it goes on at
all (`call_goes_on`, `poll_goes_on`). -/
namespace Challenger
open Lib Lib.Async Relation

/-! ## Duties -/

/-- A poll, a call or an event is owed until it is over; a task owes that it
stops. -/
inductive Duty where
  | poll (rest : PollM (Except PollerError Unit × Poller))
  | stopPoller
  | event
  | period (rest : ContractM (ContractResult UInt16))
  | validation (rest : ContractM (ContractResult Bool))
  | stopProcessor
  | delay
  | call
  | challenge (rest : Option (ContractM (ContractResult TxHash)))
  | close
  | stopCollector
  | join (unjoined : Nat)

namespace Duty

/-- What may be owed in place of a duty that was done. -/
inductive Below : Duty → Duty → Prop where
  | answered {e t q q'} (h : Exec q (e :: t) q') : Below (.poll q') (.poll q)
  | sent {q} : Below .event (.poll q)
  | polled {q} : Below .stopPoller (.poll q)
  | periodAnswered {e t q q'} (h : Exec q (e :: t) q') : Below (.period q') (.period q)
  | started {q} : Below .stopProcessor (.period q)
  | validated {q} : Below (.validation q) .event
  | validationAnswered {e t q q'} (h : Exec q (e :: t) q') : Below (.validation q') (.validation q)
  | spawned {q} : Below .delay (.validation q)
  | elapsed : Below .call .delay
  | called {q} : Below (.challenge q) .call
  | challengeAnswered {e t q q'} (h : Exec q (e :: t) q') :
      Below (.challenge (some q')) (.challenge (some q))
  | joined {k k'} (h : k' < k) : Below (.join k') (.join k)

theorem acc_of_minimal {d : Duty} (h : ∀ d', ¬ Below d' d) : Acc Below d :=
  ⟨d, fun d' hd => absurd hd (h d')⟩

theorem acc_challenge (q : Option (ContractM (ContractResult TxHash))) : Acc Below (.challenge q) := by
  cases q with
  | none => exact acc_of_minimal fun d' h => by cases h
  | some q =>
    induction q using rest_induction with
    | h q ih =>
      refine ⟨_, ?_⟩
      intro d' h
      cases h with
      | challengeAnswered hq => exact ih _ _ _ hq

theorem acc_call : Acc Below .call := by
  refine ⟨_, ?_⟩
  intro d' h
  cases h with
  | @called q => exact acc_challenge q

theorem acc_delay : Acc Below .delay := by
  refine ⟨_, ?_⟩
  intro d' h
  cases h with
  | elapsed => exact acc_call

theorem acc_validation (q : ContractM (ContractResult Bool)) : Acc Below (.validation q) := by
  induction q using rest_induction with
  | h q ih =>
    refine ⟨_, ?_⟩
    intro d' h
    cases h with
    | validationAnswered hq => exact ih _ _ _ hq
    | spawned => exact acc_delay

theorem acc_event : Acc Below .event := by
  refine ⟨_, ?_⟩
  intro d' h
  cases h with
  | @validated q => exact acc_validation q

theorem acc_period (q : ContractM (ContractResult UInt16)) : Acc Below (.period q) := by
  have hstop : Acc Below .stopProcessor := acc_of_minimal fun d' h => by cases h
  induction q using rest_induction with
  | h q ih =>
    refine ⟨_, ?_⟩
    intro d' h
    cases h with
    | periodAnswered hq => exact ih _ _ _ hq
    | started => exact hstop

theorem acc_poll (q : PollM (Except PollerError Unit × Poller)) : Acc Below (.poll q) := by
  have hstop : Acc Below .stopPoller := acc_of_minimal fun d' h => by cases h
  induction q using rest_induction with
  | h q ih =>
    refine ⟨_, ?_⟩
    intro d' h
    cases h with
    | answered hq => exact ih _ _ _ hq
    | sent => exact acc_event
    | polled => exact hstop

theorem acc_join (k : Nat) : Acc Below (.join k) := by
  induction k using Nat.strong_induction_on with
  | _ k ih =>
    refine ⟨_, ?_⟩
    intro d' h
    cases h with
    | joined hk => exact ih _ hk

theorem below_wf : WellFounded Below := by
  refine ⟨fun d => ?_⟩
  cases d with
  | poll q => exact acc_poll q
  | event => exact acc_event
  | period q => exact acc_period q
  | validation q => exact acc_validation q
  | delay => exact acc_delay
  | call => exact acc_call
  | challenge q => exact acc_challenge q
  | join k => exact acc_join k
  | _ => exact acc_of_minimal fun d' h => by cases h

end Duty

/-! ## What a state owes -/

def PollerPhase.duties : PollerPhase → Multiset Duty
  | .idle => {.stopPoller}
  | .polling _ rest => {.poll rest}
  | .stopped _ => 0

def CollectorPhase.duties : CollectorPhase → Multiset Duty
  | .running => {.stopCollector}
  | _ => 0

def ProcessorPhase.duties (period : Call ContractI (ContractResult UInt16))
    (validation : Option (Call ContractI (ContractResult Bool))) : ProcessorPhase → Multiset Duty
  | .starting => {.period period.rest}
  | .idle => {.stopProcessor}
  | .validating _ => {.stopProcessor} + validation.elim 0 fun call => {.validation call.rest}
  | .stopped _ => 0

def TaskPhase.duties (challenge : Option (Call ContractI (ContractResult TxHash))) :
    TaskPhase → Multiset Duty
  | .sleeping false => {.delay}
  | .sleeping true => {.call}
  | .challenging => {.challenge (challenge.map Call.rest)}
  | _ => 0

def tasksDuties (tasks : List (ChallengeTask Nat))
    (challenge : Nat → Option (Call ContractI (ContractResult TxHash))) : Multiset Duty :=
  ∑ k ∈ Finset.range tasks.length, tasks[k]?.elim 0 fun task => task.phase.duties (challenge k)

def ScribeEventsProcessor.duties (p : ScribeEventsProcessor Nat)
    (period : Call ContractI (ContractResult UInt16))
    (validation : Option (Call ContractI (ContractResult Bool)))
    (challenge : Nat → Option (Call ContractI (ContractResult TxHash))) : Multiset Duty :=
  p.phase.duties period validation + Multiset.replicate p.rx.length .event +
    tasksDuties p.tasks challenge + if p.closed then 0 else {.close}

namespace Process
variable {m : Wiring} {s s' : Process} {l : ProcessLabel} {ls : List ProcessLabel} {i : Nat}
  {p p' : ScribeEventsProcessor Nat} {period period' : Call ContractI (ContractResult UInt16)}
  {validation validation' : Option (Call ContractI (ContractResult Bool))}
  {challenge challenge' : Nat → Option (Call ContractI (ContractResult TxHash))}
  {contracts contracts' : Contracts Nat}

def processorDuties (contracts : Contracts Nat) (i : Nat) : Multiset Duty :=
  (contracts.world.processors i).duties (contracts.challengePeriod i) (contracts.validation i)
    (contracts.challenge i)

def mainDuties (m : Wiring) (s : Process) : Multiset Duty :=
  match s.main with
  | .joining => {.join (m.tasks.filter fun task => task ∉ s.joined).length}
  | _ => 0

def duties (m : Wiring) (s : Process) : Multiset Duty :=
  s.poller.phase.duties + s.collector.duties + mainDuties m s +
    ∑ i ∈ Finset.range m.set.length, processorDuties s.contracts i

/-! ## A processor does its duties -/

/-- A step that changes the phase only. -/
theorem cut_phase (hrx : p'.rx = p.rx) (htasks : p'.tasks = p.tasks) (hclosed : p'.closed = p.closed)
    (h : CutExpand Duty.Below (p'.phase.duties period' validation')
      (p.phase.duties period validation)) :
    CutExpand Duty.Below (p'.duties period' validation' challenge)
      (p.duties period validation challenge) := by
  unfold ScribeEventsProcessor.duties
  rw [hrx, htasks, hclosed]
  exact (cutExpand_add_right _).mpr ((cutExpand_add_right _).mpr ((cutExpand_add_right _).mpr h))

/-- A step that changes a task. -/
theorem cut_task {k : Nat} {task : ChallengeTask Nat} {phase : TaskPhase}
    (ht : p.tasks[k]? = some task) (hne : ∀ k' ≠ k, challenge' k' = challenge k')
    (h : CutExpand Duty.Below (phase.duties (challenge' k)) (task.phase.duties (challenge k))) :
    CutExpand Duty.Below (({ p with tasks := p.tasks.modify k fun t => { t with phase := phase } } :
      ScribeEventsProcessor Nat).duties period validation challenge')
        (p.duties period validation challenge) := by
  have hk : k ∈ Finset.range p.tasks.length :=
    Finset.mem_range.mpr (List.getElem?_eq_some_iff.mp ht).1
  refine (cutExpand_add_right _).mpr ((cutExpand_add_left _).mpr ?_)
  unfold tasksDuties
  rw [List.length_modify]
  refine cutExpand_sum hk ?_ ?_
  · simpa [ht] using h
  · intro k' _ hk'
    simp [hne k' hk', Ne.symm hk']

/-- An event that is taken from the channel may lead to a validation. -/
theorem cut_event {rest : List Event} {event : Event} (hphase : p.phase = .idle)
    (hrx : p.rx = event :: rest) (hrx' : p'.rx = rest) (htasks : p'.tasks = p.tasks)
    (hclosed : p'.closed = p.closed) {t : Multiset Duty} (ht : ∀ d ∈ t, Duty.Below d .event)
    (hphase' : p'.phase.duties period validation' = {.stopProcessor} + t) :
    CutExpand Duty.Below (p'.duties period validation' challenge)
      (p.duties period validation challenge) := by
  unfold ScribeEventsProcessor.duties
  rw [hphase', hphase, hrx', hrx, htasks, hclosed, List.length_cons, Multiset.replicate_succ,
    ← Multiset.singleton_add]
  refine cutExpand_of_eq (t := t) (a := .event) ({.stopProcessor} +
    Multiset.replicate rest.length .event + tasksDuties p.tasks challenge +
      if p.closed then 0 else {.close}) ht ?_ ?_
  · abel
  · simp only [ProcessorPhase.duties]
    abel

theorem tasksDuties_append (tasks : List (ChallengeTask Nat)) (task : ChallengeTask Nat) :
    tasksDuties (tasks ++ [task]) challenge =
      tasksDuties tasks challenge + task.phase.duties (challenge tasks.length) := by
  unfold tasksDuties
  rw [List.length_append, List.length_singleton, Finset.sum_range_succ]
  congr 1
  · refine Finset.sum_congr rfl ?_
    intro k hk
    rw [List.getElem?_append_left (Finset.mem_range.mp hk)]
  · simp

/-- A judgement may lead to a task. -/
theorem cut_judged {log : Log OpPoked} {call : Call ContractI (ContractResult Bool)}
    (hphase : p.phase = .validating log) (hphase' : p'.phase = .idle) (hrx : p'.rx = p.rx)
    (hclosed : p'.closed = p.closed) {t : Multiset Duty}
    (ht : ∀ d ∈ t, Duty.Below d (.validation call.rest))
    (htasks : tasksDuties p'.tasks challenge = tasksDuties p.tasks challenge + t) :
    CutExpand Duty.Below (p'.duties period none challenge)
      (p.duties period (some call) challenge) := by
  unfold ScribeEventsProcessor.duties
  rw [hphase, hphase', hrx, htasks, hclosed]
  refine cutExpand_of_eq (t := t) (a := .validation call.rest) ({.stopProcessor} +
    Multiset.replicate p.rx.length .event + tasksDuties p.tasks challenge +
      if p.closed then 0 else {.close}) ht ?_ ?_
  · simp only [ProcessorPhase.duties]
    abel
  · simp only [ProcessorPhase.duties, Option.elim_some]
    abel

/-- The sender of the channel is dropped. -/
theorem cut_close (hclosed : p.closed = false) :
    CutExpand Duty.Below (({ p with closed := true } : ScribeEventsProcessor Nat).duties period
      validation challenge) (p.duties period validation challenge) := by
  unfold ScribeEventsProcessor.duties
  rw [hclosed]
  exact (cutExpand_add_left _).mpr cutExpand_zero

/-- A step of the processor's own loop. -/
theorem cut_step {c : Nat → ScribeContractInstance} {l : WorldLabel Nat} {world : World Nat}
    (ha : contracts.agrees l = true) (hw : contracts.world.step l = some world)
    (hi : World.processorOf l = some i) (ho : own m (.step l) = true) (hr : l ≠ .recvNone i) :
    CutExpand Duty.Below (processorDuties (contracts.follow c l world) i)
      (processorDuties contracts i) := by
  have hprocessor := World.step_processor hw hi
  have htasks := World.step_tasks hw i
  unfold processorDuties
  rw [Contracts.follow_world, Contracts.follow_challengePeriod, Contracts.follow_challenge]
  generalize hp : world.processors i = p' at hprocessor htasks
  cases hprocessor with
  | send => cases ho
  | close => cases ho
  | recvNone _ => exact absurd rfl hr
  | periodOk hphase =>
    refine cut_phase rfl rfl rfl ?_
    rw [hphase]
    exact cutExpand_singleton_singleton .started
  | periodError hphase =>
    refine cut_phase rfl rfl rfl ?_
    rw [hphase]
    exact cutExpand_zero
  | @validate log rest hphase hrx =>
    refine cut_event hphase hrx rfl rfl rfl ?_ rfl
    intro d hd
    generalize (contracts.follow c (.recv i (.opPoked log)) world).validation i = call at hd
    cases call with
    | none => cases hd
    | some call => rw [Multiset.mem_singleton.mp hd]; exact .validated
  | ignore hphase hrx _ =>
    refine cut_event (t := 0) hphase hrx rfl rfl rfl (by simp) ?_
    simp [hphase, ProcessorPhase.duties]
  | cancel hphase hrx =>
    refine cut_event (t := 0) hphase hrx rfl rfl rfl (by simp) ?_
    simp [hphase, ProcessorPhase.duties]
  | @judged log r token tasks hphase =>
    obtain ⟨call, hv, -⟩ := Option.bind_eq_some_iff.mp (of_decide_eq_true ha)
    have hnone : (contracts.follow c (.judged i log r) world).validation i = none :=
      Function.update_self ..
    rw [hnone, hv]
    cases htasks with
    | same => exact cut_judged (t := 0) hphase rfl rfl rfl (by simp) (add_zero _).symm
    | spawned =>
      refine cut_judged (t := {.delay}) hphase rfl rfl rfl ?_ (tasksDuties_append _ _)
      intro d hd
      rw [Multiset.mem_singleton.mp hd]
      exact .spawned
  | stop hphase _ =>
    refine cut_phase rfl rfl rfl ?_
    rw [hphase]
    exact cutExpand_zero
  | elapse =>
    cases World.step_cases hw with
    | elapse ht hphase =>
      rw [World.setTaskPhase_processor] at hp
      rw [← hp]
      refine cut_task ht (fun _ _ => rfl) ?_
      rw [hphase]
      exact cutExpand_singleton_singleton .elapsed
  | wake => cases ha

/-- A wake-up of a task. -/
theorem cut_wake {k : Nat} {task : ChallengeTask Nat} {cancelledFirst : Bool}
    {returned : Option (ContractResult TxHash)}
    (hw : contracts.world.step (.wake i k cancelledFirst returned) = some contracts'.world)
    (hperiod : contracts'.challengePeriod i = contracts.challengePeriod i)
    (hvalidation : contracts'.validation i = contracts.validation i)
    (hne : ∀ k' ≠ k, contracts'.challenge i k' = contracts.challenge i k')
    (ht : (contracts.world.processors i).tasks[k]? = some task)
    (h : CutExpand Duty.Below ((World.select
        (Token.Cancelled contracts.world.cancelled task.childCancellationToken) cancelledFirst
          task.phase returned).1.duties (contracts'.challenge i k))
      (task.phase.duties (contracts.challenge i k))) :
    CutExpand Duty.Below (processorDuties contracts' i) (processorDuties contracts i) := by
  unfold processorDuties
  rw [hperiod, hvalidation]
  generalize contracts'.world = world at hw
  cases World.step_cases hw with
  | @wake _ _ task' _ _ ht' _ =>
    obtain rfl : task = task' := Option.some.inj (ht.symm.trans ht')
    rw [World.wakeTask_processor]
    exact cut_task ht hne h

/-- A task that runs owes one thing. -/
theorem duties_running {phase : TaskPhase} (h : World.running phase = true)
    (call : Option (Call ContractI (ContractResult TxHash))) : ∃ d, phase.duties call = {d} := by
  cases phase with
  | sleeping elapsed => cases elapsed <;> exact ⟨_, rfl⟩
  | challenging => exact ⟨_, rfl⟩
  | cancelled => cases h
  | finished r => cases h

theorem duties_select_cancelled {phase : TaskPhase} (h : World.running phase = true)
    {cancelledFirst : Bool} {returned : Option (ContractResult TxHash)}
    (call : Option (Call ContractI (ContractResult TxHash))) :
    (World.select true cancelledFirst phase returned).1.duties call = 0 := by
  cases cancelledFirst with
  | true => rfl
  | false =>
    cases phase with
    | sleeping elapsed => cases elapsed <;> cases returned <;> rfl
    | challenging => cases returned <;> rfl
    | cancelled => cases h
    | finished r => cases h

/-- A cancelled task ends with its next wake-up. -/
theorem cut_cancelled {k : Nat} {cancelledFirst : Bool}
    {answers : List ContractI.Event} {returned : Option (ContractResult TxHash)}
    (hc : ∀ task, (contracts.world.processors i).tasks[k]? = some task →
      Token.Cancelled contracts.world.cancelled task.childCancellationToken)
    (hl : contracts.step m.contract (.wake i k cancelledFirst answers returned) = some contracts') :
    CutExpand Duty.Below (processorDuties contracts' i) (processorDuties contracts i) := by
  have hcut : ∀ {task returned}, (contracts.world.processors i).tasks[k]? = some task →
      contracts.world.step (.wake i k cancelledFirst returned) = some contracts'.world →
      ∀ call call', CutExpand Duty.Below ((World.select
          (Token.Cancelled contracts.world.cancelled task.childCancellationToken) cancelledFirst
            task.phase returned).1.duties call') (task.phase.duties call) := by
    intro task returned ht hw call call'
    have hrunning := (Contracts.wake_tasks hw ht).1
    obtain ⟨d, hd⟩ := duties_running hrunning call
    rw [decide_eq_true (hc task ht), duties_select_cancelled hrunning, hd]
    exact cutExpand_zero
  cases Contracts.step_cases hl with
  | call ht hpolls hcall hr hw =>
    refine cut_wake hw rfl rfl ?_ ht (hcut ht hw _ _)
    intro k' hk'
    exact Contracts.setChallenge_of_ne (fun h => hk' h.2) _
  | noCall ht hpolls hw => exact cut_wake hw rfl rfl (fun _ _ => rfl) ht (hcut ht hw _ _)

theorem processorDuties_congr (hw : contracts'.world.processors i = contracts.world.processors i)
    (hperiod : contracts'.challengePeriod i = contracts.challengePeriod i)
    (hvalidation : contracts'.validation i = contracts.validation i)
    (hchallenge : contracts'.challenge i = contracts.challenge i) :
    processorDuties contracts' i = processorDuties contracts i := by
  unfold processorDuties
  rw [hw, hperiod, hvalidation, hchallenge]

/-- A step that does something owed. The others may be taken again and again. -/
def works : ProcessLabel → Bool
  | .poller .tick => false
  | .contracts (.step (.recvNone _)) => false
  | .collect => false
  | _ => true

theorem processor_of_own {l : WorldLabel Nat} (h : own m (.step l) = true) :
    ∃ i < m.set.length, World.processorOf l = some i := by
  cases l with
  | send i event => cases h
  | close i => cases h
  | shutdown => cases h
  | _ => exact ⟨_, of_decide_eq_true h, rfl⟩

/-- A step of the processors does a duty of one of them. -/
theorem cut_contracts {l : ContractsLabel Nat} (ho : own m l = true)
    (hh : works (.contracts l) = true)
    (hwake : ∀ i k cancelledFirst answers returned, l = .wake i k cancelledFirst answers returned →
      CutExpand Duty.Below (processorDuties contracts' i) (processorDuties contracts i))
    (hl : contracts.step m.contract l = some contracts') :
    CutExpand Duty.Below (∑ i ∈ Finset.range m.set.length, processorDuties contracts' i)
      (∑ i ∈ Finset.range m.set.length, processorDuties contracts i) := by
  cases Contracts.step_cases hl with
  | @answerPeriod i e call hphase hcall =>
    refine cutExpand_sum (Finset.mem_range.mpr (of_decide_eq_true ho)) ?_ ?_
    · refine cut_phase rfl rfl rfl ?_
      dsimp only
      rw [hphase, Function.update_self]
      exact cutExpand_singleton_singleton (.periodAnswered (Call.answer_eq_some hcall).2.2)
    · intro j _ hj
      exact processorDuties_congr rfl (Function.update_of_ne hj _ _) rfl rfl
  | @answerValidation i e log call call' hphase hv hcall =>
    refine cutExpand_sum (Finset.mem_range.mpr (of_decide_eq_true ho)) ?_ ?_
    · refine cut_phase rfl rfl rfl ?_
      dsimp only
      rw [hphase, Function.update_self, hv]
      exact (cutExpand_add_left _).mpr (cutExpand_singleton_singleton
        (.validationAnswered (Call.answer_eq_some hcall).2.2))
    · intro j _ hj
      exact processorDuties_congr rfl rfl (Function.update_of_ne hj _ _) rfl
  | @step l world ha hw =>
    obtain ⟨i, hi, hprocessor⟩ := processor_of_own ho
    refine cutExpand_sum (Finset.mem_range.mpr hi) (cut_step ha hw hprocessor ho ?_) ?_
    · intro he
      subst he
      cases hh
    · intro j _ hj
      have hne : World.processorOf l ≠ some j := by
        rw [hprocessor]
        exact fun he => hj (Option.some.inj he).symm
      refine processorDuties_congr ?_ ?_ (Contracts.follow_validation_of_ne hne) ?_
      · rw [Contracts.follow_world, World.step_frame hw hne]
      · rw [Contracts.follow_challengePeriod]
      · rw [Contracts.follow_challenge]
  | @call i k task cancelledFirst answers returned call world ht hpolls hcall hr hw =>
    refine cutExpand_sum (Finset.mem_range.mpr (of_decide_eq_true ho)) (hwake _ _ _ _ _ rfl) ?_
    intro j _ hj
    exact processorDuties_congr (World.step_frame hw fun he => hj (Option.some.inj he).symm) rfl rfl
      (Function.update_of_ne hj _ _)
  | @noCall i k task cancelledFirst world ht hpolls hw =>
    refine cutExpand_sum (Finset.mem_range.mpr (of_decide_eq_true ho)) (hwake _ _ _ _ _ rfl) ?_
    intro j _ hj
    exact processorDuties_congr (World.step_frame hw fun he => hj (Option.some.inj he).symm) rfl rfl
      rfl

/-! ## The process does its duties -/

variable [ScribeAbi]

/-- A step of the poller other than a new poll. -/
theorem cut_poller {poller poller' : PollerTask} {l : PollerLabel} (hh : works (.poller l) = true)
    (hl : poller.step l = some poller') :
    CutExpand Duty.Below poller'.phase.duties poller.phase.duties := by
  cases PollerTask.step_cases hl with
  | cancelled hp => rw [hp]; exact cutExpand_zero
  | tick _ => cases hh
  | answer hp hq => rw [hp]; exact cutExpand_singleton_singleton (.answered hq)
  | @polled t r p hp =>
    rw [hp]
    cases r with
    | ok _ => exact cutExpand_singleton_singleton .polled
    | error e =>
      simp only [PollerTask.afterPoll]
      split
      · exact cutExpand_zero
      · exact cutExpand_singleton_singleton .polled

/-- A send hands an event over. -/
theorem cut_send {poller poller' : PollerTask} {tx : Sender} {event : Event} {world : World Nat}
    (hp : poller.step (.answer ⟨.send tx event, .ok ()⟩) = some poller')
    (hw : contracts.world.step (.send tx.channel event) = some world) (rest rest' : Multiset Duty) :
    CutExpand Duty.Below (poller'.phase.duties + rest + rest' +
        ∑ i ∈ Finset.range m.set.length, processorDuties { contracts with world := world } i)
      (poller.phase.duties + rest + rest' +
        ∑ i ∈ Finset.range m.set.length, processorDuties contracts i) := by
  obtain ⟨t, ht, hsum⟩ : ∃ t : Multiset Duty, (∀ d ∈ t, d = .event) ∧
      ∑ i ∈ Finset.range m.set.length, processorDuties { contracts with world := world } i =
        ∑ i ∈ Finset.range m.set.length, processorDuties contracts i + t := by
    have hother : ∀ i, i ≠ tx.channel →
        processorDuties { contracts with world := world } i = processorDuties contracts i := by
      intro i hi
      exact processorDuties_congr (World.step_frame hw fun he => hi (Option.some.inj he).symm) rfl rfl
        rfl
    by_cases hi : tx.channel < m.set.length
    · refine ⟨{.event}, fun d hd => Multiset.mem_singleton.mp hd,
        sum_eq_add (Finset.mem_range.mpr hi) ?_ fun j _ hj => hother j hj⟩
      cases World.step_cases hw with
      | send _ =>
        unfold processorDuties ScribeEventsProcessor.duties
        dsimp only
        rw [World.setProcessor_self]
        simp only [List.length_append, List.length_singleton, Multiset.replicate_succ,
          ← Multiset.singleton_add]
        abel
    · refine ⟨0, by simp, ?_⟩
      rw [add_zero]
      refine Finset.sum_congr rfl ?_
      intro i hi'
      exact hother i fun he => hi (he ▸ Finset.mem_range.mp hi')
  cases PollerTask.step_cases hp with
  | @answer u q q' e hphase hq =>
    refine cutExpand_of_eq (t := {.poll q'} + t) (a := .poll q) (rest + rest' +
      ∑ i ∈ Finset.range m.set.length, processorDuties contracts i) ?_ ?_ ?_
    · intro d hd
      rcases Multiset.mem_add.mp hd with hd | hd
      · rw [Multiset.mem_singleton.mp hd]
        exact .answered hq
      · rw [ht d hd]
        exact .sent
    · rw [hsum]
      simp only [PollerPhase.duties]
      abel
    · rw [hphase]
      simp only [PollerPhase.duties]
      abel

omit [ScribeAbi] in
/-- A task that is joined is one less to join. -/
theorem unjoined_lt {task : SetTask} (ht : task ∈ m.tasks) (hj : task ∉ s.joined) :
    (m.tasks.filter fun t => t ∉ task :: s.joined).length <
      (m.tasks.filter fun t => t ∉ s.joined).length := by
  have hsub : (m.tasks.filter fun t => t ∉ task :: s.joined).Sublist
      (m.tasks.filter fun t => t ∉ s.joined) := by
    refine List.monotone_filter_right _ ?_
    intro t
    simp
  refine Nat.lt_of_le_of_ne hsub.length_le ?_
  intro hlen
  have hmem : task ∈ m.tasks.filter fun t => t ∉ s.joined :=
    List.mem_filter.mpr ⟨ht, decide_eq_true hj⟩
  rw [← hsub.eq_of_length hlen] at hmem
  simp at hmem

/-- A step that does something owed does a duty, as long as `main` stays in
its `select!` or has left it. -/
theorem cut_works (hl : s.step m l = some s') (hh : works l = true) (hc : l ≠ .ctrlC)
    (hj : ∀ task, l ≠ .joinNext task)
    (hwake : ∀ i k cancelledFirst answers returned,
      l = .contracts (.wake i k cancelledFirst answers returned) →
        CutExpand Duty.Below (processorDuties s'.contracts i) (processorDuties s.contracts i)) :
    CutExpand Duty.Below (duties m s') (duties m s) := by
  unfold duties
  cases (step_cases hl).2 with
  | @poller l poller world hp hw =>
    rcases System.answered_cases hw with ⟨-, rfl, -⟩ | ⟨tx, event, rfl, hsend⟩
    · exact (cutExpand_add_right _).mpr ((cutExpand_add_right _).mpr ((cutExpand_add_right _).mpr
        (cut_poller hh hp)))
    · exact cut_send hp hsend s.collector.duties (mainDuties m s)
  | contracts ho hcontracts =>
    refine (cutExpand_add_left _).mpr (cut_contracts ho hh ?_ hcontracts)
    intro i k cancelledFirst answers returned he
    exact hwake i k cancelledFirst answers returned (by rw [he])
  | @close i r world hi hp hopen hw =>
    refine (cutExpand_add_left _).mpr (cutExpand_sum (Finset.mem_range.mpr hi) ?_ ?_)
    · cases World.step_cases hw with
      | close =>
        unfold processorDuties setWorld
        dsimp only
        rw [World.setProcessor_self]
        exact cut_close hopen
    · intro j _ hne
      exact processorDuties_congr (World.step_frame hw fun he => hne (Option.some.inj he).symm) rfl rfl
        rfl
  | collect _ => cases hh
  | collectorCancelled hrunning _ =>
    rw [hrunning]
    exact (cutExpand_add_right _).mpr ((cutExpand_add_right _).mpr ((cutExpand_add_left _).mpr
      cutExpand_zero))
  | collectorPanicked hrunning =>
    rw [hrunning]
    exact (cutExpand_add_right _).mpr ((cutExpand_add_right _).mpr ((cutExpand_add_left _).mpr
      cutExpand_zero))
  | ctrlC _ => exact absurd rfl hc
  | joinNext _ _ _ => exact absurd rfl (hj _)
  | joinAll hs ht hunjoined _ =>
    refine (cutExpand_add_right _).mpr ((cutExpand_add_left _).mpr ?_)
    simp only [mainDuties, hs]
    exact cutExpand_singleton_singleton (.joined (unjoined_lt ht hunjoined))
  | joinPanicked hs _ _ _ =>
    refine (cutExpand_add_right _).mpr ((cutExpand_add_left _).mpr ?_)
    simp only [mainDuties, hs]
    exact cutExpand_zero
  | finish hs _ =>
    refine (cutExpand_add_right _).mpr ((cutExpand_add_left _).mpr ?_)
    simp only [mainDuties, hs]
    exact cutExpand_zero

/-! ## What is awaited can come -/

omit [ScribeAbi] in
theorem nonempty_ans (op : ContractOp) : Nonempty op.Ans := by
  cases op with
  | now => exact ⟨(0 : UInt64)⟩
  | incChallengeCounter _ => exact ⟨()⟩
  | fill _ => exact ⟨.error ⟨""⟩⟩
  | _ => exact ⟨.error ⟨""⟩⟩

omit [ScribeAbi] in
/-- A call that is awaited has its result, or can be answered. -/
theorem result_or_answer {α : Type} (call : Call ContractI α) :
    (∃ r, call.result = some r) ∨ ∃ e call', call.answer [e] = some call' := by
  cases hrest : call.rest with
  | done a => exact .inl ⟨a, by simp [Call.result, hrest]⟩
  | await op k =>
    obtain ⟨r⟩ := nonempty_ans op
    obtain ⟨call', hcall⟩ := Call.exists_answer hrest r
    exact .inr ⟨_, call', hcall⟩

/-- No wake-up of a task. -/
def noWake : ContractsLabel Nat → Bool
  | .wake _ _ _ _ _ => false
  | _ => true

/-- A step of a processor's own that does something owed. -/
def GoesOn (m : Wiring) (contracts : Contracts Nat) : Prop :=
  ∃ l contracts', own m l = true ∧ works (.contracts l) = true ∧ noWake l = true ∧
    contracts.step m.contract l = some contracts'

omit [ScribeAbi] in
theorem GoesOn.of_world {l : WorldLabel Nat} (ho : own m (.step l) = true)
    (hw : works (.contracts (.step l)) = true) (ha : contracts.agrees l = true)
    (hl : ∃ world, contracts.world.step l = some world) : GoesOn m contracts := by
  obtain ⟨world, hl⟩ := hl
  exact ⟨.step l, _, ho, hw, rfl, by rw [Contracts.step, if_pos ha, hl]; rfl⟩

omit [ScribeAbi] in
/-- A processor that awaits a call can go on. -/
theorem call_goes_on {cls : List (ContractsLabel Nat)}
    (h : Run (Contracts.Step m.contract) (Contracts.start m.contract) cls contracts)
    (hi : i < m.set.length) (hidle : (contracts.world.processors i).phase ≠ .idle)
    (hrunning : ∀ r, (contracts.world.processors i).phase ≠ .stopped r) : GoesOn m contracts := by
  have howner : decide (i < m.set.length) = true := decide_eq_true hi
  cases hphase : (contracts.world.processors i).phase with
  | starting =>
    rcases result_or_answer (contracts.challengePeriod i) with ⟨r, hr⟩ | ⟨e, call, hcall⟩
    · refine .of_world (l := .period i r) howner rfl (decide_eq_true hr) ?_
      cases r <;> simp [World.step, hphase]
    · exact ⟨.answer i e, _, howner, rfl, rfl,
        by rw [Contracts.step, Contracts.answerProcessor, hphase, hcall]; rfl⟩
  | idle => exact absurd hphase hidle
  | validating log =>
    obtain ⟨vs, hvs⟩ := Contracts.exists_verdicts h i
    have hvalidation := hvs.validation
    generalize hv : contracts.validation i = validation at hvalidation
    cases hvalidation with
    | noCall hno => exact absurd hphase (hno log)
    | @awaited _ _ call _ _ _ =>
      rcases result_or_answer call with ⟨r, hr⟩ | ⟨e, call', hcall⟩
      · refine .of_world (l := .judged i log r) howner rfl ?_ (by simp [World.step, hphase])
        simp [Contracts.agrees, hv, hr]
      · exact ⟨.answer i e, _, howner, rfl, rfl, by
          rw [Contracts.step, Contracts.answerProcessor, hphase, hv, Option.bind_some, hcall]; rfl⟩
  | stopped r => exact absurd hphase (hrunning r)

/-- The poller is in a loop over sub-ranges that has no end. -/
def Spinning (s : Process) : Prop := ∃ t k, s.poller.phase = .polling t (.await .spin k)

/-- A poll under way can go on, if its sends can. -/
theorem poll_goes_on {t : List PollI.Event} {q} (hphase : s.poller.phase = .polling t q)
    (hexit : s.exited = false) (hspin : ¬ s.Spinning)
    (hsend : ∀ tx event k, q = .await (.send tx event) k → ∃ r world,
      System.answered s.contracts.world (.answer ⟨.send tx event, r⟩) = some world) :
    ∃ l s', l ≠ .tick ∧ s.step m (.poller l) = some s' := by
  have hgo : ∀ {l : PollerLabel} {world : World Nat}, l ≠ .tick →
      (∃ poller, s.poller.step l = some poller) →
      System.answered s.contracts.world l = some world →
      ∃ l s', l ≠ .tick ∧ s.step m (.poller l) = some s' := by
    intro l world hl hp hw
    obtain ⟨poller, hp⟩ := hp
    exact ⟨l, { s.setWorld world with poller := poller }, hl, by simp [step, hexit, hp, hw]⟩
  cases q with
  | done a =>
    obtain ⟨r, p⟩ := a
    exact hgo (l := .polled r) (by simp) (by simp [PollerTask.step, hphase]) rfl
  | await op k =>
    have hanswer : ∀ r : op.Ans, ∃ poller, s.poller.step (.answer ⟨op, r⟩) = some poller := by
      intro r
      simp [PollerTask.step, hphase, answer]
    cases op with
    | getBlockNumber => exact hgo (by simp) (hanswer (.error (.rpcError ⟨""⟩))) rfl
    | getLogs filter => exact hgo (by simp) (hanswer (.error (.rpcError ⟨""⟩))) rfl
    | setLastScannedBlock signer block => exact hgo (by simp) (hanswer ()) rfl
    | spin => exact absurd ⟨t, k, hphase⟩ hspin
    | send tx event =>
      obtain ⟨r, world, hw⟩ := hsend tx event k rfl
      exact hgo (by simp) (hanswer r) hw

end Process
end Challenger
