import Challenger.Main
import Challenger.ProcessorCalls
import Challenger.System

/-! # The whole process

`main` spawns the processors, the poller and the metrics collector into one
`JoinSet` over one shutdown token. It waits for ctrl-c or for the first of
these tasks to end, cancels the token, and joins the others before it returns.
The tasks of the challenges are not in the set: they end with the process.

The processors here run their contracts' programs, and each send of the poller
is one of theirs, so a run of the process is a run of the poller (`toPoller`),
of the processors (`toContracts`) and of the two together (`toSystem`). -/
namespace Challenger
open Lib Lib.Async
open ScribeContractInstance (sampleSigner sampleContract)

/-! ## State -/

/-- A task of the `JoinSet`. -/
inductive SetTask where
  | processor (i : Nat)
  | poller
  | collector
  deriving DecidableEq

/-- The metrics collector. What it collects is outside, and may panic. -/
inductive CollectorPhase where
  | running
  | stopped
  | panicked
  deriving DecidableEq

/-- Where `main` stands once everything is spawned: in its `select!`, in
`join_all`, or at its end. -/
inductive MainPhase where
  | selecting
  | joining
  | returned
  | panicked
  deriving DecidableEq

structure Process where
  poller : PollerTask
  contracts : Contracts Nat
  collector : CollectorPhase
  main : MainPhase
  joined : List SetTask

inductive ProcessLabel where
  | poller (l : PollerLabel)
  | contracts (l : ContractsLabel Nat)
  | close (i : Nat)
  | collect
  | collectorCancelled
  | collectorPanicked
  | ctrlC
  | joinNext (task : Option SetTask)
  | joinAll (task : SetTask)
  | finish

/-- The error a task of the set returned. -/
inductive Report where
  | processor (e : ProcessorError)
  | poller (e : PollerError)

/-- What is joined from a task: what it returned, or `none` when it panicked. -/
abbrev JoinResult := Option (Except Report Unit)

def ProcessorPhase.result : ProcessorPhase → Option JoinResult
  | .stopped (.ok _) => some (some (.ok ()))
  | .stopped (.error e) => some (some (.error (.processor e)))
  | _ => none

def PollerPhase.result : PollerPhase → Option JoinResult
  | .stopped (.ok _) => some (some (.ok ()))
  | .stopped (.error e) => some (some (.error (.poller e)))
  | _ => none

def CollectorPhase.result : CollectorPhase → Option JoinResult
  | .running => none
  | .stopped => some (some (.ok ()))
  | .panicked => some none

namespace Wiring
variable (m : Wiring)

/-- The contract of a processor. -/
def contract (i : Nat) : ScribeContractInstance :=
  (m.set[i]?.map Prod.fst).getD ⟨0, false, 0⟩

/-- The tasks in the set. -/
def tasks : List SetTask :=
  (List.range m.set.length).map .processor ++ [.poller, .collector]

/-- Whether the sender of a channel was kept in the map. -/
def kept (i : Nat) : Bool :=
  m.poller.addresses.any fun a => m.poller.handlerChannels.get a = some ⟨i⟩

end Wiring

namespace Process

/-- The processors as they are spawned. The sender that was replaced in the map
is dropped, and its channel is closed. -/
def startWorld (m : Wiring) : World Nat where
  processors i := { ScribeEventsProcessor.new Nat with
    closed := decide (i < m.set.length) && !m.kept i }
  cancelled := []
  challenges := []

def start (m : Wiring) : Process where
  poller := ⟨m.poller, .idle⟩
  contracts := { Contracts.start m.contract with world := startWorld m }
  collector := .running
  main := .selecting
  joined := []

/-! ## Steps -/

/-- The steps of the processors themselves. The sends are the poller's, the
shutdown is `main`'s, and there are as many processors as were spawned. -/
def own (m : Wiring) : ContractsLabel Nat → Bool
  | .answer i _ => i < m.set.length
  | .step (.send _ _) => false
  | .step (.close _) => false
  | .step .shutdown => false
  | .step l => (World.processorOf l).all (· < m.set.length)
  | .wake i _ _ _ _ => i < m.set.length

/-- What a task of the set ended with, if it has. -/
def result (s : Process) : SetTask → Option JoinResult
  | .processor i => (s.contracts.world.processors i).phase.result
  | .poller => s.poller.phase.result
  | .collector => s.collector.result

def setWorld (s : Process) (world : World Nat) : Process :=
  { s with contracts := { s.contracts with world := world } }

def cancel (s : Process) : Process := s.setWorld (s.contracts.world.cancel Token.root)

/-- What `main` does with what `join_next` gave. -/
def afterSelect (s : Process) : Option JoinResult → Process
  | some (some (.ok _)) => s.cancel
  | some (some (.error _)) => s.cancel
  | some none => s.cancel
  | none => s

variable [ScribeAbi]

/-- Nothing happens after `main` has returned or panicked. -/
def exited (s : Process) : Bool := s.main = .returned || s.main = .panicked

def step (m : Wiring) (s : Process) (l : ProcessLabel) : Option Process :=
  if s.exited then none
  else match l with
    | .poller l => (s.poller.step l).bind fun poller =>
        (System.answered s.contracts.world l).map fun world => { s.setWorld world with poller := poller }
    | .contracts l =>
      if own m l then
        (s.contracts.step m.contract l).map fun contracts => { s with contracts := contracts }
      else none
    | .close i =>
      match s.poller.phase with
      | .stopped _ =>
        if i < m.set.length ∧ (s.contracts.world.processors i).closed = false then
          (s.contracts.world.step (.close i)).map s.setWorld
        else none
      | _ => none
    | .collect => if s.collector = .running then some s else none
    | .collectorCancelled =>
      if s.collector = .running ∧ Token.Cancelled s.contracts.world.cancelled Token.root then
        some { s with collector := .stopped }
      else none
    | .collectorPanicked => if s.collector = .running then some { s with collector := .panicked } else none
    | .ctrlC => if s.main = .selecting then some { s.cancel with main := .joining } else none
    | .joinNext none =>
      if s.main = .selecting ∧ m.tasks = [] then some { s.afterSelect none with main := .joining }
      else none
    | .joinNext (some task) =>
      if s.main = .selecting ∧ task ∈ m.tasks then
        (s.result task).map fun r =>
          { s.afterSelect (some r) with main := .joining, joined := [task] }
      else none
    | .joinAll task =>
      if s.main = .joining ∧ task ∈ m.tasks ∧ task ∉ s.joined then
        (s.result task).map fun r =>
          if r.isNone then { s with main := .panicked } else { s with joined := task :: s.joined }
      else none
    | .finish =>
      if s.main = .joining ∧ ∀ task ∈ m.tasks, task ∈ s.joined then some { s with main := .returned }
      else none

def Step (m : Wiring) : Process → ProcessLabel → Process → Prop := Takes (step m)

variable {m : Wiring} {s s' : Process} {l : ProcessLabel} {ls : List ProcessLabel}

/-- All a step can do. -/
inductive StepCases (m : Wiring) (s : Process) : ProcessLabel → Process → Prop where
  | poller {l poller world} (hp : s.poller.step l = some poller)
      (hw : System.answered s.contracts.world l = some world) :
      StepCases m s (.poller l) { s.setWorld world with poller := poller }
  | contracts {l contracts} (ho : own m l = true)
      (hl : s.contracts.step m.contract l = some contracts) :
      StepCases m s (.contracts l) { s with contracts := contracts }
  | close {i r world} (hi : i < m.set.length) (hp : s.poller.phase = .stopped r)
      (hc : (s.contracts.world.processors i).closed = false)
      (hw : s.contracts.world.step (.close i) = some world) :
      StepCases m s (.close i) (s.setWorld world)
  | collect (h : s.collector = .running) : StepCases m s .collect s
  | collectorCancelled (h : s.collector = .running)
      (hc : Token.Cancelled s.contracts.world.cancelled Token.root) :
      StepCases m s .collectorCancelled { s with collector := .stopped }
  | collectorPanicked (h : s.collector = .running) :
      StepCases m s .collectorPanicked { s with collector := .panicked }
  | ctrlC (h : s.main = .selecting) : StepCases m s .ctrlC { s.cancel with main := .joining }
  | joinNext {task r} (h : s.main = .selecting) (ht : task ∈ m.tasks)
      (hr : s.result task = some r) : StepCases m s (.joinNext (some task))
        { s.cancel with main := .joining, joined := [task] }
  | joinAll {task r} (h : s.main = .joining) (ht : task ∈ m.tasks) (hj : task ∉ s.joined)
      (hr : s.result task = some (some r)) :
      StepCases m s (.joinAll task) { s with joined := task :: s.joined }
  | joinPanicked {task} (h : s.main = .joining) (ht : task ∈ m.tasks) (hj : task ∉ s.joined)
      (hr : s.result task = some none) : StepCases m s (.joinAll task) { s with main := .panicked }
  | finish (h : s.main = .joining) (hj : ∀ task ∈ m.tasks, task ∈ s.joined) :
      StepCases m s .finish { s with main := .returned }

omit [ScribeAbi] in
/-- The set is not empty: it has the poller and the collector. -/
theorem tasks_ne_nil (m : Wiring) : m.tasks ≠ [] := by simp [Wiring.tasks]

omit [ScribeAbi] in
/-- Whatever a task ended with, `main` cancels the token. -/
theorem afterSelect_some (s : Process) (r : JoinResult) : s.afterSelect (some r) = s.cancel := by
  rcases r with _ | r
  · rfl
  · cases r <;> rfl

theorem step_cases (h : s.step m l = some s') : s.exited = false ∧ StepCases m s l s' := by
  unfold step at h
  split at h
  · cases h
  · refine ⟨by simpa using ‹¬s.exited = true›, ?_⟩
    cases l with
    | poller l =>
      obtain ⟨poller, hp, h⟩ := Option.bind_eq_some_iff.mp h
      obtain ⟨world, hw, rfl⟩ := Option.map_eq_some_iff.mp h
      exact .poller hp hw
    | contracts l =>
      dsimp only at h
      split at h
      · obtain ⟨contracts, hl, rfl⟩ := Option.map_eq_some_iff.mp h
        exact .contracts ‹_› hl
      · cases h
    | close i =>
      dsimp only at h
      split at h
      · split at h
        · rename_i hphase hi
          obtain ⟨world, hw, rfl⟩ := Option.map_eq_some_iff.mp h
          exact .close hi.1 hphase hi.2 hw
        · cases h
      · cases h
    | collect =>
      dsimp only at h
      split at h
      · rw [← Option.some.inj h]; exact .collect ‹_›
      · cases h
    | collectorCancelled =>
      dsimp only at h
      split at h
      · rename_i hc
        rw [← Option.some.inj h]; exact .collectorCancelled hc.1 hc.2
      · cases h
    | collectorPanicked =>
      dsimp only at h
      split at h
      · rw [← Option.some.inj h]; exact .collectorPanicked ‹_›
      · cases h
    | ctrlC =>
      dsimp only at h
      split at h
      · rw [← Option.some.inj h]; exact .ctrlC ‹_›
      · cases h
    | joinNext task =>
      cases task with
      | none =>
        dsimp only at h
        rw [if_neg fun hc => tasks_ne_nil m hc.2] at h
        cases h
      | some task =>
        dsimp only at h
        split at h
        · rename_i hc
          obtain ⟨r, hr, rfl⟩ := Option.map_eq_some_iff.mp h
          rw [afterSelect_some]
          exact .joinNext hc.1 hc.2 hr
        · cases h
    | joinAll task =>
      dsimp only at h
      split at h
      · rename_i hc
        obtain ⟨r, hr, rfl⟩ := Option.map_eq_some_iff.mp h
        cases r with
        | none => exact .joinPanicked hc.1 hc.2.1 hc.2.2 hr
        | some r => exact .joinAll hc.1 hc.2.1 hc.2.2 hr
      · cases h
    | finish =>
      dsimp only at h
      split at h
      · rename_i hc
        rw [← Option.some.inj h]; exact .finish hc.1 hc.2
      · cases h

/-! ## The parts of the process -/

def pollerLabels : ProcessLabel → List PollerLabel
  | .poller l => [l]
  | _ => []

def contractsLabels : ProcessLabel → List (ContractsLabel Nat)
  | .poller l => (System.sendLabels l).map .step
  | .contracts l => [l]
  | .close i => [.step (.close i)]
  | .ctrlC => [.step .shutdown]
  | .joinNext (some _) => [.step .shutdown]
  | _ => []

def systemLabels : ProcessLabel → List SystemLabel
  | .poller l => [.poller l]
  | .contracts l => l.world.map .world
  | .close i => [.world (.close i)]
  | .ctrlC => [.world .shutdown]
  | .joinNext (some _) => [.world .shutdown]
  | _ => []

/-- The poller and the processors with arbitrary calls. -/
def system (s : Process) : System := ⟨s.poller, s.contracts.world⟩

/-- The poller's task is as it is by itself. -/
def toPoller (m : Wiring) : Refinement (Step m) (Takes PollerTask.step) where
  state := Process.poller
  labels := pollerLabels
  step {s l s'} h := by
    cases (step_cases h).2 with
    | poller hp _ => exact .single hp
    | _ => exact .nil

omit [ScribeAbi] in
/-- Sends, closed channels and the shutdown involve no call. -/
theorem contracts_step {c : Nat → ScribeContractInstance} {contracts : Contracts Nat}
    {l : WorldLabel Nat} {world : World Nat} (hl : contracts.world.step l = some world)
    (hquiet : (∃ i event, l = .send i event) ∨ (∃ i, l = .close i) ∨ l = .shutdown) :
    contracts.step c (.step l) = some { contracts with world := world } := by
  rcases hquiet with ⟨i, event, rfl⟩ | ⟨i, rfl⟩ | rfl
  · simp [Contracts.step, Contracts.agrees, Contracts.follow, hl]
  · simp [Contracts.step, Contracts.agrees, Contracts.follow, hl]
  · simp [Contracts.step, Contracts.agrees, Contracts.follow, hl]

/-- The processors are as they are over their contracts. -/
def toContracts (m : Wiring) : Refinement (Step m) (Contracts.Step m.contract) where
  state := Process.contracts
  labels := contractsLabels
  step {s l s'} h := by
    cases (step_cases h).2 with
    | @poller l poller world hp hw =>
      rcases System.answered_cases hw with ⟨hl, rfl, -⟩ | ⟨tx, event, rfl, hsend⟩
      · simp only [contractsLabels, hl]
        exact .nil
      · exact .single (contracts_step hsend (.inl ⟨_, _, rfl⟩))
    | contracts _ hl => exact .single hl
    | close _ _ _ hw => exact .single (contracts_step hw (.inr (.inl ⟨_, rfl⟩)))
    | ctrlC _ => exact .single (contracts_step rfl (.inr (.inr rfl)))
    | joinNext _ _ _ => exact .single (contracts_step rfl (.inr (.inr rfl)))
    | _ => exact .nil

omit [ScribeAbi] in
theorem admits_of_own {poller : PollerTask} {l : ContractsLabel Nat} (h : own m l = true) :
    ∀ l' ∈ l.world, System.admits poller l' = true := by
  intro l' hl'
  cases l with
  | answer i e => cases hl'
  | step l =>
    rw [List.mem_singleton.mp hl']
    cases l with
    | send i event => cases h
    | close i => cases h
    | _ => rfl
  | wake i k cancelledFirst answers returned =>
    rw [List.mem_singleton.mp hl']
    rfl

/-- The processors' own steps beside the poller. -/
theorem system_run {poller : PollerTask} {w w' : World Nat} {ls : List (WorldLabel Nat)}
    (h : Run World.Step w ls w') (hadmits : ∀ l ∈ ls, System.admits poller l = true) :
    Run (Takes System.step) ⟨poller, w⟩ (ls.map .world) ⟨poller, w'⟩ := by
  induction h with
  | nil => exact .nil
  | @snoc ls l w' w'' hr hl ih =>
    simp only [List.mem_append, List.mem_singleton] at hadmits
    rw [List.map_append, List.map_singleton]
    refine .snoc (ih fun l h => hadmits l (.inl h)) ?_
    have hl : w'.step l = some w'' := hl
    simp [Takes, System.step, hadmits l (.inr rfl), hl]

/-- The poller and the processors are as they are beside each other. -/
def toSystem (m : Wiring) : Refinement (Step m) (Takes System.step) where
  state := system
  labels := systemLabels
  step {s l s'} h := by
    cases (step_cases h).2 with
    | @poller l poller world hp hw =>
      refine .single ?_
      simp [Takes, System.step, system, hp, hw, setWorld]
    | contracts ho hl =>
      exact system_run ((Contracts.toWorld m.contract).step hl) (admits_of_own ho)
    | @close i r world hi hp hc hw =>
      refine .single ?_
      simp [Takes, System.step, system, System.admits, hp, hw, setWorld]
    | ctrlC _ => exact .single rfl
    | joinNext _ _ _ => exact .single rfl
    | _ => exact .nil

/-- What a step does to the processors. -/
theorem world_step (h : s.step m l = some s') : Run World.Step s.contracts.world
    ((contractsLabels l).flatMap ContractsLabel.world) s'.contracts.world :=
  ((Contracts.toWorld m.contract).comp (toContracts m)).step h

/-! ## The processors from their own start -/

/-- The channels that are closed from the start. -/
def closes (m : Wiring) : List (WorldLabel Nat) :=
  ((List.range m.set.length).filter fun i => !m.kept i).map .close

omit [ScribeAbi] in
theorem run_closes (w : World Nat) (is : List Nat) : Run World.Step w (is.map .close)
    { w with processors := fun i => { w.processors i with
      closed := decide (i ∈ is) || (w.processors i).closed } } := by
  induction is using List.reverseRecOn with
  | nil => simpa using Run.nil
  | append_singleton is j ih =>
    rw [List.map_append, List.map_singleton]
    refine .snoc ih (congrArg some ?_)
    unfold World.setProcessor
    congr 1
    funext i
    by_cases hi : i = j
    · subst hi
      simp
    · simp [hi]

omit [ScribeAbi] in
theorem run_startWorld (m : Wiring) :
    Run World.Step (World.start Nat) (closes m) (startWorld m) := by
  have hworld : startWorld m = { World.start Nat with processors := fun i =>
      { (World.start Nat).processors i with
        closed := decide (i ∈ (List.range m.set.length).filter fun i => !m.kept i) ||
          ((World.start Nat).processors i).closed } } := by
    unfold startWorld World.start
    congr 1
    funext i
    simp [ScribeEventsProcessor.new]
  rw [hworld]
  exact run_closes _ _

omit [ScribeAbi] in
theorem run_startContracts (m : Wiring) : Run (Contracts.Step m.contract)
    (Contracts.start m.contract) ((closes m).map .step) (start m).contracts := by
  have hrun : ∀ {ls : List (WorldLabel Nat)} {w w' : World Nat}, Run World.Step w ls w' →
      (∀ l ∈ ls, ∃ i, l = .close i) → ∀ contracts : Contracts Nat, contracts.world = w →
      Run (Contracts.Step m.contract) contracts (ls.map .step) { contracts with world := w' } := by
    intro ls w w' h
    induction h with
    | nil =>
      intro _ contracts hw
      rw [← hw]
      exact .nil
    | snoc hr hl ih =>
      intro hclose contracts hw
      simp only [List.mem_append, List.mem_singleton] at hclose
      rw [List.map_append, List.map_singleton]
      exact .snoc (ih (fun l h => hclose l (.inl h)) contracts hw)
        (contracts_step hl (.inr (.inl (hclose _ (.inr rfl)))))
  refine hrun (run_startWorld m) ?_ (Contracts.start m.contract) rfl
  intro l hl
  obtain ⟨i, -, rfl⟩ := List.mem_map.mp hl
  exact ⟨i, rfl⟩

/-- The steps of the processors in a run, those included that close channels at
the start. -/
def contractsHistory (m : Wiring) (ls : List ProcessLabel) : List (ContractsLabel Nat) :=
  (closes m).map .step ++ ls.flatMap contractsLabels

theorem contracts_run (h : Run (Step m) (start m) ls s) : Run (Contracts.Step m.contract)
    (Contracts.start m.contract) (contractsHistory m ls) s.contracts :=
  (run_startContracts m).append ((toContracts m).run h)

theorem world_run (h : Run (Step m) (start m) ls s) : Run World.Step (World.start Nat)
    ((contractsHistory m ls).flatMap ContractsLabel.world) s.contracts.world :=
  (Contracts.toWorld m.contract).run (contracts_run h)

end Process

/-! ## The process of one contract -/

/-- The contract of the sample log, with the private relay. -/
def sampleProcessCli : Cli where
  addresses := ["0x891e368fe81cba2ac6f6cc4b98e684c106e2ef4f"]
  flashbotRpcUrl := some "relay"
  fromBlock := some 9
  maxBlockRange := none

theorem fresh_empty (a : Address) : HandlerChannels.empty.get a ≠ some ⟨0⟩ := by simp

def sampleChannels : HandlerChannels := .insert .empty sampleAddress ⟨0⟩ fresh_empty

theorem keys_sampleChannels : [sampleAddress].Perm sampleChannels.map.keys := .refl _

def sampleWiring : Wiring where
  set := [(sampleContract true, ⟨0⟩)]
  poller := .new sampleSigner sampleChannels (some 9) none [sampleAddress] keys_sampleChannels

theorem main_sampleWiring :
    main hexAddress sampleKeyOrder sampleSigner sampleProcessCli = .ok sampleWiring := by
  have hparse : ∀ arg ∈ sampleProcessCli.addresses, hexAddress arg = .ok sampleAddress := by
    decide +kernel
  rw [main, Main.addresses_ok hparse]
  rfl

end Challenger
