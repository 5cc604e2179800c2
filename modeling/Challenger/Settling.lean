import Challenger.Duty
import Challenger.Provenance
import Challenger.Supervision

/-! # Between two polls

The poller waits when a channel is full, a processor waits for its contract,
and a challenge runs beside them. They never wait for each other: as long as no
new poll begins, the process settles (`settles`), and then the poll under way is
over, every event that was handed over is handled, and every challenge that was
spawned has ended. -/
namespace Challenger
open Lib Lib.Async Relation

namespace World
variable {ι : Type} [DecidableEq ι] {w w' : World ι} {i : ι} {k : Nat} {task : ChallengeTask ι}

theorem setTaskPhase_same (ht : (w.processors i).tasks[k]? = some task) :
    w.setTaskPhase i k task.phase = w := by
  have htasks : (w.processors i).tasks.modify k (fun t => { t with phase := task.phase }) =
      (w.processors i).tasks := by
    refine List.ext_getElem? ?_
    intro k'
    rw [List.getElem?_modify]
    by_cases hk : k = k'
    · subst hk
      simp [ht]
    · simp [hk]
  unfold setTaskPhase setProcessor
  rw [htasks, Function.update_eq_self]

/-- A wake-up that finds nothing new. -/
theorem wakeTask_same (ht : (w.processors i).tasks[k]? = some task) {cancelledFirst : Bool}
    (hsel : select (Token.Cancelled w.cancelled task.childCancellationToken) cancelledFirst
      task.phase none = (task.phase, false)) :
    w.wakeTask i k task cancelledFirst none = w := by
  have hsame := setTaskPhase_same ht
  unfold wakeTask
  rw [hsel]
  dsimp only
  rw [hsame]
  simp

theorem step_closed {l : WorldLabel ι} (h : w.step l = some w') (hl : l ≠ .close i) :
    (w'.processors i).closed = (w.processors i).closed := by
  by_cases hi : processorOf l = some i
  · have hcases := step_processor h hi
    generalize w'.processors i = p' at hcases
    cases hcases with
    | close => exact absurd rfl hl
    | _ => rfl
  · rw [step_frame h hi]

theorem run_closed {ls : List (WorldLabel ι)} (h : Run Step w ls w') (hl : .close i ∉ ls) :
    (w'.processors i).closed = (w.processors i).closed := by
  induction h with
  | nil => rfl
  | snoc _ hstep ih =>
    simp only [List.mem_append, List.mem_singleton, not_or] at hl
    rw [step_closed hstep (Ne.symm hl.2), ih hl.1]

end World

namespace Process
variable {m : Wiring} {s s' : Process} {l : ProcessLabel} {ls : List ProcessLabel} {i k : Nat}
  {contracts contracts' : Contracts Nat} {task : ChallengeTask Nat}

/-! ## Steps between two polls -/

/-- A wake-up without a request leaves a task that is not cancelled as it is. -/
theorem step_wake_same {world : World Nat} {cancelledFirst : Bool}
    (ht : (contracts.world.processors i).tasks[k]? = some task)
    (hsel : World.select (Token.Cancelled contracts.world.cancelled task.childCancellationToken)
      cancelledFirst task.phase none = (task.phase, false))
    (hw : contracts.world.step (.wake i k cancelledFirst none) = some world) :
    world = contracts.world := by
  cases World.step_cases hw with
  | @wake _ _ task' _ _ ht' _ =>
    obtain rfl : task = task' := Option.some.inj (ht.symm.trans ht')
    exact World.wakeTask_same ht hsel

/-- A wake-up of a task whose call goes on finds nothing new, or does a duty. -/
theorem cut_pending_or_same {cancelledFirst : Bool} {answers : List ContractI.Event}
    {call : Call ContractI (ContractResult TxHash)} {world : World Nat}
    (htask : Contracts.TaskCall (m.contract i) (some task) (contracts.challenge i k))
    (ht : (contracts.world.processors i).tasks[k]? = some task)
    (hlive : ¬ Token.Cancelled contracts.world.cancelled task.childCancellationToken)
    (hpolls : Contracts.pollsCall false cancelledFirst task.phase = true)
    (hcall : (contracts.taskCall m.contract i k task).answer answers = some call)
    (hw : contracts.world.step (.wake i k cancelledFirst none) = some world) :
    (world = contracts.world ∧ contracts.challenge i k = some call) ∨
      CutExpand Duty.Below
        (processorDuties { contracts with
          world := world
          challenge := contracts.setChallenge i k call } i) (processorDuties contracts i) := by
  have hselect : World.select (Token.Cancelled contracts.world.cancelled task.childCancellationToken)
      cancelledFirst task.phase none = (.challenging, decide (task.phase = .sleeping true)) := by
    rw [decide_eq_false hlive]
    unfold Contracts.pollsCall at hpolls
    split at hpolls
    · rename_i hphase
      rw [hphase]
      cases cancelledFirst <;> rfl
    · rename_i hphase
      rw [hphase]
      cases cancelledFirst <;> rfl
    · cases hpolls
  have hcut : CutExpand Duty.Below {.challenge (some call.rest)}
      (task.phase.duties (contracts.challenge i k)) → CutExpand Duty.Below
        (processorDuties { contracts with
          world := world
          challenge := contracts.setChallenge i k call } i) (processorDuties contracts i) := by
    intro h
    refine cut_wake hw rfl rfl ?_ ht ?_
    · intro k' hk'
      exact Contracts.setChallenge_of_ne (fun h => hk' h.2) _
    · rw [hselect]
      dsimp only [TaskPhase.duties]
      rw [Contracts.setChallenge_self]
      exact h
  unfold Contracts.taskCall at hcall
  generalize hc : contracts.challenge i k = challenge at htask hcall hcut ⊢
  cases htask with
  | notCalled hphase =>
    refine .inr (hcut ?_)
    obtain ⟨elapsed, hphase⟩ | hphase := hphase
    · cases elapsed with
      | false => rw [hphase] at hpolls; cases hpolls
      | true =>
        rw [hphase]
        exact cutExpand_singleton_singleton .called
    · rw [hphase] at hpolls
      cases hpolls
  | @called _ call₀ _ hsleep _ =>
    have hphase : task.phase = .challenging := by
      unfold Contracts.pollsCall at hpolls
      split at hpolls
      · exact absurd ‹_› (hsleep _)
      · assumption
      · cases hpolls
    cases answers with
    | nil =>
      rw [hphase] at hselect
      refine .inl ⟨step_wake_same ht (by rw [hphase]; exact hselect) hw, ?_⟩
      exact (Call.answer_nil call₀).symm.trans hcall
    | cons e t =>
      refine .inr (hcut ?_)
      rw [hphase]
      exact cutExpand_singleton_singleton (.challengeAnswered (Call.answer_eq_some hcall).2.2)

/-- A wake-up finds nothing new, or does a duty. -/
theorem cut_wake_or_same {cancelledFirst : Bool} {answers : List ContractI.Event}
    {returned : Option (ContractResult TxHash)}
    (hcalls : Contracts.TaskCalls m.contract contracts)
    (hl : contracts.step m.contract (.wake i k cancelledFirst answers returned) = some contracts') :
    contracts' = contracts ∨
      CutExpand Duty.Below (processorDuties contracts' i) (processorDuties contracts i) := by
  have hcancel : ∀ {task}, (contracts.world.processors i).tasks[k]? = some task →
      Token.Cancelled contracts.world.cancelled task.childCancellationToken →
      CutExpand Duty.Below (processorDuties contracts' i) (processorDuties contracts i) := by
    intro task ht hc
    refine cut_cancelled (fun task' ht' => ?_) hl
    obtain rfl : task = task' := Option.some.inj (ht.symm.trans ht')
    exact hc
  cases Contracts.step_cases hl with
  | @call _ _ task _ _ _ call world ht hpolls hcall hr hw =>
    by_cases hc : Token.Cancelled contracts.world.cancelled task.childCancellationToken
    · exact .inr (hcancel ht hc)
    · rw [decide_eq_false hc] at hpolls
      cases returned with
      | none =>
        rcases cut_pending_or_same (ht ▸ hcalls i k) ht hc hpolls hcall hw with ⟨hworld, hsame⟩ | hcut
        · refine .inl ?_
          rw [hworld, Contracts.setChallenge, ← hsame, Function.update_eq_self, Function.update_eq_self]
          simp [ScribeContractInstance.counted]
        · exact .inr hcut
      | some r =>
        refine .inr (cut_wake hw rfl rfl ?_ ht ?_)
        · intro k' hk'
          exact Contracts.setChallenge_of_ne (fun h => hk' h.2) _
        · obtain ⟨d, hd⟩ := duties_running (Contracts.wake_tasks hw ht).1 (contracts.challenge i k)
          rw [decide_eq_false hc, Contracts.select_of_polls hpolls, hd]
          exact cutExpand_zero
  | @noCall _ _ task _ world ht hpolls hw =>
    by_cases hc : Token.Cancelled contracts.world.cancelled task.childCancellationToken
    · exact .inr (hcancel ht hc)
    · refine .inl ?_
      rw [step_wake_same ht ?_ hw]
      rw [decide_eq_false hc] at hpolls ⊢
      have hrunning := (Contracts.wake_tasks hw ht).1
      cases hphase : task.phase with
      | sleeping elapsed =>
        cases elapsed with
        | false => cases cancelledFirst <;> rfl
        | true => simp [hphase, Contracts.pollsCall] at hpolls
      | challenging => simp [hphase, Contracts.pollsCall] at hpolls
      | cancelled => rw [hphase] at hrunning; cases hrunning
      | finished r => rw [hphase] at hrunning; cases hrunning

variable [ScribeAbi]

/-- No new poll begins, and the process does not end. -/
def settling : ProcessLabel → Bool
  | .poller .tick => false
  | .ctrlC => false
  | .joinNext _ => false
  | .collectorPanicked => false
  | _ => true

/-- The steps between two polls that change something. -/
def Settling (m : Wiring) (s : Process) (l : ProcessLabel) (s' : Process) : Prop :=
  Step m s l s' ∧ settling l = true ∧ s' ≠ s

omit [ScribeAbi] in
theorem ne_of_cut (h : CutExpand Duty.Below (duties m s') (duties m s)) : s' ≠ s := by
  intro he
  subst he
  exact Duty.below_wf.cutExpand.asymmetric _ _ h h

theorem cut_settling (h : Run (Step m) (start m) ls s) (hl : Settling m s l s') :
    CutExpand Duty.Below (duties m s') (duties m s) := by
  obtain ⟨hl, hsettling, hne⟩ := hl
  have hworks : works l = true := by
    cases (step_cases hl).2 with
    | @poller l poller world hp hw => cases l <;> first | rfl | exact hsettling
    | @contracts l contracts ho hcontracts =>
      cases Contracts.step_cases hcontracts with
      | @step l world ha hw =>
        cases World.step_cases hw with
        | recvNone _ _ _ => exact absurd rfl hne
        | _ => rfl
      | _ => rfl
    | collect _ => exact absurd rfl hne
    | _ => rfl
  refine cut_works hl hworks ?_ ?_ ?_
  · intro he
    subst he
    cases hsettling
  · intro task he
    subst he
    cases hsettling
  · intro i k cancelledFirst answers returned he
    subst he
    cases (step_cases hl).2 with
    | @contracts _ contracts' _ hcontracts =>
      rcases cut_wake_or_same (Contracts.TaskCalls.run (contracts_run h)) hcontracts with
        hsame | hcut
      · exact absurd (by rw [hsame]) hne
      · exact hcut

theorem settling_main (hl : Settling m s l s') (hmain : s.main = .selecting) :
    s'.main = .selecting := by
  obtain ⟨hl, hsettling, -⟩ := hl
  cases (step_cases hl).2 with
  | ctrlC _ => cases hsettling
  | joinNext _ _ _ => cases hsettling
  | joinAll hjoining _ _ _ => rw [hmain] at hjoining; cases hjoining
  | joinPanicked hjoining _ _ _ => rw [hmain] at hjoining; cases hjoining
  | finish hjoining _ => rw [hmain] at hjoining; cases hjoining
  | _ => exact hmain

theorem comesToRest_between (h : Run (Step m) (start m) ls s) : ComesToRest (Settling m) s := by
  refine comesToRest Duty.below_wf (duties m)
    (P := fun s : Process => ∃ ls, Run (Step m) (start m) ls s) ?_ ?_ ⟨ls, h⟩
  · intro s l s' hs hl
    obtain ⟨ls, h⟩ := hs
    exact ⟨_, .snoc h hl.1⟩
  · intro s l s' hs hl
    obtain ⟨ls, h⟩ := hs
    exact cut_settling h hl

/-! ## Where it rests -/

theorem settling_contracts (hexit : s.exited = false) (h : GoesOn m s.contracts) :
    ∃ l s', Settling m s l s' := by
  obtain ⟨l, contracts', ho, hw, hwake, hl⟩ := h
  have hstep : s.step m (.contracts l) = some { s with contracts := contracts' } := by
    simp [step, hexit, ho, hl]
  have hcut := cut_works hstep hw (by simp) (by simp) fun i k cancelledFirst answers returned he => by
    rw [ProcessLabel.contracts.inj he] at hwake
    cases hwake
  exact ⟨_, _, hstep, rfl, ne_of_cut hcut⟩

/-- A processor rests when it has handled what it was sent. -/
theorem rest_processor (h : Run (Step m) (start m) ls s) (hexit : s.exited = false)
    (hrest : AtRest (Settling m) s) (hi : i < m.set.length) :
    ((s.contracts.world.processors i).phase = .idle ∧ (s.contracts.world.processors i).rx = []) ∨
      ∃ r, (s.contracts.world.processors i).phase = .stopped r := by
  by_contra hno
  simp only [not_or, not_and, not_exists] at hno
  obtain ⟨hrx, hrunning⟩ := hno
  have hgo : GoesOn m s.contracts := by
    by_cases hidle : (s.contracts.world.processors i).phase = .idle
    · obtain ⟨event, rest, hevents⟩ := List.exists_cons_of_ne_nil (hrx hidle)
      exact .of_world (l := .recv i event) (decide_eq_true hi) rfl rfl
        (by simp [World.step, hidle, hevents])
    · exact call_goes_on (contracts_run h) hi hidle hrunning
  obtain ⟨l, s', hl⟩ := settling_contracts hexit hgo
  exact hrest l s' hl

/-- A task can be woken with an answer to its call. -/
theorem wake_step {answers : List ContractI.Event} {call : Call ContractI (ContractResult TxHash)}
    (hexit : s.exited = false) (hi : i < m.set.length)
    (ht : (s.contracts.world.processors i).tasks[k]? = some task)
    (hpolls : Contracts.pollsCall (Token.Cancelled s.contracts.world.cancelled
      task.childCancellationToken) false task.phase = true)
    (hcall : (s.contracts.taskCall m.contract i k task).answer answers = some call) :
    ∃ world, s.contracts.world.step (.wake i k false call.result) = some world ∧
      s.step m (.contracts (.wake i k false answers call.result)) = some { s with
        contracts := { s.contracts with
          world := world
          challenge := s.contracts.setChallenge i k call
          challengeCounter := s.contracts.challengeCounter ++ (m.contract i).counted call.result } } := by
  have hrunning : World.running task.phase = true := by
    unfold Contracts.pollsCall at hpolls
    split at hpolls
    · rename_i hphase; rw [hphase]; rfl
    · rename_i hphase; rw [hphase]; rfl
    · cases hpolls
  have hworld : s.contracts.world.step (.wake i k false call.result) =
      some (s.contracts.world.wakeTask i k task false call.result) := by
    simp [World.step, ht, hrunning]
  have howner : own m (.wake i k false answers call.result) = true := decide_eq_true hi
  refine ⟨_, hworld, ?_⟩
  simp [step, hexit, howner, Contracts.step, Contracts.wakeTask, ht, hpolls, hcall, hworld,
    Option.filter]

/-- A task rests when it has ended. -/
theorem rest_task (h : Run (Step m) (start m) ls s) (hexit : s.exited = false)
    (hrest : AtRest (Settling m) s) (hi : i < m.set.length)
    (ht : (s.contracts.world.processors i).tasks[k]? = some task) :
    World.running task.phase = false := by
  have htask := Contracts.TaskCalls.run (contracts_run h) i k
  rw [ht] at htask
  cases hphase : task.phase with
  | sleeping elapsed =>
    cases elapsed with
    | false =>
      obtain ⟨l, s', hl⟩ := settling_contracts hexit (.of_world (m := m) (l := .elapse i k)
        (decide_eq_true hi) rfl rfl (by simp [World.step, ht, hphase]))
      exact absurd hl (hrest l s')
    | true =>
      have hpolls : Contracts.pollsCall (Token.Cancelled s.contracts.world.cancelled
        task.childCancellationToken) false task.phase = true := by rw [hphase]; rfl
      obtain ⟨world, hw, hstep⟩ := wake_step hexit hi ht hpolls (Call.answer_nil _)
      refine absurd ⟨hstep, rfl, ?_⟩ (hrest _ _)
      intro he
      have hwoken := (Contracts.wake_tasks hw ht).2 i k
      have hsame : world = s.contracts.world :=
        congrArg (fun s : Process => s.contracts.world) he
      rw [hsame, ht, if_pos ⟨rfl, rfl⟩, Contracts.select_of_polls hpolls] at hwoken
      have hasleep := congrArg ChallengeTask.phase (Option.some.inj hwoken)
      rw [hphase] at hasleep
      generalize (s.contracts.taskCall m.contract i k task).result = r at hasleep
      cases r with
      | none => split at hasleep <;> cases hasleep
      | some r => cases hasleep
  | challenging =>
    generalize hc : s.contracts.challenge i k = challenge at htask
    cases htask with
    | notCalled hno => simp [hphase] at hno
    | @called _ call _ _ hresult =>
      have hpolls : Contracts.pollsCall (Token.Cancelled s.contracts.world.cancelled
        task.childCancellationToken) false task.phase = true := by rw [hphase]; rfl
      rcases result_or_answer call with ⟨r, hr⟩ | ⟨e, call', hcall⟩
      · have hfinished := (hresult r).mpr hr
        rw [hphase] at hfinished
        cases hfinished
      · have htaskCall : s.contracts.taskCall m.contract i k task = call := by
          simp [Contracts.taskCall, hc]
        obtain ⟨world, hw, hstep⟩ := wake_step hexit hi ht hpolls (htaskCall ▸ hcall)
        refine absurd ⟨hstep, rfl, ?_⟩ (hrest _ _)
        intro he
        have hsame : s.contracts.setChallenge i k call' i k = s.contracts.challenge i k :=
          congrArg (fun s : Process => s.contracts.challenge i k) he
        rw [Contracts.setChallenge_self, hc] at hsame
        have hanswered := (Call.answer_eq_some hcall).2.1
        rw [Option.some.inj hsame] at hanswered
        simp at hanswered
  | cancelled => rfl
  | finished r => rfl

/-- Only a poller that has returned drops its senders. -/
theorem close_step (h : s.step m l = some s') (hrunning : ∀ r, s.poller.phase ≠ .stopped r) :
    .close i ∉ (contractsLabels l).flatMap ContractsLabel.world := by
  intro hmem
  obtain ⟨cl, hcl, hclose⟩ := List.mem_flatMap.mp hmem
  cases (step_cases h).2 with
  | @poller l poller world hp hw =>
    obtain ⟨wl, hwl, rfl⟩ := List.mem_map.mp hcl
    rw [← List.mem_singleton.mp hclose] at hwl
    cases l with
    | answer e =>
      obtain ⟨send, -, hsend⟩ := List.mem_map.mp hwl
      cases hsend
    | _ => cases hwl
  | contracts ho _ =>
    rw [List.mem_singleton.mp hcl] at hclose
    -- whatever the poller does
    have hadmits : System.admits ⟨m.poller, .idle⟩ (.close i) = true := admits_of_own ho _ hclose
    cases hadmits
  | close _ hphase _ _ => exact hrunning _ hphase
  | ctrlC _ =>
    rw [List.mem_singleton.mp hcl] at hclose
    cases List.mem_singleton.mp hclose
  | joinNext _ _ _ =>
    rw [List.mem_singleton.mp hcl] at hclose
    cases List.mem_singleton.mp hclose
  | _ => cases hcl

/-- The sender of a channel is there as long as the poller runs. -/
theorem open_of_kept (h : Run (Step m) (start m) ls s) (hkept : m.kept i = true)
    (hrunning : ∀ r, s.poller.phase ≠ .stopped r) :
    (s.contracts.world.processors i).closed = false := by
  refine h.invariant (P := fun _ s => (∀ r, s.poller.phase ≠ .stopped r) →
    (s.contracts.world.processors i).closed = false) ?_ ?_ hrunning
  · intro _
    simp [start, startWorld, hkept]
  · intro ls s l s' _ ih hl hrunning'
    have hrunning : ∀ r, s.poller.phase ≠ .stopped r := fun r hr => hrunning' r
      (((toPoller m).step hl).preserves (P := fun poller : PollerTask => poller.phase = .stopped r)
        (fun hp hl => (pollerStep_stopped hl hp).elim) hr)
    rw [World.run_closed (world_step hl) (close_step hl hrunning), ih hrunning]

/-- The poller rests when its poll is over. -/
theorem rest_poller (haddressed : m.Addressed) (h : Run (Step m) (start m) ls s)
    (hexit : s.exited = false) (hrest : AtRest (Settling m) s) {t : List PollI.Event} {q}
    (hphase : s.poller.phase = .polling t q) : s.Spinning := by
  by_contra hspin
  have hpoller : Run (Takes PollerTask.step) ⟨m.poller, .idle⟩ (ls.flatMap pollerLabels)
      s.poller := (toPoller m).run h
  obtain ⟨l, s', hl, hstep⟩ := poll_goes_on (m := m) hphase hexit hspin fun tx event k hq => by
    subst hq
    have hget := ((PollerTask.GroundedInv.run hpoller).poll t _ hphase).1.1
    have hi := (haddressed _ _ hget).1
    rcases rest_processor h hexit hrest hi with ⟨hidle, hrx⟩ | ⟨r, hr⟩
    · have hkept : m.kept tx.channel = true :=
        List.any_eq_true.mpr ⟨_, Poller.mem_addresses.mpr ⟨tx, hget⟩, decide_eq_true hget⟩
      have hopen := open_of_kept h hkept fun r hr => by rw [hphase] at hr; cases hr
      have haccepts : World.accepts (s.contracts.world.processors tx.channel) = true := by
        simp [World.accepts, hopen, hrx, hidle, channelCapacity]
      exact ⟨.ok (), _, by simp [System.answered, World.step, haccepts]; rfl⟩
    · exact ⟨.error event, s.contracts.world, by simp [System.answered, hr]⟩
  have hworks : works (.poller l) = true := by
    cases l with
    | tick => exact absurd rfl hl
    | _ => rfl
  have hcut := cut_works hstep hworks (by simp) (by simp) (by simp)
  refine hrest _ _ ⟨hstep, ?_, ne_of_cut hcut⟩
  cases l with
  | tick => exact absurd rfl hl
  | _ => rfl

/-- Where the process rests between two polls. -/
structure Settled (m : Wiring) (ls : List ProcessLabel) (s : Process) : Prop where
  poller : ∀ t q, s.poller.phase = .polling t q → s.Spinning
  processors : ∀ i < m.set.length, ((s.contracts.world.processors i).phase = .idle ∧
      World.handledEvents i ((contractsHistory m ls).flatMap ContractsLabel.world) =
        World.sentEvents i ((contractsHistory m ls).flatMap ContractsLabel.world)) ∨
    ∃ r, (s.contracts.world.processors i).phase = .stopped r
  tasks : ∀ i < m.set.length, ∀ task ∈ (s.contracts.world.processors i).tasks,
    World.running task.phase = false

structure Settles (m : Wiring) (ls : List ProcessLabel) (s : Process) : Prop where
  rest : ComesToRest (Settling m) s
  ends : ∃ ls' s', Run (Settling m) s ls' s' ∧ AtRest (Settling m) s'
  settled : ∀ ls' s', Run (Settling m) s ls' s' → AtRest (Settling m) s' →
    Settled m (ls ++ ls') s'

/-- **Between two polls the process settles.** In every state a run leads to
before the shutdown, however full the channels are and whatever the calls are
answered with: without a new poll the changes come to an end, and they end only
when the poll under way is over, when each processor that has not failed has
handled every event that was sent to it, in order, and when every spawned
challenge has finished or was cancelled. The one exception is a poll over
sub-ranges that do not end. -/
theorem settles {parse : String → Except String Address} {keyOrder : KeyOrder} {signer : Address}
    {args : Cli} (hm : Challenger.main parse keyOrder signer args = .ok m)
    (h : Run (Step m) (start m) ls s) (hmain : s.main = .selecting) : Settles m ls s := by
  have hrest := comesToRest_between h
  refine ⟨hrest, hrest.exists_atRest, ?_⟩
  intro ls' s' h' hatRest
  have hrun : Run (Step m) (start m) (ls ++ ls') s' := h.append (h'.mono fun s l s' hl => hl.1)
  have hmain' : s'.main = .selecting :=
    h'.preserves (P := fun s => s.main = .selecting) (fun hmain hl => settling_main hl hmain) hmain
  have hexit : s'.exited = false := by simp [exited, hmain']
  constructor
  case poller => exact fun t q hphase => rest_poller (main_addressed hm) hrun hexit hatRest hphase
  case processors =>
    intro i hi
    refine (rest_processor hrun hexit hatRest hi).imp_left fun hidle => ⟨hidle.1, ?_⟩
    rw [World.run_queue (world_run hrun) i, hidle.2, List.append_nil]
  case tasks =>
    intro i hi task ht
    obtain ⟨k, hk⟩ := List.mem_iff_getElem?.mp ht
    exact rest_task hrun hexit hatRest hi hk

omit [ScribeAbi] in
theorem settles_sample : ∃ s, Run (@Step sampleAbi sampleWiring) (start sampleWiring)
    sampleChallenged s ∧ (s.contracts.challenge 0 0).isSome = true ∧
      @Settles sampleAbi sampleWiring sampleChallenged s := by
  let _ := sampleAbi
  obtain ⟨s, hrun, htest⟩ : ∃ s, Run (Step sampleWiring) (start sampleWiring) sampleChallenged s ∧
      ((s.contracts.challenge 0 0).isSome && decide (s.main = .selecting)) = true :=
    exists_run_of_runSteps (fun s : Process => (s.contracts.challenge 0 0).isSome &&
      decide (s.main = .selecting)) (by decide +kernel)
  obtain ⟨hcall, hmain⟩ := (Bool.and_eq_true _ _).mp htest
  exact ⟨s, hrun, hcall, settles main_sampleWiring hrun (of_decide_eq_true hmain)⟩

end Process
end Challenger
