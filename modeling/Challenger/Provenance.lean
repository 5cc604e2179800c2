import Challenger.PollerProvenance
import Challenger.Process
import Challenger.ProcessorVerdicts
import Challenger.SystemOrder

/-! # From the chain to a challenge

A channel belongs to one contract (`main_addressed`), and only the poller puts
events on it. So behind every request of a challenge, in whatever order the
tasks run and whatever the providers answer, there is a log that a query
returned, emitted by the contract that is challenged, and a validation of it
with this contract's verdict that the signature is not acceptable
(`challenge_evidence`). -/
namespace Challenger
open Lib Lib.Async

/-! ## The channel of an address -/

/-- The channel of an address is that of a processor of its contract. -/
def Wiring.Addressed (m : Wiring) : Prop :=
  ∀ a tx, m.poller.handlerChannels.get a = some tx →
    tx.channel < m.set.length ∧ (m.contract tx.channel).address = a

namespace Main
variable {privateProvider : Bool} {signer : Address}

/-- The sender kept for an address is that of a processor spawned for it. -/
theorem spawnAll_owner (l : List Address) {a : Address} {tx : Sender}
    (h : (spawnAll privateProvider signer l).processors.get a = some tx) :
    ∃ contract, (spawnAll privateProvider signer l).set[tx.channel]? = some (contract, tx) ∧
      contract.address = a := by
  induction l using List.reverseRecOn with
  | nil =>
    rw [spawnAll, List.foldl_nil, Spawned.empty, HandlerChannels.get_empty] at h
    cases h
  | append_singleton l b ih =>
    rw [spawnAll_snoc, spawn] at h ⊢
    by_cases ha : a = b
    · subst ha
      rw [HandlerChannels.get_insert_self] at h
      rw [← Option.some.inj h]
      exact ⟨_, List.getElem?_concat_length, rfl⟩
    · rw [HandlerChannels.get_insert_of_ne _ _ _ ha] at h
      obtain ⟨contract, hget, haddress⟩ := ih h
      obtain ⟨hlt, -⟩ := List.getElem?_eq_some_iff.mp hget
      exact ⟨contract, by rw [List.getElem?_append_left hlt, hget], haddress⟩

end Main

theorem main_addressed {parse : String → Except String Address} {keyOrder : KeyOrder}
    {signer : Address} {args : Cli} {m : Wiring} (h : main parse keyOrder signer args = .ok m) :
    m.Addressed := by
  unfold main at h
  cases haddresses : Main.addresses parse args with
  | error e =>
    rw [haddresses] at h
    cases h
  | ok addresses =>
    rw [haddresses] at h
    cases h
    intro a tx htx
    obtain ⟨contract, hget, haddress⟩ := Main.spawnAll_owner addresses htx
    obtain ⟨hlt, -⟩ := List.getElem?_eq_some_iff.mp hget
    exact ⟨hlt, by simp [Wiring.contract, hget, haddress]⟩

namespace Process
variable [ScribeAbi] {m : Wiring} {s s' : Process} {l : ProcessLabel} {ls : List ProcessLabel}
  {i k : Nat} {event : Event}

/-! ## Who sends -/

/-- The answers that the poller got. -/
def pollerAnswers (ls : List ProcessLabel) : List PollI.Event :=
  PollerTask.answers (ls.flatMap pollerLabels)

omit [ScribeAbi] in
theorem pollerLabels_systemLabels (ls : List ProcessLabel) :
    System.pollerLabels (ls.flatMap systemLabels) = ls.flatMap pollerLabels := by
  rw [System.pollerLabels, List.filterMap_flatMap]
  refine List.flatMap_congr ?_
  intro l _
  cases l with
  | contracts l => simp [systemLabels, pollerLabels, List.filterMap_map]
  | joinNext task => cases task <;> rfl
  | _ => rfl

omit [ScribeAbi] in
theorem worldLabels_systemLabels (ls : List ProcessLabel) :
    System.worldLabels (ls.flatMap systemLabels) =
      (ls.flatMap contractsLabels).flatMap ContractsLabel.world := by
  rw [System.worldLabels, List.flatMap_assoc, List.flatMap_assoc]
  refine List.flatMap_congr ?_
  intro l _
  cases l with
  | poller l => simp [systemLabels, contractsLabels, ContractsLabel.world, List.flatMap_map]
  | contracts l => simp [systemLabels, contractsLabels, List.flatMap_map]
  | joinNext task => cases task <;> rfl
  | _ => rfl

/-- What was put on a channel is what the poller has sent on it. -/
theorem sentEvents_history (h : Run (Step m) (start m) ls s) (i : Nat) :
    World.sentEvents i ((contractsHistory m ls).flatMap ContractsLabel.world) =
      sentOn ⟨i⟩ (pollerAnswers ls) := by
  have hsystem := System.sentEvents_eq ((toSystem m).run h) ⟨i⟩
  have hcloses : World.sentEvents i (((closes m).map .step).flatMap ContractsLabel.world) = [] := by
    refine List.filterMap_eq_nil_iff.mpr ?_
    intro l hl
    obtain ⟨cl, hcl, hl⟩ := List.mem_flatMap.mp hl
    obtain ⟨l', hl', rfl⟩ := List.mem_map.mp hcl
    obtain ⟨j, -, rfl⟩ := List.mem_map.mp hl'
    rw [List.mem_singleton.mp hl]
    rfl
  rw [contractsHistory, List.flatMap_append, System.sentEvents_append, hcloses, List.nil_append,
    ← worldLabels_systemLabels, pollerAnswers, ← pollerLabels_systemLabels]
  exact hsystem

theorem sent_iff (h : Run (Step m) (start m) ls s) :
    .send i event ∈ (contractsHistory m ls).flatMap ContractsLabel.world ↔
      event ∈ sentOn ⟨i⟩ (pollerAnswers ls) := by
  rw [← System.mem_sentEvents, sentEvents_history h]

/-! ## What a challenge rests on -/

/-- What is behind a call of processor `i` that challenges: the log `raw` came
from a query for the monitored addresses, its emitter is the processor's
contract, and the verdict `v` on it was given by this contract. -/
structure Evidence (m : Wiring) (ls : List ProcessLabel) (s : Process) (i : Nat)
    (call : Call ContractI (ContractResult TxHash)) (raw : Log LogData) (v : Contracts.Verdict) :
    Prop where
  fetched : Fetched m.poller.addresses (pollerAnswers ls) raw (.opPoked v.log)
  emitter : raw.address = (m.contract i).address
  rests : Contracts.RestsOn m.contract i (contractsHistory m ls) s.contracts call v

/-- **Nothing is challenged without evidence.** In every run of the process
that start-up wires, whatever the providers answer and however the tasks
interleave, each challenge that was called rests on a log that a query had
returned, emitted by the challenged contract, and on a finished validation of
this log: it was not stale, and the contract refused its signature. Every
request of the challenge carries the Schnorr data of this log to this
contract. -/
theorem challenge_evidence {parse : String → Except String Address} {keyOrder : KeyOrder}
    {signer : Address} {args : Cli} (hm : Challenger.main parse keyOrder signer args = .ok m)
    (h : Run (Step m) (start m) ls s) {call : Call ContractI (ContractResult TxHash)}
    (hcall : s.contracts.challenge i k = some call) :
    ∃ raw v, Evidence m ls s i call raw v := by
  obtain ⟨v, hv⟩ := Contracts.challenge_restsOn (contracts_run h) hcall
  have hpoller : Run (Takes PollerTask.step) ⟨m.poller, .idle⟩ (ls.flatMap pollerLabels) s.poller :=
    (toPoller m).run h
  obtain ⟨htx, raw, hraw⟩ := PollerTask.sent_fetched hpoller ((sent_iff h).mp hv.sent)
  refine ⟨raw, v, hraw, ?_, hv⟩
  rw [(main_addressed hm _ _ htx).2, Event.tryFrom_address hraw.decodes]

/-- The poller fetches a log, and its processor validates and challenges it. -/
def sampleChallenged : List ProcessLabel :=
  [.poller .tick, .poller (.answer ⟨.getBlockNumber, .ok 10⟩),
    .poller (.answer ⟨.getLogs (Poller.queryFilter [sampleAddress] 9 10), .ok [sampleLog 10 1]⟩),
    .contracts (.answer 0 ⟨.opChallengePeriod sampleAddress, .ok 600⟩),
    .poller (.answer ⟨.send ⟨0⟩ (sampleEvent 10 1), .ok ()⟩),
    .contracts (.step (.period 0 (.ok 600))),
    .contracts (.step (.recv 0 (sampleEvent 10 1))),
    .contracts (.answer 0 ⟨.getBlock 10, .ok (some 100)⟩),
    .contracts (.answer 0 ⟨.now, (105 : UInt64)⟩),
    .contracts (.answer 0 ⟨.constructPokeMessage sampleAddress sampleOpPoked.pokeData, .ok 7⟩),
    .contracts (.answer 0 ⟨.isAcceptableSchnorrSignatureNow sampleAddress 7
      sampleOpPoked.schnorrData, .ok false⟩),
    .contracts (.step (.judged 0 World.samplePoked (.ok true))),
    .contracts (.step (.elapse 0 0)), .contracts (.wake 0 0 true [] none)]

omit [ScribeAbi] in
theorem challenge_evidence_sample : ∃ s, Run (@Step sampleAbi sampleWiring) (start sampleWiring)
    sampleChallenged s ∧ ∃ call, s.contracts.challenge 0 0 = some call ∧
      ∃ raw v, @Evidence sampleAbi sampleWiring sampleChallenged s 0 call raw v := by
  let _ := sampleAbi
  obtain ⟨s, hrun, htest⟩ : ∃ s, Run (Step sampleWiring) (start sampleWiring) sampleChallenged s ∧
      (s.contracts.challenge 0 0).isSome = true :=
    exists_run_of_runSteps (fun s : Process => (s.contracts.challenge 0 0).isSome)
      (by decide +kernel)
  obtain ⟨call, hcall⟩ := Option.isSome_iff_exists.mp htest
  exact ⟨s, hrun, call, hcall, challenge_evidence main_sampleWiring hrun hcall⟩

/-! ## One challenge at a time -/

/-- A processor that has spawned a task is the one that the channel map has for
its contract. -/
theorem owner_of_task (haddressed : m.Addressed) (h : Run (Step m) (start m) ls s)
    {task : ChallengeTask Nat} (ht : (s.contracts.world.processors i).tasks[k]? = some task) :
    m.poller.handlerChannels.get (m.contract i).address = some ⟨i⟩ := by
  have hworld := world_run h
  obtain ⟨-, hdata⟩ := (World.TasksInv.run hworld).task ht
  obtain ⟨log, hj, -⟩ := World.mem_challengeable (List.mem_of_getElem? hdata)
  have hpoller : Run (Takes PollerTask.step) ⟨m.poller, .idle⟩ (ls.flatMap pollerLabels) s.poller :=
    (toPoller m).run h
  have hget := (PollerTask.sent_fetched hpoller
    ((sent_iff h).mp (Contracts.sent_of_judged hworld hj))).1
  rw [(haddressed _ _ hget).2]
  exact hget

/-- **At most one live challenge for each contract**, in every run of the
process that start-up wires. This holds for any arguments: a contract that is
given in two spellings gets two processors, but only the one that is in the
channel map ever challenges. -/
theorem one_live_challenge {parse : String → Except String Address} {keyOrder : KeyOrder}
    {signer : Address} {args : Cli} (hm : Challenger.main parse keyOrder signer args = .ok m)
    (h : Run (Step m) (start m) ls s) {task : ChallengeTask Nat}
    (ht : (s.contracts.world.processors i).tasks[k]? = some task) :
    m.poller.handlerChannels.get (m.contract i).address = some ⟨i⟩ ∧
    ∀ j k' task', (s.contracts.world.processors j).tasks[k']? = some task' →
      (m.contract i).address = (m.contract j).address → s.contracts.world.Live task →
        s.contracts.world.Live task' → i = j ∧ k = k' := by
  have hi := owner_of_task (main_addressed hm) h ht
  refine ⟨hi, ?_⟩
  intro j k' task' ht' hcontract hlive hlive'
  have hj := owner_of_task (main_addressed hm) h ht'
  rw [hcontract, hj] at hi
  cases hi
  have hinv := World.TasksInv.run (world_run h)
  -- both tokens are the stored one
  have hstored := ((hinv.live_iff ht).mp hlive).2
  have hstored' := ((hinv.live_iff ht').mp hlive').2
  rw [hstored', (hinv.task ht).1, (hinv.task ht').1] at hstored
  exact ⟨rfl, (Prod.mk.inj (Token.child_injective (Option.some.inj hstored))).2.symm⟩

omit [ScribeAbi] in
theorem one_live_challenge_sample : ∃ s, Run (@Step sampleAbi sampleWiring) (start sampleWiring)
    sampleChallenged s ∧ ∃ task, (s.contracts.world.processors 0).tasks[0]? = some task ∧
      s.contracts.world.Live task ∧
      sampleWiring.poller.handlerChannels.get (sampleWiring.contract 0).address = some ⟨0⟩ ∧
      ∀ j k' task', (s.contracts.world.processors j).tasks[k']? = some task' →
        (sampleWiring.contract 0).address = (sampleWiring.contract j).address →
          s.contracts.world.Live task' → 0 = j ∧ 0 = k' := by
  let _ := sampleAbi
  obtain ⟨s, hrun, htest⟩ : ∃ s, Run (Step sampleWiring) (start sampleWiring) sampleChallenged s ∧
      (s.contracts.world.processors 0).tasks[0]?.any (fun task : ChallengeTask Nat =>
        !decide (Token.Cancelled s.contracts.world.cancelled task.childCancellationToken)) = true :=
    exists_run_of_runSteps (fun s : Process => (s.contracts.world.processors 0).tasks[0]?.any
      fun task : ChallengeTask Nat =>
        !decide (Token.Cancelled s.contracts.world.cancelled task.childCancellationToken))
      (by decide +kernel)
  obtain ⟨task, ht, hlive⟩ := (Option.any_eq_true _ _).mp htest
  have hlive : s.contracts.world.Live task := by simpa [World.Live] using hlive
  obtain ⟨howner, hunique⟩ := one_live_challenge main_sampleWiring hrun ht
  refine ⟨s, hrun, task, ht, hlive, howner, ?_⟩
  intro j k' task' ht' hcontract hlive'
  exact hunique j k' task' ht' hcontract hlive hlive'

end Process
end Challenger
