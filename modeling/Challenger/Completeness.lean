import Challenger.Settling

/-! # Every update is answered

A challenge has a log of the chain behind it; here is the other direction. When
the process has settled, an `OpPoked` that the chain has below the poller's
cursor has a verdict of its contract, and if the contract refused the signature
in time then a challenge with its data was spawned and has ended
(`poke_answered`). The one way to lose it is a validation that fails. -/
namespace Challenger
open Lib Lib.Async
open ScribeContractInstance (sampleSigner)

namespace Process
variable [ScribeAbi] {m : Wiring} {s s' : Process} {l : ProcessLabel} {ls : List ProcessLabel}
  {i : Nat} {chain : Chain}

/-! ## What the poller got -/

omit [ScribeAbi] in
theorem pollerAnswers_append (ls ls' : List ProcessLabel) :
    pollerAnswers (ls ++ ls') = pollerAnswers ls ++ pollerAnswers ls' := by
  simp [pollerAnswers]

/-- A send fails only on the channel of a processor that has returned. -/
theorem send_failed (h : Run (Step m) (start m) ls s) {tx : Sender} {event back : Event}
    (hsend : ⟨.send tx event, .error back⟩ ∈ pollerAnswers ls) :
    ∃ r, (s.contracts.world.processors tx.channel).phase = .stopped r := by
  refine h.invariant (P := fun ls s => ⟨.send tx event, .error back⟩ ∈ pollerAnswers ls →
    ∃ r, (s.contracts.world.processors tx.channel).phase = .stopped r) ?_ ?_ hsend
  · intro hsend
    cases hsend
  · intro ls s l s' _ ih hl hsend
    rw [pollerAnswers_append, List.mem_append] at hsend
    have hstays : (∃ r, (s.contracts.world.processors tx.channel).phase = .stopped r) →
        ∃ r, (s'.contracts.world.processors tx.channel).phase = .stopped r := by
      intro hs
      obtain ⟨r, hr⟩ := hs
      exact ⟨r, world_stopped_stays (world_step hl) _ _ hr⟩
    refine hstays (hsend.elim ih ?_)
    intro hsend
    obtain ⟨pl, hpl, hanswer⟩ := List.mem_filterMap.mp hsend
    cases (step_cases hl).2 with
    | @poller l poller world hp hw =>
      obtain rfl : pl = l := by simpa [pollerLabels] using hpl
      rcases System.answered_cases hw with ⟨-, -, hstopped⟩ | ⟨tx', event', rfl, -⟩
      · cases pl with
        | answer e => exact hstopped tx event (.error back) (by rw [← Option.some.inj hanswer])
        | _ => cases hanswer
      · cases Option.some.inj hanswer
    | _ => simp [pollerLabels] at hpl

/-- As long as no processor has failed, the poller's answers are those of the
chain. -/
theorem honest_answers (haddressed : m.Addressed) (h : Run (Step m) (start m) ls s)
    (hmined : ∀ e ∈ pollerAnswers ls, System.Mined chain e)
    (hrunning : ∀ i < m.set.length, ∀ r, (s.contracts.world.processors i).phase ≠ .stopped r) :
    ∀ e ∈ pollerAnswers ls, Honest chain e := by
  intro e he
  have hmine := hmined e he
  unfold Honest
  split
  · exact hmine
  · rename_i tx event r
    cases r with
    | ok _ => rfl
    | error back =>
      have hpoller : Run (Takes PollerTask.step) ⟨m.poller, .idle⟩ (ls.flatMap pollerLabels)
          s.poller := (toPoller m).run h
      obtain ⟨u, v, huv⟩ := List.append_of_mem he
      have hgrounded := (PollerTask.GroundedInv.run hpoller).answered u _ v huv
      obtain ⟨r, hr⟩ := send_failed h he
      exact absurd hr (hrunning _ (haddressed _ _ hgrounded.1).1 r)
  · trivial
  · trivial
  · trivial

theorem poller_run (haddressed : m.Addressed) (h : Run (Step m) (start m) ls s)
    (hmined : ∀ e ∈ pollerAnswers ls, System.Mined chain e)
    (hrunning : ∀ i < m.set.length, ∀ r, (s.contracts.world.processors i).phase ≠ .stopped r) :
    Run (PollerTask.Step (PollerTask.Answering chain)) ⟨m.poller, .idle⟩ (ls.flatMap pollerLabels)
      s.poller := by
  have hhonest := honest_answers haddressed h hmined hrunning
  have hpoller : Run (Takes PollerTask.step) ⟨m.poller, .idle⟩ (ls.flatMap pollerLabels) s.poller :=
    (toPoller m).run h
  refine hpoller.guarded ?_
  intro l hl s e t q he _
  exact hhonest e (List.mem_filterMap.mpr ⟨l, hl, by rw [he]⟩)

/-! ## What became of an update -/

/-- What a verdict led to. A challenge was spawned on the log's own data, and
it has ended. -/
inductive Outcome (contract : ScribeContractInstance) (p : ScribeEventsProcessor Nat)
    (log : Log OpPoked) (challengePeriod : UInt64) (answers : List ContractI.Event) :
    ContractResult Bool → Prop where
  | failed {e} : Outcome contract p log challengePeriod answers (.error e)
  | dismissed (h : contract.Dismissed log challengePeriod answers) :
      Outcome contract p log challengePeriod answers (.ok false)
  | challenged {task} (h : contract.FoundInvalid log challengePeriod answers) (ht : task ∈ p.tasks)
      (hdata : task.schnorrData = log.data.schnorrData) (hended : World.running task.phase = false) :
      Outcome contract p log challengePeriod answers (.ok true)

/-- The verdict `v` of processor `i` on a log. -/
structure Answered (m : Wiring) (ls : List ProcessLabel) (s : Process) (i : Nat)
    (v : Contracts.Verdict) : Prop where
  answers : v.answers <:+: Contracts.answersTo i (contractsHistory m ls)
  verdict : ∃ period : UInt16, (s.contracts.challengePeriod i).result = some (.ok period) ∧
    Returns ((m.contract i).isOpPokeChallengeable v.log period.toUInt64) v.answers v.result ∧
    Outcome (m.contract i) (s.contracts.world.processors i) v.log period.toUInt64 v.answers v.result

/-- **No update is left without an answer.** Take any run of the process that
start-up wires in which the queries that succeed return the logs of the chain,
with any failures and in any interleaving, up to a state where it has settled
and no processor has failed at its start. Then each `OpPoked` of a monitored
contract from the first cursor on and below the current one has a verdict of
this contract's processor: its validation failed, or it is stale or has an
acceptable signature, or it was found invalid, and a challenge with its data was
spawned and has ended. -/
theorem poke_answered {parse : String → Except String Address} {keyOrder : KeyOrder}
    {signer : Address} {args : Cli} (hm : Challenger.main parse keyOrder signer args = .ok m)
    (hs : m.poller.lastProcessesBlock ≠ 0) (h : Run (Step m) (start m) ls s)
    (hsettled : Settled m ls s) (hmined : ∀ e ∈ pollerAnswers ls, System.Mined chain e)
    (hrunning : ∀ i < m.set.length, ∀ r, (s.contracts.world.processors i).phase ≠ .stopped r)
    {raw : Log LogData} {log : Log OpPoked}
    (hlog : System.Passed chain m.poller s.system raw log) :
    ∃ i < m.set.length, (m.contract i).address = raw.address ∧
      ∃ v, v.log = log ∧ Answered m ls s i v := by
  have haddressed := main_addressed hm
  obtain ⟨tx, htx⟩ := Poller.mem_addresses.mp hlog.monitored
  obtain ⟨hi, haddress⟩ := haddressed _ _ htx
  have hevent : .opPoked log ∈ chain.eventsOf raw.address m.poller.lastProcessesBlock.toNat
      s.poller.poller.lastProcessesBlock.toNat :=
    Chain.mem_eventsOf.mpr ⟨raw, hlog.mined, ⟨hlog.from_first, hlog.below⟩,
      by simp [accepted, hlog.decodes, Except.toOption]⟩
  have hsend := (sent_iff h).mpr
    (PollerTask.run_covers hs (poller_run haddressed h hmined hrunning) htx hevent)
  have hidle := (hsettled.processors tx.channel hi).resolve_right fun hr => by
    obtain ⟨r, hr⟩ := hr
    exact hrunning _ hi r hr
  have hrx : (s.contracts.world.processors tx.channel).rx = [] := by
    have hqueue := World.run_queue (world_run h) tx.channel
    rw [← hidle.2] at hqueue
    exact List.append_right_eq_self.mp hqueue.symm
  have hjudged : ∃ r, .judged tx.channel log r ∈
      (contractsHistory m ls).flatMap ContractsLabel.world ∧ (r = .ok true →
        ∃ task ∈ (s.contracts.world.processors tx.channel).tasks,
          task.schnorrData = log.data.schnorrData) := by
    rcases World.accounted_or_failed (world_run h) (World.mem_sentLogs.mpr hsend) with
      haccounted | ⟨e, he⟩
    · cases haccounted with
      | queued hq => rw [hrx] at hq; cases hq
      | handled hphase => rw [hidle.1] at hphase; cases hphase
      | challengeable hj ht hdata => exact ⟨_, hj, fun _ => ⟨_, ht, hdata⟩⟩
      | notChallengeable hj => exact ⟨_, hj, fun hr => by cases hr⟩
    · exact ⟨_, he, fun hr => by cases hr⟩
  obtain ⟨r, hj, htask⟩ := hjudged
  obtain ⟨answers, period, hinfix, hperiod, hreturns⟩ := Contracts.exists_verdict (contracts_run h) hj
  refine ⟨tx.channel, hi, haddress, ⟨log, answers, r⟩, rfl, hinfix, period, hperiod, hreturns, ?_⟩
  cases r with
  | error e => exact .failed
  | ok challengeable =>
    have hreasons := ScribeContractInstance.isOpPokeChallengeable_ok hreturns
    cases challengeable with
    | false => exact .dismissed hreasons
    | true =>
      obtain ⟨task, ht, hdata⟩ := htask rfl
      exact .challenged hreasons ht hdata (hsettled.tasks _ hi task ht)

/-- A test that suffices for `Settled`. -/
def isSettled (m : Wiring) (s : Process) : Bool :=
  (match s.poller.phase with
    | .polling _ _ => false
    | _ => true) &&
  (List.range m.set.length).all fun i =>
    (match (s.contracts.world.processors i).phase with
      | .idle => (s.contracts.world.processors i).rx.isEmpty
      | _ => false) &&
    (s.contracts.world.processors i).tasks.all fun task => !World.running task.phase

theorem settled_of_isSettled (h : Run (Step m) (start m) ls s) (ht : isSettled m s = true) :
    Settled m ls s ∧
      ∀ i < m.set.length, ∀ r, (s.contracts.world.processors i).phase ≠ .stopped r := by
  obtain ⟨hpoller, hprocessors⟩ := (Bool.and_eq_true _ _).mp ht
  have hprocessor : ∀ i < m.set.length, (s.contracts.world.processors i).phase = .idle ∧
      (s.contracts.world.processors i).rx = [] ∧
      ∀ task ∈ (s.contracts.world.processors i).tasks, World.running task.phase = false := by
    intro i hi
    obtain ⟨hphase, htasks⟩ := (Bool.and_eq_true _ _).mp
      (List.all_eq_true.mp hprocessors i (List.mem_range.mpr hi))
    split at hphase
    · refine ⟨‹_›, List.isEmpty_iff.mp hphase, ?_⟩
      intro task hmem
      simpa using List.all_eq_true.mp htasks task hmem
    · cases hphase
  refine ⟨⟨?_, ?_, fun i hi => (hprocessor i hi).2.2⟩, ?_⟩
  · intro t q hphase
    rw [hphase] at hpoller
    cases hpoller
  · intro i hi
    obtain ⟨hidle, hrx, -⟩ := hprocessor i hi
    refine .inl ⟨hidle, ?_⟩
    rw [World.run_queue (world_run h) i, hrx, List.append_nil]
  · intro i hi r hr
    rw [(hprocessor i hi).1] at hr
    cases hr

def sampleMined : Chain where
  logs := [sampleLog 10 1]
  mined := by decide
  ordered := by decide

/-- The challenge is included, and the poll is over. -/
def sampleIncluded : List ProcessLabel :=
  sampleChallenged ++
    [.contracts (.wake 0 0 true ScribeContractInstance.sampleChallenge (some (.ok sampleHash))),
      .poller (.answer ⟨.setLastScannedBlock sampleSigner 10, ()⟩), .poller (.polled (.ok ()))]

omit [ScribeAbi] in
theorem mined_sampleIncluded : ∀ e ∈ pollerAnswers sampleIncluded, System.Mined sampleMined e := by
  have hanswers : pollerAnswers sampleIncluded = [⟨.getBlockNumber, .ok 10⟩,
      ⟨.getLogs (Poller.queryFilter [sampleAddress] 9 10), .ok [sampleLog 10 1]⟩,
      ⟨.send ⟨0⟩ (sampleEvent 10 1), .ok ()⟩, ⟨.setLastScannedBlock sampleSigner 10, ()⟩] := rfl
  rw [hanswers]
  simp only [List.forall_mem_cons]
  refine ⟨trivial, ?_, trivial, trivial, fun _ h => absurd h List.not_mem_nil⟩
  intro logs hlogs
  rw [← Except.ok.inj hlogs]
  decide +kernel

omit [ScribeAbi] in
theorem poke_answered_sample : ∃ s, Run (@Step sampleAbi sampleWiring) (start sampleWiring)
    sampleIncluded s ∧ ∃ i < sampleWiring.set.length,
      (sampleWiring.contract i).address = sampleAddress ∧
        ∃ v, v.log = System.samplePokedAt 10 1 ∧
          Answered sampleWiring sampleIncluded s i v := by
  let _ := sampleAbi
  obtain ⟨s, hrun, htest⟩ : ∃ s, Run (Step sampleWiring) (start sampleWiring) sampleIncluded s ∧
      (isSettled sampleWiring s && decide (s.poller.poller.lastProcessesBlock = 11)) = true :=
    exists_run_of_runSteps (fun s : Process => isSettled sampleWiring s &&
      decide (s.poller.poller.lastProcessesBlock = 11)) (by decide +kernel)
  obtain ⟨hsettled, hcursor⟩ := (Bool.and_eq_true _ _).mp htest
  have hcursor : s.system.poller.poller.lastProcessesBlock = 11 := of_decide_eq_true hcursor
  obtain ⟨hsettled, hrunning⟩ := settled_of_isSettled hrun hsettled
  have hlog : System.Passed sampleMined sampleWiring.poller s.system (sampleLog 10 1)
      (System.samplePokedAt 10 1) :=
    ⟨List.mem_cons_self, by decide, by decide, by rw [hcursor]; decide, tryFrom_sampleLog 10 1⟩
  exact ⟨s, hrun, poke_answered main_sampleWiring (by decide) hrun hsettled mined_sampleIncluded
    hrunning hlog⟩

end Process
end Challenger
