import Challenger.PollerOrder
import Challenger.ProcessorClosed
import Challenger.System

/-! # From the chain to the handling, in order

The poller sends the events of a contract in the order of the chain, and their
channel is a queue. So its processor handles no event before it has handled
all the earlier ones, whatever calls fail on the way (`handled_in_order`), and
handles each once when calls fail early only (`handled_once`). -/
namespace Challenger
open Lib Lib.Async

namespace System
variable [ScribeAbi] {chain : Chain} {env : PollerTask.PollEnv} {p : Poller} {ls : List SystemLabel}
  {s s' : System} {a : Address} {tx : Sender}

/-- The process goes on, and the poller's answers are as assumed. -/
def StepIn (chain : Chain) (env : PollerTask.PollEnv) : System → SystemLabel → System → Prop :=
  Guarded (Step chain) fun s l => ∀ e t q, l = .poller (.answer e) → s.poller.phase = .polling t q →
    env s.poller.poller t e

/-- The poller's side of such a run. No send fails. -/
theorem poller_run (h : Run (StepIn chain env) (start p) ls s) :
    Run (PollerTask.Step fun p t e => Honest chain e ∧ env p t e) ⟨p, .idle⟩ (pollerLabels ls)
      s.poller := by
  refine h.invariant (P := fun ls s => Run (PollerTask.Step fun p t e => Honest chain e ∧ env p t e)
    ⟨p, .idle⟩ (pollerLabels ls) s.poller) .nil ?_
  intro ls s l s' hr ih hl
  obtain ⟨⟨hstep, hwork⟩, henv⟩ := hl
  rw [pollerLabels_append]
  cases l with
  | poller l =>
    obtain ⟨poller, hp, hmap⟩ := Option.bind_eq_some_iff.mp hstep
    obtain ⟨world, hw, rfl⟩ := Option.map_eq_some_iff.mp hmap
    refine .snoc ih ⟨hp, ?_⟩
    intro e t q he hphase
    subst he
    exact ⟨honest_of_mined hwork hw (Sides.run hr.unguarded).noneStopped, henv e t q rfl hphase⟩
  | world l =>
    change (if admits s.poller l then (s.world.step l).map fun world => { s with world }
      else none) = some s' at hstep
    split at hstep
    · obtain ⟨world, hw, rfl⟩ := Option.map_eq_some_iff.mp hstep
      exact (List.append_nil _).symm ▸ ih
    · cases hstep

/-! ## What a processor gets -/

omit [ScribeAbi] in
theorem mem_sentEvents {i : Nat} {event : Event} {ls : List (WorldLabel Nat)} :
    event ∈ World.sentEvents i ls ↔ .send i event ∈ ls := by
  simp only [World.sentEvents, List.mem_filterMap]
  constructor
  · intro h
    obtain ⟨l, hl, hevent⟩ := h
    cases l with
    | send j e =>
      obtain ⟨rfl, rfl⟩ : j = i ∧ e = event := by
        simpa [World.sendOf, Option.ite_none_right_eq_some] using hevent
      exact hl
    | _ => cases hevent
  · intro h
    exact ⟨_, h, if_pos rfl⟩

omit [ScribeAbi] in
theorem sentEvents_append (i : Nat) (ls ls' : List (WorldLabel Nat)) :
    World.sentEvents i (ls ++ ls') = World.sentEvents i ls ++ World.sentEvents i ls' :=
  List.filterMap_append

omit [ScribeAbi] in
theorem sentEvents_sendLabels (tx : Sender) (l : PollerLabel) :
    World.sentEvents tx.channel (sendLabels l) = sentOn tx (PollerTask.answers [l]) := by
  cases l with
  | answer e =>
    have hsends : sendLabels (.answer e) =
        (sent e).map fun s => WorldLabel.send s.1.channel s.2 := rfl
    have hanswers : PollerTask.answers [.answer e] = [e] := rfl
    rw [hsends, hanswers, World.sentEvents, sentOn, List.flatMap_singleton, List.filterMap_map]
    refine List.filterMap_congr ?_
    intro s _
    have hchannel : s.1.channel = tx.channel ↔ s.1 = tx := by
      cases s.1; cases tx; simp
    simp [World.sendOf, hchannel]
  | _ => rfl

/-- On a channel is what the poller has sent on it. -/
theorem sentEvents_eq {s₀ : System} (h : Run (Takes step) s₀ ls s) (tx : Sender) :
    World.sentEvents tx.channel (worldLabels ls) =
      sentOn tx (PollerTask.answers (pollerLabels ls)) := by
  refine h.invariant (P := fun ls _ => World.sentEvents tx.channel (worldLabels ls) =
    sentOn tx (PollerTask.answers (pollerLabels ls))) rfl ?_
  intro ls s l s' _ ih hl
  rw [worldLabels_append, pollerLabels_append, sentEvents_append, PollerTask.answers_append,
    sentOn_append, ih]
  congr 1
  cases l with
  | poller l =>
    have hlabels : worldLabels [.poller l] = sendLabels l := List.flatMap_singleton _ _
    rw [hlabels]
    exact sentEvents_sendLabels tx l
  | world l =>
    have hadmits : admits s.poller l = true := by
      by_contra hno
      change (if admits s.poller l then (s.world.step l).map fun world => { s with world }
        else none) = some s' at hl
      rw [if_neg hno] at hl
      cases hl
    cases l with
    | send i event => cases hadmits
    | _ => rfl

/-- The events that the processor of the channel has been given, in order. -/
def handled (tx : Sender) (ls : List SystemLabel) : List Event :=
  World.handledEvents tx.channel (worldLabels ls)

/-- What was sent is what was handled and what is queued. -/
theorem sent_eq_handled (h : Run (Step chain) (start p) ls s) (tx : Sender) :
    sentOn tx (PollerTask.answers (pollerLabels ls)) =
      handled tx ls ++ (s.world.processors tx.channel).rx := by
  rw [← sentEvents_eq h.unguarded tx]
  exact World.run_queue (Sides.run h).world tx.channel

/-- **A processor handles the events of its contract in order**, whatever
calls fail, as long as the process goes on and no addition wraps. It is given
events of its contract only, and none before all the earlier ones from the
first cursor on; and all those below the cursor are handled or queued. -/
theorem handled_in_order (hs : p.lastProcessesBlock ≠ 0) (hpos : p.PositiveRange)
    (htx : p.handlerChannels.get a = some tx)
    (h : Run (StepIn chain PollerTask.NoneWraps) (start p) ls s) :
    (∀ event ∈ handled tx ls, event ∈ chain.stream a p.lastProcessesBlock.toNat) ∧
    (∀ earlier event later, chain.stream a p.lastProcessesBlock.toNat = earlier ++ event :: later →
      ∀ before, before ++ [event] <+: handled tx ls → ∀ e ∈ earlier, e ∈ before) ∧
    ∀ event ∈ chain.eventsOf a p.lastProcessesBlock.toNat
      s.poller.poller.lastProcessesBlock.toNat,
        event ∈ handled tx ls ∨ event ∈ (s.world.processors tx.channel).rx := by
  have hpoller : Run (PollerTask.Step (PollerTask.Unwrapped chain)) ⟨p, .idle⟩ (pollerLabels ls)
      s.poller := poller_run h
  have hsent := sent_eq_handled h.unguarded tx
  have horder := PollerTask.run_in_order hs hpos htx hpoller
  rw [hsent] at horder
  have hhandled := horder.of_prefix (List.prefix_append _ _)
  refine ⟨fun event he => hhandled.mem he, ?_, ?_⟩
  · intro earlier event later hstream before hbefore
    exact hhandled.before (chain.nodup_stream a _) hstream hbefore
  · intro event he
    have hcovered := PollerTask.run_covers hs (Sides.run h.unguarded).poller htx he
    rw [hsent] at hcovered
    exact List.mem_append.mp hcovered

/-- A test of a step that suffices for `NoneWraps`. -/
def headFits (s : System) : SystemLabel → Bool
  | .poller (.answer ⟨.getBlockNumber, .ok latestBlock⟩) =>
    decide (latestBlock.toNat + 1 < 2 ^ 64) &&
      s.poller.poller.maxBlockRange.all fun k => latestBlock.toNat + k.toNat ≤ 2 ^ 64
  | _ => true

omit [ScribeAbi] in
theorem noneWraps_of_fits {e : PollI.Event} {t : List PollI.Event}
    (h : headFits s (.poller (.answer e)) = true) : PollerTask.NoneWraps s.poller.poller t e := by
  intro latestBlock he _
  subst he
  obtain ⟨hroom, hk⟩ := Bool.and_eq_true_iff.mp h
  refine .of_lt (of_decide_eq_true hroom) ?_
  intro k hmax
  rw [hmax] at hk
  exact of_decide_eq_true hk

/-- The poller does these steps, then the processor takes the logs at these
places and finds none of them challengeable. -/
def sampleHandling (polls : List PollerLabel) (places : List (UInt64 × UInt64)) :
    List SystemLabel :=
  polls.map .poller ++ [.world (.period 0 (.ok 600))] ++ places.flatMap fun place =>
    [.world (.recv 0 (sampleEvent place.1 place.2)),
      .world (.judged 0 (samplePokedAt place.1 place.2) (.ok false))]

omit [ScribeAbi] in
theorem working_sampleHandling {polls : List PollerLabel} {places : List (UInt64 × UInt64)}
    (h : ∀ e ∈ PollerTask.answers polls, Honest sampleChain e) :
    ∀ l ∈ sampleHandling polls places, Working sampleChain l := by
  have hpolls : ∀ l ∈ polls, Working sampleChain (.poller l) := by
    intro l hl
    cases l with
    | answer e =>
      have hhonest := h e (List.mem_filterMap.mpr ⟨_, hl, rfl⟩)
      show Mined sampleChain e
      unfold Mined
      split
      · exact hhonest
      · trivial
    | _ => trivial
  simp only [sampleHandling, List.forall_mem_append, List.forall_mem_map, List.forall_mem_flatMap,
    List.forall_mem_singleton]
  refine ⟨⟨hpolls, trivial⟩, ?_⟩
  intro place _ l hl
  cases hl with
  | head => trivial
  | tail _ hl =>
    rw [List.mem_singleton.mp hl]
    trivial

omit [ScribeAbi] in
theorem mem_sampleHandling {polls : List PollerLabel} {places : List (UInt64 × UInt64)}
    {e : PollI.Event} (h : .poller (.answer e) ∈ sampleHandling polls places) :
    e ∈ PollerTask.answers polls := by
  have hpolls : .answer e ∈ polls := by simpa [sampleHandling] using h
  exact List.mem_filterMap.mpr ⟨_, hpolls, rfl⟩

/-- A poll fails after its first range, so the processor takes two events
twice. -/
def sampleRepeated : List SystemLabel :=
  sampleHandling PollerTask.sampleRetry [(10, 1), (10, 2), (10, 1), (10, 2)]

omit [ScribeAbi] in
theorem handled_in_order_sample : ∃ s, Run (@StepIn sampleAbi sampleChain PollerTask.NoneWraps)
    (start (samplePoller 9 (some 2))) sampleRepeated s ∧
      handled ⟨0⟩ sampleRepeated = [sampleEvent 10 1, sampleEvent 10 2, sampleEvent 10 1,
        sampleEvent 10 2] ∧
      ∀ event ∈ handled ⟨0⟩ sampleRepeated,
        event ∈ @Chain.stream sampleAbi sampleChain sampleAddress 9 := by
  let _ := sampleAbi
  obtain ⟨s, hrun, -⟩ : ∃ s, Run (Guarded (Takes step) fun s l => headFits s l = true)
      (start (samplePoller 9 (some 2))) sampleRepeated s ∧ true = true :=
    exists_run_of_runGuarded (fun _ => true) (by decide +kernel)
  have hrun := hrun.guarded (G := fun _ l => Working sampleChain l)
    fun l hl _ => working_sampleHandling (fun e he =>
      (PollerTask.environment_sampleRetry (samplePoller 9 (some 2)) [] e he).1) l hl
  have hrun : Run (StepIn sampleChain PollerTask.NoneWraps) (start (samplePoller 9 (some 2)))
      sampleRepeated s := hrun.mono fun s l s' hl => ⟨⟨hl.1.1, hl.2⟩, fun e t q he _ =>
    noneWraps_of_fits (he ▸ hl.1.2)⟩
  have htx : (samplePoller 9 (some 2)).handlerChannels.get sampleAddress = some ⟨0⟩ := by decide
  exact ⟨s, hrun, by decide +kernel,
    (handled_in_order (by decide) (fun h => by cases h) htx hrun).1⟩

/-- **A processor handles each event of its contract once**, in the order of
the chain, when calls fail only before their poll has sent something: what it
was given and what is queued for it is an initial segment of the events from
the first cursor on, and has all those below the cursor. -/
theorem handled_once (hs : p.lastProcessesBlock ≠ 0) (hpos : p.PositiveRange)
    (htx : p.handlerChannels.get a = some tx)
    (h : Run (StepIn chain fun p t e => PollerTask.FailsEarly p t e ∧ PollerTask.NoneWraps p t e)
      (start p) ls s) :
    chain.eventsOf a p.lastProcessesBlock.toNat s.poller.poller.lastProcessesBlock.toNat <+:
        handled tx ls ++ (s.world.processors tx.channel).rx ∧
      handled tx ls ++ (s.world.processors tx.channel).rx <+:
        chain.stream a p.lastProcessesBlock.toNat := by
  have hpoller : Run (PollerTask.Step (PollerTask.Undisturbed chain)) ⟨p, .idle⟩ (pollerLabels ls)
      s.poller := poller_run h
  rw [← sent_eq_handled h.unguarded tx]
  exact PollerTask.run_exactly_once hs hpos htx hpoller

/-- A test of a step that suffices for the hypothesis of `handled_once`. -/
def undisturbedStep (s : System) : SystemLabel → Bool
  | .poller l => PollerTask.undisturbedStep s.poller l
  | .world _ => true

omit [ScribeAbi] in
theorem undisturbed_of_step {e : PollI.Event} {t : List PollI.Event} {q}
    (he : Honest sampleChain e) (hp : s.poller.phase = .polling t q)
    (h : undisturbedStep s (.poller (.answer e)) = true) :
    PollerTask.Undisturbed sampleChain s.poller.poller t e := by
  simp only [undisturbedStep, PollerTask.undisturbedStep, hp] at h
  exact PollerTask.undisturbed_of_test he h

omit [ScribeAbi] in
theorem handled_once_sample : ∃ s, Run (@Step sampleAbi sampleChain)
    (start (samplePoller 9 (some 2)))
      (sampleHandling PollerTask.sampleHeadRetry [(10, 1), (10, 2)]) s ∧
    handled ⟨0⟩ (sampleHandling PollerTask.sampleHeadRetry [(10, 1), (10, 2)]) ++
      (s.world.processors 0).rx <+: @Chain.stream sampleAbi sampleChain sampleAddress 9 := by
  let _ := sampleAbi
  obtain ⟨s, hrun, -⟩ : ∃ s, Run (Guarded (Takes step) fun s l => undisturbedStep s l = true)
      (start (samplePoller 9 (some 2)))
        (sampleHandling PollerTask.sampleHeadRetry [(10, 1), (10, 2)]) s ∧ true = true :=
    exists_run_of_runGuarded (fun _ => true) (by decide +kernel)
  have hrun := hrun.guarded (G := fun _ l => Working sampleChain l ∧
      ∀ e, l = .poller (.answer e) → Honest sampleChain e) fun l hl _ =>
    ⟨working_sampleHandling PollerTask.honest_sampleHeadRetry l hl, fun e he =>
      PollerTask.honest_sampleHeadRetry e (mem_sampleHandling (he ▸ hl))⟩
  have hrun : Run (StepIn sampleChain fun p t e => PollerTask.FailsEarly p t e ∧
      PollerTask.NoneWraps p t e) (start (samplePoller 9 (some 2)))
      (sampleHandling PollerTask.sampleHeadRetry [(10, 1), (10, 2)]) s :=
    hrun.mono fun s l s' hl => ⟨⟨hl.1.1, hl.2.1⟩, fun e t q he hp =>
      (undisturbed_of_step (hl.2.2 e he) hp (he ▸ hl.1.2)).2⟩
  have htx : (samplePoller 9 (some 2)).handlerChannels.get sampleAddress = some ⟨0⟩ := by decide
  exact ⟨s, hrun.unguarded, (handled_once (by decide) (fun h => by cases h) htx hrun).2⟩

end System
end Challenger
