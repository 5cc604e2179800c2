import Challenger.PollerHeads
import Challenger.ProcessorEvents

/-! # The poller and the processors together

The poller's task runs beside the processors; processor `i` reads from channel
`i`. A send of the poller waits until the channel takes the event, and fails
when the processor has returned. Both sides share the shutdown token.

An `OpPoked` below the poller's cursor is queued, is being handled, or was
judged, or its validation failed (`opPoked_accounted`). In the last case it is
lost: the error is logged, and nothing hands the event out again
(`validation_error_drops`). -/
namespace Challenger
open Lib Lib.Async

structure System where
  poller : PollerTask
  world : World Nat

inductive SystemLabel where
  | poller (l : PollerLabel)
  | world (l : WorldLabel Nat)

namespace System

/-! ## Steps -/

/-- What a step of the poller does to the processors. -/
def answered (w : World Nat) : PollerLabel → Option (World Nat)
  | .cancelled => if Token.Cancelled w.cancelled Token.root then some w else none
  | .answer ⟨.send tx event, .ok _⟩ => w.step (.send tx.channel event)
  | .answer ⟨.send tx _, .error _⟩ =>
    match (w.processors tx.channel).phase with
    | .stopped _ => some w
    | _ => none
  | _ => some w

/-- Whether the processors can take a step by themselves. The sends are the
poller's, and it drops its senders when it returns. -/
def admits (s : PollerTask) : WorldLabel Nat → Bool
  | .send _ _ => false
  | .close _ =>
    match s.phase with
    | .stopped _ => true
    | _ => false
  | _ => true

def start (p : Poller) : System := ⟨⟨p, .idle⟩, .start Nat⟩

variable [ScribeAbi]

def step (s : System) : SystemLabel → Option System
  | .poller l =>
    (s.poller.step l).bind fun poller => (answered s.world l).map fun world => ⟨poller, world⟩
  | .world l => if admits s.poller l then (s.world.step l).map fun world => { s with world } else none

/-! ## The two sides of a run -/

def pollerLabels (ls : List SystemLabel) : List PollerLabel :=
  ls.filterMap fun
    | .poller l => some l
    | .world _ => none

/-- The sends a step of the poller makes. -/
def sendLabels : PollerLabel → List (WorldLabel Nat)
  | .answer e => (sent e).map fun s => .send s.1.channel s.2
  | _ => []

def worldLabels (ls : List SystemLabel) : List (WorldLabel Nat) :=
  ls.flatMap fun
    | .poller l => sendLabels l
    | .world l => [l]

/-- A query that succeeds returns exactly the matching logs. -/
def Mined (chain : Chain) : PollI.Event → Prop
  | ⟨.getLogs f, r⟩ => ∀ logs, r = .ok logs → logs = chain.getLogs f
  | _ => True

/-- The process goes on: no shutdown, and no processor fails to get its
challenge period at the start. Queries are answered from the chain. -/
def Working (chain : Chain) : SystemLabel → Prop
  | .poller (.answer e) => Mined chain e
  | .world (.period _ (.error _)) => False
  | .world .shutdown => False
  | _ => True

def Step (chain : Chain) : System → SystemLabel → System → Prop :=
  Guarded (Takes step) fun _ l => Working chain l

variable {chain : Chain} {p : Poller} {ls : List SystemLabel} {s s' : System} {w w' : World Nat}

omit [ScribeAbi] in
theorem pollerLabels_append (ls ls' : List SystemLabel) :
    pollerLabels (ls ++ ls') = pollerLabels ls ++ pollerLabels ls' := List.filterMap_append

omit [ScribeAbi] in
theorem worldLabels_append (ls ls' : List SystemLabel) :
    worldLabels (ls ++ ls') = worldLabels ls ++ worldLabels ls' := List.flatMap_append

omit [ScribeAbi] in
/-- The poller's steps do nothing to the processors, but for its sends. -/
theorem answered_cases {l : PollerLabel} (h : answered w l = some w') :
    (sendLabels l = [] ∧ w' = w ∧ ∀ tx event r, l = .answer ⟨.send tx event, r⟩ →
      ∃ result, (w.processors tx.channel).phase = .stopped result) ∨
    ∃ tx event, l = .answer ⟨.send tx event, .ok ()⟩ ∧
      w.step (.send tx.channel event) = some w' := by
  unfold answered at h
  split at h
  · split at h
    · exact .inl ⟨rfl, (Option.some.inj h).symm, fun _ _ _ hl => by cases hl⟩
    · cases h
  · exact .inr ⟨_, _, rfl, h⟩
  · split at h
    · rename_i hstopped
      refine .inl ⟨rfl, (Option.some.inj h).symm, ?_⟩
      intro _ _ _ hl
      cases hl
      exact ⟨_, hstopped⟩
    · cases h
  · rename_i hok herror
    refine .inl ⟨?_, (Option.some.inj h).symm, ?_⟩
    · unfold sendLabels
      split
      · rename_i e
        unfold sent
        split
        · exact absurd rfl (hok _ _ _)
        · rfl
      · rfl
    · intro tx event r hl
      cases r with
      | ok _ => exact absurd hl (hok _ _ _)
      | error _ => exact absurd hl (herror _ _ _)

/-- No processor returns while the process goes on. -/
def NoneStopped (w : World Nat) : Prop := ∀ i result, (w.processors i).phase ≠ .stopped result

omit [ScribeAbi] in
theorem NoneStopped.step {l : WorldLabel Nat} (h : NoneStopped w) (hl : w.step l = some w')
    (hroot : Token.root ∉ w.cancelled) (hperiod : ∀ i e, l ≠ .period i (.error e)) :
    NoneStopped w' := by
  intro i
  exact World.step_stopped hl (h i) hroot (hperiod i)

omit [ScribeAbi] in
/-- No send fails, as long as no processor has returned. -/
theorem honest_of_mined {e : PollI.Event} (he : Mined chain e)
    (hw : answered w (.answer e) = some w') (hnone : NoneStopped w) : Honest chain e := by
  unfold Honest
  split
  · exact he
  · rename_i tx event r
    rcases answered_cases hw with ⟨-, -, hstopped⟩ | ⟨tx', event', hl, -⟩
    · obtain ⟨result, hphase⟩ := hstopped tx event r rfl
      exact absurd hphase (hnone _ _)
    · cases hl
      rfl
  · trivial
  · trivial
  · trivial

/-- The two sides of a run, while the process goes on. -/
structure Sides (chain : Chain) (p : Poller) (ls : List SystemLabel) (s : System) : Prop where
  poller : Run (PollerTask.Step (PollerTask.Answering chain)) ⟨p, .idle⟩ (pollerLabels ls) s.poller
  world : Run World.Step (World.start Nat) (worldLabels ls) s.world
  noShutdown : .shutdown ∉ worldLabels ls
  noneStopped : NoneStopped s.world

theorem Sides.step {l : SystemLabel} (h : Sides chain p ls s) (hl : Step chain s l s') :
    Sides chain p (ls ++ [l]) s' := by
  obtain ⟨hstep, hwork⟩ := hl
  have hroot : Token.root ∉ s.world.cancelled := fun hr =>
    h.noShutdown ((World.TasksInv.run h.world).shutdown.mp hr)
  cases l with
  | poller l =>
    obtain ⟨poller, hp, hmap⟩ := Option.bind_eq_some_iff.mp hstep
    obtain ⟨world, hw, rfl⟩ := Option.map_eq_some_iff.mp hmap
    have hlabels : worldLabels (ls ++ [.poller l]) = worldLabels ls ++ sendLabels l := by
      rw [worldLabels_append]
      exact congrArg _ (List.flatMap_singleton _ _)
    have hpoller : Run (PollerTask.Step (PollerTask.Answering chain)) ⟨p, .idle⟩
        (pollerLabels (ls ++ [.poller l])) poller := by
      rw [pollerLabels_append]
      refine .snoc h.poller ⟨hp, ?_⟩
      intro e t q hl _
      subst hl
      exact honest_of_mined hwork hw h.noneStopped
    rcases answered_cases hw with ⟨hl, rfl, -⟩ | ⟨tx, event, rfl, hsend⟩
    · rw [hl, List.append_nil] at hlabels
      exact ⟨hpoller, hlabels ▸ h.world, hlabels ▸ h.noShutdown, h.noneStopped⟩
    · have hlabels : worldLabels (ls ++ [_]) = worldLabels ls ++ [.send tx.channel event] := hlabels
      have hne : .send tx.channel event ≠ WorldLabel.shutdown := by intro h; cases h
      refine ⟨hpoller, hlabels ▸ .snoc h.world hsend, ?_,
        h.noneStopped.step hsend hroot fun _ _ h => by cases h⟩
      exact hlabels ▸ mt (World.shutdown_mem_snoc hne).mp h.noShutdown
  | world l =>
    change (if admits s.poller l then (s.world.step l).map fun world => { s with world }
      else none) = some s' at hstep
    split at hstep
    · obtain ⟨world, hw, rfl⟩ := Option.map_eq_some_iff.mp hstep
      have hlabels : worldLabels (ls ++ [.world l]) = worldLabels ls ++ [l] := by
        rw [worldLabels_append]
        exact congrArg _ (List.flatMap_singleton _ _)
      constructor
      case poller =>
        rw [pollerLabels_append]
        exact (List.append_nil _).symm ▸ h.poller
      case world =>
        rw [hlabels]; exact .snoc h.world hw
      case noShutdown =>
        rw [hlabels, World.shutdown_mem_snoc fun he => by subst he; exact hwork]
        exact h.noShutdown
      case noneStopped =>
        exact h.noneStopped.step hw hroot fun i e he => by subst he; exact hwork
    · cases hstep

theorem Sides.run (h : Run (Step chain) (start p) ls s) : Sides chain p ls s := by
  refine h.invariant (P := Sides chain p) ⟨.nil, .nil, List.not_mem_nil, ?_⟩
    fun _ ih hl => ih.step hl
  intro i result hp
  cases hp

/-! ## Accounting for the logs -/

omit [ScribeAbi] in
/-- What the poller has sent, the processors have got on their channels. -/
theorem send_mem_worldLabels {tx : Sender} {event : Event}
    (h : event ∈ sentOn tx (PollerTask.answers (pollerLabels ls))) :
    .send tx.channel event ∈ worldLabels ls := by
  obtain ⟨send, hs, hon⟩ := List.mem_filterMap.mp h
  obtain ⟨e, he, hsend⟩ := List.mem_flatMap.mp hs
  obtain ⟨l, hl, hanswer⟩ := List.mem_filterMap.mp he
  obtain ⟨l', hl', hpoller⟩ := List.mem_filterMap.mp hl
  split at hon
  · rename_i htx
    cases hon
    split at hpoller
    · cases hpoller
      split at hanswer
      · cases hanswer
        exact List.mem_flatMap.mpr ⟨_, hl', List.mem_map.mpr ⟨send, hsend, by rw [htx]⟩⟩
      · cases hanswer
    · cases hpoller
  · cases hon

/-- A log of a monitored address that decodes as an `OpPoked`, from the first
cursor on and below the current one. -/
structure Passed (chain : Chain) (p : Poller) (s : System) (raw : Log LogData)
    (log : Log OpPoked) : Prop where
  mined : raw ∈ chain.logs
  monitored : raw.address ∈ p.addresses
  from_first : p.lastProcessesBlock.toNat ≤ raw.block
  below : raw.block < s.poller.poller.lastProcessesBlock.toNat
  decodes : Event.tryFrom raw = .ok (.opPoked log)

/-- **Every `OpPoked` below the cursor is accounted for**, whatever heads the
node reports and whatever calls fail: it is queued, is being handled, or was
judged, and a challenge was spawned if it is challengeable; or its validation
failed. -/
theorem opPoked_accounted (hs : p.lastProcessesBlock ≠ 0) (h : Run (Step chain) (start p) ls s)
    {raw : Log LogData} {log : Log OpPoked} (hlog : Passed chain p s raw log) :
    ∃ tx, p.handlerChannels.get raw.address = some tx ∧
      (World.Accounted tx.channel log (worldLabels ls) s.world ∨
        ∃ e, .judged tx.channel log (.error e) ∈ worldLabels ls) := by
  obtain ⟨tx, htx⟩ := Poller.mem_addresses.mp hlog.monitored
  have hsides := Sides.run h
  have hevent : .opPoked log ∈ chain.eventsOf raw.address p.lastProcessesBlock.toNat
      s.poller.poller.lastProcessesBlock.toNat :=
    Chain.mem_eventsOf.mpr ⟨raw, hlog.mined, ⟨hlog.from_first, hlog.below⟩,
      by simp [accepted, hlog.decodes, Except.toOption]⟩
  have hsent := PollerTask.run_covers hs hsides.poller htx hevent
  exact ⟨tx, htx, World.accounted_or_failed hsides.world
    (World.mem_sentLogs.mpr (send_mem_worldLabels hsent))⟩

/-! ## A validation that fails -/

def samplePokedAt (block index : UInt64) : Log OpPoked :=
  { sampleLog block index with data := sampleOpPoked }

/-- The poller scans the sample chain. The validation of the first log fails
on an RPC call, the second is challengeable, the third is in its validation. -/
def sampleDropped : List SystemLabel :=
  [.world (.period 0 (.ok 600)), .poller .tick] ++
    Poller.sampleTrace.map (fun e => .poller (.answer e)) ++
    [.poller (.polled (.ok ())), .world (.recv 0 (.opPoked (samplePokedAt 10 1))),
      .world (.judged 0 (samplePokedAt 10 1) (.error (.rpcError ⟨"timeout"⟩))),
      .world (.recv 0 (.opPoked (samplePokedAt 10 2))),
      .world (.judged 0 (samplePokedAt 10 2) (.ok true)),
      .world (.recv 0 (.opPoked (samplePokedAt 11 0)))]

omit [ScribeAbi] in
theorem working_sampleDropped : ∀ l ∈ sampleDropped, Working sampleChain l := by
  have htrace : ∀ e ∈ Poller.sampleTrace, Working sampleChain (.poller (.answer e)) := by
    intro e he
    have hhonest := Poller.honest_sampleTrace e he
    show Mined sampleChain e
    unfold Mined
    split
    · exact hhonest
    · trivial
  have hnone : ∀ l ∈ ([] : List SystemLabel), Working sampleChain l := fun _ h =>
    absurd h List.not_mem_nil
  simp only [sampleDropped, List.forall_mem_append, List.forall_mem_cons, List.forall_mem_map]
  exact ⟨⟨⟨trivial, trivial, hnone⟩, htrace⟩, trivial, trivial, trivial, trivial, trivial, trivial,
    hnone⟩

omit [ScribeAbi] in
theorem run_sampleDropped : ∃ s, Run (@Step sampleAbi sampleChain)
    (start (samplePoller 9 (some 2))) sampleDropped s ∧
      s.poller.poller.lastProcessesBlock = 12 ∧
      World.pendingLogs (s.world.processors 0) = [samplePokedAt 11 0] := by
  let _ := sampleAbi
  obtain ⟨s, hrun, htest⟩ : ∃ s, Run (Takes step) (start (samplePoller 9 (some 2))) sampleDropped s ∧
      (s.poller.poller.lastProcessesBlock == 12 &&
        World.pendingLogs (s.world.processors 0) == [samplePokedAt 11 0]) = true :=
    exists_run_of_runSteps (fun s : System => s.poller.poller.lastProcessesBlock == 12 &&
      World.pendingLogs (s.world.processors 0) == [samplePokedAt 11 0]) (by decide +kernel)
  obtain ⟨hcursor, hpending⟩ := (Bool.and_eq_true _ _).mp htest
  exact ⟨s, hrun.guarded fun l hl _ => working_sampleDropped l hl, eq_of_beq hcursor,
    eq_of_beq hpending⟩

/-- The label ends the validation of `log` without an error. -/
def judges (log : Log OpPoked) : WorldLabel Nat → Bool
  | .judged _ log' (.ok _) => decide (log' = log)
  | _ => false

omit [ScribeAbi] in
/-- The first log is neither queued nor handled nor judged, and it is never
judged unless it is sent again. -/
theorem validation_error_drops : ∃ s, Run (@Step sampleAbi sampleChain)
    (start (samplePoller 9 (some 2))) sampleDropped s ∧
      @Passed sampleAbi sampleChain (samplePoller 9 (some 2)) s (sampleLog 10 1)
        (samplePokedAt 10 1) ∧
      (samplePoller 9 (some 2)).handlerChannels.get (sampleLog 10 1).address = some ⟨0⟩ ∧
      ¬ World.Accounted 0 (samplePokedAt 10 1) (worldLabels sampleDropped) s.world ∧
      ∀ ls' w', Run World.Step s.world ls' w' → .send 0 (.opPoked (samplePokedAt 10 1)) ∉ ls' →
        ∀ r, .judged 0 (samplePokedAt 10 1) r ∉ ls' := by
  let _ := sampleAbi
  obtain ⟨s, hrun, hcursor, hpending⟩ := run_sampleDropped
  have hnot : samplePokedAt 10 1 ∉ World.pendingLogs (s.world.processors 0) := by
    rw [hpending]
    decide
  have hjudged : ∀ l ∈ worldLabels sampleDropped, judges (samplePokedAt 10 1) l = false := by
    decide +kernel
  have hok : ∀ ok, .judged 0 (samplePokedAt 10 1) (.ok ok) ∉ worldLabels sampleDropped := by
    intro ok h
    have hj := hjudged _ h
    simp [judges] at hj
  refine ⟨s, hrun, ⟨List.mem_cons_self, List.mem_cons_self, by decide, by rw [hcursor]; decide,
    tryFrom_sampleLog 10 1⟩, by decide, fun h => ?_, fun ls' w' h' hno =>
      World.not_judged_again (Sides.run hrun).world h' hnot hno⟩
  cases h with
  | queued h => exact hnot (World.mem_pendingLogs.mpr (.inr h))
  | handled h => exact hnot (World.mem_pendingLogs.mpr (.inl h))
  | challengeable h _ _ => exact hok _ h
  | notChallengeable h => exact hok _ h

omit [ScribeAbi] in
theorem opPoked_accounted_sample : ∃ s, Run (@Step sampleAbi sampleChain)
    (start (samplePoller 9 (some 2))) sampleDropped s ∧
      ∃ tx, (samplePoller 9 (some 2)).handlerChannels.get (sampleLog 10 2).address = some tx ∧
        (World.Accounted tx.channel (samplePokedAt 10 2) (worldLabels sampleDropped) s.world ∨
          ∃ e, .judged tx.channel (samplePokedAt 10 2) (.error e) ∈ worldLabels sampleDropped) := by
  let _ := sampleAbi
  obtain ⟨s, hrun, hcursor, -⟩ := run_sampleDropped
  exact ⟨s, hrun, opPoked_accounted (by decide) hrun
    ⟨List.mem_cons_of_mem _ List.mem_cons_self, List.mem_cons_self, by decide,
      by rw [hcursor]; decide, tryFrom_sampleLog 10 2⟩⟩

end System
end Challenger
