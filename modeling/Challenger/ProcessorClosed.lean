import Challenger.ProcessorEvents

/-! # A processor whose sender is dropped

The loop takes the events in the order they were sent, each once. A closed and
empty channel gives it `None`, which it logs before it goes round again: it
does not return, whatever was sent before, and makes as many iterations as it
is given (`closed_never_stops`). -/
namespace Challenger
open Lib

namespace World
variable {ι : Type} [DecidableEq ι] {w w' : World ι} {i : ι} {l : WorldLabel ι}
  {ls : List (WorldLabel ι)}

/-! ## What a run sends, takes and judges -/

def sendOf (i : ι) : WorldLabel ι → Option Event
  | .send j event => if j = i then some event else none
  | _ => none

def recvOf (i : ι) : WorldLabel ι → Option Event
  | .recv j event => if j = i then some event else none
  | _ => none

def resultOf (i : ι) : WorldLabel ι → Option (Except ContractError Bool)
  | .judged j _ r => if j = i then some r else none
  | _ => none

/-- A label that ends a `select!` of processor `i`. -/
def iteration (i : ι) : WorldLabel ι → Bool
  | .recv j _ => j = i
  | .recvNone j => j = i
  | .stop j => j = i
  | _ => false

/-- The events sent to processor `i`. -/
def sentEvents (i : ι) (ls : List (WorldLabel ι)) : List Event := ls.filterMap (sendOf i)

/-- The events processor `i` has taken from its channel. -/
def handledEvents (i : ι) (ls : List (WorldLabel ι)) : List Event := ls.filterMap (recvOf i)

/-- The results of its validations. -/
def results (i : ι) (ls : List (WorldLabel ι)) : List (Except ContractError Bool) :=
  ls.filterMap (resultOf i)

/-- The number of iterations its loop has made. -/
def iterations (i : ι) (ls : List (WorldLabel ι)) : Nat := ls.countP (iteration i)

/-- An event to be sent, and what its validation gives if it has one. -/
abbrev Delivery := Event × Except ContractError Bool

def Delivery.result : Delivery → Option (Except ContractError Bool)
  | (.opPoked _, r) => some r
  | (.opPokeChallengedSuccessfully _, _) => none

/-- The sender of processor `i` sent these events and was dropped; the
challenge period was fetched, and nothing is shut down. -/
structure ClosedAfter (i : ι) (ds : List Delivery) (ls : List (WorldLabel ι)) : Prop where
  sent : sentEvents i ls = ds.map Prod.fst
  closed : .close i ∈ ls
  results : results i ls <+: ds.filterMap Delivery.result
  period : ∀ e, .period i (.error e) ∉ ls
  running : .shutdown ∉ ls

/-- After these events the loop handles each of them once, in order, and then
returns, all in one iteration more than there are events. -/
def StopsAfterClose (i : ι) (ds : List Delivery) : Prop :=
  ∀ ls w, Run Step (start ι) ls w → ClosedAfter i ds ls →
    iterations i ls ≤ ds.length + 1 ∧
      (iterations i ls = ds.length + 1 →
        handledEvents i ls = ds.map Prod.fst ∧ ∃ r, (w.processors i).phase = .stopped r)

/-! ## The channel is a queue -/

/-- What is sent goes to the end of the queue, what is taken comes from its
front. -/
theorem step_rx (h : w.step l = some w') (i : ι) :
    (w.processors i).rx ++ (sendOf i l).toList =
      (recvOf i l).toList ++ (w'.processors i).rx := by
  by_cases hi : processorOf l = some i
  · have hcases := step_processor h hi
    generalize w'.processors i = p' at hcases ⊢
    cases hcases with
    | validate _ hrx => simp [sendOf, recvOf, hrx]
    | ignore _ hrx _ => simp [sendOf, recvOf, hrx]
    | cancel _ hrx => simp [sendOf, recvOf, hrx]
    | _ => simp [sendOf, recvOf]
  · rw [step_frame h hi]
    have hno : sendOf i l = none ∧ recvOf i l = none := by
      cases l with
      | send j event => exact ⟨if_neg fun he => hi (congrArg some he), rfl⟩
      | recv j event => exact ⟨rfl, if_neg fun he => hi (congrArg some he)⟩
      | _ => exact ⟨rfl, rfl⟩
    simp [hno]

/-- The events sent are those taken and those still queued. -/
theorem run_queue (h : Run Step (start ι) ls w) (i : ι) :
    sentEvents i ls = handledEvents i ls ++ (w.processors i).rx := by
  refine h.invariant (P := fun ls w => sentEvents i ls = handledEvents i ls ++ (w.processors i).rx)
    rfl ?_
  intro ls w l w' _ ih hl
  have hrx := step_rx hl i
  have hone : ∀ f : WorldLabel ι → Option Event,
      (ls ++ [l]).filterMap f = ls.filterMap f ++ (f l).toList := fun f => by
    cases hf : f l <;> simp [hf]
  rw [sentEvents, handledEvents, hone, hone, ← sentEvents, ← handledEvents, ih, List.append_assoc,
    hrx, List.append_assoc]

/-! ## The loop does not return -/

theorem run_not_stopped (h : Run Step (start ι) ls w) (hperiod : ∀ e, .period i (.error e) ∉ ls)
    (hshut : .shutdown ∉ ls) : ∀ r, (w.processors i).phase ≠ .stopped r := by
  refine h.invariant (P := fun ls w => (∀ e, .period i (.error e) ∉ ls) → .shutdown ∉ ls →
    ∀ r, (w.processors i).phase ≠ .stopped r) ?_ ?_ hperiod hshut
  · intro _ _ r hr
    cases hr
  · intro ls w l w' hr ih hl hperiod hshut
    simp only [List.mem_append, List.mem_singleton, not_or] at hperiod hshut
    refine step_stopped hl (ih (fun e => (hperiod e).1) hshut.1) ?_ fun e => Ne.symm (hperiod e).2
    rw [(TasksInv.run hr).shutdown]
    exact hshut.1

/-! ## The runs of a closed channel -/

omit [DecidableEq ι] in
/-- A processor that waits for its next event. -/
structure Ready (p : ScribeEventsProcessor ι) : Prop where
  phase : p.phase = .idle
  rx : p.rx = []
  closed : p.closed = false
  period : p.challengePeriod ≠ none

/-- An event is sent, taken, and validated if it is an `OpPoked`. -/
def delivered (i : ι) : Delivery → List (WorldLabel ι)
  | (.opPoked log, r) => [.send i (.opPoked log), .recv i (.opPoked log), .judged i log r]
  | (.opPokeChallengedSuccessfully log, _) =>
    [.send i (.opPokeChallengedSuccessfully log), .recv i (.opPokeChallengedSuccessfully log)]

theorem Ready.send_recv (h : Ready (w.processors i)) (event : Event) :
    ∃ w₁ : World ι, Run Step w [.send i event, .recv i event] (w₁.handleEvent i event) ∧
      w₁.processors i = w.processors i := by
  have hsend : w.step (.send i event) =
      some (w.setProcessor i { w.processors i with rx := [event] }) := by
    simp [step, accepts, h.phase, h.rx, h.closed, channelCapacity]
  have hrecv : (w.setProcessor i { w.processors i with rx := [event] }).step (.recv i event) =
      some (((w.setProcessor i { w.processors i with rx := [event] }).setProcessor i
        { w.processors i with rx := [] }).handleEvent i event) := by
    simp [step, h.phase]
  refine ⟨_, .cons hsend (.single hrecv), ?_⟩
  rw [setProcessor_self, ← h.rx]

theorem Ready.delivered (h : Ready (w.processors i)) (d : Delivery) :
    ∃ w', Run Step w (delivered i d) w' ∧ Ready (w'.processors i) := by
  obtain ⟨event, r⟩ := d
  obtain ⟨w₁, hrun, hw₁⟩ := h.send_recv event
  cases event with
  | opPoked log =>
    have hperiod : (w₁.processors i).challengePeriod ≠ none := by rw [hw₁]; exact h.period
    have hval := @handleEvent_poked_self ι _ w₁ i log hperiod
    have hjudge : Step (w₁.handleEvent i (.opPoked log)) (.judged i log r)
        ((w₁.handleEvent i (.opPoked log)).handleJudged i log r) := by
      simp [Step, Takes, step, hval]
    refine ⟨_, hrun.append (.single hjudge), ?_⟩
    obtain ⟨token, tasks, hself⟩ := handleJudged_self (w₁.handleEvent i (.opPoked log)) i log r
    rw [hself, hval, hw₁]
    exact ⟨rfl, h.rx, h.closed, h.period⟩
  | opPokeChallengedSuccessfully log =>
    refine ⟨_, hrun, ?_⟩
    rw [handleEvent, cancelChallenge_processor, hw₁]
    exact ⟨h.phase, h.rx, h.closed, h.period⟩

theorem ready_deliveries (h : Ready (w.processors i)) (ds : List Delivery) :
    ∃ w', Run Step w (ds.flatMap (delivered i)) w' ∧ Ready (w'.processors i) := by
  induction ds generalizing w with
  | nil => exact ⟨w, .nil, h⟩
  | cons d ds ih =>
    obtain ⟨w₁, hrun, hready⟩ := h.delivered d
    obtain ⟨w', hrest, hready'⟩ := ih hready
    exact ⟨w', hrun.append hrest, hready'⟩

/-- The period is fetched, the events are delivered one by one, the sender is
dropped, and the loop goes round `n` more times. -/
def closedRun (i : ι) (ds : List Delivery) (n : Nat) : List (WorldLabel ι) :=
  [.period i (.ok 0)] ++ ds.flatMap (delivered i) ++ [.close i] ++ List.replicate n (.recvNone i)

theorem run_closedRun (i : ι) (ds : List Delivery) (n : Nat) :
    ∃ w, Run Step (start ι) (closedRun i ds n) w := by
  obtain ⟨w, hrun, hready⟩ := ready_deliveries
    (w := (start ι).setProcessor i { (ScribeEventsProcessor.new ι) with
      challengePeriod := some 0, phase := .idle }) (i := i)
    (by rw [setProcessor_self]; exact ⟨rfl, rfl, rfl, Option.some_ne_none _⟩) ds
  have hclosed : (w.setProcessor i { w.processors i with closed := true }).step (.recvNone i) =
      some (w.setProcessor i { w.processors i with closed := true }) := by
    simp [step, hready.phase, hready.rx]
  have hperiod : Step (start ι) (.period i (.ok 0)) ((start ι).setProcessor i
      { (ScribeEventsProcessor.new ι) with challengePeriod := some 0, phase := .idle }) := rfl
  have hclose : Step w (.close i) (w.setProcessor i { w.processors i with closed := true }) := rfl
  exact ⟨_, (((Run.single hperiod).append hrun).append (.single hclose)).append
    (.replicate hclosed n)⟩

omit [DecidableEq ι] in
/-- What a closed run shows, when every delivery shows it and nothing else
does. -/
theorem filterMap_closedRun {β : Type} {f : WorldLabel ι → Option β} {g : Delivery → Option β}
    {i : ι} (h : ∀ d, (delivered i d).filterMap f = (g d).toList)
    (hperiod : f (.period i (.ok 0)) = none) (hclose : f (.close i) = none)
    (hnone : f (.recvNone i) = none) (ds : List Delivery) (n : Nat) :
    (closedRun i ds n).filterMap f = ds.filterMap g := by
  have hds : (ds.flatMap (delivered i)).filterMap f = ds.filterMap g := by
    induction ds with
    | nil => rfl
    | cons d ds ih =>
      rw [List.flatMap_cons, List.filterMap_append, ih, h]
      cases hg : g d <;> simp [hg]
  simp [closedRun, hds, hperiod, hclose, hnone]

omit [DecidableEq ι] in
theorem mem_closedRun {i : ι} {ds : List Delivery} {n : Nat} (h : l ∈ closedRun i ds n) :
    (∀ e, l ≠ .period i (.error e)) ∧ l ≠ .shutdown := by
  have hd : ∀ d, l ∈ delivered i d → (∀ e, l ≠ .period i (.error e)) ∧ l ≠ .shutdown := by
    rintro ⟨event, r⟩ hl
    cases event <;> simp only [delivered, List.mem_cons, List.not_mem_nil, or_false] at hl
    · rcases hl with rfl | rfl | rfl <;> simp
    · rcases hl with rfl | rfl <;> simp
  simp only [closedRun, List.mem_append, List.mem_singleton, List.mem_flatMap,
    List.mem_replicate] at h
  rcases h with ((rfl | ⟨d, -, hl⟩) | rfl) | ⟨-, rfl⟩
  · simp
  · exact hd d hl
  · simp
  · simp

theorem handledEvents_closedRun (i : ι) (ds : List Delivery) (n : Nat) :
    handledEvents i (closedRun i ds n) = ds.map Prod.fst := by
  rw [← List.filterMap_eq_map]
  refine filterMap_closedRun ?_ rfl rfl rfl ds n
  rintro ⟨event, r⟩
  cases event <;> simp [delivered, List.filterMap_cons, recvOf]

theorem closedAfter_closedRun (i : ι) (ds : List Delivery) (n : Nat) :
    ClosedAfter i ds (closedRun i ds n) := by
  constructor
  case sent =>
    rw [← List.filterMap_eq_map]
    refine filterMap_closedRun ?_ rfl rfl rfl ds n
    rintro ⟨event, r⟩
    cases event <;> simp [delivered, List.filterMap_cons, sendOf]
  case results =>
    have hresults : results i (closedRun i ds n) = ds.filterMap Delivery.result := by
      refine filterMap_closedRun ?_ rfl rfl rfl ds n
      rintro ⟨event, r⟩
      cases event <;> simp [delivered, List.filterMap_cons, resultOf, Delivery.result]
    rw [hresults]
  case closed => simp [closedRun]
  case period => intro e h; exact (mem_closedRun h).1 e rfl
  case running => intro h; exact (mem_closedRun h).2 rfl

theorem iterations_closedRun (i : ι) (ds : List Delivery) (n : Nat) :
    iterations i (closedRun i ds n) = ds.length + n := by
  have hds : (ds.flatMap (delivered i)).countP (iteration i) = ds.length := by
    induction ds with
    | nil => rfl
    | cons d ds ih =>
      obtain ⟨event, r⟩ := d
      rw [List.flatMap_cons, List.countP_append, ih, List.length_cons]
      cases event <;> simp [delivered, iteration, Nat.add_comm]
  simp [iterations, closedRun, hds, iteration, List.countP_replicate]

/-- **A processor whose channel is closed does not stop.** Whatever events
were sent before the sender was dropped and whatever their validations gave:
the loop takes them once each, in order, but it never returns, and it can go
round any number of times after the last one. So after no events does it do
what its own message announces. -/
theorem closed_never_stops (i : ι) (ds : List Delivery) :
    ¬ StopsAfterClose i ds ∧
    (∀ ls w, Run Step (start ι) ls w → ClosedAfter i ds ls →
      handledEvents i ls <+: ds.map Prod.fst ∧ ∀ r, (w.processors i).phase ≠ .stopped r) ∧
    ∀ n, ∃ ls w, Run Step (start ι) ls w ∧ ClosedAfter i ds ls ∧
      handledEvents i ls = ds.map Prod.fst ∧ iterations i ls = ds.length + n := by
  have hnever : ∀ ls w, Run Step (start ι) ls w → ClosedAfter i ds ls →
      ∀ r, (w.processors i).phase ≠ .stopped r := by
    intro ls w hrun hclosed
    exact run_not_stopped hrun hclosed.period hclosed.running
  have hlong : ∀ n, ∃ ls w, Run Step (start ι) ls w ∧ ClosedAfter i ds ls ∧
      handledEvents i ls = ds.map Prod.fst ∧ iterations i ls = ds.length + n := by
    intro n
    obtain ⟨w, hrun⟩ := run_closedRun i ds n
    exact ⟨_, w, hrun, closedAfter_closedRun i ds n, handledEvents_closedRun i ds n,
      iterations_closedRun i ds n⟩
  refine ⟨?_, ?_, hlong⟩
  · intro hstops
    obtain ⟨ls, w, hrun, hclosed, -, hiter⟩ := hlong 1
    obtain ⟨-, r, hr⟩ := (hstops ls w hrun hclosed).2 hiter
    exact hnever ls w hrun hclosed r hr
  · intro ls w hrun hclosed
    refine ⟨?_, hnever ls w hrun hclosed⟩
    rw [← hclosed.sent, run_queue hrun i]
    exact List.prefix_append _ _

/-- Not even when nothing was sent. -/
theorem empty_channel_never_stops : ¬ StopsAfterClose () [] := by
  intro hstops
  obtain ⟨w, hrun⟩ := run_closedRun () [] 1
  have hclosed := closedAfter_closedRun () [] 1
  obtain ⟨-, r, hr⟩ := (hstops _ w hrun hclosed).2 (iterations_closedRun () [] 1)
  exact run_not_stopped hrun hclosed.period hclosed.running r hr

end World
end Challenger
