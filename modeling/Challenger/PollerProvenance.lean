import Challenger.Lib.History
import Challenger.PollerTask

/-! # Where an event comes from

Whatever the node answers, the poller makes nothing up: before an event is
sent, a query for the monitored addresses has returned a log that decodes to
it, and the channel is the one of the log's address (`sent_fetched`). -/
namespace Challenger
open Lib Lib.Async

/-- Behind the event there is a log that a query among these answers returned,
for these addresses. -/
structure Fetched [ScribeAbi] (addresses : List Address) (t : List PollI.Event) (raw : Log LogData)
    (event : Event) : Prop where
  decodes : Event.tryFrom raw = .ok event
  returned : ∃ filter logs, ⟨.getLogs filter, .ok logs⟩ ∈ t ∧ raw ∈ logs ∧
    ∀ a ∈ filter.address, a ∈ addresses

theorem Fetched.mono [ScribeAbi] {addresses : List Address} {t u : List PollI.Event}
    {raw : Log LogData} {event : Event} (h : Fetched addresses t raw event)
    (htu : ∀ e ∈ t, e ∈ u) : Fetched addresses u raw event := by
  obtain ⟨filter, logs, hlogs, hraw, haddr⟩ := h.returned
  exact ⟨h.decodes, filter, logs, htu _ hlogs, hraw, haddr⟩

/-- A request of the poller. It sends only what was fetched, on the channel of
the event's address. -/
def Grounded [ScribeAbi] (p : Poller) (t : List PollI.Event) : PollOp → Prop
  | .send tx event => p.handlerChannels.get event.address = some tx ∧
      ∃ raw, Fetched p.addresses t raw event
  | _ => True

namespace Poller
variable [ScribeAbi]

theorem sendLogForProcessing_grounded (p : Poller) {log : Log LogData} {t : List PollI.Event}
    (h : ∀ event, Event.tryFrom log = .ok event → Fetched p.addresses t log event) :
    AsksAfter (Grounded p) (p.sendLogForProcessing log) t := by
  unfold sendLogForProcessing
  split
  · trivial
  · rename_i event hevent
    split
    · trivial
    · rename_i tx htx
      refine AsksAfter.bind (p := PollM.send tx event) ⟨⟨htx, log, h event hevent⟩, fun _ => trivial⟩ ?_
      intro r u
      cases r <;> trivial

theorem pollRange_grounded (p : Poller) {chunk : List Address} (hchunk : ∀ a ∈ chunk, a ∈ p.addresses)
    (range : UInt64 × UInt64) (t : List PollI.Event) :
    AsksAfter (Grounded p) (p.pollRange chunk range) t := by
  refine ⟨trivial, ?_⟩
  intro r
  cases r with
  | error e => trivial
  | ok logs =>
    refine AsksAfter.forEach ?_
    intro log hlog u
    refine (p.sendLogForProcessing_grounded ?_).bind fun _ _ => trivial
    intro event hevent
    exact ⟨hevent, queryFilter chunk range.1 range.2, logs, by simp, hlog, hchunk⟩

theorem chunkAndPollLogs_grounded (p : Poller) (latestBlock : UInt64) (t : List PollI.Event) :
    AsksAfter (Grounded p) (p.chunkAndPollLogs latestBlock) t := by
  unfold chunkAndPollLogs
  split
  · exact ⟨trivial, fun r => r.elim⟩
  · refine AsksAfter.forEach ?_
    intro chunk hchunk u
    have hmem : ∀ a ∈ chunk, a ∈ p.addresses := by
      intro a ha
      rw [← flatten_chunks maxAddressPerRequest p.addresses]
      exact List.mem_flatten_of_mem hchunk ha
    exact AsksAfter.forEach fun range _ v => p.pollRange_grounded hmem range _

theorem pollForNewEvents_grounded (p : Poller) (t : List PollI.Event) :
    AsksAfter (Grounded p) p.pollForNewEvents t := by
  refine ⟨trivial, ?_⟩
  intro r
  cases r with
  | error e => trivial
  | ok latestBlock =>
    have hfirst : p.firstRun latestBlock = p.moved (p.firstRun latestBlock).lastProcessesBlock
        p.retryCount := PollerTask.firstRun_moved p latestBlock
    show AsksAfter (Grounded p) (if latestBlock ≤ (p.firstRun latestBlock).lastProcessesBlock then
      pure (.ok (), p.firstRun latestBlock) else (p.firstRun latestBlock).scan latestBlock) _
    split
    · trivial
    · have hscan : Grounded (p.firstRun latestBlock) = Grounded p := by rw [hfirst]; rfl
      rw [← hscan]
      refine ((p.firstRun latestBlock).chunkAndPollLogs_grounded latestBlock _).bind ?_
      intro a u
      cases a with
      | error e => trivial
      | ok _ => exact ⟨trivial, fun _ => trivial⟩

end Poller

namespace PollerTask
variable [ScribeAbi] {p : Poller} {ls : List PollerLabel} {s s' : PollerTask}

/-- Every request so far was grounded in the answers before it, and so is every
one that the poll under way can still make. -/
structure GroundedInv (p : Poller) (ls : List PollerLabel) (s : PollerTask) : Prop where
  answered : Kept (fun p t e => Grounded p t e.1) p (answers ls)
  poll : ∀ t q, s.phase = .polling t q → AsksAfter (Grounded p) q (answers ls)

theorem GroundedInv.init (p : Poller) : GroundedInv p [] ⟨p, .idle⟩ where
  answered u e v hu := by simp [answers] at hu
  poll t q hp := by cases hp

/-- Steps that get no answer. -/
theorem GroundedInv.snoc {l : PollerLabel} (h : GroundedInv p ls s)
    (hanswers : answers (ls ++ [l]) = answers ls)
    (hpoll : ∀ t q, s'.phase = .polling t q → AsksAfter (Grounded p) q (answers ls)) :
    GroundedInv p (ls ++ [l]) s' := by
  constructor
  case answered => rw [hanswers]; exact h.answered
  case poll => rw [hanswers]; exact hpoll

theorem GroundedInv.step {l : PollerLabel} (h : GroundedInv p ls s) (htask : TaskInv p ls s)
    (hl : s.step l = some s') : GroundedInv p (ls ++ [l]) s' := by
  cases step_cases hl with
  | cancelled _ =>
    refine h.snoc (by simp [answers]) ?_
    intro t q hp
    cases hp
  | tick _ =>
    refine h.snoc (by simp [answers]) ?_
    intro t q hp
    cases hp
    obtain ⟨cursor, retryCount, hw⟩ := htask.wiring
    have hgrounded : Grounded s.poller = Grounded p := by rw [hw]; rfl
    exact hgrounded ▸ s.poller.pollForNewEvents_grounded _
  | @answer t q q' e hp hq =>
    have hanswers : answers (ls ++ [.answer e]) = answers ls ++ [e] := answers_append ..
    have hpoll := h.poll t q hp
    constructor
    case answered =>
      rw [hanswers]
      exact h.answered.snoc (hpoll.answered hq)
    case poll =>
      intro t' q'' hp'
      cases hp'
      rw [hanswers]
      exact hpoll.exec hq
  | @polled t r p' hp =>
    refine h.snoc (by simp [answers]) ?_
    intro t' q' hp'
    exact absurd hp' ((afterPoll_poller p' r).2 t' q')

theorem GroundedInv.run (h : Run (Takes PollerTask.step) ⟨p, .idle⟩ ls s) : GroundedInv p ls s :=
  h.invariant (.init p) fun hr ih hl => ih.step (TaskInv.run hr) hl

/-- What was sent on the channel of an address had been fetched, and is an
event at this address. -/
theorem sent_fetched (h : Run (Takes PollerTask.step) ⟨p, .idle⟩ ls s) {tx : Sender} {event : Event}
    (hsent : event ∈ sentOn tx (answers ls)) :
    p.handlerChannels.get event.address = some tx ∧
      ∃ raw, Fetched p.addresses (answers ls) raw event := by
  obtain ⟨send, hs, hon⟩ := List.mem_filterMap.mp hsent
  obtain ⟨e, he, hsend⟩ := List.mem_flatMap.mp hs
  obtain ⟨u, v, huv⟩ := List.append_of_mem he
  have hgrounded := (GroundedInv.run h).answered u e v huv
  unfold sent at hsend
  split at hsend
  · rw [List.mem_singleton.mp hsend] at hon
    simp only [Option.ite_none_right_eq_some, Option.some.injEq] at hon
    obtain ⟨rfl, rfl⟩ := hon
    obtain ⟨htx, raw, hraw⟩ := hgrounded
    refine ⟨htx, raw, hraw.mono ?_⟩
    intro e' he'
    rw [huv]
    exact List.mem_append_left _ he'
  · cases hsend

end PollerTask
end Challenger
