import Challenger.Lib.InOrder
import Challenger.PollerOnce

/-! # The order of the events

A poll that failed is sent again from its old cursor, so a channel may get an
event more than once. But polls go through the blocks in order, and a later
one starts at or below the place where the last one stopped: whatever fails,
the channel of an address gets no event before all the earlier ones of this
address (`run_in_order`). -/
namespace Challenger
open Lib Lib.Async

variable [ScribeAbi]

/-- All events of an address in the blocks from `lo` on. -/
def Chain.stream (chain : Chain) (a : Address) (lo : Nat) : List Event :=
  chain.eventsOf a lo (2 ^ 64)

theorem Chain.nodup_stream (chain : Chain) (a : Address) (lo : Nat) : (chain.stream a lo).Nodup :=
  (chain.eventsOf_positions a lo (2 ^ 64)).1.of_map _

theorem Chain.stream_eq (chain : Chain) (a : Address) {lo : Nat} {cursor : UInt64}
    (h : lo ≤ cursor.toNat) :
    chain.stream a lo = chain.eventsOf a lo cursor.toNat ++ chain.stream a cursor.toNat :=
  (chain.eventsOf_append a h cursor.toNat_lt.le).symm

namespace PollerTask
variable {chain : Chain} {p : Poller} {ls : List PollerLabel} {s s' : PollerTask} {a : Address}
  {tx : Sender}

/-- No addition of a scan up to this head wraps. -/
def NoneWraps : PollEnv := fun p _ e => ∀ latestBlock, e = ⟨.getBlockNumber, .ok latestBlock⟩ →
  ¬ latestBlock ≤ p.lastProcessesBlock → p.NoWrap latestBlock

/-- No call fails once its poll has sent something. -/
def FailsEarly : PollEnv := fun _ t e => Poller.QueryFailed e → t.flatMap sent = []

/-- The environment answers from the chain, and nothing wraps. Any call may
fail. -/
def Unwrapped (chain : Chain) : PollEnv := fun p t e => Honest chain e ∧ NoneWraps p t e

omit [ScribeAbi] in
theorem Unwrapped.environment (p : Poller) (t : List PollI.Event) (e : PollI.Event)
    (h : Unwrapped chain p t e) : Environment chain p t e := by
  refine ⟨h.1, ?_⟩
  unfold HeadRoom
  split
  · exact fun hlt => (h.2 _ rfl hlt).succ
  · trivial

omit [ScribeAbi] in
theorem Unwrapped.noWrap {t : List PollI.Event} (h : Kept (Unwrapped chain) p t)
    {latestBlock : UInt64} (hh : Poller.headRead t = some latestBlock)
    (hlt : ¬ latestBlock ≤ p.lastProcessesBlock) : p.NoWrap latestBlock := by
  obtain ⟨u, v, rfl⟩ := List.append_of_mem (Poller.mem_of_headRead hh)
  exact (h u _ v rfl).2 _ rfl hlt

/-- A poll, complete or not, sends an initial segment of what comes from its
cursor on. -/
theorem poll_in_order {t : List PollI.Event} {q} (hs : p.lastProcessesBlock ≠ 0)
    (hpos : p.PositiveRange) (htx : p.handlerChannels.get a = some tx)
    (ht : Kept (Unwrapped chain) p t) (h : Exec p.pollForNewEvents t q) :
    sentOn tx t <+: chain.stream a p.lastProcessesBlock.toNat := by
  have hhon := ht.honest fun _ _ _ he => he.1
  rcases Poller.pollForNewEvents_exec hs hhon h with hnil | ⟨latestBlock, rs, hh, hlt, hrs, hpre⟩
  · rw [sentOn, hnil]
    exact List.nil_prefix
  · have hle := UInt64.le_iff_toNat_le.not.mp hlt
    have htiles := Poller.ranges_tiles hrs (UInt64.le_iff_toNat_le.mpr (by omega)) hpos
      (Unwrapped.noWrap ht hh hlt)
    have hscan : sentOn tx t <+:
        chain.eventsOf a p.lastProcessesBlock.toNat (latestBlock.toNat + 1) :=
      Poller.plannedSends_on htx htiles ▸ hpre.filterMap _
    have hlast := latestBlock.toNat_lt
    exact hscan.trans ⟨_, chain.eventsOf_append a (by omega) (by omega)⟩

/-- What was sent before the poll under way is in order, and it has everything
below the cursor. -/
def OrderInv (chain : Chain) (p : Poller) (a : Address) (tx : Sender) (ls : List PollerLabel)
    (s : PollerTask) : Prop :=
  ∃ u, answers ls = u ++ s.answered ∧
    InOrder (chain.stream a p.lastProcessesBlock.toNat) (sentOn tx u) ∧
    ∀ event ∈ chain.eventsOf a p.lastProcessesBlock.toNat s.poller.lastProcessesBlock.toNat,
      event ∈ sentOn tx u

/-- A poll goes on from the cursor. -/
theorem InOrder.poll {u t : List PollI.Event} {q} (hinv : LoopInv (Unwrapped chain) p ls s)
    (hcursor : p.lastProcessesBlock.toNat ≤ s.poller.lastProcessesBlock.toNat)
    (hpos : p.PositiveRange) (htx : p.handlerChannels.get a = some tx)
    (hu : InOrder (chain.stream a p.lastProcessesBlock.toNat) (sentOn tx u))
    (hbelow : ∀ event ∈ chain.eventsOf a p.lastProcessesBlock.toNat
      s.poller.lastProcessesBlock.toNat, event ∈ sentOn tx u)
    (hp : s.phase = .polling t q) :
    InOrder (chain.stream a p.lastProcessesBlock.toNat) (sentOn tx (u ++ t)) := by
  obtain ⟨hexec, hkept, -⟩ := hinv.poll t q hp
  obtain ⟨c, m, hw⟩ := hinv.wiring
  rw [sentOn_append]
  refine hu.append (chain.stream_eq a hcursor) hbelow ?_
  exact poll_in_order hinv.cursor_ne (by rw [hw]; exact hpos) (by rw [hw]; exact htx) hkept hexec

theorem OrderInv.step {l : PollerLabel} (hpos : p.PositiveRange)
    (htx : p.handlerChannels.get a = some tx) (hinv : LoopInv (Unwrapped chain) p ls s)
    (hcursor : p.lastProcessesBlock.toNat ≤ s.poller.lastProcessesBlock.toNat)
    (h : OrderInv chain p a tx ls s) (hl : Step (Unwrapped chain) s l s') :
    OrderInv chain p a tx (ls ++ [l]) s' := by
  obtain ⟨u, hu, horder, hbelow⟩ := h
  cases step_cases hl.1 with
  | cancelled hp =>
    simp only [answered, hp] at hu
    exact ⟨u, by rw [answers_append, hu, List.append_assoc]; rfl, horder, hbelow⟩
  | tick hp =>
    simp only [answered, hp] at hu
    exact ⟨u, by rw [answers_append, hu, List.append_assoc]; rfl, horder, hbelow⟩
  | answer hp hq =>
    simp only [answered, hp] at hu
    exact ⟨u, by rw [answers_append, hu]; exact List.append_assoc .., horder, hbelow⟩
  | @polled t r p' hp =>
    obtain ⟨hexec, hkept, -⟩ := hinv.poll _ _ hp
    obtain ⟨⟨n, hn⟩, -⟩ := afterPoll_poller p' r
    obtain ⟨c, m, hw⟩ := hinv.wiring
    have hpoll := InOrder.poll hinv hcursor hpos htx horder hbelow hp
    simp only [answered, hp] at hu
    refine ⟨u ++ t, by rw [answers_append, hu, afterPoll_answered]; rfl, hpoll, ?_⟩
    rw [hn, sentOn_append]
    intro event he
    rw [List.mem_append]
    cases r with
    | error e =>
      rw [(Poller.pollForNewEvents_error hinv.cursor_ne hexec).1] at he
      exact .inl (hbelow event he)
    | ok _ =>
      obtain ⟨latestBlock, -, rfl, hle, hsent⟩ := Poller.pollForNewEvents_delivers hinv.cursor_ne
        (by rw [hw]; exact hpos) (hkept.honest fun _ _ _ he => he.1)
        (fun _ hh hlt => Unwrapped.noWrap hkept hh hlt) hexec
      rw [hsent a tx (by rw [hw]; exact htx)]
      change event ∈ chain.eventsOf a p.lastProcessesBlock.toNat
        (Poller.nextCursor s.poller.lastProcessesBlock latestBlock).toNat at he
      rw [← chain.eventsOf_append a hcursor hle, List.mem_append] at he
      exact he.imp_left (hbelow event)

/-- Whatever fails, what was sent to an address is in the order of the chain,
but for repetitions. -/
theorem run_in_order (hs : p.lastProcessesBlock ≠ 0) (hpos : p.PositiveRange)
    (htx : p.handlerChannels.get a = some tx) (h : Run (Step (Unwrapped chain)) ⟨p, .idle⟩ ls s) :
    InOrder (chain.stream a p.lastProcessesBlock.toNat) (sentOn tx (answers ls)) := by
  have hinv : ∀ {ls s}, Run (Step (Unwrapped chain)) ⟨p, .idle⟩ ls s →
      LoopInv (Unwrapped chain) p ls s ∧
        p.lastProcessesBlock.toNat ≤ s.poller.lastProcessesBlock.toNat := by
    intro ls s h
    have henv : Run (Step (Environment chain)) ⟨p, .idle⟩ ls s := h.mono fun s l s' hl =>
      ⟨hl.1, fun e t q he hp => Unwrapped.environment _ _ _ (hl.2 e t q he hp)⟩
    exact ⟨LoopInv.run Unwrapped.environment hs h, (run_delivers hs henv).1⟩
  obtain ⟨u, hu, horder, hbelow⟩ := h.invariant (P := OrderInv chain p a tx)
    ⟨[], rfl, .nil _, by rw [chain.eventsOf_self]; simp⟩
    fun hr ih hl => ih.step hpos htx (hinv hr).1 (hinv hr).2 hl
  rw [hu]
  cases hp : s.phase with
  | polling t q =>
    simp only [answered, hp]
    exact InOrder.poll (hinv h).1 (hinv h).2 hpos htx horder hbelow hp
  | idle => simpa [answered, hp] using horder
  | stopped r => simpa [answered, hp] using horder

/-! ## Exactly once -/

/-- What was sent before the poll under way is what the chain has below the
cursor. -/
def ExactInv (chain : Chain) (p : Poller) (a : Address) (tx : Sender) (ls : List PollerLabel)
    (s : PollerTask) : Prop :=
  ∃ u, answers ls = u ++ s.answered ∧
    p.lastProcessesBlock.toNat ≤ s.poller.lastProcessesBlock.toNat ∧
    sentOn tx u = chain.eventsOf a p.lastProcessesBlock.toNat s.poller.lastProcessesBlock.toNat

theorem ExactInv.step {l : PollerLabel} (hpos : p.PositiveRange)
    (htx : p.handlerChannels.get a = some tx) (hinv : LoopInv (Undisturbed chain) p ls s)
    (h : ExactInv chain p a tx ls s) (hl : Step (Undisturbed chain) s l s') :
    ExactInv chain p a tx (ls ++ [l]) s' := by
  obtain ⟨u, hu, hcursor, hexact⟩ := h
  cases step_cases hl.1 with
  | cancelled hp =>
    simp only [answered, hp] at hu
    exact ⟨u, by rw [answers_append, hu, List.append_assoc]; rfl, hcursor, hexact⟩
  | tick hp =>
    simp only [answered, hp] at hu
    exact ⟨u, by rw [answers_append, hu, List.append_assoc]; rfl, hcursor, hexact⟩
  | answer hp hq =>
    simp only [answered, hp] at hu
    exact ⟨u, by rw [answers_append, hu]; exact List.append_assoc .., hcursor, hexact⟩
  | @polled t r p' hp =>
    obtain ⟨hexec, hkept, -⟩ := hinv.poll _ _ hp
    obtain ⟨⟨n, hn⟩, -⟩ := afterPoll_poller p' r
    obtain ⟨c, m, hw⟩ := hinv.wiring
    simp only [answered, hp] at hu
    refine ⟨u ++ t, by rw [answers_append, hu, afterPoll_answered]; rfl, ?_⟩
    rw [hn, sentOn_append, hexact]
    cases r with
    | error e =>
      rw [failed_poll_sends_nothing hinv.cursor_ne hkept hexec, List.append_nil,
        (Poller.pollForNewEvents_error hinv.cursor_ne hexec).1]
      exact ⟨hcursor, rfl⟩
    | ok _ =>
      obtain ⟨latestBlock, -, rfl, hle, hsent⟩ := Poller.pollForNewEvents_delivers hinv.cursor_ne
        (by rw [hw]; exact hpos) (hkept.honest fun _ _ _ he => he.1)
        (fun _ hh => hkept.noWrap hh) hexec
      rw [hsent a tx (by rw [hw]; exact htx), chain.eventsOf_append a hcursor hle]
      exact ⟨hcursor.trans hle, rfl⟩

/-- When calls fail early only, what was sent to an address is an initial
segment of its events, and has all those below the cursor. -/
theorem run_exactly_once (hs : p.lastProcessesBlock ≠ 0) (hpos : p.PositiveRange)
    (htx : p.handlerChannels.get a = some tx) (h : Run (Step (Undisturbed chain)) ⟨p, .idle⟩ ls s) :
    chain.eventsOf a p.lastProcessesBlock.toNat s.poller.lastProcessesBlock.toNat <+:
        sentOn tx (answers ls) ∧
      sentOn tx (answers ls) <+: chain.stream a p.lastProcessesBlock.toNat := by
  have hinv := LoopInv.run Undisturbed.environment hs h
  obtain ⟨u, hu, hcursor, hexact⟩ := h.invariant (P := ExactInv chain p a tx)
    ⟨[], rfl, le_rfl, by rw [chain.eventsOf_self]; rfl⟩
    fun hr ih hl => ih.step hpos htx (LoopInv.run Undisturbed.environment hs hr) hl
  rw [hu, sentOn_append, hexact, chain.stream_eq a hcursor]
  refine ⟨List.prefix_append _ _, (List.prefix_append_right_inj _).mpr ?_⟩
  cases hp : s.phase with
  | polling t q =>
    obtain ⟨hexec, hkept, -⟩ := hinv.poll t q hp
    obtain ⟨c, m, hw⟩ := hinv.wiring
    have hunwrapped : Kept (Unwrapped chain) s.poller t :=
      hkept.mono fun p t e he => ⟨he.1, he.2.2⟩
    simp only [answered, hp]
    exact poll_in_order hinv.cursor_ne (by rw [hw]; exact hpos) (by rw [hw]; exact htx) hunwrapped
      hexec
  | idle => simp [answered, hp, sentOn]
  | stopped r => simp [answered, hp, sentOn]

end PollerTask
end Challenger
