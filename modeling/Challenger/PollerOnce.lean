import Challenger.PollerTask

/-! # When a log is sent only once

A poll that fails after it has sent something is retried from its old cursor,
and sends the same logs again (`start_sends_twice`). This and wrap-around are
the only ways: in runs where a call fails only before its poll has sent
anything, and where no addition wraps, no log is sent twice to its address
(`start_sends_once`). -/
namespace Challenger
open Lib Lib.Async

/-- The block of an event as a natural. -/
def Event.block (event : Event) : Nat := (event.position.1.getD 0).toNat

section
variable [ScribeAbi]

theorem accepted_position {a : Address} {log : Log LogData} {event : Event}
    (h : accepted a log = some event) : event.position = log.position := by
  unfold accepted at h
  split at h
  · cases hev : Event.tryFrom log with
    | error e => rw [hev] at h; cases h
    | ok ev =>
      rw [hev] at h
      rw [← Option.some.inj h]
      exact Event.tryFrom_position hev
  · cases h

theorem accepted_block {a : Address} {log : Log LogData} {event : Event}
    (h : accepted a log = some event) : event.block = log.block := by
  unfold Event.block
  rw [accepted_position h]
  rfl

omit [ScribeAbi] in
/-- No two logs of a chain are at the same place. -/
theorem Chain.position_ne (chain : Chain) :
    chain.logs.Pairwise fun x y => x.position ≠ y.position := by
  refine chain.ordered.imp fun {x y} h he => ?_
  have hblock : x.block = y.block := congrArg (fun q => (q.1.getD 0).toNat) he
  have hindex : x.index = y.index := congrArg (fun q => (q.2.getD 0).toNat) he
  omega

/-- The plain query returns events at different places, in the blocks asked
for. -/
theorem Chain.eventsOf_positions (chain : Chain) (a : Address) (lo hi : Nat) :
    ((chain.eventsOf a lo hi).map Event.position).Nodup ∧
      ∀ event ∈ chain.eventsOf a lo hi, lo ≤ event.block ∧ event.block < hi := by
  refine ⟨?_, ?_⟩
  · rw [chain.eventsOf_eq, List.Nodup, List.pairwise_map, List.pairwise_filterMap]
    refine (chain.position_ne.filter _).imp fun {x y} hne ev hx ev' hy => ?_
    rw [accepted_position hx, accepted_position hy]
    exact hne
  · intro event he
    obtain ⟨log, -, hb, hacc⟩ := Chain.mem_eventsOf.mp he
    rw [accepted_block hacc]
    exact hb

namespace PollerTask
variable {chain : Chain} {p : Poller} {ls : List PollerLabel} {s s' : PollerTask} {a : Address}
  {tx : Sender}

/-- The environment answers from the chain, no call fails once its poll has
sent something, and no addition of a scan wraps. -/
def Undisturbed (chain : Chain) : PollEnv := fun p t e =>
  Honest chain e ∧ (Poller.QueryFailed e → t.flatMap sent = []) ∧
    ∀ latestBlock, e = ⟨.getBlockNumber, .ok latestBlock⟩ →
      ¬ latestBlock ≤ p.lastProcessesBlock → p.NoWrap latestBlock

omit [ScribeAbi] in
theorem Undisturbed.environment (p : Poller) (t : List PollI.Event) (e : PollI.Event)
    (h : Undisturbed chain p t e) : Environment chain p t e := by
  refine ⟨h.1, ?_⟩
  unfold HeadRoom
  split
  · exact fun hlt => (h.2.2 _ rfl hlt).succ
  · trivial

omit [ScribeAbi] in
theorem Kept.noWrap {t : List PollI.Event} (h : Kept (Undisturbed chain) p t) {latestBlock : UInt64}
    (hh : Poller.headRead t = some latestBlock) :
    ¬ latestBlock ≤ p.lastProcessesBlock → p.NoWrap latestBlock := by
  obtain ⟨u, v, rfl⟩ := List.append_of_mem (Poller.mem_of_headRead hh)
  exact (h u _ v rfl).2.2 _ rfl

/-! ## One poll -/

/-- What a poll under way has sent to an address is a part of the plain query
from the cursor on. -/
theorem poll_sends {t : List PollI.Event} {q} (hs : p.lastProcessesBlock ≠ 0)
    (hpos : p.PositiveRange) (htx : p.handlerChannels.get a = some tx)
    (ht : Kept (Undisturbed chain) p t) (h : Exec p.pollForNewEvents t q) :
    ∃ hi, sentOn tx t <+: chain.eventsOf a p.lastProcessesBlock.toNat hi := by
  have hhon := ht.honest fun _ _ _ he => he.1
  rcases Poller.pollForNewEvents_exec hs hhon h with hnil | ⟨latestBlock, rs, hh, hlt, hrs, hpre⟩
  · exact ⟨0, by rw [sentOn, hnil]; exact List.nil_prefix⟩
  · have htiles := Poller.ranges_tiles hrs (by
      rw [UInt64.le_iff_toNat_le] at hlt ⊢; omega) hpos (ht.noWrap hh hlt)
    exact ⟨_, Poller.plannedSends_on htx htiles ▸ hpre.filterMap _⟩

/-- A poll that failed has sent nothing. -/
theorem failed_poll_sends_nothing {t : List PollI.Event} {e : PollerError} {p' : Poller}
    (hs : p.lastProcessesBlock ≠ 0) (ht : Kept (Undisturbed chain) p t)
    (h : Returns p.pollForNewEvents t (.error e, p')) : sentOn tx t = [] := by
  obtain ⟨-, u, x, rfl, hx⟩ := Poller.pollForNewEvents_error hs h
  have hu := (ht u x [] rfl).2.1 hx
  have hx : sent x = [] := by
    unfold Poller.QueryFailed at hx
    split at hx
    · rfl
    · rfl
    · cases hx
  rw [sentOn, List.flatMap_append, hu, List.flatMap_singleton, hx]
  rfl

/-! ## Runs -/

/-- The answers the poll under way has got. -/
def answered (s : PollerTask) : List PollI.Event :=
  match s.phase with
  | .polling t _ => t
  | _ => []

/-- Different places, all in blocks below the cursor. -/
structure Settled (tx : Sender) (cursor : Nat) (u : List PollI.Event) : Prop where
  nodup : ((sentOn tx u).map Event.position).Nodup
  lt : ∀ event ∈ sentOn tx u, event.block < cursor

/-- Sends from the cursor on do not repeat what was sent below it. -/
theorem Settled.append {u t : List PollI.Event} {lo hi : Nat} (h : Settled tx lo u)
    (ht : sentOn tx t <+: chain.eventsOf a lo hi) :
    ((sentOn tx (u ++ t)).map Event.position).Nodup := by
  obtain ⟨hnodup, hmem⟩ := chain.eventsOf_positions a lo hi
  rw [sentOn_append, List.map_append, List.nodup_append]
  refine ⟨h.nodup, hnodup.sublist (ht.sublist.map _), ?_⟩
  simp only [List.mem_map]
  rintro _ ⟨x, hx, rfl⟩ _ ⟨y, hy, rfl⟩ he
  have hlt := h.lt x hx
  have hge := (hmem y (ht.subset hy)).1
  have hb : x.block = y.block := congrArg (fun q => (q.1.getD 0).toNat) he
  omega

omit [ScribeAbi] in
theorem Settled.of_sentOn_nil {u t : List PollI.Event} {cursor : Nat} (h : Settled tx cursor u)
    (ht : sentOn tx t = []) : Settled tx cursor (u ++ t) := by
  constructor <;> rw [sentOn_append, ht, List.append_nil]
  · exact h.nodup
  · exact h.lt

/-- Before the poll under way everything is settled. -/
def OnceInv (tx : Sender) (ls : List PollerLabel) (s : PollerTask) : Prop :=
  ∃ u, answers ls = u ++ s.answered ∧ Settled tx s.poller.lastProcessesBlock.toNat u

omit [ScribeAbi] in
theorem afterPoll_answered (p : Poller) (r : Except PollerError Unit) :
    (afterPoll p r).answered = [] := by
  unfold answered
  split
  · exact absurd ‹_› ((afterPoll_poller p r).2 _ _)
  · rfl

theorem OnceInv.step {l : PollerLabel} (hpos : p.PositiveRange)
    (htx : p.handlerChannels.get a = some tx) (hinv : LoopInv (Undisturbed chain) p ls s)
    (h : OnceInv tx ls s) (hl : Step (Undisturbed chain) s l s') : OnceInv tx (ls ++ [l]) s' := by
  obtain ⟨u, hu, hset⟩ := h
  cases step_cases hl.1 with
  | cancelled hp =>
    simp only [answered, hp] at hu
    exact ⟨u, by rw [answers_append, hu, List.append_assoc]; rfl, hset⟩
  | tick hp =>
    simp only [answered, hp] at hu
    exact ⟨u, by rw [answers_append, hu, List.append_assoc]; rfl, hset⟩
  | answer hp hq =>
    simp only [answered, hp] at hu
    exact ⟨u, by rw [answers_append, hu]; exact List.append_assoc .., hset⟩
  | @polled t r p' hp =>
    obtain ⟨hexec, hkept, -⟩ := hinv.poll _ _ hp
    obtain ⟨⟨n, hn⟩, -⟩ := afterPoll_poller p' r
    obtain ⟨c, m, hw⟩ := hinv.wiring
    simp only [answered, hp] at hu
    refine ⟨u ++ t, by rw [answers_append, hu, afterPoll_answered]; rfl, ?_⟩
    rw [hn]
    cases r with
    | error e =>
      rw [(Poller.pollForNewEvents_error hinv.cursor_ne hexec).1]
      exact hset.of_sentOn_nil (failed_poll_sends_nothing hinv.cursor_ne hkept hexec)
    | ok _ =>
      obtain ⟨latestBlock, -, rfl, hle, hsent⟩ := Poller.pollForNewEvents_delivers hinv.cursor_ne
        (by rw [hw]; exact hpos) (hkept.honest fun _ _ _ he => he.1)
        (fun _ hh => hkept.noWrap hh) hexec
      have hsent := hsent a tx (by rw [hw]; exact htx)
      refine ⟨hset.append ⟨[], (List.append_nil _).trans hsent⟩, ?_⟩
      intro event he
      rw [sentOn_append, List.mem_append] at he
      rcases he with he | he
      · exact (hset.lt event he).trans_le hle
      · rw [hsent] at he
        exact ((chain.eventsOf_positions _ _ _).2 event he).2

/-- **Each log is sent once**, in every run in which no call fails once its
poll has sent something and no addition wraps: no two events sent to an
address are at the same place of the chain. -/
theorem start_sends_once (hs : p.lastProcessesBlock ≠ 0) (hpos : p.PositiveRange)
    (htx : p.handlerChannels.get a = some tx)
    (h : Run (Step (Undisturbed chain)) ⟨p, .idle⟩ ls s) :
    ((sentOn tx (answers ls)).map Event.position).Nodup := by
  have hinv := LoopInv.run Undisturbed.environment hs h
  obtain ⟨u, hu, hset⟩ := h.invariant (P := OnceInv tx)
    ⟨[], rfl, List.nodup_nil, fun _ h => absurd h List.not_mem_nil⟩
    fun hr ih hl => ih.step hpos htx (LoopInv.run Undisturbed.environment hs hr) hl
  rw [hu]
  cases hp : s.phase with
  | polling t q =>
    obtain ⟨hexec, hkept, -⟩ := hinv.poll t q hp
    obtain ⟨c, m, hw⟩ := hinv.wiring
    obtain ⟨hi, hpre⟩ := poll_sends hinv.cursor_ne (by rw [hw]; exact hpos)
      (by rw [hw]; exact htx) hkept hexec
    simp only [answered, hp]
    exact hset.append hpre
  | idle => simpa [answered, hp] using hset.nodup
  | stopped r => simpa [answered, hp] using hset.nodup

/-! ## Sample runs -/

omit [ScribeAbi] in
/-- The failed sample poll and its retry both send the first two logs. -/
theorem start_sends_twice : (samplePoller 9 (some 2)).handlerChannels.get sampleAddress = some ⟨0⟩ ∧
    (∃ s, Run (@Step sampleAbi (Environment sampleChain)) ⟨samplePoller 9 (some 2), .idle⟩
      sampleRetry s) ∧
    ¬ ((sentOn ⟨0⟩ (answers sampleRetry)).map Event.position).Nodup := by
  obtain ⟨s, hrun, -⟩ := run_sampleRetry
  exact ⟨by decide, ⟨s, hrun⟩, by decide⟩

/-- A test of an answer that suffices for `Undisturbed`, when the answer is
honest. -/
def undisturbedTest (p : Poller) (t : List PollI.Event) : PollI.Event → Bool
  | ⟨.getLogs _, .error _⟩ => (t.flatMap sent).isEmpty
  | ⟨.getBlockNumber, .error _⟩ => (t.flatMap sent).isEmpty
  | ⟨.getBlockNumber, .ok latestBlock⟩ =>
    decide (latestBlock.toNat + 1 < 2 ^ 64) &&
      p.maxBlockRange.all fun k => latestBlock.toNat + k.toNat ≤ 2 ^ 64
  | _ => true

/-- The test on the answers of a run. -/
def undisturbedStep (s : PollerTask) (l : PollerLabel) : Bool :=
  match l, s.phase with
  | .answer e, .polling t _ => undisturbedTest s.poller t e
  | _, _ => true

omit [ScribeAbi] in
theorem undisturbed_of_test {t : List PollI.Event} {e : PollI.Event} (he : Honest chain e)
    (h : undisturbedTest p t e = true) : Undisturbed chain p t e := by
  refine ⟨he, ?_, ?_⟩
  · intro hf
    unfold Poller.QueryFailed at hf
    split at hf
    · exact List.isEmpty_iff.mp h
    · exact List.isEmpty_iff.mp h
    · cases hf
  · intro latestBlock hb _
    subst hb
    obtain ⟨hroom, hk⟩ := Bool.and_eq_true_iff.mp h
    refine .of_lt (of_decide_eq_true hroom) ?_
    intro k hpk
    rw [hpk] at hk
    exact of_decide_eq_true hk

/-- A run whose first poll fails on the head. -/
def sampleHeadRetry : List PollerLabel :=
  [.tick, .answer ⟨.getBlockNumber, .error (.rpcError ⟨"timeout"⟩)⟩,
    .polled (.error (.providerError (.rpcError ⟨"timeout"⟩))),
    .tick] ++ Poller.sampleTrace.map .answer ++ [.polled (.ok ())]

omit [ScribeAbi] in
theorem honest_sampleHeadRetry : ∀ e ∈ answers sampleHeadRetry, Honest sampleChain e := by
  have hanswers : answers sampleHeadRetry =
      ⟨.getBlockNumber, .error (.rpcError ⟨"timeout"⟩)⟩ :: Poller.sampleTrace := rfl
  rw [hanswers, List.forall_mem_cons]
  exact ⟨trivial, Poller.honest_sampleTrace⟩

omit [ScribeAbi] in
theorem start_sends_once_sample : ∃ s, Run (@Step sampleAbi (Undisturbed sampleChain))
    ⟨samplePoller 9 (some 2), .idle⟩ sampleHeadRetry s ∧
      ((sentOn ⟨0⟩ (answers sampleHeadRetry)).map Event.position).Nodup := by
  let _ := sampleAbi
  obtain ⟨s, hrun, -⟩ : ∃ s, Run (Guarded (Takes step) fun s l => undisturbedStep s l = true)
      ⟨samplePoller 9 (some 2), .idle⟩ sampleHeadRetry s ∧ true = true :=
    exists_run_of_runGuarded (fun _ => true) (by decide +kernel)
  have htest : ∀ s l, undisturbedStep s l = true → ∀ e t q, l = .answer e →
      s.phase = .polling t q → undisturbedTest s.poller t e = true := by
    rintro s l h e t q rfl hp
    simp only [undisturbedStep, hp] at h
    exact h
  have hrun := hrun.guarded (G := fun _ l => ∀ e, l = .answer e → Honest sampleChain e)
    fun l hl _ e he => honest_sampleHeadRetry e (List.mem_filterMap.mpr ⟨l, hl, by rw [he]⟩)
  have hrun : Run (Step (Undisturbed sampleChain)) ⟨samplePoller 9 (some 2), .idle⟩
      sampleHeadRetry s := hrun.mono fun s l s' hl => ⟨hl.1.1, fun e t q he hp =>
    undisturbed_of_test (hl.2 e he) (htest s l hl.1.2 e t q he hp)⟩
  have htx : (samplePoller 9 (some 2)).handlerChannels.get sampleAddress = some ⟨0⟩ := by decide
  exact ⟨s, hrun, start_sends_once (by decide) (fun h => by cases h) htx hrun⟩

end PollerTask
end
end Challenger
