import Challenger.PollerQueries
import Challenger.PollerTask

/-! # A successful poll and its head

The cursor is the next block to scan, but a poll compares the head with it as
if it were the last one scanned: a head equal to the cursor is skipped, and
the poll returns `Ok` with that block not queried. Past the cursor a poll that
returns `Ok` leaves nothing behind, except for the last block a `u64` counts
(`ok_poll_leaves_nothing_iff`). -/
namespace Challenger
open Lib Lib.Async

namespace PollerTask
variable [ScribeAbi] {p p' : Poller} {ls : List PollerLabel} {s : PollerTask}
  {t : List PollI.Event} {latestBlock : UInt64}

omit [ScribeAbi] in
/-- The logs of an address in a block were fetched by a query of the run. -/
def Queried (ls : List PollerLabel) (a : Address) (b : Nat) : Prop :=
  ∃ f ∈ (answers ls).flatMap fetched, f.covers a b = true

/-- A scan that completes has fetched its whole window. -/
theorem fetched_of_scan (h : Returns (p.chunkAndPollLogs latestBlock) t (.ok ())) {a : Address}
    (ha : a ∈ p.addresses) {b : Nat} (hlo : p.lastProcessesBlock.toNat ≤ b)
    (hhi : b ≤ latestBlock.toNat) : ∃ f ∈ t.flatMap fetched, f.covers a b = true := by
  rcases Poller.chunkAndPollLogs_picks picksFilters_fetched h with
    ⟨-, hq, -⟩ | ⟨rs, hrs, -, hok⟩
  · cases hq
  · obtain ⟨r, hr, hb⟩ := Poller.ranges_cover hrs hlo hhi
    rw [← flatten_chunks maxAddressPerRequest p.addresses] at ha
    obtain ⟨chunk, hchunk, hac⟩ := List.mem_flatten.mp ha
    rw [hok rfl]
    exact ⟨_, Poller.mem_plannedFilters.mpr ⟨chunk, hchunk, r, hr, rfl⟩, decide_eq_true ⟨hac, hb⟩⟩

/-- What a poll that read a head and returned `Ok` has done. -/
theorem okPoll_cases (h : Returns p.pollForNewEvents t (.ok (), p'))
    (hhead : Poller.headRead t = some latestBlock) :
    (latestBlock ≤ (p.firstRun latestBlock).lastProcessesBlock ∧ p' = p.firstRun latestBlock) ∨
      ¬ latestBlock ≤ (p.firstRun latestBlock).lastProcessesBlock ∧
        p' = { p.firstRun latestBlock with lastProcessesBlock := latestBlock + 1 } ∧
        ∃ u, Returns ((p.firstRun latestBlock).chunkAndPollLogs latestBlock) u (.ok ()) ∧
          u.flatMap fetched = t.flatMap fetched := by
  cases Poller.pollForNewEvents_cases h with
  | skip n hle => cases hhead; exact .inl ⟨hle, rfl⟩
  | scan n hlt hscan =>
    cases hhead
    cases hscan with
    | running _ hq => exact absurd rfl (hq _)
    | @scanned u hu => exact .inr ⟨hlt, rfl, u, hu, by simp [fetched]⟩

/-- **When a successful poll leaves nothing behind its head.** In every
reachable state in which a poll that read the head `latestBlock`, at or past
the block it scans from, has returned `Ok`: every block in between was fetched
for every address and the cursor is past the head, if and only if the head is
past that block, and not the last one there is. -/
theorem ok_poll_leaves_nothing_iff (h : Run (Takes PollerTask.step) ⟨p, .idle⟩ ls s)
    (hp : s.phase = .polling t (.done (.ok (), p')))
    (hhead : Poller.headRead t = some latestBlock)
    (hle : (s.poller.firstRun latestBlock).lastProcessesBlock ≤ latestBlock) :
    ((∀ a ∈ p.addresses, ∀ b, (s.poller.firstRun latestBlock).lastProcessesBlock.toNat ≤ b →
        b ≤ latestBlock.toNat → Queried ls a b) ∧
      latestBlock.toNat < p'.lastProcessesBlock.toNat) ↔
    (s.poller.firstRun latestBlock).lastProcessesBlock < latestBlock ∧
      latestBlock.toNat + 1 < 2 ^ 64 := by
  have htask := TaskInv.run h
  obtain ⟨hexec, u, hu⟩ := htask.poll _ _ hp
  obtain ⟨cursor, retryCount, hwiring⟩ := htask.wiring
  rw [UInt64.lt_iff_toNat_lt]
  rw [UInt64.le_iff_toNat_le] at hle
  rcases okPoll_cases hexec hhead with ⟨hskip, rfl⟩ | ⟨hscan, rfl, v, hv, hfetched⟩
  · -- the head is the block to scan from: the poll found nothing to do
    rw [UInt64.le_iff_toNat_le] at hskip
    constructor
    · rintro ⟨-, hcur⟩; omega
    · rintro ⟨hlt, -⟩; omega
  · rw [UInt64.le_iff_toNat_le] at hscan
    constructor
    · rintro ⟨-, hcur⟩
      have hsucc : (latestBlock + 1).toNat = (latestBlock.toNat + 1) % 2 ^ 64 := by
        rw [UInt64.toNat_add, UInt64.toNat_one]
      have hlt := latestBlock.toNat_lt
      have hcur : latestBlock.toNat < (latestBlock + 1).toNat := hcur
      omega
    · rintro ⟨-, hroom⟩
      refine ⟨?_, ?_⟩
      · intro a ha b hlo hhi
        have ha' : a ∈ (s.poller.firstRun latestBlock).addresses := by
          rw [firstRun_moved, hwiring]; exact ha
        obtain ⟨f, hf, hcov⟩ := fetched_of_scan hv ha' hlo hhi
        refine ⟨f, ?_, hcov⟩
        rw [hu, List.flatMap_append, ← hfetched]
        exact List.mem_append_right _ hf
      · show latestBlock.toNat < (latestBlock + 1).toNat
        rw [toNat_succ_of_lt hroom]
        omega

omit [ScribeAbi] in
/-- The poll under way has read the head `latestBlock`, from the cursor
`before`, and returned `Ok` with the cursor `after`. -/
def okPollTest (latestBlock before after : UInt64) (s : PollerTask) : Bool :=
  match s.phase with
  | .polling t (.done (.ok (), p')) => Poller.headRead t == some latestBlock &&
      s.poller.lastProcessesBlock == before && p'.lastProcessesBlock == after
  | _ => false

omit [ScribeAbi] in
theorem of_okPollTest {before after : UInt64} (h : okPollTest latestBlock before after s = true) :
    ∃ t p', s.phase = .polling t (.done (.ok (), p')) ∧ Poller.headRead t = some latestBlock ∧
      s.poller.lastProcessesBlock = before ∧ p'.lastProcessesBlock = after := by
  unfold okPollTest at h
  split at h
  · simp only [Bool.and_eq_true, beq_iff_eq] at h
    exact ⟨_, _, ‹_›, h.1.1, h.1.2, h.2⟩
  · cases h

/-- A poll of the sample chain that starts at block 9 and reads the head 11. -/
def sampleOkPoll : List PollerLabel := .tick :: Poller.sampleTrace.map .answer

omit [ScribeAbi] in
theorem ok_poll_leaves_nothing_iff_sample : ∃ s,
    Run (Takes (@PollerTask.step sampleAbi)) ⟨samplePoller 9 (some 2), .idle⟩ sampleOkPoll s ∧
      ∀ b, 9 ≤ b → b ≤ 11 → Queried sampleOkPoll sampleAddress b := by
  obtain ⟨s, hrun, htest⟩ : ∃ s, Run (Takes (@PollerTask.step sampleAbi))
      ⟨samplePoller 9 (some 2), .idle⟩ sampleOkPoll s ∧ okPollTest 11 9 12 s = true :=
    exists_run_of_runSteps (okPollTest 11 9 12) (by decide +kernel)
  obtain ⟨t, p', hp, hhead, hbefore, -⟩ := of_okPollTest htest
  have hs : (s.poller.firstRun 11).lastProcessesBlock = 9 := by
    rw [Poller.firstRun_of_ne (by rw [hbefore]; decide), hbefore]
  refine ⟨s, hrun, ?_⟩
  have hiff := @ok_poll_leaves_nothing_iff sampleAbi _ _ _ _ _ _ hrun hp hhead
    (by rw [hs]; decide)
  rw [hs] at hiff
  exact (hiff.mpr ⟨by decide, by decide⟩).1 sampleAddress List.mem_cons_self

/-- After it the head moves on by one block. -/
def sampleNextHead : List PollerLabel :=
  sampleOkPoll ++ [.polled (.ok ()), .tick, .answer ⟨.getBlockNumber, .ok 12⟩]

omit [ScribeAbi] in
/-- The head is the block to scan next: the poll returns `Ok`, and the block
was not queried. -/
theorem next_head_skipped : ∃ s t p',
    Run (Takes (@PollerTask.step sampleAbi)) ⟨samplePoller 9 (some 2), .idle⟩ sampleNextHead s ∧
      s.phase = .polling t (.done (.ok (), p')) ∧ Poller.headRead t = some 12 ∧
      s.poller.lastProcessesBlock = 12 ∧ p'.lastProcessesBlock = 12 ∧
      ¬ Queried sampleNextHead sampleAddress 12 := by
  obtain ⟨s, hrun, htest⟩ : ∃ s, Run (Takes (@PollerTask.step sampleAbi))
      ⟨samplePoller 9 (some 2), .idle⟩ sampleNextHead s ∧ okPollTest 12 12 12 s = true :=
    exists_run_of_runSteps (okPollTest 12 12 12) (by decide +kernel)
  obtain ⟨t, p', hp, hhead, hbefore, hafter⟩ := of_okPollTest htest
  refine ⟨s, t, p', hrun, hp, hhead, hbefore, hafter, ?_⟩
  rintro ⟨f, hf, hcov⟩
  have hfetched : (answers sampleNextHead).flatMap fetched =
      [Poller.queryFilter [sampleAddress] 9 10, Poller.queryFilter [sampleAddress] 11 11] := rfl
  rw [hfetched] at hf
  simp only [List.mem_cons, List.not_mem_nil, or_false] at hf
  rcases hf with rfl | rfl
  · exact absurd (of_decide_eq_true hcov).2.2 (by decide)
  · exact absurd (of_decide_eq_true hcov).2.2 (by decide)

end PollerTask
end Challenger
