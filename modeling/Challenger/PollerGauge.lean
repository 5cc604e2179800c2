import Challenger.Lib.Binary64
import Challenger.PollerOnce
import Challenger.PollerStart

/-! # The gauge of the last scanned block

The gauge is what an operator sees of the poller. A poll sets it once, at the
end of its scan and before the cursor moves, to the head as an `f64`. As long
as the heads are numbers that an `f64` holds, what it shows is a head that was
read, it never goes back, it never tells of a block whose events have not been
sent, and between two polls the cursor is one past it (`gauge_tells`). -/
namespace Challenger
open Lib Lib.Async
open Lib.Binary64 (value value_ofInt64)

/-! ## The gauge -/

/-- What `set_last_scanned_block` sets: the label `from`, and the block as an
`f64`. -/
def setLastScannedBlock (signer : Address) (block : Int64) : Address × Float.Model :=
  (signer, .ofInt64 block)

/-- What an answer sets the gauge to. -/
def gaugeSet : PollI.Event → List (Address × Float.Model)
  | ⟨.setLastScannedBlock signer block, _⟩ => [setLastScannedBlock signer block]
  | _ => []

/-- The gauge of each label after these answers: what it was last set to. -/
def gaugeAfter (t : List PollI.Event) : Address → Option Float.Model :=
  (t.flatMap gaugeSet).foldl (fun gauge set => Function.update gauge set.1 (some set.2))
    fun _ => none

theorem gaugeAfter_self {t : List PollI.Event} {signer : Address} {fs : List Float.Model}
    (h : t.flatMap gaugeSet = fs.map (Prod.mk signer)) : gaugeAfter t signer = fs.getLast? := by
  rw [gaugeAfter, h]
  induction fs using List.reverseRecOn with
  | nil => rfl
  | append_singleton fs f _ => simp

/-- A block that an `f64` holds is what the gauge shows. -/
theorem value_block {signer : Address} {block : UInt64} (h : block.toNat < 2 ^ 53) :
    value (setLastScannedBlock signer block.toInt64).2 = some (block.toNat : ℚ) := by
  have hint : block.toInt64.toInt = block.toNat :=
    BitVec.toInt_eq_toNat_of_lt (x := block.toBitVec) (by simp only [UInt64.toNat_toBitVec]; omega)
  have hvalue := value_ofInt64 (n := block.toInt64) (by omega)
  rw [hint] at hvalue
  exact hvalue

theorem flatMap_gaugeSet {t : List PollI.Event} (h : t.flatMap reportOf = []) :
    t.flatMap gaugeSet = [] := by
  refine List.flatMap_eq_nil_iff.mpr ?_
  intro e he
  have hnone := List.flatMap_eq_nil_iff.mp h e he
  obtain ⟨op, r⟩ := e
  cases op with
  | setLastScannedBlock signer block => cases hnone
  | _ => rfl

variable [ScribeAbi] {chain : Chain} {p : Poller} {t u : List PollI.Event}

/-- A poll sets the gauge once, to the head up to which it has scanned, or it
leaves the cursor where it was. -/
theorem Poller.poll_sets (hs : p.lastProcessesBlock ≠ 0) {q} (h : Exec p.pollForNewEvents t q) :
    (t.flatMap gaugeSet = [] ∧ ∀ r p', q = .done (r, p') → p' = p) ∨
      ∃ latestBlock, headRead t = some latestBlock ∧ ¬ latestBlock ≤ p.lastProcessesBlock ∧
        t.flatMap gaugeSet = [setLastScannedBlock p.fromAddress latestBlock.toInt64] ∧
        q = .done (.ok (), { p with lastProcessesBlock := latestBlock + 1 }) := by
  cases pollForNewEvents_cases h with
  | start => exact .inl ⟨rfl, fun r p' hq => absurd hq await_ne_done⟩
  | noHead e => exact .inl ⟨rfl, fun r p' hq => by cases hq; rfl⟩
  | skip latestBlock _ =>
    rw [firstRun_of_ne hs]
    exact .inl ⟨rfl, fun r p' hq => by cases hq; rfl⟩
  | scan latestBlock hlt hscan =>
    rw [firstRun_of_ne hs] at hlt hscan
    cases hscan with
    | running hu hq =>
      refine .inl ⟨?_, fun r p' hdone => absurd hdone (hq _)⟩
      exact flatMap_gaugeSet (chunkAndPollLogs_shows hu).2
    | failed hu =>
      refine .inl ⟨?_, fun r p' hq => by cases hq; rfl⟩
      exact flatMap_gaugeSet (chunkAndPollLogs_shows hu).2
    | scanned hu =>
      have hsets := flatMap_gaugeSet (chunkAndPollLogs_shows hu).2
      refine .inr ⟨latestBlock, rfl, hlt, ?_, rfl⟩
      simp [gaugeSet, hsets]

namespace PollerTask
variable {ls : List PollerLabel} {s s' : PollerTask} {cursor : UInt64} {scans : List UInt64}

/-- The environment answers from the chain, with heads that an `f64` holds. -/
def ExactHeads (chain : Chain) : PollEnv := fun p _ e => Honest chain e ∧
  ∀ latestBlock ∈ headOf e, ¬ latestBlock ≤ p.lastProcessesBlock → latestBlock.toNat < 2 ^ 53

omit [ScribeAbi] in
theorem ExactHeads.environment (p : Poller) (t : List PollI.Event) (e : PollI.Event)
    (h : ExactHeads chain p t e) : Environment chain p t e := by
  refine ⟨h.1, ?_⟩
  unfold HeadRoom
  split
  · rename_i latestBlock
    intro hlt
    have hexact := h.2 latestBlock List.mem_cons_self hlt
    omega
  · trivial

omit [ScribeAbi] in
theorem Kept.exactHead (h : Kept (ExactHeads chain) p t) {latestBlock : UInt64}
    (hh : Poller.headRead t = some latestBlock) (hlt : ¬ latestBlock ≤ p.lastProcessesBlock) :
    latestBlock.toNat < 2 ^ 53 := by
  obtain ⟨u, v, rfl⟩ := List.append_of_mem (Poller.mem_of_headRead hh)
  exact (h u _ v rfl).2 latestBlock List.mem_cons_self hlt

/-- The blocks that the gauge was set to by these answers, and the cursor after
them. -/
structure GaugeInv (p : Poller) (u : List PollI.Event) (cursor : UInt64) (scans : List UInt64) :
    Prop where
  sets : u.flatMap gaugeSet = scans.map fun b => setLastScannedBlock p.fromAddress b.toInt64
  increasing : scans.Pairwise (· < ·)
  scanned : ∀ b ∈ scans, p.lastProcessesBlock < b ∧ b < cursor ∧ ⟨.getBlockNumber, .ok b⟩ ∈ u
  exact : ∀ b ∈ scans, b.toNat < 2 ^ 53
  cursor_eq : cursor = scans.getLast?.elim p.lastProcessesBlock (· + 1)

omit [ScribeAbi] in
theorem GaugeInv.unset (h : GaugeInv p u cursor scans) (ht : t.flatMap gaugeSet = []) :
    GaugeInv p (u ++ t) cursor scans where
  sets := by rw [List.flatMap_append, ht, List.append_nil, h.sets]
  increasing := h.increasing
  scanned b hb :=
    have hscanned := h.scanned b hb
    ⟨hscanned.1, hscanned.2.1, List.mem_append_left _ hscanned.2.2⟩
  exact := h.exact
  cursor_eq := h.cursor_eq

omit [ScribeAbi] in
theorem GaugeInv.set (h : GaugeInv p u cursor scans) (hcursor : p.lastProcessesBlock ≤ cursor)
    {latestBlock : UInt64} (hhead : Poller.headRead t = some latestBlock)
    (hlt : ¬ latestBlock ≤ cursor) (hexact : latestBlock.toNat < 2 ^ 53)
    (ht : t.flatMap gaugeSet = [setLastScannedBlock p.fromAddress latestBlock.toInt64]) :
    GaugeInv p (u ++ t) (latestBlock + 1) (scans ++ [latestBlock]) := by
  have hlt : cursor < latestBlock := UInt64.not_le.mp hlt
  have hnext : latestBlock < latestBlock + 1 := by
    rw [UInt64.lt_iff_toNat_lt, toNat_succ_of_lt (by omega)]
    omega
  constructor
  case sets => rw [List.flatMap_append, ht, h.sets, List.map_append]; rfl
  case increasing =>
    refine List.pairwise_append.mpr ⟨h.increasing, List.pairwise_singleton _ _, ?_⟩
    intro b hb b' hb'
    rw [List.mem_singleton.mp hb']
    exact UInt64.lt_trans (h.scanned b hb).2.1 hlt
  case scanned =>
    intro b hb
    rcases List.mem_append.mp hb with hb | hb
    · obtain ⟨hfirst, hbelow, hread⟩ := h.scanned b hb
      have hlater := UInt64.lt_trans (UInt64.lt_trans hbelow hlt) hnext
      exact ⟨hfirst, hlater, List.mem_append_left _ hread⟩
    · rw [List.mem_singleton.mp hb]
      exact ⟨UInt64.lt_of_le_of_lt hcursor hlt, hnext,
        List.mem_append_right _ (Poller.mem_of_headRead hhead)⟩
  case exact =>
    intro b hb
    rcases List.mem_append.mp hb with hb | hb
    · exact h.exact b hb
    · rw [List.mem_singleton.mp hb]
      exact hexact
  case cursor_eq => simp

theorem GaugeInv.step {l : PollerLabel} (hinv : LoopInv (ExactHeads chain) p ls s)
    (hcursor : p.lastProcessesBlock.toNat ≤ s.poller.lastProcessesBlock.toNat)
    (h : ∃ u scans, answers ls = u ++ s.answered ∧
      GaugeInv p u s.poller.lastProcessesBlock scans)
    (hl : Step (ExactHeads chain) s l s') :
    ∃ u scans, answers (ls ++ [l]) = u ++ s'.answered ∧
      GaugeInv p u s'.poller.lastProcessesBlock scans := by
  obtain ⟨u, scans, hu, hgauge⟩ := h
  cases step_cases hl.1 with
  | cancelled hp =>
    simp only [answered, hp] at hu
    exact ⟨u, scans, by rw [answers_append, hu, List.append_assoc]; rfl, hgauge⟩
  | tick hp =>
    simp only [answered, hp] at hu
    exact ⟨u, scans, by rw [answers_append, hu, List.append_assoc]; rfl, hgauge⟩
  | answer hp hq =>
    simp only [answered, hp] at hu
    exact ⟨u, scans, by rw [answers_append, hu]; exact List.append_assoc .., hgauge⟩
  | @polled t r p' hp =>
    obtain ⟨hexec, hkept, -⟩ := hinv.poll _ _ hp
    obtain ⟨⟨n, hn⟩, -⟩ := afterPoll_poller p' r
    simp only [answered, hp] at hu
    have hanswers : answers (ls ++ [.polled r]) = u ++ t ++ (afterPoll p' r).answered := by
      rw [answers_append, hu, afterPoll_answered]
      rfl
    rw [hn]
    rcases Poller.poll_sets hinv.cursor_ne hexec with ⟨hnone, hsame⟩ |
      ⟨latestBlock, hhead, hlt, hset, hdone⟩
    · obtain rfl := hsame r p' rfl
      exact ⟨u ++ t, scans, hanswers, hgauge.unset hnone⟩
    · cases hdone
      obtain ⟨c, m, hw⟩ := hinv.wiring
      have hfrom : s.poller.fromAddress = p.fromAddress := by rw [hw]; rfl
      rw [hfrom] at hset
      exact ⟨u ++ t, scans ++ [latestBlock], hanswers, hgauge.set
        (UInt64.le_iff_toNat_le.mpr hcursor) hhead hlt (hkept.exactHead hhead hlt) hset⟩

/-- What the gauge tells, when these heads have been scanned. -/
structure GaugeTells (chain : Chain) (p : Poller) (ls : List PollerLabel) (s : PollerTask)
    (scans : List UInt64) : Prop where
  values : ((answers ls).flatMap gaugeSet).map (fun set => (set.1, value set.2)) =
    scans.map fun b => (p.fromAddress, some (b.toNat : ℚ))
  shown : (gaugeAfter (answers ls) p.fromAddress).bind value =
    scans.getLast?.map fun b => (b.toNat : ℚ)
  increasing : scans.Pairwise (· < ·)
  heads : ∀ b ∈ scans, p.lastProcessesBlock < b ∧ ⟨.getBlockNumber, .ok b⟩ ∈ answers ls
  covered : ∀ b ∈ scans, ∀ a tx, p.handlerChannels.get a = some tx → ∀ event ∈
    chain.eventsOf a p.lastProcessesBlock.toNat (b.toNat + 1), event ∈ sentOn tx (answers ls)
  cursor : (∀ t q, s.phase ≠ .polling t q) →
    s.poller.lastProcessesBlock = scans.getLast?.elim p.lastProcessesBlock (· + 1)

/-- Every block that the gauge was set to is below the cursor, so what has been
sent below the cursor covers it. -/
theorem GaugeInv.covered (h : GaugeInv p u cursor scans)
    (hsent : ∀ a tx, p.handlerChannels.get a = some tx → ∀ event ∈
      chain.eventsOf a p.lastProcessesBlock.toNat cursor.toNat, event ∈ sentOn tx t) :
    ∀ b ∈ scans, ∀ a tx, p.handlerChannels.get a = some tx → ∀ event ∈
      chain.eventsOf a p.lastProcessesBlock.toNat (b.toNat + 1), event ∈ sentOn tx t := by
  intro b hb a tx htx event he
  obtain ⟨log, hlog, ⟨hlo, hhi⟩, haccepted⟩ := Chain.mem_eventsOf.mp he
  have hlt := UInt64.lt_iff_toNat_lt.mp (h.scanned b hb).2.1
  exact hsent a tx htx event (Chain.mem_eventsOf.mpr ⟨log, hlog, ⟨hlo, by omega⟩, haccepted⟩)

theorem GaugeInv.tells (h : GaugeInv p (answers ls) cursor scans)
    (hsent : ∀ a tx, p.handlerChannels.get a = some tx → ∀ event ∈
      chain.eventsOf a p.lastProcessesBlock.toNat cursor.toNat, event ∈ sentOn tx (answers ls))
    (hcursor : (∀ t q, s.phase ≠ .polling t q) → s.poller.lastProcessesBlock = cursor) :
    GaugeTells chain p ls s scans where
  values := by
    rw [h.sets, List.map_map]
    refine List.map_congr_left ?_
    intro b hb
    exact congrArg (Prod.mk _) (value_block (h.exact b hb))
  shown := by
    have hsets : (answers ls).flatMap gaugeSet =
        (scans.map fun b => Float.Model.ofInt64 b.toInt64).map (Prod.mk p.fromAddress) := by
      rw [h.sets, List.map_map]
      rfl
    rw [gaugeAfter_self hsets, List.getLast?_map]
    cases hlast : scans.getLast? with
    | none => rfl
    | some b => exact @value_block p.fromAddress b (h.exact b (List.mem_of_getLast? hlast))
  increasing := h.increasing
  heads b hb := ⟨(h.scanned b hb).1, (h.scanned b hb).2.2⟩
  covered := h.covered hsent
  cursor hp := (hcursor hp).trans h.cursor_eq

/-- A poll that has scanned up to a head adds its events to those below the
cursor. -/
theorem Delivered.toHead (h : Delivered chain p ls s) (hinv : LoopInv (ExactHeads chain) p ls s)
    {latestBlock : UInt64} {q} (hp : s.phase = .polling t q) (hu : answers ls = u ++ t)
    (hhead : Poller.headRead t = some latestBlock)
    (hlt : ¬ latestBlock ≤ s.poller.lastProcessesBlock)
    (hq : q = .done (.ok (), { s.poller with lastProcessesBlock := latestBlock + 1 })) :
    ∀ a tx, p.handlerChannels.get a = some tx → ∀ event ∈
      chain.eventsOf a p.lastProcessesBlock.toNat (latestBlock + 1).toNat,
      event ∈ sentOn tx (answers ls) := by
  obtain ⟨hexec, hkept, -⟩ := hinv.poll t q hp
  obtain ⟨c, m, hw⟩ := hinv.wiring
  subst hq
  obtain ⟨latestBlock', hhead', -, hsent⟩ := Poller.pollForNewEvents_sends hinv.cursor_ne
    (hkept.honest fun _ _ _ he => he.1) hexec
  obtain rfl : latestBlock' = latestBlock := Option.some.inj (hhead'.symm.trans hhead)
  have hexact := hkept.exactHead hhead hlt
  have hle := UInt64.le_iff_toNat_le.not.mp hlt
  intro a tx htx event he
  rw [toNat_succ_of_lt (by omega), ← chain.eventsOf_append a h.1 (by omega), List.mem_append] at he
  rcases he with he | he
  · exact h.2 a tx htx event he
  · rw [hu, sentOn_append]
    exact List.mem_append_right _ (hsent hlt a tx (by rw [hw]; exact htx) event he)

/-- **The gauge does not run ahead.** In every run from a cursor that is not
zero, with heads that an `f64` holds and whatever calls fail: each value the
gauge was set to is a head that was read, later ones are higher, and the events
from the first cursor up to this block have all been sent by then. Between two
polls the cursor is one past the value that is shown. -/
theorem gauge_tells (hs : p.lastProcessesBlock ≠ 0)
    (h : Run (Step (ExactHeads chain)) ⟨p, .idle⟩ ls s) :
    ∃ scans, GaugeTells chain p ls s scans := by
  have henv : ∀ {ls s}, Run (Step (ExactHeads chain)) ⟨p, .idle⟩ ls s →
      Run (Step (Environment chain)) ⟨p, .idle⟩ ls s := fun hr => hr.mono fun _ _ _ hl =>
    ⟨hl.1, fun e t q he hp => ExactHeads.environment _ _ _ (hl.2 e t q he hp)⟩
  have hinv : LoopInv (ExactHeads chain) p ls s := LoopInv.run ExactHeads.environment hs h
  have hdelivered := run_delivers hs (henv h)
  obtain ⟨u, scans, hu, hgauge⟩ := h.invariant (P := fun ls s => ∃ u scans,
      answers ls = u ++ s.answered ∧ GaugeInv p u s.poller.lastProcessesBlock scans)
    ⟨[], [], rfl, rfl, .nil, fun b hb => absurd hb List.not_mem_nil,
      fun b hb => absurd hb List.not_mem_nil, rfl⟩
    fun hr ih hl => GaugeInv.step (LoopInv.run ExactHeads.environment hs hr)
      (run_delivers hs (henv hr)).1 ih hl
  have hrest : s.answered = [] → ∃ scans, GaugeTells chain p ls s scans := by
    intro hnil
    rw [hnil, List.append_nil] at hu
    subst hu
    exact ⟨scans, hgauge.tells hdelivered.2 fun _ => rfl⟩
  cases hp : s.phase with
  | idle => exact hrest (by simp [answered, hp])
  | stopped r => exact hrest (by simp [answered, hp])
  | polling t q =>
    obtain ⟨hexec, hkept, -⟩ := hinv.poll t q hp
    simp only [answered, hp] at hu
    have hpolling : ¬ ∀ t q, s.phase ≠ .polling t q := fun h => h t q hp
    rcases Poller.poll_sets hinv.cursor_ne hexec with ⟨hnone, -⟩ |
      ⟨latestBlock, hhead, hlt, hset, hq⟩
    · have hgauge := hgauge.unset hnone
      rw [← hu] at hgauge
      exact ⟨scans, hgauge.tells hdelivered.2 fun h => absurd h hpolling⟩
    · -- the gauge is set before the cursor moves
      obtain ⟨c, m, hw⟩ := hinv.wiring
      have hfrom : s.poller.fromAddress = p.fromAddress := by rw [hw]; rfl
      rw [hfrom] at hset
      have hgauge := hgauge.set (UInt64.le_iff_toNat_le.mpr hdelivered.1) hhead hlt
        (hkept.exactHead hhead hlt) hset
      rw [← hu] at hgauge
      have hsent := hdelivered.toHead hinv hp hu hhead hlt hq
      exact ⟨scans ++ [latestBlock], hgauge.tells hsent fun h => absurd h hpolling⟩

omit [ScribeAbi] in
/-- The poll that fails sends two events and does not set the gauge. -/
theorem gauge_tells_sample : ∃ s, Run (@Step sampleAbi (ExactHeads sampleChain))
    ⟨samplePoller 9 (some 2), .idle⟩ sampleRetry s ∧
      (gaugeAfter (answers sampleRetry) 0).bind value = some 11 ∧
      ∃ scans, @GaugeTells sampleAbi sampleChain (samplePoller 9 (some 2)) sampleRetry s scans := by
  have hheads : (answers sampleRetry).flatMap headOf = [11, 11] := by decide +kernel
  obtain ⟨s, hrun, -⟩ := run_sampleRetry
  have hrun : Run (@Step sampleAbi (ExactHeads sampleChain)) ⟨samplePoller 9 (some 2), .idle⟩
      sampleRetry s := by
    refine hrun.unguarded.guarded ?_
    intro l hl s e t q he _
    have hmem : e ∈ answers sampleRetry := List.mem_filterMap.mpr ⟨l, hl, by rw [he]⟩
    refine ⟨(environment_sampleRetry s.poller t e hmem).1, ?_⟩
    intro latestBlock hlatest _
    have hin : latestBlock ∈ [11, 11] := hheads ▸ List.mem_flatMap.mpr ⟨e, hmem, hlatest⟩
    obtain rfl : latestBlock = 11 := by simpa using hin
    decide
  exact ⟨s, hrun, by decide +kernel, @gauge_tells sampleAbi _ _ _ _ (by decide) hrun⟩

/-- With a head that an `f64` does not hold, what is shown is not a head. -/
example : value (setLastScannedBlock 0 (2 ^ 53 + 1)).2 = some (2 ^ 53) := by decide +kernel

end PollerTask
end Challenger
