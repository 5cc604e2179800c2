import Challenger.PollerBehind

/-! # Where the scan starts

The operator asks for a first block, or the poller takes one a few blocks
behind the first head it sees. A cursor of zero stands for "not initialised",
and the difference is unchecked. So the scan starts where it was asked to in
the runs in which a head that is read while the cursor is zero does not put it
elsewhere, and no addition wraps (`scan_starts_where_asked`). -/
namespace Challenger
open Lib Lib.Async

/-! ## What a run shows of its polls -/

/-- The head an answer gives. -/
def headOf : PollI.Event → List UInt64
  | ⟨.getBlockNumber, .ok latestBlock⟩ => [latestBlock]
  | _ => []

/-- The block a scan that has completed reports. -/
def reportOf : PollI.Event → List Int64
  | ⟨.setLastScannedBlock _ block, _⟩ => [block]
  | _ => []

/-- The block the scan is to start at: the one asked for, or else a few blocks
behind the first head. -/
def startBlock (fromBlock : Option UInt64) (heads : List UInt64) : Option Nat :=
  match fromBlock with
  | some b => some b.toNat
  | none => heads.head?.map fun latestBlock => latestBlock.toNat - maxHistoryBlocks.toNat

/-- Later heads do not move the start. -/
theorem startBlock_append {fromBlock : Option UInt64} {heads : List UInt64} {b : Nat}
    (h : startBlock fromBlock heads = some b) (heads' : List UInt64) :
    startBlock fromBlock (heads ++ heads') = some b := by
  cases fromBlock with
  | some _ => exact h
  | none =>
    cases heads with
    | nil => cases h
    | cons _ _ => exact h

namespace Poller
variable {p : Poller} {latestBlock : UInt64} {rs : List (UInt64 × UInt64)}

/-! ## The first block of a scan -/

/-- The first sub-range starts at the cursor, whatever the arithmetic does. -/
theorem ranges_head (h : p.ranges latestBlock = some rs) (hle : p.lastProcessesBlock ≤ latestBlock) :
    ∃ e rest, rs = (p.lastProcessesBlock, e) :: rest := by
  unfold ranges at h
  split at h
  · exact ⟨_, [], (Option.some.inj h).symm⟩
  · rename_i k _
    obtain ⟨s, hs, rfl⟩ := Option.map_eq_some_iff.mp h
    have hinv := whileLoop_invariant
      (P := fun s : RangeLoop => (s.ranges = [] ∧ s.current = p.lastProcessesBlock) ∨
        ∃ e rest, s.ranges = (p.lastProcessesBlock, e) :: rest)
      (fun s _ ih => by
        rcases ih with ⟨hnil, hcur⟩ | ⟨e, rest, hcons⟩
        · exact .inr ⟨_, [], by rw [rangeBody, hnil, hcur]; rfl⟩
        · exact .inr ⟨e, _, by rw [rangeBody, hcons]; rfl⟩)
      (.inl ⟨rfl, rfl⟩) hs
    rcases hinv with ⟨⟨-, hcur⟩ | hcons, hexit⟩
    · rw [rangeCond, hcur] at hexit
      exact absurd hle (of_decide_eq_false hexit)
    · exact hcons

/-- Where no addition wraps no sub-range starts below the cursor. -/
theorem ranges_from (h : p.ranges latestBlock = some rs) (hle : p.lastProcessesBlock ≤ latestBlock)
    (hw : p.NoWrap latestBlock) : ∀ r ∈ rs, p.lastProcessesBlock.toNat ≤ r.1.toNat := by
  intro r hr
  by_cases hpos : p.PositiveRange
  · exact ((ranges_tiles h hle hpos hw).mem (List.mem_map_of_mem hr)).1
  · have hk : p.maxBlockRange = some 0 := not_not.mp hpos
    by_cases hs : p.lastProcessesBlock = 0
    · rw [hs]; exact Nat.zero_le _
    · rw [ranges_none_of_zero hk hs hle] at h
      cases h

/-- The first filter of a scan starts where its first sub-range does. -/
theorem head_plannedFilters {c e : UInt64} {rest : List (UInt64 × UInt64)} {f : Filter}
    (h : (p.plannedFilters ((c, e) :: rest)).head? = some f) : f.fromBlock = c := by
  unfold plannedFilters at h
  cases hc : chunks maxAddressPerRequest p.addresses with
  | nil => rw [hc] at h; cases h
  | cons chunk chunks =>
    rw [hc] at h
    cases h
    rfl

/-- A scan of some addresses has filters. -/
theorem plannedFilters_ne_nil (ha : p.addresses ≠ []) (hrs : rs ≠ []) : p.plannedFilters rs ≠ [] := by
  unfold plannedFilters
  cases hc : chunks maxAddressPerRequest p.addresses with
  | nil =>
    have hflat := flatten_chunks maxAddressPerRequest p.addresses
    rw [hc] at hflat
    exact absurd hflat.symm ha
  | cons chunk chunks => simp [hrs]

/-- `last_processes_block` once a poll has got these answers. -/
def cursorAfter (p : Poller) (t : List PollI.Event) :
    PollM (Except PollerError Unit × Poller) → UInt64
  | .done (_, p') => p'.lastProcessesBlock
  | .await _ _ =>
    match (t.flatMap headOf).head? with
    | some latestBlock => (p.firstRun latestBlock).lastProcessesBlock
    | none => p.lastProcessesBlock

/-! ## One poll -/

variable [ScribeAbi] {t : List PollI.Event}

/-- What the answers of a poll show: no head; a head that leaves nothing to
scan; a scan under way or failed; a scan that has completed. -/
inductive PollShows (p : Poller) (t : List PollI.Event)
    (q : PollM (Except PollerError Unit × Poller)) : Prop where
  | noHead (hheads : t.flatMap headOf = []) (hissued : t.flatMap issued = [])
      (hreports : t.flatMap reportOf = []) (hdone : ∀ r p', q = .done (r, p') → p' = p)
  | skipped (latestBlock : UInt64) (hheads : t.flatMap headOf = [latestBlock])
      (hissued : t.flatMap issued = []) (hreports : t.flatMap reportOf = [])
      (hdone : q = .done (.ok (), p.firstRun latestBlock))
  | scanning (latestBlock : UInt64) (hheads : t.flatMap headOf = [latestBlock])
      (hlt : ¬ latestBlock ≤ (p.firstRun latestBlock).lastProcessesBlock)
      (hissued : t.flatMap issued = [] ∨ ∃ rs, (p.firstRun latestBlock).ranges latestBlock = some rs ∧
        t.flatMap issued <+: (p.firstRun latestBlock).plannedFilters rs)
      (hreports : t.flatMap reportOf = [])
      (hdone : ∀ r p', q = .done (r, p') → (∃ e, r = .error e) ∧ p' = p.firstRun latestBlock)
  | scanned (latestBlock : UInt64) (hheads : t.flatMap headOf = [latestBlock])
      (hlt : ¬ latestBlock ≤ (p.firstRun latestBlock).lastProcessesBlock)
      (rs : List (UInt64 × UInt64)) (hrs : (p.firstRun latestBlock).ranges latestBlock = some rs)
      (hissued : t.flatMap issued = (p.firstRun latestBlock).plannedFilters rs)
      (hreports : t.flatMap reportOf ≠ [])
      (hdone : q = .done (.ok (), { p.firstRun latestBlock with
        lastProcessesBlock := latestBlock + 1 }))

omit [ScribeAbi] in
/-- A poll reads one head at most. -/
theorem PollShows.headOf_eq {q} (h : PollShows p t q) (hn : latestBlock ∈ t.flatMap headOf) :
    t.flatMap headOf = [latestBlock] := by
  cases h with
  | noHead hheads => rw [hheads] at hn; cases hn
  | skipped _ hheads => rw [hheads] at hn ⊢; rw [List.mem_singleton.mp hn]
  | scanning _ hheads => rw [hheads] at hn ⊢; rw [List.mem_singleton.mp hn]
  | scanned _ hheads => rw [hheads] at hn ⊢; rw [List.mem_singleton.mp hn]

/-- A scan reads no head and reports no block. -/
theorem chunkAndPollLogs_shows {t q} (h : Exec (p.chunkAndPollLogs latestBlock) t q) :
    t.flatMap headOf = [] ∧ t.flatMap reportOf = [] := by
  have hnone : ∀ e ∈ t, headOf e = [] ∧ reportOf e = [] := by
    intro e he
    have hscan := chunkAndPollLogs_asks p latestBlock h e he
    obtain ⟨op, r⟩ := e
    cases op with
    | getLogs f => exact ⟨rfl, rfl⟩
    | send tx event => exact ⟨rfl, rfl⟩
    | _ => exact hscan.elim
  exact ⟨List.flatMap_eq_nil_iff.mpr fun e he => (hnone e he).1,
    List.flatMap_eq_nil_iff.mpr fun e he => (hnone e he).2⟩

theorem scan_issued {t q} (h : Exec (p.chunkAndPollLogs latestBlock) t q) :
    t.flatMap issued = [] ∨ ∃ rs, p.ranges latestBlock = some rs ∧
      t.flatMap issued <+: p.plannedFilters rs := by
  rcases chunkAndPollLogs_picks picksFilters_issued h with ⟨rfl, -, -⟩ | ⟨rs, hrs, hpre, -⟩
  · exact .inl rfl
  · exact .inr ⟨rs, hrs, hpre⟩

theorem pollForNewEvents_shows {q} (h : Exec p.pollForNewEvents t q) : PollShows p t q := by
  cases pollForNewEvents_cases h with
  | start =>
    refine .noHead rfl rfl rfl ?_
    intro r p' hq
    exact absurd hq await_ne_done
  | noHead e => exact .noHead rfl rfl rfl fun r p' hq => by cases hq; rfl
  | skip latestBlock hle => exact .skipped latestBlock rfl rfl rfl rfl
  | scan latestBlock hlt hscan =>
    cases hscan with
    | @running u q' _ hu hq =>
      obtain ⟨hheads, hreports⟩ := chunkAndPollLogs_shows hu
      have hissued := scan_issued hu
      refine .scanning latestBlock ?_ hlt hissued hreports ?_
      · exact congrArg (latestBlock :: ·) hheads
      · intro r p' hdone
        exact absurd hdone (hq _)
    | @failed u e hu =>
      obtain ⟨hheads, hreports⟩ := chunkAndPollLogs_shows hu
      have hissued := scan_issued hu
      refine .scanning latestBlock ?_ hlt hissued hreports ?_
      · exact congrArg (latestBlock :: ·) hheads
      · intro r p' hdone
        cases hdone
        exact ⟨⟨e, rfl⟩, rfl⟩
    | @scanned u hu =>
      obtain ⟨hheads, hreports⟩ := chunkAndPollLogs_shows hu
      rcases chunkAndPollLogs_picks picksFilters_issued hu with ⟨-, hq, -⟩ | ⟨rs, hrs, -, hok⟩
      · cases hq
      · refine .scanned latestBlock ?_ hlt rs hrs ?_ ?_ rfl
        · simp [headOf, hheads]
        · simpa [issued] using hok rfl
        · simp [reportOf]

end Poller

/-! ## What holds between two polls -/

/-- The history of the heads read, the filters issued and the blocks reported,
together with the cursor: the start is where it should be, and as long as no
scan has completed the cursor is still there. -/
structure Started (fromBlock : Option UInt64) (addresses : List Address) (heads : List UInt64)
    (queries : List Filter) (reports : List Int64) (cursor : UInt64) : Prop where
  fresh : fromBlock = none → heads = [] → cursor = 0 ∧ queries = []
  le : ∀ b, startBlock fromBlock heads = some b → b ≤ cursor.toNat
  lowest : ∀ f ∈ queries, ∃ b, startBlock fromBlock heads = some b ∧ b ≤ f.fromBlock.toNat
  first : ∀ f, queries.head? = some f → startBlock fromBlock heads = some f.fromBlock.toNat
  waiting : reports = [] → startBlock fromBlock heads = some cursor.toNat ∨
    fromBlock = none ∧ heads = []
  silent : queries = [] → reports ≠ [] → addresses = []
  bound : cursor = 0 ∨ ∃ n ∈ fromBlock.toList ++ heads, cursor.toNat ≤ n.toNat + 1

/-- What is asked of a head: read while the cursor is zero it does not put the
start elsewhere, and the scan up to it does not wrap. -/
structure HeadCondition (fromBlock : Option UInt64) (heads : List UInt64) (p : Poller)
    (latestBlock : UInt64) : Prop where
  init : p.lastProcessesBlock = 0 → maxHistoryBlocks ≤ latestBlock ∧
    (fromBlock = some 0 ∨ heads ≠ [] → latestBlock = maxHistoryBlocks)
  noWrap : ¬ latestBlock ≤ (p.firstRun latestBlock).lastProcessesBlock →
    (p.firstRun latestBlock).NoWrap latestBlock

section
variable {fromBlock : Option UInt64} {addresses : List Address} {heads : List UInt64}
  {queries fs : List Filter} {reports reports' : List Int64} {cursor latestBlock : UInt64}
  {p : Poller}

theorem Started.init (fromBlock : Option UInt64) (addresses : List Address) :
    Started fromBlock addresses [] [] [] (fromBlock.getD 0) := by
  constructor
  case fresh => rintro rfl _; exact ⟨rfl, rfl⟩
  case le =>
    intro b h
    cases fromBlock with
    | none => cases h
    | some c => exact (Option.some.inj h).ge
  case lowest => intro f hf; cases hf
  case first => intro f hf; cases hf
  case waiting =>
    intro _
    cases fromBlock with
    | none => exact .inr ⟨rfl, rfl⟩
    | some c => exact .inl rfl
  case silent => intro _ h; exact absurd rfl h
  case bound =>
    cases fromBlock with
    | none => exact .inl rfl
    | some c => exact .inr ⟨c, by simp, Nat.le_succ _⟩

/-- Once a head was read the start is known. -/
theorem exists_startBlock (h : heads ≠ []) : ∃ b, startBlock fromBlock heads = some b := by
  cases fromBlock with
  | some b => exact ⟨_, rfl⟩
  | none =>
    cases heads with
    | nil => exact absurd rfl h
    | cons _ _ => exact ⟨_, rfl⟩

theorem firstRun_addresses (p : Poller) (latestBlock : UInt64) :
    (p.firstRun latestBlock).addresses = p.addresses := by
  rw [PollerTask.firstRun_moved]
  rfl

theorem firstRun_cursor_of_zero (h : p.lastProcessesBlock = 0)
    (hle : maxHistoryBlocks ≤ latestBlock) :
    (p.firstRun latestBlock).lastProcessesBlock.toNat =
      latestBlock.toNat - maxHistoryBlocks.toNat := by
  rw [Poller.firstRun, if_pos h]
  exact UInt64.toNat_sub_of_le _ _ hle

/-- The first head is read: the start becomes known. -/
theorem Started.read_first (h : Started none addresses [] queries reports p.lastProcessesBlock)
    (hc : HeadCondition none [] p latestBlock) :
    Started none addresses [latestBlock] queries reports
      (p.firstRun latestBlock).lastProcessesBlock := by
  obtain ⟨hzero, hq⟩ := h.fresh rfl rfl
  have hcur := firstRun_cursor_of_zero hzero (hc.init hzero).1
  have hstart : startBlock none [latestBlock] =
      some (p.firstRun latestBlock).lastProcessesBlock.toNat := by rw [hcur]; rfl
  constructor
  case fresh => intro _ hnil; cases hnil
  case le => intro b hb; rw [hstart] at hb; exact (Option.some.inj hb).ge
  case lowest => intro f hf; rw [hq] at hf; cases hf
  case first => intro f hf; rw [hq] at hf; cases hf
  case waiting => intro _; exact .inl hstart
  case silent => exact h.silent
  case bound => exact .inr ⟨latestBlock, List.mem_singleton_self _, by omega⟩

/-- Another head is read, and the cursor set to `next`. -/
theorem Started.head (h : Started fromBlock addresses heads queries reports cursor) {b : Nat}
    (hb : startBlock fromBlock heads = some b) {next : UInt64} (hle : b ≤ next.toNat)
    (hwait : reports = [] → b = next.toNat)
    (hbound : next = 0 ∨ ∃ n ∈ fromBlock.toList ++ (heads ++ [latestBlock]),
      next.toNat ≤ n.toNat + 1) :
    Started fromBlock addresses (heads ++ [latestBlock]) queries reports next := by
  have hb' := startBlock_append hb [latestBlock]
  constructor
  case fresh => intro _ hnil; simp at hnil
  case le => intro c hc; rw [hb'] at hc; cases hc; exact hle
  case lowest =>
    intro f hf
    obtain ⟨c, hc, hcf⟩ := h.lowest f hf
    exact ⟨c, startBlock_append hc _, hcf⟩
  case first => intro f hf; exact startBlock_append (h.first f hf) _
  case waiting => intro hr; left; rw [hb', hwait hr]
  case silent => exact h.silent
  case bound => exact hbound

/-- A later head is read: the start stays, and so does the cursor unless it is
zero. -/
theorem Started.read_later (h : Started fromBlock addresses heads queries reports p.lastProcessesBlock)
    (hc : HeadCondition fromBlock heads p latestBlock) (hknown : ¬ (fromBlock = none ∧ heads = [])) :
    Started fromBlock addresses (heads ++ [latestBlock]) queries reports
      (p.firstRun latestBlock).lastProcessesBlock := by
  obtain ⟨b, hb⟩ : ∃ b, startBlock fromBlock heads = some b := by
    cases fromBlock with
    | some b => exact ⟨_, rfl⟩
    | none => exact exists_startBlock fun hnil => hknown ⟨rfl, hnil⟩
  have hble := h.le b hb
  by_cases hzero : p.lastProcessesBlock = 0
  · have hinit := hc.init hzero
    have hcur := firstRun_cursor_of_zero hzero hinit.1
    have hb0 : b = 0 := by rw [hzero] at hble; exact Nat.le_zero.mp hble
    refine h.head hb (by omega) ?_ (.inr ⟨latestBlock, by simp, by omega⟩)
    intro _
    -- the head is the one that gives zero again
    have hhead : latestBlock = maxHistoryBlocks := by
      refine hinit.2 ?_
      cases fromBlock with
      | some c =>
        have : c.toNat = 0 := (Option.some.inj hb).trans hb0
        exact .inl (congrArg some (UInt64.toNat_inj.mp this))
      | none => exact .inr fun hnil => hknown ⟨rfl, hnil⟩
    rw [hcur, hhead, hb0, Nat.sub_self]
  · rw [Poller.firstRun_of_ne hzero]
    refine h.head hb hble ?_ ?_
    · intro hr
      rcases h.waiting hr with hw | hfresh
      · rw [hb] at hw
        exact Option.some.inj hw
      · exact absurd hfresh hknown
    · rcases h.bound with h0 | ⟨n, hn, hle⟩
      · exact absurd h0 hzero
      · exact .inr ⟨n, by rw [← List.append_assoc]; exact List.mem_append_left _ hn, hle⟩

/-- A head that meets the condition is read. -/
theorem Started.read (h : Started fromBlock addresses heads queries reports p.lastProcessesBlock)
    (hc : HeadCondition fromBlock heads p latestBlock) :
    Started fromBlock addresses (heads ++ [latestBlock]) queries reports
      (p.firstRun latestBlock).lastProcessesBlock := by
  by_cases hfresh : fromBlock = none ∧ heads = []
  · obtain ⟨rfl, rfl⟩ := hfresh
    exact h.read_first hc
  · exact h.read_later hc hfresh

/-- A head beyond the block asked for and every head before is not skipped. -/
theorem Started.not_skipped
    (h : Started fromBlock addresses heads queries reports p.lastProcessesBlock)
    (hc : HeadCondition fromBlock heads p latestBlock)
    (hfar : ∀ n ∈ fromBlock.toList ++ heads, n.toNat + 1 < latestBlock.toNat) :
    ¬ latestBlock ≤ (p.firstRun latestBlock).lastProcessesBlock := by
  rw [UInt64.le_iff_toNat_le, Nat.not_le]
  by_cases hzero : p.lastProcessesBlock = 0
  · have hmin := UInt64.le_iff_toNat_le.mp (hc.init hzero).1
    have hpos : 0 < maxHistoryBlocks.toNat := by decide
    rw [firstRun_cursor_of_zero hzero (hc.init hzero).1]
    omega
  · rw [Poller.firstRun_of_ne hzero]
    rcases h.bound with h0 | ⟨n, hn, hle⟩
    · exact absurd h0 hzero
    · exact hle.trans_lt (hfar n hn)

/-- A scan issues filters from the cursor on. -/
theorem Started.issue (h : Started fromBlock addresses heads queries reports cursor)
    (hheads : heads ≠ []) (hfrom : ∀ f ∈ fs, cursor.toNat ≤ f.fromBlock.toNat)
    (hfirst : ∀ f, fs.head? = some f → f.fromBlock = cursor) (ha : fs ≠ [] → addresses ≠ []) :
    Started fromBlock addresses heads (queries ++ fs) reports cursor := by
  obtain ⟨b, hb⟩ : ∃ b, startBlock fromBlock heads = some b := exists_startBlock hheads
  constructor
  case fresh => intro _ hnil; exact absurd hnil hheads
  case le => exact h.le
  case lowest =>
    intro f hf
    rcases List.mem_append.mp hf with hf | hf
    · exact h.lowest f hf
    · exact ⟨b, hb, (h.le b hb).trans (hfrom f hf)⟩
  case first =>
    intro f hf
    cases queries with
    | cons g gs => exact h.first f hf
    | nil =>
      have hne : fs ≠ [] := fun hnil => by rw [hnil] at hf; cases hf
      -- nothing was queried before, so no scan has completed
      have hr : reports = [] := by
        by_contra hr
        exact ha hne (h.silent rfl hr)
      rw [hfirst f hf]
      rcases h.waiting hr with hw | ⟨-, hnil⟩
      · exact hw
      · exact absurd hnil hheads
  case waiting => exact h.waiting
  case silent => intro hnil; exact h.silent (List.append_eq_nil_iff.mp hnil).1
  case bound => exact h.bound

/-- A scan completes. -/
theorem Started.report (h : Started fromBlock addresses heads queries reports cursor)
    (hmem : latestBlock ∈ heads) (hlt : cursor.toNat ≤ latestBlock.toNat)
    (hroom : latestBlock.toNat + 1 < 2 ^ 64) (hr : reports' ≠ [])
    (ha : addresses ≠ [] → queries ≠ []) :
    Started fromBlock addresses heads queries reports' (latestBlock + 1) := by
  have hsucc := toNat_succ_of_lt hroom
  constructor
  case fresh => intro _ hnil; rw [hnil] at hmem; cases hmem
  case le => intro b hb; have := h.le b hb; omega
  case lowest => exact h.lowest
  case first => exact h.first
  case waiting => intro hnil; exact absurd hnil hr
  case silent =>
    intro hq _
    by_contra hne
    exact ha hne hq
  case bound => exact .inr ⟨latestBlock, List.mem_append_right _ hmem, hsucc.le⟩

variable {u t : List PollI.Event}

/-- The history that a list of answers shows. -/
abbrev StartedAt (fromBlock : Option UInt64) (addresses : List Address) (t : List PollI.Event)
    (cursor : UInt64) : Prop :=
  Started fromBlock addresses (t.flatMap headOf) (t.flatMap issued) (t.flatMap reportOf) cursor

/-- The filters of a scan, or of a part of it, after the head it goes up to. -/
theorem Started.scan (h : Started fromBlock p.addresses heads queries reports p.lastProcessesBlock)
    (hheads : heads ≠ []) (hle : p.lastProcessesBlock ≤ latestBlock) (hw : p.NoWrap latestBlock)
    {rs : List (UInt64 × UInt64)} (hrs : p.ranges latestBlock = some rs)
    (hfs : fs <+: p.plannedFilters rs) :
    Started fromBlock p.addresses heads (queries ++ fs) reports p.lastProcessesBlock := by
  obtain ⟨e, rest, hrest⟩ := Poller.ranges_head hrs hle
  refine h.issue hheads ?_ ?_ ?_
  · intro f hf
    obtain ⟨chunk, -, r, hr, rfl⟩ := Poller.mem_plannedFilters.mp (hfs.subset hf)
    exact Poller.ranges_from hrs hle hw r hr
  · intro f hf
    rw [hrest] at hfs
    have hhead := (List.singleton_prefix_iff_head?_eq_some.mpr hf).trans hfs
    exact Poller.head_plannedFilters (List.singleton_prefix_iff_head?_eq_some.mp hhead)
  · intro hne hnil
    have hnone : p.plannedFilters rs = [] := by simp [Poller.plannedFilters, hnil, chunks]
    exact hne (List.prefix_nil.mp (hnone ▸ hfs))

/-- A poll under way keeps the start, with the cursor it has set by then. -/
theorem StartedAt.poll {q : PollM (Except PollerError Unit × Poller)}
    (h : StartedAt fromBlock p.addresses u p.lastProcessesBlock) (hshow : p.PollShows t q)
    (hc : ∀ n ∈ t.flatMap headOf, HeadCondition fromBlock (u.flatMap headOf) p n) :
    StartedAt fromBlock p.addresses (u ++ t) (p.cursorAfter t q) := by
  simp only [StartedAt, List.flatMap_append]
  cases hshow with
  | noHead hheads hissued hreports hdone =>
    have hcur : p.cursorAfter t q = p.lastProcessesBlock := by
      cases q with
      | done x => exact congrArg Poller.lastProcessesBlock (hdone x.1 x.2 rfl)
      | await op k => simp [Poller.cursorAfter, hheads]
    rw [hheads, hissued, hreports, hcur]
    simpa using h
  | skipped latestBlock hheads hissued hreports hdone =>
    have hread := h.read (hc latestBlock (by simp [hheads]))
    rw [hheads, hissued, hreports, hdone, List.append_nil, List.append_nil]
    exact hread
  | scanning latestBlock hheads hlt hissued hreports hdone =>
    have hcur : p.cursorAfter t q = (p.firstRun latestBlock).lastProcessesBlock := by
      cases q with
      | done x => exact congrArg Poller.lastProcessesBlock (hdone x.1 x.2 rfl).2
      | await op k => simp [Poller.cursorAfter, hheads]
    have hcond := hc latestBlock (by simp [hheads])
    have hread := h.read hcond
    rw [hheads, hreports, List.append_nil, hcur]
    rcases hissued with hnil | ⟨rs, hrs, hpre⟩
    · rw [hnil, List.append_nil]
      exact hread
    · rw [← firstRun_addresses p latestBlock] at hread ⊢
      exact hread.scan (by simp) (UInt64.le_of_lt (UInt64.not_le.mp hlt)) (hcond.noWrap hlt) hrs hpre
  | scanned latestBlock hheads hlt rs hrs hissued hreports hdone =>
    have hcond := hc latestBlock (by simp [hheads])
    have hread := h.read hcond
    have hle := UInt64.le_of_lt (UInt64.not_le.mp hlt)
    rw [hheads, hdone]
    rw [← firstRun_addresses p latestBlock] at hread ⊢
    have hscan := hread.scan (by simp) hle (hcond.noWrap hlt) hrs (List.prefix_refl _)
    rw [← hissued] at hscan
    refine hscan.report (by simp) (UInt64.le_iff_toNat_le.mp hle) (hcond.noWrap hlt).succ ?_ ?_
    · simp [hreports]
    · intro ha hnil
      rw [List.append_eq_nil_iff, hissued] at hnil
      obtain ⟨e, rest, hrest⟩ := Poller.ranges_head hrs hle
      exact Poller.plannedFilters_ne_nil ha (by rw [hrest]; exact List.cons_ne_nil _ _) hnil.2

/-- As long as no scan has completed, one that does starts at the start. -/
theorem StartedAt.firstScan {q : PollM (Except PollerError Unit × Poller)}
    (h : StartedAt fromBlock p.addresses u p.lastProcessesBlock) (hshow : p.PollShows t q)
    (hc : ∀ n ∈ t.flatMap headOf, HeadCondition fromBlock (u.flatMap headOf) p n)
    (hr : u.flatMap reportOf = []) {f : Filter} (hf : (t.flatMap issued).head? = some f)
    (hok : ∃ p', q = .done (.ok (), p')) :
    startBlock fromBlock ((u ++ t).flatMap headOf) = some f.fromBlock.toNat := by
  obtain ⟨p', rfl⟩ := hok
  cases hshow with
  | noHead _ hissued _ _ => rw [hissued] at hf; cases hf
  | skipped _ _ hissued _ _ => rw [hissued] at hf; cases hf
  | scanning _ _ _ _ _ hdone =>
    obtain ⟨e, he⟩ := (hdone _ _ rfl).1
    cases he
  | scanned latestBlock hheads hlt rs hrs hissued _ _ =>
    have hread := h.read (hc latestBlock (by simp [hheads]))
    obtain ⟨e, rest, rfl⟩ := Poller.ranges_head hrs (UInt64.le_of_lt (UInt64.not_le.mp hlt))
    rw [hissued] at hf
    rw [List.flatMap_append, hheads, Poller.head_plannedFilters hf]
    rcases hread.waiting hr with hw | ⟨-, hnil⟩
    · exact hw
    · simp at hnil

end

/-! ## Runs -/

namespace PollerTask
variable [ScribeAbi] {fromBlock : Option UInt64} {p : Poller} {ls : List PollerLabel}
  {s s' : PollerTask} {l : PollerLabel}

omit [ScribeAbi] in
/-- The current `last_processes_block`. -/
def cursor (s : PollerTask) : UInt64 :=
  match s.phase with
  | .polling t q => s.poller.cursorAfter t q
  | _ => s.poller.lastProcessesBlock

/-- The start is right in every reachable state. In a poll this is known of
the history before it, and of the head it has read. -/
inductive StartInv (fromBlock : Option UInt64) (ls : List PollerLabel) (s : PollerTask) : Prop where
  | between (hphase : ∀ t q, s.phase ≠ .polling t q)
      (h : StartedAt fromBlock s.poller.addresses (answers ls) s.poller.lastProcessesBlock)
  | polling {u t : List PollI.Event} {q} (hp : s.phase = .polling t q) (hu : answers ls = u ++ t)
      (h : StartedAt fromBlock s.poller.addresses u s.poller.lastProcessesBlock)
      (hexec : Exec s.poller.pollForNewEvents t q)
      (hc : ∀ n ∈ t.flatMap headOf, HeadCondition fromBlock (u.flatMap headOf) s.poller n)

/-- A step reads a head that meets the condition, or reads none. -/
def StartCondition (fromBlock : Option UInt64) (ls : List PollerLabel) (s : PollerTask)
    (l : PollerLabel) : Prop :=
  ∀ latestBlock, l = .answer ⟨.getBlockNumber, .ok latestBlock⟩ →
    HeadCondition fromBlock ((answers ls).flatMap headOf) s.poller latestBlock

omit [ScribeAbi] in
theorem eq_of_mem_headOf {e : PollI.Event} {latestBlock : UInt64} (h : latestBlock ∈ headOf e) :
    e = ⟨.getBlockNumber, .ok latestBlock⟩ := by
  unfold headOf at h
  split at h
  · rw [List.mem_singleton.mp h]
  · cases h

omit [ScribeAbi] in
/-- A poll that has just read a head had read none before. -/
theorem headOf_snoc {t : List PollI.Event} {e : PollI.Event} {q} {latestBlock : UInt64}
    (h : p.PollShows (t ++ [e]) q) (he : latestBlock ∈ headOf e) : t.flatMap headOf = [] := by
  have hone : headOf e = [latestBlock] := by rw [eq_of_mem_headOf he]; rfl
  have hsing : (t ++ [e]).flatMap headOf = [latestBlock] := h.headOf_eq (by simp [hone])
  rw [List.flatMap_append, List.flatMap_singleton, hone] at hsing
  exact List.append_cancel_right (hsing.trans (List.nil_append _).symm)

theorem StartInv.step (h : StartInv fromBlock ls s) (hC : StartCondition fromBlock ls s l)
    (hl : s.step l = some s') : StartInv fromBlock (ls ++ [l]) s' := by
  cases step_cases hl with
  | cancelled hidle =>
    cases h with
    | between hphase h => exact .between (fun t q h => by cases h) (by simpa [answers] using h)
    | polling hp => rw [hidle] at hp; cases hp
  | tick hidle =>
    cases h with
    | between hphase h =>
      refine .polling (u := answers ls) rfl (by simp [answers]) h (.nil _) ?_
      intro n hn
      cases hn
    | polling hp => rw [hidle] at hp; cases hp
  | @answer t q q' e hp hq =>
    cases h with
    | between hphase h => exact absurd hp (hphase t q)
    | polling hp' hu h hexec hc =>
      rw [hp] at hp'
      cases hp'
      have hexec' := hexec.append hq
      refine .polling rfl (by rw [answers_append, hu]; exact List.append_assoc ..) h hexec' ?_
      intro n hn
      rw [List.flatMap_append, List.mem_append] at hn
      rcases hn with hn | hn
      · exact hc n hn
      · have hn : n ∈ headOf e := by simpa using hn
        have hnone := headOf_snoc (Poller.pollForNewEvents_shows hexec') hn
        have hcond := hC n (by rw [eq_of_mem_headOf hn])
        rwa [hu, List.flatMap_append, hnone, List.append_nil] at hcond
  | @polled t r p' hp =>
    cases h with
    | between hphase h => exact absurd hp (hphase t _)
    | polling hp' hu h hexec hc =>
      rw [hp] at hp'
      cases hp'
      obtain ⟨⟨n, hn⟩, hphase⟩ := afterPoll_poller p' r
      obtain ⟨c, hmoved⟩ := pollForNewEvents_moved hexec
      have hpoll := h.poll (Poller.pollForNewEvents_shows hexec) hc
      have haddr : s.poller.addresses = p'.addresses := by rw [hmoved]; rfl
      rw [haddr] at hpoll
      refine .between hphase ?_
      rw [hn, answers_append, hu]
      show StartedAt fromBlock p'.addresses (_ ++ []) p'.lastProcessesBlock
      rw [List.append_nil]
      exact hpoll

theorem StartInv.started (h : StartInv fromBlock ls s) :
    StartedAt fromBlock s.poller.addresses (answers ls) s.cursor := by
  cases h with
  | between hphase h =>
    have hcur : s.cursor = s.poller.lastProcessesBlock := by
      unfold cursor
      split
      · exact absurd ‹_› (hphase _ _)
      · rfl
    rw [hcur]
    exact h
  | @polling u t q hp hu h hexec hc =>
    have hcur : s.cursor = s.poller.cursorAfter t q := by rw [cursor, hp]
    rw [hcur, hu]
    exact h.poll (Poller.pollForNewEvents_shows hexec) hc

/-- The scan starts where it should: no query is below the start, the first
query is at it, and so is the first of the first scan that completes. The
cursor is at most one past the block asked for or some head, so a head beyond
all of them is not skipped. -/
structure StartsWhereAsked (fromBlock : Option UInt64) (ls : List PollerLabel) (s : PollerTask) :
    Prop where
  lowest : ∀ f ∈ (answers ls).flatMap issued, ∃ b,
    startBlock fromBlock ((answers ls).flatMap headOf) = some b ∧ b ≤ f.fromBlock.toNat
  first : ∀ f, ((answers ls).flatMap issued).head? = some f →
    startBlock fromBlock ((answers ls).flatMap headOf) = some f.fromBlock.toNat
  firstScan : ∀ u t p' f, answers ls = u ++ t → s.phase = .polling t (.done (.ok (), p')) →
    u.flatMap reportOf = [] → (t.flatMap issued).head? = some f →
    startBlock fromBlock ((answers ls).flatMap headOf) = some f.fromBlock.toNat
  bound : s.cursor = 0 ∨ ∃ n ∈ fromBlock.toList ++ (answers ls).flatMap headOf,
    s.cursor.toNat ≤ n.toNat + 1
  unstuck : ∀ t q heads latestBlock, s.phase = .polling t q → latestBlock ∈ t.flatMap headOf →
    (answers ls).flatMap headOf = heads ++ [latestBlock] →
    (∀ n ∈ fromBlock.toList ++ heads, n.toNat + 1 < latestBlock.toNat) →
    ¬ latestBlock ≤ (s.poller.firstRun latestBlock).lastProcessesBlock

theorem StartInv.startsWhereAsked (h : StartInv fromBlock ls s) : StartsWhereAsked fromBlock ls s := by
  have hstarted := h.started
  constructor
  case lowest => exact hstarted.lowest
  case first => exact hstarted.first
  case firstScan =>
    intro u t p' f hu hp hr hf
    cases h with
    | between hphase _ => exact absurd hp (hphase _ _)
    | polling hp' hu' h hexec hc =>
      rw [hp] at hp'
      cases hp'
      obtain rfl := List.append_cancel_right (hu.symm.trans hu')
      rw [hu]
      exact h.firstScan (Poller.pollForNewEvents_shows hexec) hc hr hf ⟨p', rfl⟩
  case bound => exact hstarted.bound
  case unstuck =>
    intro t q heads n hp hn hheads hfar
    cases h with
    | between hphase _ => exact absurd hp (hphase _ _)
    | polling hp' hu h hexec hc =>
      rw [hp] at hp'
      cases hp'
      have hsing := (Poller.pollForNewEvents_shows hexec).headOf_eq hn
      rw [hu, List.flatMap_append, hsing] at hheads
      obtain rfl := List.append_cancel_right hheads
      exact h.not_skipped (hc n hn) hfar

variable {fromAddress : Address} {handlerChannels : HandlerChannels} {maxBlockRange : Option UInt64}
  {keys : List Address} {hkeys : keys.Perm handlerChannels.map.keys}

/-- **The scan starts where the operator asked**, or a few blocks behind the
first head, in every run in which no addition wraps and every head that is read
while the cursor is zero gives back the start: it is not below
`MAX_HISTORY_BLOCKS`, and equal to it if the start has been zero before. -/
theorem scan_starts_where_asked
    (h : Run (Takes PollerTask.step)
      ⟨Poller.new fromAddress handlerChannels fromBlock maxBlockRange keys hkeys, .idle⟩ ls s)
    (hC : Throughout (Takes PollerTask.step) (StartCondition fromBlock)
      ⟨Poller.new fromAddress handlerChannels fromBlock maxBlockRange keys hkeys, .idle⟩ ls) :
    StartsWhereAsked fromBlock ls s := by
  refine StartInv.startsWhereAsked ?_
  refine h.invariant_throughout (P := StartInv fromBlock) ?_ ?_ hC
  · exact .between (fun t q h => by cases h) (.init fromBlock _)
  · intro ls s l s' _ ih hcond hl
    exact ih.step hcond hl

/-- Before a poll has returned the poller is as it was. -/
theorem poller_of_not_polled {s₀ : PollerTask} (h : Run (Takes PollerTask.step) s₀ ls s)
    (hls : ∀ r, .polled r ∉ ls) : s.poller = s₀.poller := by
  refine h.invariant (P := fun ls s => (∀ r, .polled r ∉ ls) → s.poller = s₀.poller)
    (fun _ => rfl) ?_ hls
  intro ls s l s' _ ih hl hls
  have hs := ih fun r hr => hls r (List.mem_append_left _ hr)
  cases step_cases hl with
  | cancelled _ => exact hs
  | tick _ => exact hs
  | answer _ _ => exact hs
  | @polled t r p' _ => exact absurd (List.mem_append_right _ (List.mem_singleton_self _)) (hls r)

omit [ScribeAbi] in
/-- The head of the sample poll leaves the cursor at block 9. -/
theorem startCondition_sampleOkPoll : Throughout (Takes (@PollerTask.step sampleAbi))
    (StartCondition (some 9)) ⟨samplePoller 9 (some 2), .idle⟩ sampleOkPoll := by
  rintro ls₁ l ls₂ s₁ hls hrun n rfl
  have hheads : (answers sampleOkPoll).flatMap headOf = [11] := rfl
  have hmem : n ∈ (answers sampleOkPoll).flatMap headOf := by
    rw [hls]
    simp [answers, headOf]
  obtain rfl : n = 11 := by simpa [hheads] using hmem
  have hnot : ∀ r, PollerLabel.polled r ∉ ls₁ := by
    intro r hr
    have : PollerLabel.polled r ∈ sampleOkPoll := by
      rw [hls]; exact List.mem_append_left _ hr
    simp [sampleOkPoll] at this
  rw [@poller_of_not_polled sampleAbi _ _ _ hrun hnot]
  have hne : (samplePoller 9 (some 2)).lastProcessesBlock ≠ 0 := by decide
  constructor
  case init => intro hzero; exact absurd hzero hne
  case noWrap =>
    intro _
    rw [Poller.firstRun_of_ne hne]
    exact Poller.samplePoller_noWrap

omit [ScribeAbi] in
/-- The sample poll starts at block 9. -/
theorem scan_starts_where_asked_sample : ∃ s,
    Run (Takes (@PollerTask.step sampleAbi)) ⟨samplePoller 9 (some 2), .idle⟩ sampleOkPoll s ∧
      StartsWhereAsked (some 9) sampleOkPoll s := by
  obtain ⟨s, hrun, -⟩ : ∃ s, Run (Takes (@PollerTask.step sampleAbi))
      ⟨samplePoller 9 (some 2), .idle⟩ sampleOkPoll s ∧ okPollTest 11 9 12 s = true :=
    exists_run_of_runSteps (okPollTest 11 9 12) (by decide +kernel)
  exact ⟨s, hrun, @scan_starts_where_asked sampleAbi _ _ _ _ _ _ _ _ hrun
    startCondition_sampleOkPoll⟩

omit [ScribeAbi] in
/-- Zero asked for and nothing asked for give the same poller. -/
theorem new_some_zero : Poller.new fromAddress handlerChannels (some 0) maxBlockRange keys hkeys =
    Poller.new fromAddress handlerChannels none maxBlockRange keys hkeys := rfl

/-- The first query of a poll that reads the head 10 with the cursor at zero. -/
def sampleFromZero : List PollerLabel :=
  [.tick, .answer ⟨.getBlockNumber, .ok 10⟩,
    .answer ⟨.getLogs (Poller.queryFilter [sampleAddress] 5 6), .ok []⟩]

/-- A poll that reads the head 3 first of all. -/
def sampleLowHead : List PollerLabel := [.tick, .answer ⟨.getBlockNumber, .ok 3⟩]

omit [ScribeAbi] in
/-- Asked to start at block 0 the scan starts at block 5; and with nothing
asked for, a head below `MAX_HISTORY_BLOCKS` puts the cursor near the end of
the `u64` range. -/
theorem scan_start_moved :
    (∃ s, Run (Takes (@PollerTask.step sampleAbi)) ⟨samplePoller 0 (some 2), .idle⟩ sampleFromZero s ∧
      ¬ StartsWhereAsked (some 0) sampleFromZero s) ∧
    ∃ s, Run (Takes (@PollerTask.step sampleAbi))
      ⟨Poller.new 0 (samplePoller 0 (some 2)).handlerChannels none (some 2) _
        (samplePoller 0 (some 2)).addresses_perm, .idle⟩ sampleLowHead s ∧
      ¬ StartsWhereAsked none sampleLowHead s := by
  constructor
  · obtain ⟨s, hrun, -⟩ : ∃ s, Run (Takes (@PollerTask.step sampleAbi))
        ⟨samplePoller 0 (some 2), .idle⟩ sampleFromZero s ∧ true = true :=
      exists_run_of_runSteps (fun _ => true) (by decide +kernel)
    refine ⟨s, hrun, ?_⟩
    intro h
    have hfirst := h.first (Poller.queryFilter [sampleAddress] 5 6) rfl
    exact absurd (Option.some.inj hfirst) (by decide)
  · obtain ⟨s, hrun, htest⟩ : ∃ s, Run (Takes (@PollerTask.step sampleAbi))
        ⟨samplePoller 0 (some 2), .idle⟩ sampleLowHead s ∧ (s.cursor == 3 - 5) = true :=
      exists_run_of_runSteps (fun s : PollerTask => s.cursor == 3 - 5) (by decide +kernel)
    rw [← new_some_zero]
    refine ⟨s, hrun, ?_⟩
    intro h
    have hbound := h.bound
    rw [eq_of_beq htest] at hbound
    rcases hbound with hzero | ⟨n, hn, hle⟩
    · exact absurd hzero (by decide)
    · have hn : n = 3 := by simpa [sampleLowHead, answers, headOf] using hn
      rw [hn] at hle
      exact absurd hle (by decide)

end PollerTask
end Challenger
