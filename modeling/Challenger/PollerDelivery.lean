import Challenger.PollerSends

/-! # Successful polls refine one plain query

Read on the channel of one address, the sends of a scan are the accepted
events of that address in the scanned blocks, in chain order: only one chunk
holds the address (`plannedSends_on`), and the sub-ranges tile the blocks.
Over polls that all succeed the cursor makes the scans adjacent, so the whole
run delivers what a single query over all its blocks would
(`okPolls_refine_query`). -/
namespace Challenger
open Lib Lib.Async

variable [ScribeAbi]

/-- The event of a log of the address `a`, when the log decodes. -/
def accepted (a : Address) (log : Log LogData) : Option Event :=
  if log.address = a then (Event.tryFrom log).toOption else none

/-- The plain query: all logs of `a` in the blocks from `lo` to just before
`hi`, in chain order, those that decode. -/
def Chain.eventsOf (chain : Chain) (a : Address) (lo hi : Nat) : List Event :=
  (chain.logs.filter fun log => log.address = a ∧ lo ≤ log.block ∧ log.block < hi).filterMap
    fun log => (Event.tryFrom log).toOption

theorem Chain.eventsOf_eq (chain : Chain) (a : Address) (lo hi : Nat) :
    chain.eventsOf a lo hi =
      (chain.logs.filter fun log => lo ≤ log.block ∧ log.block < hi).filterMap (accepted a) := by
  unfold Chain.eventsOf
  rw [List.filterMap_filter, List.filterMap_filter]
  refine List.filterMap_congr ?_
  intro log _
  by_cases ha : log.address = a <;> simp [accepted, ha]

theorem Chain.eventsOf_self (chain : Chain) (a : Address) (b : Nat) : chain.eventsOf a b b = [] := by
  rw [chain.eventsOf_eq, List.filter_eq_nil_iff.mpr (fun log _ => by simp), List.filterMap_nil]

theorem Chain.eventsOf_append (chain : Chain) (a : Address) {lo mid hi : Nat} (h1 : lo ≤ mid)
    (h2 : mid ≤ hi) : chain.eventsOf a lo mid ++ chain.eventsOf a mid hi = chain.eventsOf a lo hi := by
  simp only [chain.eventsOf_eq, ← List.filterMap_append]
  rw [filter_ge_append_filter chain.sorted h1 h2]

theorem Chain.mem_eventsOf {chain : Chain} {a : Address} {lo hi : Nat} {event : Event} :
    event ∈ chain.eventsOf a lo hi ↔
      ∃ log ∈ chain.logs, (lo ≤ log.block ∧ log.block < hi) ∧ accepted a log = some event := by
  rw [chain.eventsOf_eq, List.mem_filterMap]
  simp only [List.mem_filter, decide_eq_true_eq, and_assoc]

namespace Poller
variable {p : Poller} {chain : Chain} {a : Address} {tx : Sender}

/-! ## The sends on one channel -/

/-- On the channel of `a` a log sends its event when it is a log of `a`. -/
theorem sendsOf_on (h : p.handlerChannels.get a = some tx) (log : Log LogData) :
    ((p.sendsOf log).filterMap fun s => if s.1 = tx then some s.2 else none) =
      (accepted a log).toList := by
  unfold sendsOf accepted
  cases hev : Event.tryFrom log with
  | error e => simp [Except.toOption]
  | ok event =>
    rw [← Event.tryFrom_address hev]
    cases hch : p.handlerChannels.get event.address with
    | none =>
      have ha : event.address ≠ a := fun he => by rw [he, h] at hch; cases hch
      simp [hch, ha]
    | some tx' =>
      by_cases ha : event.address = a
      · rw [ha, h] at hch
        simp [ha, h, Except.toOption]
      · have hne : tx' ≠ tx := fun he => ha (p.handlerChannels.injective (he ▸ hch) h)
        simp [hch, ha, hne]

/-- A filter that names the address selects every log of it that decodes:
what the topic set leaves out does not decode. -/
theorem matches_of_accepted {chunk : List Address} {lo hi : UInt64} {log : Log LogData}
    {event : Event} (hc : a ∈ chunk) (h : accepted a log = some event) :
    (queryFilter chunk lo hi).matches log = decide (lo.toNat ≤ log.block ∧ log.block ≤ hi.toNat) := by
  unfold accepted at h
  split at h
  · rename_i haddr
    cases hev : Event.tryFrom log with
    | error e => rw [hev] at h; cases h
    | ok ev =>
      rw [Bool.eq_iff_iff, Filter.matches_iff, decide_eq_true_eq]
      rcases (Event.tryFrom_ok hev).1 with ht | ht <;> simp [queryFilter, ht, haddr, hc]
  · cases h

theorem rangeSends_on (h : p.handlerChannels.get a = some tx) (chunk : List Address)
    (range : UInt64 × UInt64) :
    ((p.rangeSends chain chunk range).filterMap fun s => if s.1 = tx then some s.2 else none) =
      if a ∈ chunk then
        (chain.logs.filter fun log =>
          (natRange range).1 ≤ log.block ∧ log.block ≤ (natRange range).2).filterMap (accepted a)
      else [] := by
  unfold rangeSends Chain.getLogs
  rw [List.filterMap_flatMap]
  simp only [sendsOf_on h]
  rw [← List.filterMap_eq_flatMap_toList]
  split
  · rename_i hc
    rw [List.filterMap_filter, List.filterMap_filter]
    refine List.filterMap_congr ?_
    intro log _
    cases hacc : accepted a log with
    | none => simp
    | some event => rw [matches_of_accepted hc hacc]; rfl
  · rename_i hc
    refine List.filterMap_eq_nil_iff.mpr ?_
    intro log hlog
    have hm := (Filter.matches_iff.mp (List.mem_filter.mp hlog).2).1
    exact if_neg fun he : log.address = a => hc (he ▸ hm)

omit [ScribeAbi] in
theorem nodup_addresses (p : Poller) : p.addresses.Nodup :=
  p.addresses_perm.nodup_iff.mpr p.handlerChannels.map.keys_nodup

omit [ScribeAbi] in
theorem mem_addresses : a ∈ p.addresses ↔ ∃ tx, p.handlerChannels.get a = some tx := by
  rw [p.addresses_perm.mem_iff, ← AList.mem_keys, ← AList.lookup_isSome, Option.isSome_iff_exists]
  rfl

/-- The sends of a scan on the channel of `a`, when the sub-ranges tile the
blocks from `lo` to just before `hi`. -/
theorem plannedSends_on (h : p.handlerChannels.get a = some tx) {rs : List (UInt64 × UInt64)}
    {lo hi : Nat} (ht : Tiles lo (rs.map natRange) hi) :
    ((p.plannedSends chain rs).filterMap fun s => if s.1 = tx then some s.2 else none) =
      chain.eventsOf a lo hi := by
  have hchunk : ∀ chunk : List Address,
      ((rs.flatMap fun range => p.rangeSends chain chunk range).filterMap fun s =>
        if s.1 = tx then some s.2 else none) = if a ∈ chunk then chain.eventsOf a lo hi else [] := by
    intro chunk
    rw [List.filterMap_flatMap]
    simp only [rangeSends_on h]
    split
    · rw [chain.eventsOf_eq, ← flatMap_filter_of_tiles chain.sorted ht, List.flatMap_map,
        List.filterMap_flatMap]
    · exact List.flatMap_eq_nil_iff.mpr fun _ _ => rfl
  unfold plannedSends
  rw [List.filterMap_flatMap]
  simp only [hchunk]
  refine flatMap_ite_mem_of_nodup (by rw [flatten_chunks]; exact p.nodup_addresses) ?_ _
  rw [flatten_chunks]
  exact mem_addresses.mpr ⟨tx, h⟩

/-- Sub-ranges that were built miss no event, even if they overlap. -/
theorem mem_plannedSends_on (h : p.handlerChannels.get a = some tx) {latestBlock : UInt64}
    {rs : List (UInt64 × UInt64)} (hrs : p.ranges latestBlock = some rs) {event : Event}
    (he : event ∈ chain.eventsOf a p.lastProcessesBlock.toNat (latestBlock.toNat + 1)) :
    event ∈ (p.plannedSends chain rs).filterMap fun s => if s.1 = tx then some s.2 else none := by
  obtain ⟨log, hlog, ⟨hlo, hhi⟩, hacc⟩ := Chain.mem_eventsOf.mp he
  obtain ⟨r, hr, hb⟩ := ranges_cover hrs hlo (Nat.lt_succ_iff.mp hhi)
  obtain ⟨chunk, hc, ha⟩ : ∃ chunk ∈ chunks maxAddressPerRequest p.addresses, a ∈ chunk :=
    List.mem_flatten.mp (by rw [flatten_chunks]; exact mem_addresses.mpr ⟨tx, h⟩)
  have hsend : event ∈
      (p.rangeSends chain chunk r).filterMap fun s => if s.1 = tx then some s.2 else none := by
    rw [rangeSends_on h, if_pos ha]
    exact List.mem_filterMap.mpr ⟨log, List.mem_filter.mpr ⟨hlog, decide_eq_true hb⟩, hacc⟩
  obtain ⟨send, hmem, hon⟩ := List.mem_filterMap.mp hsend
  exact List.mem_filterMap.mpr ⟨send, List.mem_flatMap.mpr ⟨chunk, hc, List.mem_flatMap.mpr
    ⟨r, hr, hmem⟩⟩, hon⟩

/-! ## Polls that succeed -/

omit [ScribeAbi] in
theorem toNat_nextCursor_le {cursor latestBlock : UInt64}
    (h : ¬ latestBlock ≤ cursor → latestBlock.toNat + 1 < 2 ^ 64) :
    cursor.toNat ≤ (nextCursor cursor latestBlock).toNat := by
  unfold nextCursor
  split
  · exact le_rfl
  · rename_i hlt
    rw [toNat_succ_of_lt (h hlt)]
    rw [UInt64.le_iff_toNat_le] at hlt
    omega

omit [ScribeAbi] in
theorem nextCursor_ne_zero {cursor latestBlock : UInt64} (hc : cursor ≠ 0)
    (h : ¬ latestBlock ≤ cursor → latestBlock.toNat + 1 < 2 ^ 64) :
    nextCursor cursor latestBlock ≠ 0 := by
  intro he
  have hle := toNat_nextCursor_le h
  rw [he] at hle
  exact hc (UInt64.toNat_inj.mp (Nat.le_zero.mp hle))

/-- A successful poll moves the cursor by the head it read. If there was
something to scan, it has sent at least once what the chain has from the
cursor up to the head. -/
theorem pollForNewEvents_sends (hs : p.lastProcessesBlock ≠ 0) {t : List PollI.Event}
    {p' : Poller} (ht : ∀ e ∈ t, Honest chain e) (h : Returns p.pollForNewEvents t (.ok (), p')) :
    ∃ latestBlock, headRead t = some latestBlock ∧
      p' = { p with lastProcessesBlock := nextCursor p.lastProcessesBlock latestBlock } ∧
      (¬ latestBlock ≤ p.lastProcessesBlock → ∀ a tx, p.handlerChannels.get a = some tx →
        ∀ event ∈ chain.eventsOf a p.lastProcessesBlock.toNat (latestBlock.toNat + 1),
          event ∈ sentOn tx t) := by
  obtain ⟨latestBlock, hh, rfl, hcases⟩ := pollForNewEvents_ok hs ht h
  refine ⟨latestBlock, hh, rfl, ?_⟩
  intro hlt a tx htx event he
  rcases hcases with ⟨hle, -⟩ | ⟨-, rs, hrs, hsent⟩
  · exact absurd hle hlt
  · rw [sentOn, hsent]
    exact mem_plannedSends_on htx hrs he

/-- A successful poll delivers to each address what the chain has for it
between the cursor before and the cursor after. -/
theorem pollForNewEvents_delivers (hs : p.lastProcessesBlock ≠ 0) (hpos : p.PositiveRange)
    {t : List PollI.Event} {p' : Poller} (ht : ∀ e ∈ t, Honest chain e)
    (hw : ∀ latestBlock, headRead t = some latestBlock → ¬ latestBlock ≤ p.lastProcessesBlock →
      p.NoWrap latestBlock)
    (h : Returns p.pollForNewEvents t (.ok (), p')) :
    ∃ latestBlock, headRead t = some latestBlock ∧
      p' = { p with lastProcessesBlock := nextCursor p.lastProcessesBlock latestBlock } ∧
      p.lastProcessesBlock.toNat ≤ p'.lastProcessesBlock.toNat ∧
      ∀ a tx, p.handlerChannels.get a = some tx →
        sentOn tx t = chain.eventsOf a p.lastProcessesBlock.toNat p'.lastProcessesBlock.toNat := by
  obtain ⟨latestBlock, hh, rfl, hcases⟩ := pollForNewEvents_ok hs ht h
  refine ⟨latestBlock, hh, rfl, toNat_nextCursor_le fun hlt => (hw _ hh hlt).succ, ?_⟩
  intro a tx htx
  rcases hcases with ⟨hle, hsent⟩ | ⟨hlt, rs, hrs, hsent⟩
  · rw [sentOn, hsent, nextCursor, if_pos hle, chain.eventsOf_self]
    rfl
  · have hnw := hw latestBlock hh hlt
    have htiles := ranges_tiles hrs (by
      rw [UInt64.le_iff_toNat_le] at hlt ⊢; omega) hpos hnw
    rw [sentOn, hsent, plannedSends_on htx htiles, nextCursor, if_neg hlt,
      toNat_succ_of_lt hnw.succ]

/-- A run of polls that all return `Ok`: the traces of the polls, each with
honest answers and without wrap-around. -/
inductive OkPolls (chain : Chain) : Poller → List (List PollI.Event) → Poller → Prop where
  | nil (p : Poller) : OkPolls chain p [] p
  | cons {p p' p'' : Poller} {t ts} (honest : ∀ e ∈ t, Honest chain e)
      (noWrap : ∀ latestBlock, headRead t = some latestBlock →
        ¬ latestBlock ≤ p.lastProcessesBlock → p.NoWrap latestBlock)
      (poll : Returns p.pollForNewEvents t (.ok (), p')) (rest : OkPolls chain p' ts p'') :
      OkPolls chain p (t :: ts) p''

/-- A run moves the cursor by the heads it read and nothing else, and
delivers to each address what the chain has for it between the cursors. -/
theorem okPolls_spec {ts : List (List PollI.Event)} {p' : Poller} (hs : p.lastProcessesBlock ≠ 0)
    (hpos : p.PositiveRange) (h : OkPolls chain p ts p') :
    p'.lastProcessesBlock = (ts.filterMap headRead).foldl nextCursor p.lastProcessesBlock ∧
      p.lastProcessesBlock.toNat ≤ p'.lastProcessesBlock.toNat ∧
      ∀ a tx, p.handlerChannels.get a = some tx → sentOn tx ts.flatten =
        chain.eventsOf a p.lastProcessesBlock.toNat p'.lastProcessesBlock.toNat := by
  induction h with
  | nil p => exact ⟨rfl, le_rfl, fun a tx _ => by rw [chain.eventsOf_self]; rfl⟩
  | cons honest noWrap poll rest ih =>
    obtain ⟨latestBlock, hh, rfl, hle, hsent⟩ := pollForNewEvents_delivers hs hpos honest noWrap poll
    obtain ⟨hcur, hle', hsent'⟩ := ih (nextCursor_ne_zero hs fun hlt => (noWrap _ hh hlt).succ) hpos
    refine ⟨?_, hle.trans hle', ?_⟩
    · rw [hcur, List.filterMap_cons, hh]; rfl
    · intro a tx htx
      rw [List.flatten_cons, sentOn_append, hsent a tx htx, hsent' a tx htx]
      exact chain.eventsOf_append a hle hle'

/-- **Polling refines one plain query.** Over a run of successful polls from a
cursor that is not zero, each address gets on its channel the accepted events
of all its logs from that cursor to the final one, in chain order and each
once. A second run from the same cursor over the same heads gives every
address it also monitors the same, whatever its range limit and its order of
the addresses. -/
theorem okPolls_refine_query {ts : List (List PollI.Event)} {p' : Poller}
    (hs : p.lastProcessesBlock ≠ 0) (hpos : p.PositiveRange) (h : OkPolls chain p ts p')
    (ha : a ∈ p.addresses) :
    ∃ tx, p.handlerChannels.get a = some tx ∧
      sentOn tx ts.flatten =
        chain.eventsOf a p.lastProcessesBlock.toNat p'.lastProcessesBlock.toNat ∧
      ∀ {q q' : Poller} {ts' : List (List PollI.Event)} {tx' : Sender}, q.PositiveRange →
        q.lastProcessesBlock = p.lastProcessesBlock → OkPolls chain q ts' q' →
        ts'.filterMap headRead = ts.filterMap headRead → q.handlerChannels.get a = some tx' →
        sentOn tx' ts'.flatten = sentOn tx ts.flatten := by
  obtain ⟨tx, htx⟩ := mem_addresses.mp ha
  obtain ⟨hcur, -, hsent⟩ := okPolls_spec hs hpos h
  refine ⟨tx, htx, hsent a tx htx, fun {q q' ts' tx'} hpos' he h' hheads htx' => ?_⟩
  obtain ⟨hcur', -, hsent'⟩ := okPolls_spec (he ▸ hs) hpos' h'
  rw [hsent a tx htx, hsent' a tx' htx', hcur, hcur', he, hheads]

/-- One poll of the sample chain up to block 11, in sub-ranges of two blocks. -/
def sampleTrace : List PollI.Event :=
  [⟨.getBlockNumber, .ok 11⟩,
    sampleChain.answer (queryFilter [sampleAddress] 9 10),
    ⟨.send ⟨0⟩ (sampleEvent 10 1), .ok ()⟩, ⟨.send ⟨0⟩ (sampleEvent 10 2), .ok ()⟩,
    sampleChain.answer (queryFilter [sampleAddress] 11 11),
    ⟨.send ⟨0⟩ (sampleEvent 11 0), .ok ()⟩,
    ⟨.setLastScannedBlock 0 11, ()⟩]

omit [ScribeAbi] in
theorem honest_sampleTrace : ∀ e ∈ sampleTrace, Honest sampleChain e := by
  have hsend : ∀ tx event, Honest sampleChain ⟨.send tx event, .ok ()⟩ := fun _ _ => rfl
  have hhead : ∀ r, Honest sampleChain ⟨.getBlockNumber, r⟩ := fun _ => trivial
  have hmetric : ∀ a b r, Honest sampleChain ⟨.setLastScannedBlock a b, r⟩ := fun _ _ _ => trivial
  simp only [sampleTrace, List.forall_mem_cons]
  exact ⟨hhead _, honest_answer _ _, hsend _ _, hsend _ _, honest_answer _ _, hsend _ _,
    hmetric _ _ _, fun _ h => absurd h List.not_mem_nil⟩

omit [ScribeAbi] in
theorem headRead_sampleTrace : headRead sampleTrace = some 11 := rfl

omit [ScribeAbi] in
theorem samplePoller_noWrap : (samplePoller 9 (some 2)).NoWrap 11 :=
  .of_lt (by decide) fun k hk => by rw [← Option.some.inj hk]; decide

omit [ScribeAbi] in
/-- The sample poll succeeds and leaves the cursor at block 12. -/
theorem okPolls_sampleTrace : ∃ p', @OkPolls sampleAbi sampleChain (samplePoller 9 (some 2))
    [sampleTrace] p' ∧ p'.lastProcessesBlock = 12 := by
  let _ := sampleAbi
  obtain ⟨⟨r, p'⟩, hret, htest⟩ := returns_of_returnsWith
    (p := (samplePoller 9 (some 2)).pollForNewEvents) (t := sampleTrace)
    (fun a => a.1.isOk && a.2.lastProcessesBlock == 12) (by decide +kernel)
  obtain ⟨hr, hcur⟩ : r.isOk = true ∧ p'.lastProcessesBlock = 12 := by
    rw [Bool.and_eq_true] at htest
    exact ⟨htest.1, eq_of_beq htest.2⟩
  cases r with
  | error e => cases hr
  | ok _ =>
    refine ⟨p', .cons honest_sampleTrace ?_ hret (.nil p'), hcur⟩
    intro _ h _
    rw [← Option.some.inj (headRead_sampleTrace.symm.trans h)]
    exact samplePoller_noWrap

omit [ScribeAbi] in
theorem okPolls_refine_query_sample : ∃ p', @OkPolls sampleAbi sampleChain
    (samplePoller 9 (some 2)) [sampleTrace] p' ∧ p'.lastProcessesBlock = 12 ∧
      ∃ tx, (samplePoller 9 (some 2)).handlerChannels.get sampleAddress = some tx ∧
        sentOn tx [sampleTrace].flatten =
          @Chain.eventsOf sampleAbi sampleChain sampleAddress 9 12 := by
  obtain ⟨p', hrun, hcur⟩ := okPolls_sampleTrace
  obtain ⟨tx, htx, hsent, -⟩ := @okPolls_refine_query sampleAbi _ _ sampleAddress _ _
    (by decide) (by nofun) hrun List.mem_cons_self
  rw [hcur] at hsent
  exact ⟨p', hrun, hcur, tx, htx, hsent⟩

end Poller
end Challenger
