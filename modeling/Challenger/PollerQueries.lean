import Challenger.PollerDelivery
import Challenger.PollerRangeLoop

/-! # What a poll queries

A scan goes through the chunks of the addresses and, for each, through the
sub-ranges, so the filters it issues tile the product of the addresses and the
blocks of its window, within the limits on either side
(`chunkAndPollLogs_tiles`). A scan that fails has issued a prefix of the same
filters. -/
namespace Challenger
open Lib Lib.Async

/-! ## The filters of a scan -/

/-- The filter an answered request has issued. -/
def issued : PollI.Event → List Filter
  | ⟨.getLogs f, _⟩ => [f]
  | _ => []

/-- The filter of a query that succeeded. -/
def fetched : PollI.Event → List Filter
  | ⟨.getLogs f, .ok _⟩ => [f]
  | _ => []

def PollOp.IsSend : PollOp → Prop
  | .send _ _ => True
  | _ => False

/-- The requests of a scan. -/
def PollOp.IsScan : PollOp → Prop
  | .getLogs _ => True
  | .send _ _ => True
  | _ => False

/-- What is picked from the answers, when it is at least the filters of the
queries that succeed and at most those of all queries. -/
structure PicksFilters (out : PollI.Event → List Filter) : Prop where
  ok : ∀ f logs, out ⟨.getLogs f, .ok logs⟩ = [f]
  error : ∀ f e, out ⟨.getLogs f, .error e⟩ <+: [f]
  send : ∀ tx event r, out ⟨.send tx event, r⟩ = []

theorem picksFilters_issued : PicksFilters issued :=
  ⟨fun _ _ => rfl, fun _ _ => List.prefix_rfl, fun _ _ _ => rfl⟩

theorem picksFilters_fetched : PicksFilters fetched :=
  ⟨fun _ _ => rfl, fun _ _ => List.nil_prefix, fun _ _ _ => rfl⟩

/-- The blocks of a filter. -/
def Filter.blocks (f : Filter) : UInt64 × UInt64 := (f.fromBlock, f.toBlock)

namespace Poller

/-- The filters of a scan over these sub-ranges. -/
def plannedFilters (p : Poller) (ranges : List (UInt64 × UInt64)) : List Filter :=
  (chunks maxAddressPerRequest p.addresses).flatMap fun chunk =>
    ranges.map fun range => queryFilter chunk range.1 range.2

section
variable [ScribeAbi]

theorem sendLogForProcessing_asks (p : Poller) (log : Log LogData) :
    Asks PollOp.IsSend (p.sendLogForProcessing log) := by
  unfold sendLogForProcessing
  split
  · trivial
  · split
    · trivial
    · refine Asks.bind ⟨trivial, fun _ => trivial⟩ ?_
      intro r
      cases r <;> trivial

/-- The loop over the logs of a query only sends. -/
theorem sendLogs_asks (p : Poller) (logs : List (Log LogData)) :
    Asks PollOp.IsSend (Async.forEach (ε := PollerError) (fun log => do
      let _ ← p.sendLogForProcessing log
      pure (.ok ())) logs) :=
  .forEach fun log _ => (p.sendLogForProcessing_asks log).bind fun _ => trivial

theorem pollRange_asks (p : Poller) (chunk : List Address) (range : UInt64 × UInt64) :
    Asks PollOp.IsScan (p.pollRange chunk range) := by
  refine ⟨trivial, ?_⟩
  intro r
  cases r with
  | error e => trivial
  | ok logs => exact (p.sendLogs_asks logs).mono fun op h => by cases op <;> trivial

/-- A scan queries and sends, and nothing else. -/
theorem chunkAndPollLogs_asks (p : Poller) (latestBlock : UInt64) {t q}
    (h : Exec (p.chunkAndPollLogs latestBlock) t q) : ∀ e ∈ t, PollOp.IsScan e.1 := by
  unfold chunkAndPollLogs at h
  split at h
  · rcases Exec.await_inv h with ⟨rfl, -⟩ | ⟨r, -⟩
    · intro e he; cases he
    · exact r.elim
  · exact Asks.exec (.forEach fun chunk _ => .forEach fun range _ => p.pollRange_asks chunk range) h

variable {out : PollI.Event → List Filter} (hout : PicksFilters out)
include hout

/-- One query issues its filter. -/
theorem pollRange_picks {p : Poller} {chunk : List Address} {range : UInt64 × UInt64} {t q}
    (h : Exec (p.pollRange chunk range) t q) :
    t.flatMap out <+: [queryFilter chunk range.1 range.2] ∧
      (q = .done (.ok ()) → t.flatMap out = [queryFilter chunk range.1 range.2]) := by
  rcases Exec.await_inv h with ⟨rfl, rfl⟩ | ⟨r, u, rfl, hu⟩
  · exact ⟨List.nil_prefix, fun he => by cases he⟩
  · rw [List.flatMap_cons]
    cases r with
    | error e =>
      obtain ⟨rfl, rfl⟩ := Exec.done_inv hu
      rw [List.flatMap_nil, List.append_nil]
      exact ⟨hout.error _ e, fun he => by cases he⟩
    | ok logs =>
      have hnone : u.flatMap out = [] := by
        refine List.flatMap_eq_nil_iff.mpr ?_
        rintro ⟨op, r⟩ he
        have hsend := (p.sendLogs_asks logs).exec hu _ he
        cases op with
        | send tx event => exact hout.send tx event r
        | _ => exact hsend.elim
      rw [hnone, List.append_nil, hout.ok]
      exact ⟨List.prefix_rfl, fun _ => rfl⟩

theorem chunkAndPollLogs_picks {p : Poller} {latestBlock : UInt64} {t q}
    (h : Exec (p.chunkAndPollLogs latestBlock) t q) :
    (t = [] ∧ q = PollM.spin ∧ p.ranges latestBlock = none) ∨
      ∃ rs, p.ranges latestBlock = some rs ∧ t.flatMap out <+: p.plannedFilters rs ∧
        (q = .done (.ok ()) → t.flatMap out = p.plannedFilters rs) := by
  have hok : ∀ chunk range, Emits (fun _ => True) out (p.pollRange chunk range) (.ok ())
      [queryFilter chunk range.1 range.2] :=
    fun _ _ _ _ hr => (pollRange_picks hout hr).2 rfl
  have hpre : ∀ chunk range, EmitsPrefix (fun _ => True) out (p.pollRange chunk range)
      [queryFilter chunk range.1 range.2] :=
    fun _ _ _ _ _ hr => (pollRange_picks hout hr).1
  have hemits := chunkAndPollLogs_emits hok hpre (fun _ _ => trivial) h
  simpa only [plannedFilters, List.map_eq_flatMap] using hemits

end

/-! ## The sub-ranges within the limits -/

/-- The number of sub-ranges of a scan up to `latestBlock`. -/
def rangeCount (p : Poller) (latestBlock : UInt64) : Nat :=
  match p.maxBlockRange with
  | none => 1
  | some k => (latestBlock.toNat - p.lastProcessesBlock.toNat + 1) ⌈/⌉ k.toNat

/-- Sub-ranges that tile the window, at most `max_block_range` blocks each. -/
structure RangesSpec (p : Poller) (latestBlock : UInt64) (rs : List (UInt64 × UInt64)) : Prop where
  tiles : Tiles p.lastProcessesBlock.toNat (rs.map natRange) (latestBlock.toNat + 1)
  le : ∀ k, p.maxBlockRange = some k → ∀ r ∈ rs, r.2.toNat + 1 ≤ r.1.toNat + k.toNat
  length : rs.length = p.rangeCount latestBlock

theorem length_rangeState (k latestBlock cursor : UInt64) (i : Nat) :
    (rangeState k latestBlock cursor i).ranges.length = i := by
  induction i with
  | zero => rfl
  | succ i ih =>
    rw [rangeState_succ]
    simp [rangeBody, ih]

theorem ranges_spec {p : Poller} {latestBlock : UInt64} (hle : p.lastProcessesBlock ≤ latestBlock)
    (hk : ∀ k, p.maxBlockRange = some k → 1 ≤ k.toNat ∧ latestBlock.toNat + k.toNat < 2 ^ 64) :
    ∃ rs, p.ranges latestBlock = some rs ∧ RangesSpec p latestBlock rs := by
  cases hmax : p.maxBlockRange with
  | none =>
    rw [UInt64.le_iff_toNat_le] at hle
    refine ⟨_, by rw [ranges, hmax], ?_, ?_, ?_⟩
    · exact ⟨rfl, hle, rfl⟩
    · intro k h
      rw [hmax] at h
      cases h
    · rw [rangeCount, hmax]; rfl
  | some k =>
    obtain ⟨hpos, hfits⟩ := hk k hmax
    have hcur := UInt64.le_iff_toNat_le.mp hle
    have hlast := lastIteration_le (k := k) hcur
    have hbound : lastIteration k latestBlock p.lastProcessesBlock + 1 ≤ rangeLoopBound := by
      have := Nat.div_le_self (latestBlock.toNat - p.lastProcessesBlock.toNat) k.toNat
      simp only [lastIteration, rangeLoopBound, UInt64.size]
      omega
    have hrs : p.ranges latestBlock = some (rangeState k latestBlock p.lastProcessesBlock
        (lastIteration k latestBlock p.lastProcessesBlock + 1)).ranges := by
      simp only [ranges, hmax]
      rw [whileLoop_rangeState hpos hcur (by omega) (by omega) hbound]
      rfl
    have hpositive : p.PositiveRange := by
      intro h
      rw [hmax] at h
      cases h
      exact absurd hpos (by decide)
    refine ⟨_, hrs, ?_, ?_, ?_⟩
    · refine ranges_tiles hrs hle hpositive (.of_lt (by omega) ?_)
      intro k' h
      have := (hk k' h).2
      omega
    · intro k' h r hr
      rw [hmax] at h
      cases h
      obtain ⟨j, hj, rfl⟩ := mem_rangeState hr
      have hmul := Nat.mul_le_mul_right k.toNat (Nat.le_of_lt_succ hj)
      have hstart : (rangeState k latestBlock p.lastProcessesBlock j).current.toNat =
          p.lastProcessesBlock.toNat + j * k.toNat := rangeState_current hpos (by omega)
      have hend := @toNat_rangeEnd k latestBlock
        (rangeState k latestBlock p.lastProcessesBlock j).current hpos (by omega)
      show (rangeEnd k latestBlock _).toNat + 1 ≤
        (rangeState k latestBlock p.lastProcessesBlock j).current.toNat + k.toNat
      omega
    · rw [length_rangeState, rangeCount, hmax]
      simp only [lastIteration, Nat.ceilDiv_eq_add_pred_div]
      rw [← Nat.add_div_right _ hpos]
      congr 1
      omega

/-! ## The filters within the limits -/

/-- The filters tile the product of the addresses and the window, within the
limits on either side. -/
structure QueriesTile (p : Poller) (latestBlock : UInt64) (fs : List Filter) : Prop where
  once : ∀ a ∈ p.addresses, ∀ b, p.lastProcessesBlock.toNat ≤ b → b ≤ latestBlock.toNat →
    fs.countP (Filter.covers a b) = 1
  only : ∀ f ∈ fs, ∀ a b, f.covers a b = true →
    a ∈ p.addresses ∧ p.lastProcessesBlock.toNat ≤ b ∧ b ≤ latestBlock.toNat
  addresses : ∀ f ∈ fs, f.address.Nodup ∧ 1 ≤ f.address.length ∧
    f.address.length ≤ maxAddressPerRequest
  blocks : ∀ k, p.maxBlockRange = some k → ∀ f ∈ fs,
    f.toBlock.toNat + 1 - f.fromBlock.toNat ≤ k.toNat
  increasing : ∀ a ∈ p.addresses, (fs.filter fun f => a ∈ f.address).Pairwise
    fun f g => f.toBlock.toNat < g.fromBlock.toNat
  length : fs.length = p.addresses.length ⌈/⌉ maxAddressPerRequest * p.rangeCount latestBlock

variable {p : Poller} {latestBlock : UInt64} {rs : List (UInt64 × UInt64)} {a : Address}

theorem mem_plannedFilters {f : Filter} : f ∈ p.plannedFilters rs ↔
    ∃ chunk ∈ chunks maxAddressPerRequest p.addresses, ∃ r ∈ rs, f = queryFilter chunk r.1 r.2 := by
  simp only [plannedFilters, List.mem_flatMap, List.mem_map, eq_comm]

/-- The filters that name an address go through the sub-ranges once, in order. -/
theorem blocks_plannedFilters (ha : a ∈ p.addresses) (rs : List (UInt64 × UInt64)) :
    ((p.plannedFilters rs).filter fun f => a ∈ f.address).map Filter.blocks = rs := by
  have hchunk : ∀ chunk : List Address,
      ((rs.map fun r => queryFilter chunk r.1 r.2).filter fun f => a ∈ f.address).map
        Filter.blocks = if a ∈ chunk then rs else [] := by
    intro chunk
    rw [List.filter_map, List.map_map]
    show List.map id (rs.filter fun _ => a ∈ chunk) = _
    by_cases hc : a ∈ chunk <;> simp [hc]
  rw [plannedFilters, List.filter_flatMap, List.map_flatMap]
  simp only [hchunk]
  refine flatMap_ite_mem_of_nodup ?_ ?_ rs
  · rw [flatten_chunks]
    exact p.nodup_addresses
  · rwa [flatten_chunks]

theorem queriesTile_plannedFilters (hrs : RangesSpec p latestBlock rs) :
    QueriesTile p latestBlock (p.plannedFilters rs) := by
  constructor
  case once =>
    intro a ha b hlo hhi
    have hcov : ∀ f : Filter, Filter.covers a b f = (decide (a ∈ f.address) &&
        decide ((natRange f.blocks).1 ≤ b ∧ b ≤ (natRange f.blocks).2)) :=
      fun f => Bool.decide_and _ _
    have hone := hrs.tiles.countP hlo (Nat.lt_succ_of_le hhi)
    rw [List.countP_map, ← blocks_plannedFilters ha rs, List.countP_map, List.countP_filter] at hone
    rw [← hone]
    refine List.countP_congr ?_
    intro f _
    rw [hcov, Bool.and_comm]
    rfl
  case only =>
    intro f hf a b hcov
    obtain ⟨chunk, hchunk, r, hr, rfl⟩ := mem_plannedFilters.mp hf
    obtain ⟨ha, hlo, hhi⟩ : a ∈ chunk ∧ r.1.toNat ≤ b ∧ b ≤ r.2.toNat := of_decide_eq_true hcov
    obtain ⟨hfirst, -, hlast⟩ := hrs.tiles.mem (List.mem_map_of_mem hr)
    have hmem : a ∈ (chunks maxAddressPerRequest p.addresses).flatten :=
      List.mem_flatten.mpr ⟨chunk, hchunk, ha⟩
    rw [flatten_chunks] at hmem
    simp only [natRange] at hfirst hlast
    exact ⟨hmem, by omega, by omega⟩
  case addresses =>
    intro f hf
    obtain ⟨chunk, hchunk, r, hr, rfl⟩ := mem_plannedFilters.mp hf
    have hsub := List.sublist_flatten_of_mem hchunk
    rw [flatten_chunks] at hsub
    exact ⟨p.nodup_addresses.sublist hsub, length_of_mem_chunks (by decide) hchunk⟩
  case blocks =>
    intro k hk f hf
    obtain ⟨chunk, hchunk, r, hr, rfl⟩ := mem_plannedFilters.mp hf
    have := hrs.le k hk r hr
    show r.2.toNat + 1 - r.1.toNat ≤ _
    omega
  case increasing =>
    intro a ha
    have hord := hrs.tiles.pairwise
    rwa [← blocks_plannedFilters ha rs, List.map_map, List.pairwise_map] at hord
  case length =>
    simp only [plannedFilters, List.length_flatMap, List.length_map]
    rw [hrs.length, List.map_const', List.sum_replicate, length_chunks (by decide), smul_eq_mul]

/-- **The queries of a poll tile its window within the limits.** A scan that
returns `Ok` has issued filters that cover every monitored address in every
block of the window exactly once and nothing else, each with one to ten
addresses and at most `max_block_range` blocks, in increasing order for an
address, and as few as the two limits give. One that fails, or is under way,
has issued a prefix of the same filters. -/
theorem chunkAndPollLogs_tiles [ScribeAbi] (hle : p.lastProcessesBlock ≤ latestBlock)
    (hk : ∀ k, p.maxBlockRange = some k → 1 ≤ k.toNat ∧ latestBlock.toNat + k.toNat < 2 ^ 64) :
    ∃ fs, QueriesTile p latestBlock fs ∧ ∀ t q, Exec (p.chunkAndPollLogs latestBlock) t q →
      t.flatMap issued <+: fs ∧ (q = .done (.ok ()) → t.flatMap issued = fs) := by
  obtain ⟨rs, hrs, hspec⟩ := ranges_spec hle hk
  refine ⟨p.plannedFilters rs, queriesTile_plannedFilters hspec, ?_⟩
  intro t q h
  rcases chunkAndPollLogs_picks picksFilters_issued h with ⟨-, -, hnone⟩ | ⟨rs', hrs', hpre, hok⟩
  · rw [hrs] at hnone
    cases hnone
  · rw [hrs] at hrs'
    cases hrs'
    exact ⟨hpre, hok⟩

/-- A scan of three blocks in sub-ranges of two. -/
def sampleScan : List PollI.Event :=
  [⟨.getLogs (queryFilter [sampleAddress] 9 10), .ok []⟩,
    ⟨.getLogs (queryFilter [sampleAddress] 11 11), .ok []⟩]

theorem chunkAndPollLogs_tiles_sample :
    Returns (@chunkAndPollLogs sampleAbi (samplePoller 9 (some 2)) 11) sampleScan (.ok ()) ∧
      QueriesTile (samplePoller 9 (some 2)) 11 (sampleScan.flatMap issued) := by
  obtain ⟨fs, htile, hexec⟩ := @chunkAndPollLogs_tiles (samplePoller 9 (some 2)) 11 sampleAbi
    (by decide) (fun k hk => by rw [← Option.some.inj hk]; decide)
  obtain ⟨r, hret, hr⟩ := returns_of_returnsWith (t := sampleScan)
    (p := @chunkAndPollLogs sampleAbi (samplePoller 9 (some 2)) 11) (fun r => r.isOk)
    (by decide +kernel)
  cases r with
  | error e => cases hr
  | ok _ =>
    refine ⟨hret, ?_⟩
    rw [(hexec sampleScan _ hret).2 rfl]
    exact htile

end Poller
end Challenger
