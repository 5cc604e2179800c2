import Challenger.Poller

/-! # The sub-ranges of a poll

Whatever the arithmetic does, sub-ranges that were built cover every block
from the cursor to the head (`ranges_cover`). When no addition wraps they also
follow one another without overlap (`ranges_tiles`). With a `max_block_range`
of zero the loop that builds them goes round for ever (`ranges_none_of_zero`),
and so does any other that is not left within as many iterations as there are
`u64` values (`range_loop_none`). -/
namespace Challenger
open Lib

/-! ## `u64` arithmetic as arithmetic of naturals -/

theorem toNat_min (a b : UInt64) : (min a b).toNat = min a.toNat b.toNat := by
  show (if a ≤ b then a else b).toNat = _
  split
  · rename_i h
    exact (Nat.min_eq_left (UInt64.le_iff_toNat_le.mp h)).symm
  · rename_i h
    rw [UInt64.le_iff_toNat_le] at h
    exact (Nat.min_eq_right (by omega)).symm

theorem toNat_succ_of_lt {a : UInt64} (h : a.toNat + 1 < 2 ^ 64) : (a + 1).toNat = a.toNat + 1 := by
  rw [UInt64.toNat_add, UInt64.toNat_one]; omega

/-- An increment that does not give zero has not wrapped. -/
theorem toNat_succ_le (a : UInt64) : (a + 1).toNat ≤ a.toNat + 1 := by
  rw [UInt64.toNat_add, UInt64.toNat_one]; omega

namespace Poller

/-- No addition of a poll that scans up to `latestBlock` wraps: neither the
final `latest_block + 1` nor, at any start of a sub-range, what is one below
the sum with `max_block_range`. -/
structure NoWrap (p : Poller) (latestBlock : UInt64) : Prop where
  succ : latestBlock.toNat + 1 < 2 ^ 64
  range : ∀ k, p.maxBlockRange = some k → ∀ c, p.lastProcessesBlock.toNat ≤ c →
    c ≤ latestBlock.toNat → k.toNat ∣ c - p.lastProcessesBlock.toNat → c + k.toNat ≤ 2 ^ 64

theorem NoWrap.of_lt {p : Poller} {latestBlock : UInt64} (h : latestBlock.toNat + 1 < 2 ^ 64)
    (hk : ∀ k, p.maxBlockRange = some k → latestBlock.toNat + k.toNat ≤ 2 ^ 64) :
    p.NoWrap latestBlock :=
  ⟨h, fun k hpk c _ hc _ => by have := hk k hpk; omega⟩

/-- `max_block_range` is absent or positive. -/
def PositiveRange (p : Poller) : Prop := p.maxBlockRange ≠ some 0

theorem PositiveRange.pos {p : Poller} (h : p.PositiveRange) {k : UInt64}
    (hk : p.maxBlockRange = some k) : 0 < k.toNat := by
  rcases Nat.eq_zero_or_pos k.toNat with h0 | h0
  · have : k = 0 := UInt64.toNat_inj.mp h0
    exact absurd (this ▸ hk) h
  · exact h0

theorem toNat_rangeEnd {k latestBlock c : UInt64} (hk : 0 < k.toNat)
    (h : c.toNat + k.toNat ≤ 2 ^ 64) :
    (rangeEnd k latestBlock c).toNat = min (c.toNat + k.toNat - 1) latestBlock.toNat := by
  unfold rangeEnd
  rw [toNat_min, UInt64.toNat_sub, UInt64.toNat_add, UInt64.toNat_one]
  congr 1
  omega

/-! ## Coverage -/

def Covered (rs : List (UInt64 × UInt64)) (b : Nat) : Prop :=
  ∃ r ∈ rs, r.1.toNat ≤ b ∧ b ≤ r.2.toNat

theorem Covered.append {rs rs' : List (UInt64 × UInt64)} {b : Nat} (h : Covered rs b) :
    Covered (rs ++ rs') b := by
  obtain ⟨r, hr, hb⟩ := h
  exact ⟨r, List.mem_append_left _ hr, hb⟩

theorem Covered.last {rs : List (UInt64 × UInt64)} {c e : UInt64} {b : Nat} (hc : c.toNat ≤ b)
    (he : b ≤ e.toNat) : Covered (rs ++ [(c, e)]) b :=
  ⟨(c, e), List.mem_append_right _ (List.mem_singleton_self _), hc, he⟩

/-- Sub-ranges that were built leave no block out, also after a wrap: the
loop only steps back over blocks it has covered. -/
theorem ranges_cover {p : Poller} {latestBlock : UInt64} {rs : List (UInt64 × UInt64)}
    (h : p.ranges latestBlock = some rs) {b : Nat} (hlo : p.lastProcessesBlock.toNat ≤ b)
    (hhi : b ≤ latestBlock.toNat) : Covered rs b := by
  unfold ranges at h
  split at h
  · rw [← Option.some.inj h]
    exact ⟨_, List.mem_singleton_self _, hlo, hhi⟩
  · rename_i k _
    obtain ⟨s, hs, rfl⟩ := Option.map_eq_some_iff.mp h
    -- every block from the cursor to the loop variable is covered
    have hinv := whileLoop_invariant
      (P := fun s => ∀ b, p.lastProcessesBlock.toNat ≤ b → b < s.current.toNat → Covered s.ranges b)
      (fun s _ ih b hlo hb => by
        by_cases hc : b < s.current.toNat
        · exact (ih b hlo hc).append
        · have := toNat_succ_le (rangeEnd k latestBlock s.current)
          have hb : b < (rangeEnd k latestBlock s.current + 1).toNat := hb
          exact .last (c := s.current) (e := rangeEnd k latestBlock s.current)
            (Nat.le_of_not_lt hc) (by omega))
      (fun b hlo hb => absurd hb (by simpa using hlo)) hs
    have hexit : ¬ s.current ≤ latestBlock := by simpa [rangeCond] using hinv.2
    rw [UInt64.le_iff_toNat_le] at hexit
    exact hinv.1 b hlo (by omega)

/-! ## Tiling -/

/-- A sub-range as naturals. -/
def natRange (r : UInt64 × UInt64) : Nat × Nat := (r.1.toNat, r.2.toNat)

/-- What holds at the head of the loop when nothing wraps: the ranges so far
tile the blocks up to `current`, which is a start of a sub-range or past the
head. -/
structure RangeInv (p : Poller) (k latestBlock : UInt64) (s : RangeLoop) : Prop where
  tiles : Tiles p.lastProcessesBlock.toNat (s.ranges.map natRange) s.current.toNat
  le : s.current.toNat ≤ latestBlock.toNat + 1
  start : s.current.toNat ≤ latestBlock.toNat →
    k.toNat ∣ s.current.toNat - p.lastProcessesBlock.toNat

theorem RangeInv.body {p : Poller} {k latestBlock : UInt64} {s : RangeLoop}
    (hk : p.maxBlockRange = some k) (hpos : 0 < k.toNat) (hw : p.NoWrap latestBlock)
    (hc : rangeCond latestBlock s = true) (hs : RangeInv p k latestBlock s) :
    RangeInv p k latestBlock (rangeBody k latestBlock s) := by
  have hc : s.current.toNat ≤ latestBlock.toNat := by
    rw [← UInt64.le_iff_toNat_le]; simpa [rangeCond] using hc
  have hlo := hs.tiles.le
  have hwk := hw.range k hk _ hlo hc (hs.start hc)
  have hw1 := hw.succ
  have hend : (rangeEnd k latestBlock s.current).toNat =
      min (s.current.toNat + k.toNat - 1) latestBlock.toNat := toNat_rangeEnd hpos hwk
  have hcur : (rangeBody k latestBlock s).current.toNat =
      (rangeEnd k latestBlock s.current).toNat + 1 := toNat_succ_of_lt (by omega)
  refine ⟨?_, by omega, ?_⟩
  · rw [hcur]
    simp only [rangeBody, List.map_append, List.map_cons, List.map_nil, natRange]
    exact hs.tiles.snoc (by omega)
  · intro hle
    -- the range was not clamped, so the loop advanced by `k`
    rw [hcur, show (rangeEnd k latestBlock s.current).toNat + 1 - p.lastProcessesBlock.toNat =
      (s.current.toNat - p.lastProcessesBlock.toNat) + k.toNat by omega]
    exact Nat.dvd_add (hs.start hc) (Nat.dvd_refl _)

theorem RangeInv.init {p : Poller} {k latestBlock : UInt64}
    (h : p.lastProcessesBlock.toNat ≤ latestBlock.toNat) :
    RangeInv p k latestBlock ⟨p.lastProcessesBlock, []⟩ :=
  ⟨rfl, by simp only; omega, fun _ => by simp⟩

theorem ranges_tiles {p : Poller} {latestBlock : UInt64} {rs : List (UInt64 × UInt64)}
    (h : p.ranges latestBlock = some rs) (hle : p.lastProcessesBlock ≤ latestBlock)
    (hpos : p.PositiveRange) (hw : p.NoWrap latestBlock) :
    Tiles p.lastProcessesBlock.toNat (rs.map natRange) (latestBlock.toNat + 1) := by
  rw [UInt64.le_iff_toNat_le] at hle
  unfold ranges at h
  split at h
  · rw [← Option.some.inj h]
    exact ⟨rfl, hle, rfl⟩
  · rename_i k hk
    obtain ⟨s, hs, rfl⟩ := Option.map_eq_some_iff.mp h
    obtain ⟨hinv, hexit⟩ := whileLoop_invariant (P := RangeInv p k latestBlock)
      (fun s hc hs => hs.body hk (hpos.pos hk) hw hc) (.init hle) hs
    have hexit : ¬ s.current ≤ latestBlock := by simpa [rangeCond] using hexit
    rw [UInt64.le_iff_toNat_le] at hexit
    have : s.current.toNat = latestBlock.toNat + 1 := by have := hinv.le; omega
    exact this ▸ hinv.tiles

/-- With a `max_block_range` of zero the loop stays where it is and never ends. -/
theorem range_loop_diverges_of_zero {cursor latestBlock : UInt64} (hs : cursor ≠ 0)
    (hle : cursor ≤ latestBlock) (n : Nat) :
    whileLoop (rangeCond latestBlock) (rangeBody 0 latestBlock) n ⟨cursor, []⟩ = none := by
  have hstay : rangeEnd 0 latestBlock cursor + 1 = cursor := by
    have hpos : 0 < cursor.toNat := Nat.pos_of_ne_zero fun h => hs (UInt64.toNat_inj.mp h)
    have hlt := cursor.toNat_lt
    rw [UInt64.le_iff_toNat_le] at hle
    apply UInt64.toNat_inj.mp
    rw [UInt64.toNat_add, rangeEnd, toNat_min, UInt64.toNat_sub, UInt64.add_zero, UInt64.toNat_one]
    omega
  refine whileLoop_diverges (P := fun s => s.current = cursor) ?_ rfl n
  intro s hcur
  constructor
  · simpa [rangeCond, hcur] using hle
  · simp [rangeBody, hcur, hstay]

theorem ranges_none_of_zero {p : Poller} {latestBlock : UInt64} (hk : p.maxBlockRange = some 0)
    (hs : p.lastProcessesBlock ≠ 0) (hle : p.lastProcessesBlock ≤ latestBlock) :
    p.ranges latestBlock = none := by
  simp only [ranges, hk, Option.map_eq_none_iff]
  exact range_loop_diverges_of_zero hs hle rangeLoopBound

/-- A loop that was given up within `rangeLoopBound` iterations never ends. -/
theorem range_loop_none {k latestBlock : UInt64} {s : RangeLoop}
    (h : whileLoop (rangeCond latestBlock) (rangeBody k latestBlock) rangeLoopBound s = none)
    (n : Nat) : whileLoop (rangeCond latestBlock) (rangeBody k latestBlock) n s = none := by
  refine whileLoop_none_of_card (τ := Fin UInt64.size) (fun s : RangeLoop => s.current.toFin)
    (fun c => (rangeEnd k latestBlock (.ofFin c) + 1).toFin)
    (fun c => decide (UInt64.ofFin c ≤ latestBlock))
    (fun _ => rfl) (fun _ => rfl) ?_ n
  rw [Fintype.card_fin]
  exact h

end Poller
end Challenger
