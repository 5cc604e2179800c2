import Challenger.PollerRanges
import Mathlib.Algebra.Group.Nat.Defs

/-! # The iterations of the range loop

As long as no addition wraps, iteration `i` starts at the cursor plus `i`
times `max_block_range`. So the loop is safe, that is, it ends within the
blocks of its window, wraps nowhere and stays in the window, exactly when
`max_block_range` is positive and its last sum fits (`splitsSafely_iff`). The
command line promises neither. -/
namespace Challenger
open Lib

namespace Poller
variable {k latestBlock cursor : UInt64} {i : Nat}

/-! ## What is asked of the loop -/

/-- The loop variable after `i` iterations. -/
def rangeState (k latestBlock cursor : UInt64) (i : Nat) : RangeLoop :=
  (rangeBody k latestBlock)^[i] ⟨cursor, []⟩

/-- Iteration `i` is made. -/
def Iterates (k latestBlock cursor : UInt64) (i : Nat) : Prop :=
  ∀ j ≤ i, rangeCond latestBlock (rangeState k latestBlock cursor j) = true

/-- The body computes `current + max_blocks`, takes one off, and adds one to
the end of the sub-range; none of these wraps. -/
structure NoWrapAt (k latestBlock : UInt64) (s : RangeLoop) : Prop where
  add : s.current.toNat + k.toNat < 2 ^ 64
  sub : 1 ≤ s.current.toNat + k.toNat
  succ : (rangeEnd k latestBlock s.current).toNat + 1 < 2 ^ 64

structure SplitsSafely (k latestBlock cursor : UInt64) : Prop where
  terminates : ∃ s, whileLoop (rangeCond latestBlock) (rangeBody k latestBlock)
    (latestBlock.toNat - cursor.toNat + 1) ⟨cursor, []⟩ = some s
  noWrap : ∀ i, Iterates k latestBlock cursor i →
    NoWrapAt k latestBlock (rangeState k latestBlock cursor i)
  inside : ∀ i, Iterates k latestBlock cursor i →
    ∀ r ∈ (rangeState k latestBlock cursor (i + 1)).ranges,
      cursor ≤ r.1 ∧ r.1 ≤ r.2 ∧ r.2 ≤ latestBlock

/-! ## The iterations one by one -/

theorem rangeState_succ (k latestBlock cursor : UInt64) (i : Nat) :
    rangeState k latestBlock cursor (i + 1) =
      rangeBody k latestBlock (rangeState k latestBlock cursor i) :=
  Function.iterate_succ_apply' _ _ _

/-- The loop steps by `max_block_range` until it passes the head. -/
theorem rangeState_current (hk : 0 < k.toNat) (h : cursor.toNat + i * k.toNat ≤ latestBlock.toNat) :
    (rangeState k latestBlock cursor i).current.toNat = cursor.toNat + i * k.toNat := by
  induction i with
  | zero => simp [rangeState]
  | succ i ih =>
    rw [Nat.succ_mul] at h
    have hcur := ih (by omega)
    have hlt := latestBlock.toNat_lt
    have hend := @toNat_rangeEnd k latestBlock (rangeState k latestBlock cursor i).current hk
      (by omega)
    rw [rangeState_succ, Nat.succ_mul]
    show (rangeEnd k latestBlock _ + 1).toNat = _
    rw [toNat_succ_of_lt (by omega), hend]
    omega

/-- The iterations that start in the window are made. -/
theorem iterates_of_le (hk : 0 < k.toNat) (h : cursor.toNat + i * k.toNat ≤ latestBlock.toNat) :
    Iterates k latestBlock cursor i := by
  intro j hj
  have hmul := Nat.mul_le_mul_right k.toNat hj
  have hcur : (rangeState k latestBlock cursor j).current.toNat = cursor.toNat + j * k.toNat :=
    rangeState_current hk (by omega)
  simp only [rangeCond, decide_eq_true_eq, UInt64.le_iff_toNat_le]
  omega

/-- The number of the last iteration. -/
def lastIteration (k latestBlock cursor : UInt64) : Nat :=
  (latestBlock.toNat - cursor.toNat) / k.toNat

theorem lastIteration_le (hle : cursor.toNat ≤ latestBlock.toNat) :
    cursor.toNat + lastIteration k latestBlock cursor * k.toNat ≤ latestBlock.toNat := by
  have := Nat.div_mul_le_self (latestBlock.toNat - cursor.toNat) k.toNat
  unfold lastIteration
  omega

theorem lt_lastIteration_succ (hk : 0 < k.toNat) :
    latestBlock.toNat < cursor.toNat + (lastIteration k latestBlock cursor + 1) * k.toNat := by
  have := Nat.lt_mul_div_succ (latestBlock.toNat - cursor.toNat) hk
  rw [Nat.mul_comm] at this
  unfold lastIteration
  omega

/-- After the last iteration the loop variable is just past the head. -/
theorem rangeState_last (hk : 0 < k.toNat) (hle : cursor.toNat ≤ latestBlock.toNat)
    (hroom : latestBlock.toNat + 1 < 2 ^ 64)
    (hsum : cursor.toNat + lastIteration k latestBlock cursor * k.toNat + k.toNat ≤ 2 ^ 64) :
    (rangeState k latestBlock cursor (lastIteration k latestBlock cursor + 1)).current.toNat =
      latestBlock.toNat + 1 := by
  have hcur := rangeState_current hk (lastIteration_le (k := k) hle)
  have hlt := @lt_lastIteration_succ k latestBlock cursor hk
  have hend := @toNat_rangeEnd k latestBlock
    (rangeState k latestBlock cursor (lastIteration k latestBlock cursor)).current hk (by omega)
  rw [Nat.succ_mul] at hlt
  rw [rangeState_succ]
  show (rangeEnd k latestBlock _ + 1).toNat = _
  rw [toNat_succ_of_lt (by omega), hend]
  omega

/-- Where the last sum fits, no further iteration is made. -/
theorem le_last_of_iterates (hk : 0 < k.toNat) (hle : cursor.toNat ≤ latestBlock.toNat)
    (hroom : latestBlock.toNat + 1 < 2 ^ 64)
    (hsum : cursor.toNat + (lastIteration k latestBlock cursor + 1) * k.toNat < 2 ^ 64)
    (hi : Iterates k latestBlock cursor i) : i ≤ lastIteration k latestBlock cursor := by
  rw [Nat.succ_mul] at hsum
  have hpast := rangeState_last hk hle hroom (by omega)
  by_contra hlt
  have hc := hi (lastIteration k latestBlock cursor + 1) (by omega)
  simp only [rangeCond, decide_eq_true_eq, UInt64.le_iff_toNat_le] at hc
  omega

/-- Every sub-range was pushed by an iteration before. -/
theorem mem_rangeState {r : UInt64 × UInt64} (h : r ∈ (rangeState k latestBlock cursor i).ranges) :
    ∃ j < i, r = ((rangeState k latestBlock cursor j).current,
      rangeEnd k latestBlock (rangeState k latestBlock cursor j).current) := by
  induction i with
  | zero => simp [rangeState] at h
  | succ i ih =>
    rw [rangeState_succ] at h
    rcases List.mem_append.mp h with h | h
    · obtain ⟨j, hj, hr⟩ := ih h
      exact ⟨j, by omega, hr⟩
    · exact ⟨i, by omega, List.mem_singleton.mp h⟩

theorem rangeEnd_le (k latestBlock current : UInt64) :
    (rangeEnd k latestBlock current).toNat ≤ latestBlock.toNat := by
  rw [rangeEnd, toNat_min]; omega

/-- The loop ends after its last iteration. -/
theorem whileLoop_rangeState (hk : 0 < k.toNat) (hle : cursor.toNat ≤ latestBlock.toNat)
    (hroom : latestBlock.toNat + 1 < 2 ^ 64)
    (hsum : cursor.toNat + lastIteration k latestBlock cursor * k.toNat + k.toNat ≤ 2 ^ 64) {n : Nat}
    (hn : lastIteration k latestBlock cursor + 1 ≤ n) :
    whileLoop (rangeCond latestBlock) (rangeBody k latestBlock) n ⟨cursor, []⟩ =
      some (rangeState k latestBlock cursor (lastIteration k latestBlock cursor + 1)) := by
  refine whileLoop_eq_iterate ?_ ?_ hn
  · intro i hi
    exact iterates_of_le hk (lastIteration_le hle) i (by omega)
  · have hpast := rangeState_last hk hle hroom hsum
    simp only [rangeCond, decide_eq_false_iff_not, UInt64.le_iff_toNat_le]
    show ¬ (rangeState k latestBlock cursor _).current.toNat ≤ _
    omega

/-! ## When the loop is safe -/

theorem SplitsSafely.of_fits (hk : 0 < k.toNat) (hle : cursor.toNat ≤ latestBlock.toNat)
    (hroom : latestBlock.toNat + 1 < 2 ^ 64)
    (hsum : cursor.toNat + (lastIteration k latestBlock cursor + 1) * k.toNat < 2 ^ 64) :
    SplitsSafely k latestBlock cursor := by
  have hlast := lastIteration_le (k := k) hle
  have hsum' := hsum
  rw [Nat.succ_mul] at hsum'
  -- where an iteration that is made starts, and that its sum fits
  have hstart : ∀ i, Iterates k latestBlock cursor i →
      (rangeState k latestBlock cursor i).current.toNat = cursor.toNat + i * k.toNat ∧
        cursor.toNat + i * k.toNat ≤ latestBlock.toNat ∧
        cursor.toNat + i * k.toNat + k.toNat < 2 ^ 64 := by
    intro i hi
    have hmul := Nat.mul_le_mul_right k.toNat (le_last_of_iterates hk hle hroom hsum hi)
    exact ⟨rangeState_current hk (by omega), by omega, by omega⟩
  constructor
  case terminates =>
    exact ⟨_, whileLoop_rangeState hk hle hroom (by omega)
      (Nat.succ_le_succ (Nat.div_le_self _ _))⟩
  case noWrap =>
    intro i hi
    obtain ⟨hcur, -, hfits⟩ := hstart i hi
    have hend := rangeEnd_le k latestBlock (rangeState k latestBlock cursor i).current
    exact ⟨by omega, by omega, by omega⟩
  case inside =>
    intro i hi r hr
    obtain ⟨j, hj, rfl⟩ := mem_rangeState hr
    obtain ⟨hcur, hwindow, hfits⟩ := hstart j fun n hn => hi n (by omega)
    have hend := @toNat_rangeEnd k latestBlock (rangeState k latestBlock cursor j).current hk
      (by omega)
    simp only [UInt64.le_iff_toNat_le]
    omega

theorem SplitsSafely.fits (hk : 0 < k.toNat) (hle : cursor.toNat ≤ latestBlock.toNat)
    (h : SplitsSafely k latestBlock cursor) :
    cursor.toNat + (lastIteration k latestBlock cursor + 1) * k.toNat < 2 ^ 64 := by
  have hlast := lastIteration_le (k := k) hle
  have hadd := (h.noWrap _ (iterates_of_le hk hlast)).add
  rw [rangeState_current hk hlast] at hadd
  rw [Nat.succ_mul]
  omega

/-- With a `max_block_range` of zero the first sub-range ends before it
starts, unless the subtraction wraps. -/
theorem SplitsSafely.pos (hle : cursor.toNat ≤ latestBlock.toNat)
    (h : SplitsSafely k latestBlock cursor) : 0 < k.toNat := by
  by_contra hzero
  have hfirst : Iterates k latestBlock cursor 0 := by
    intro j hj
    obtain rfl : j = 0 := by omega
    simpa [rangeCond, rangeState, UInt64.le_iff_toNat_le] using hle
  have hsub : 1 ≤ cursor.toNat + k.toNat := (h.noWrap 0 hfirst).sub
  obtain ⟨-, hord, -⟩ := h.inside 0 hfirst (cursor, rangeEnd k latestBlock cursor)
    (by rw [rangeState_succ]; exact List.mem_append_right _ (List.mem_singleton_self _))
  have hlt := cursor.toNat_lt
  simp only [UInt64.le_iff_toNat_le, rangeEnd, toNat_min, UInt64.toNat_sub, UInt64.toNat_add,
    UInt64.toNat_one] at hord
  omega

/-- **When the range loop is safe.** It ends within the blocks of its window,
wraps nowhere and pushes ranges inside the window only, if and only if
`max_block_range` is positive and the last `current + max_blocks` fits. -/
theorem splitsSafely_iff (hle : cursor ≤ latestBlock) (hroom : latestBlock.toNat < 2 ^ 64 - 1) :
    SplitsSafely k latestBlock cursor ↔ 1 ≤ k.toNat ∧
      cursor.toNat + ((latestBlock.toNat - cursor.toNat) / k.toNat + 1) * k.toNat < 2 ^ 64 := by
  rw [UInt64.le_iff_toNat_le] at hle
  constructor
  · intro h
    exact ⟨h.pos hle, h.fits (h.pos hle) hle⟩
  · rintro ⟨hk, hsum⟩
    exact .of_fits hk hle (by omega) hsum

theorem splitsSafely_iff_sample : SplitsSafely 2 11 9 := by
  refine (splitsSafely_iff ?_ ?_).mpr ⟨?_, ?_⟩ <;> decide

/-- A `max_block_range` of zero: the loop goes round for ever. -/
theorem zero_range_not_safe : ¬ SplitsSafely 0 10 5 ∧
    ∀ n, whileLoop (rangeCond 10) (rangeBody 0 10) n ⟨5, []⟩ = none := by
  refine ⟨?_, range_loop_diverges_of_zero (by decide) (by decide)⟩
  intro h
  exact absurd (h.pos (by decide)) (by decide)

end Poller
end Challenger
