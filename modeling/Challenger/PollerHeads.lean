import Challenger.PollerTask

/-! # Arbitrary heads

The head that a node reports can be any `u64`. After a scan up to the last
block there is the cursor wraps to zero, and later polls may set it back. By
then everything from the first cursor on has been sent, so no log is missing
below the cursor whatever the heads are (`run_covers`). -/
namespace Challenger
open Lib Lib.Async

namespace PollerTask
variable [ScribeAbi] {chain : Chain} {p : Poller} {ls : List PollerLabel} {s s' : PollerTask}

/-- The environment answers from the chain, with any heads. -/
def Answering (chain : Chain) : PollEnv := fun _ _ e => Honest chain e

/-- Everything from the first cursor on has been sent. -/
def AllSent (chain : Chain) (p : Poller) (ls : List PollerLabel) : Prop :=
  ∀ a tx, p.handlerChannels.get a = some tx →
    ∀ event ∈ chain.eventsOf a p.lastProcessesBlock.toNat (2 ^ 64), event ∈ sentOn tx (answers ls)

/-- The cursor has not wrapped, or nothing is left to send. -/
def HeadsInv (chain : Chain) (p : Poller) (ls : List PollerLabel) (s : PollerTask) : Prop :=
  LoopInv (Answering chain) p ls s ∧ Delivered chain p ls s ∨ AllSent chain p ls

theorem HeadsInv.step {l : PollerLabel} (h : HeadsInv chain p ls s)
    (hl : Step (Answering chain) s l s') : HeadsInv chain p (ls ++ [l]) s' := by
  rcases h with ⟨hinv, hdel⟩ | hall
  · rcases hinv.cursor_moves (fun _ _ _ he => he) hl with
      hc | ⟨-, latestBlock, t, -, -, hle, hc, hsent⟩
    · exact .inl ⟨hinv.step_of_ne hl (hc ▸ hinv.cursor_ne), hdel.snoc l hc⟩
    · have hlo : s.poller.lastProcessesBlock.toNat ≤ latestBlock.toNat + 1 := by
        rw [UInt64.le_iff_toNat_le] at hle
        omega
      have hext := hdel.extend l hlo hsent
      by_cases hroom : latestBlock.toNat + 1 < 2 ^ 64
      · have hto := hc ▸ toNat_succ_of_lt hroom
        refine .inl ⟨hinv.step_of_ne hl ?_, ?_⟩
        · intro h0
          rw [h0] at hto
          cases hto
        · rw [Delivered, hto]
          exact ⟨hdel.1.trans hlo, hext⟩
      · -- the last block there is: the cursor wraps
        have hmax : latestBlock.toNat + 1 = 2 ^ 64 := by
          have := latestBlock.toNat_lt
          omega
        rw [hmax] at hext
        exact .inr hext
  · exact .inr fun a tx htx event he => sentOn_answers_mono l (hall a tx htx event he)

/-- With any heads, what the chain has from the first cursor to the current
one has been sent. -/
theorem run_covers (hs : p.lastProcessesBlock ≠ 0)
    (h : Run (Step (Answering chain)) ⟨p, .idle⟩ ls s) {a : Address} {tx : Sender}
    (htx : p.handlerChannels.get a = some tx) {event : Event} (he : event ∈
      chain.eventsOf a p.lastProcessesBlock.toNat s.poller.lastProcessesBlock.toNat) :
    event ∈ sentOn tx (answers ls) := by
  have hinv : HeadsInv chain p ls s := h.invariant (P := HeadsInv chain p)
    (.inl ⟨.init hs, .init chain p⟩) fun _ ih hl => ih.step hl
  rcases hinv with ⟨-, hdel⟩ | hall
  · exact hdel.2 a tx htx event he
  · obtain ⟨log, hlog, ⟨hlo, hhi⟩, hacc⟩ := Chain.mem_eventsOf.mp he
    have hlt := s.poller.lastProcessesBlock.toNat_lt
    exact hall a tx htx event (Chain.mem_eventsOf.mpr ⟨log, hlog, ⟨hlo, hhi.trans hlt⟩, hacc⟩)

end PollerTask
end Challenger
