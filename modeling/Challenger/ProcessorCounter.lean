import Challenger.Challenge
import Challenger.ProcessorCalls

/-! # The challenge counter

A task increments the counter of its contract when its challenge returns
`Ok`. In every run the counter is the number of these tasks (`counter_exact`).
-/
namespace Challenger
open Lib Lib.Async

namespace Contracts
variable {ι : Type} [DecidableEq ι] {c : ι → ScribeContractInstance} {s s' : Contracts ι} {i j : ι}
  {k : Nat} {l : ContractsLabel ι} {ls : List (ContractsLabel ι)}

/-- The challenges that have returned `Ok`, each with its processor and task. -/
def Succeeded (s : Contracts ι) (x : ι × Nat) : Prop :=
  ∃ call txHash, s.challenge x.1 x.2 = some call ∧ call.result = some (.ok txHash)

/-- The counter has an increment for each of these calls, and no other. -/
def Counts (c : ι → ScribeContractInstance) (s : Contracts ι) (done : List (ι × Nat)) : Prop :=
  done.Nodup ∧ s.challengeCounter = done.map (fun x => (c x.1).address) ∧
    ∀ x, x ∈ done ↔ s.Succeeded x

omit [DecidableEq ι] in
/-- A call that is polled has not returned before. -/
theorem not_succeeded_of_running (h : TaskCalls c s) {task : ChallengeTask ι}
    (ht : (s.world.processors i).tasks[k]? = some task) (hp : World.running task.phase = true) :
    ¬ s.Succeeded (i, k) := by
  intro hs
  obtain ⟨call, txHash, hcall, hresult⟩ := hs
  have htask := h i k
  rw [ht, hcall] at htask
  cases htask with
  | called _ _ hfinished =>
    rw [(hfinished _).mpr hresult] at hp
    cases hp

theorem Counts.step {done : List (ι × Nat)} (h : Counts c s done) (hcalls : TaskCalls c s)
    (hl : s.step c l = some s') : ∃ done', Counts c s' done' := by
  cases step_cases hl with
  | answerPeriod _ _ => exact ⟨done, h⟩
  | answerValidation _ _ _ => exact ⟨done, h⟩
  | @step l world ha hw =>
    refine ⟨done, ?_⟩
    unfold follow
    split <;> exact h
  | @call i k task cancelledFirst answers returned call world ht hpolls hcall hr hw =>
    obtain ⟨hnodup, hcounter, hmem⟩ := h
    have hnot := not_succeeded_of_running hcalls ht (wake_tasks hw ht).1
    -- the other calls are as they were
    have hother : ∀ x, x ≠ (i, k) → ((∃ call' txHash, s.setChallenge i k call x.1 x.2 = some call' ∧
        call'.result = some (.ok txHash)) ↔ s.Succeeded x) := by
      intro x hx
      rw [setChallenge_of_ne fun he => hx (Prod.ext he.1 he.2)]
      exact Iff.rfl
    have hself : (∃ call' txHash, s.setChallenge i k call i k = some call' ∧
        call'.result = some (.ok txHash)) ↔ ∃ txHash, returned = some (.ok txHash) := by
      rw [setChallenge_self, ← hr]
      simp
    by_cases hok : ∃ txHash, returned = some (.ok txHash)
    · obtain ⟨txHash, rfl⟩ := hok
      refine ⟨done ++ [(i, k)], ?_, ?_, ?_⟩
      · refine List.nodup_append.mpr ⟨hnodup, by simp, ?_⟩
        intro x hx y hy
        rw [List.mem_singleton.mp hy]
        exact fun he => hnot ((hmem _).mp (he ▸ hx))
      · simp [hcounter, ScribeContractInstance.counted]
      · intro x
        rw [List.mem_append, List.mem_singleton, hmem]
        by_cases hx : x = (i, k)
        · subst hx
          exact ⟨fun _ => hself.mpr ⟨txHash, rfl⟩, fun _ => .inr rfl⟩
        · rw [or_iff_left hx]
          exact (hother x hx).symm
    · refine ⟨done, hnodup, ?_, ?_⟩
      · have hnone : (c i).counted returned = [] := by
          unfold ScribeContractInstance.counted
          split
          · exact absurd ⟨_, rfl⟩ hok
          · rfl
        simp [hcounter, hnone]
      · intro x
        rw [hmem]
        by_cases hx : x = (i, k)
        · subst hx
          exact ⟨fun hs => absurd hs hnot, fun hs => absurd (hself.mp hs) hok⟩
        · exact (hother x hx).symm
  | noCall _ _ _ => exact ⟨done, h⟩

/-- What the counter of a run counts. -/
structure CounterExact (c : ι → ScribeContractInstance) (s : Contracts ι) (done : List (ι × Nat)) :
    Prop where
  nodup : done.Nodup
  counter : ∀ a, s.challengeCounter.count a = done.countP fun x => (c x.1).address = a
  finished : ∀ i k, (i, k) ∈ done ↔ ∃ task txHash,
    (s.world.processors i).tasks[k]? = some task ∧ task.phase = .finished (.ok txHash)
  told : ∀ i k, (i, k) ∈ done → ∃ call txHash, s.challenge i k = some call ∧
    call.result = some (.ok txHash) ∧
    call.answered.flatMap ScribeContractInstance.toldIncluded = [txHash]

/-- **The challenge counter is exact.** In every run the counter of a contract
is the number of tasks of its processors whose challenge returned `Ok`: each
counts once, was told of exactly one included transaction, and the tasks that
failed, were cancelled or still run do not count. -/
theorem counter_exact (h : Run (Step c) (start c) ls s) : ∃ done, CounterExact c s done := by
  obtain ⟨done, hnodup, hcounter, hmem⟩ : ∃ done, Counts c s done := by
    refine h.invariant (P := fun _ s => ∃ done, Counts c s done) ⟨[], List.nodup_nil, rfl, ?_⟩ ?_
    · intro x
      refine ⟨fun hx => absurd hx List.not_mem_nil, fun hx => ?_⟩
      obtain ⟨call, txHash, hcall, -⟩ := hx
      cases hcall
    · intro ls s l s' hr ih hl
      obtain ⟨done, hdone⟩ := ih
      exact hdone.step (TaskCalls.run hr) hl
  have hcalls := TaskCalls.run h
  refine ⟨done, hnodup, ?_, ?_, ?_⟩
  · intro a
    rw [hcounter, List.count_eq_countP, List.countP_map]
    congr 1
  · intro i k
    rw [hmem]
    constructor
    · intro hs
      obtain ⟨call, txHash, hcall, hresult⟩ := hs
      have htask := hcalls i k
      rw [hcall] at htask
      generalize (s.world.processors i).tasks[k]? = found at htask ⊢
      cases htask with
      | called _ _ hfinished => exact ⟨_, txHash, rfl, (hfinished _).mpr hresult⟩
    · intro hs
      obtain ⟨task, txHash, ht, hphase⟩ := hs
      have htask := hcalls i k
      rw [ht] at htask
      generalize hfound : s.challenge i k = found at htask
      cases htask with
      | notCalled hidle =>
        rcases hidle with ⟨elapsed, hidle⟩ | hidle <;> rw [hphase] at hidle <;> cases hidle
      | called _ _ hfinished => exact ⟨_, txHash, hfound, (hfinished _).mp hphase⟩
  · intro i k hx
    obtain ⟨call, txHash, hcall, hresult⟩ := (hmem _).mp hx
    have htask := hcalls i k
    rw [hcall] at htask
    generalize (s.world.processors i).tasks[k]? = found at htask
    cases htask with
    | called hprogram _ _ =>
      have hreturns := Call.returns_of_result hresult
      rw [hprogram] at hreturns
      exact ⟨call, txHash, hcall, hresult, ScribeContractInstance.challenge_told hreturns⟩

/-- The processor of the sample contract validates a log and challenges it. -/
def sampleCounted : List (ContractsLabel Unit) :=
  [.answer () ⟨.opChallengePeriod sampleAddress, .ok 600⟩, .step (.period () (.ok 600)),
    .step (.send () (.opPoked World.samplePoked)), .step (.recv () (.opPoked World.samplePoked)),
    .answer () ⟨.getBlock 10, .ok (some 100)⟩, .answer () ⟨.now, (105 : UInt64)⟩,
    .answer () ⟨.constructPokeMessage sampleAddress sampleOpPoked.pokeData, .ok 7⟩,
    .answer () ⟨.isAcceptableSchnorrSignatureNow sampleAddress 7 sampleOpPoked.schnorrData,
      .ok false⟩,
    .step (.judged () World.samplePoked (.ok true)), .step (.elapse () 0),
    .wake () 0 false [] none,
    .wake () 0 true ScribeContractInstance.sampleChallenge (some (.ok sampleHash))]

theorem counter_exact_sample : ∃ s, Run (Step fun _ : Unit =>
      ScribeContractInstance.sampleContract true) (start fun _ =>
      ScribeContractInstance.sampleContract true) sampleCounted s ∧
    s.challengeCounter = [sampleAddress] ∧
    ∃ done, CounterExact (fun _ => ScribeContractInstance.sampleContract true) s done := by
  obtain ⟨s, hrun, htest⟩ : ∃ s, Run (Step fun _ : Unit =>
      ScribeContractInstance.sampleContract true) (start fun _ =>
      ScribeContractInstance.sampleContract true) sampleCounted s ∧
      (s.challengeCounter == [sampleAddress]) = true :=
    exists_run_of_runSteps (fun s : Contracts Unit => s.challengeCounter == [sampleAddress])
      (by decide +kernel)
  exact ⟨s, hrun, eq_of_beq htest, counter_exact hrun⟩

end Contracts
end Challenger
