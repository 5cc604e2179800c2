import Challenger.Duty
import Challenger.Provenance
import Challenger.Supervision

/-! # The end of the process

The shutdown token asks; it does not force. A task sees it only in its
`select!`, so a poll or a validation under way goes on to its end, queued
events may still be handled, and `main` waits for all of it. This ends
(`shutdown_ends`): as long as no task picks the other branch of its `select!`
for ever, every run after the shutdown comes to rest, and it rests only when
`main` has left, or when the poller is in a loop over sub-ranges that has no
end. -/
namespace Challenger
open Lib Lib.Async Relation

namespace Process
variable {m : Wiring} {s s' : Process} {l : ProcessLabel} {ls : List ProcessLabel} {i : Nat}
variable [ScribeAbi]

/-- The steps of a process that follows the cancellation. -/
def Closing (m : Wiring) : Process → ProcessLabel → Process → Prop :=
  Guarded (Step m) fun _ l => works l = true

theorem cut_closing (h : Run (Step m) (start m) ls s) (hd : s.Down) (hl : Closing m s l s') :
    CutExpand Duty.Below (duties m s') (duties m s) := by
  obtain ⟨hl, hh⟩ := hl
  have hmain := (down_iff_main h).mp hd
  refine cut_works hl hh ?_ ?_ ?_
  · intro he
    subst he
    cases (step_cases hl).2 with
    | ctrlC hs => exact hmain hs
  · intro task he
    subst he
    cases (step_cases hl).2 with
    | joinNext hs _ _ => exact hmain hs
  · intro i k cancelledFirst answers returned he
    subst he
    cases (step_cases hl).2 with
    | contracts _ hcontracts =>
      exact cut_cancelled (fun task ht => World.task_cancelled (world_run h) hd
        (List.mem_of_getElem? ht)) hcontracts

theorem comesToRest_of_down (h : Run (Step m) (start m) ls s) (hd : s.Down) :
    ComesToRest (Closing m) s := by
  refine comesToRest Duty.below_wf (duties m)
    (P := fun s : Process => (∃ ls, Run (Step m) (start m) ls s) ∧ s.Down) ?_ ?_ ⟨⟨ls, h⟩, hd⟩
  · intro s l s' hs hl
    obtain ⟨⟨ls, h⟩, hd⟩ := hs
    exact ⟨⟨_, .snoc h hl.1⟩, down_step hl.1 hd⟩
  · intro s l s' hs hl
    obtain ⟨⟨ls, h⟩, hd⟩ := hs
    exact cut_closing h hd hl

/-! ## No task waits for another -/

theorem closing_contracts (hexit : s.exited = false) (h : GoesOn m s.contracts) :
    ∃ l s', Closing m s l s' := by
  obtain ⟨l, contracts', ho, hw, -, hl⟩ := h
  exact ⟨.contracts l, { s with contracts := contracts' }, by simp [Step, Takes, step, hexit, ho, hl],
    hw⟩

/-- A processor that has not returned can go on. -/
theorem processor_goes_on (h : Run (Step m) (start m) ls s) (hd : s.Down) (hexit : s.exited = false)
    (hi : i < m.set.length) (hrunning : ∀ r, (s.contracts.world.processors i).phase ≠ .stopped r) :
    ∃ l s', Closing m s l s' := by
  refine closing_contracts hexit ?_
  by_cases hidle : (s.contracts.world.processors i).phase = .idle
  · have hroot : Token.Cancelled s.contracts.world.cancelled Token.root := hd
    exact .of_world (l := .stop i) (decide_eq_true hi) rfl rfl (by simp [World.step, hidle, hroot])
  · exact call_goes_on (contracts_run h) hi hidle hrunning

/-- When the processors have returned, the poller can go on: what it sends on
their channels comes back. -/
theorem poller_goes_on (haddressed : m.Addressed) (h : Run (Step m) (start m) ls s) (hd : s.Down)
    (hexit : s.exited = false) (hspin : ¬ s.Spinning)
    (hstopped : ∀ i < m.set.length, ∃ r, (s.contracts.world.processors i).phase = .stopped r)
    (hrunning : ∀ r, s.poller.phase ≠ .stopped r) : ∃ l s', Closing m s l s' := by
  have hroot : Token.Cancelled s.contracts.world.cancelled Token.root := hd
  cases hphase : s.poller.phase with
  | idle =>
    exact ⟨.poller .cancelled, _, by
      simp [Step, Takes, step, hexit, PollerTask.step, hphase, System.answered, hroot]; rfl, rfl⟩
  | polling t q =>
    obtain ⟨l, s', hl, hstep⟩ := poll_goes_on (m := m) hphase hexit hspin fun tx event k hq => by
      subst hq
      have hpoller : Run (Takes PollerTask.step) ⟨m.poller, .idle⟩ (ls.flatMap pollerLabels)
          s.poller := (toPoller m).run h
      have hgrounded := ((PollerTask.GroundedInv.run hpoller).poll t _ hphase).1
      obtain ⟨r, hr⟩ := hstopped tx.channel (haddressed _ _ hgrounded.1).1
      exact ⟨.error event, s.contracts.world, by simp [System.answered, hr]⟩
    refine ⟨.poller l, s', hstep, ?_⟩
    cases l with
    | tick => exact absurd rfl hl
    | _ => rfl
  | stopped r => exact absurd hphase (hrunning r)

/-- When all tasks have ended, `main` can go on. -/
theorem main_goes_on (h : Run (Step m) (start m) ls s) (hd : s.Down) (hexit : s.exited = false)
    (hall : ∀ task ∈ m.tasks, ∃ r, s.result task = some r) : ∃ l s', Closing m s l s' := by
  have hmain : s.main = .joining := by
    have hne := (down_iff_main h).mp hd
    cases hs : s.main <;> simp_all [exited]
  by_cases hjoined : ∀ task ∈ m.tasks, task ∈ s.joined
  · exact ⟨.finish, { s with main := .returned },
      by simpa [Step, Takes, step, hexit, hmain] using hjoined, rfl⟩
  · simp only [not_forall] at hjoined
    obtain ⟨task, ht, hj⟩ := hjoined
    obtain ⟨r, hr⟩ := hall task ht
    exact ⟨.joinAll task, _, by simp [Step, Takes, step, hexit, hmain, ht, hj, hr]; rfl, rfl⟩

/-- After the shutdown the process can go on until `main` has left, unless the
poller spins. -/
theorem goes_on (haddressed : m.Addressed) (h : Run (Step m) (start m) ls s) (hd : s.Down)
    (hexit : s.exited = false) (hspin : ¬ s.Spinning) : ∃ l s', Closing m s l s' := by
  by_cases hprocessors : ∀ i < m.set.length, ∃ r, (s.contracts.world.processors i).phase = .stopped r
  · by_cases hpoller : ∃ r, s.poller.phase = .stopped r
    · by_cases hcollector : s.collector = .running
      · have hroot : Token.Cancelled s.contracts.world.cancelled Token.root := hd
        exact ⟨.collectorCancelled, { s with collector := .stopped },
          by simp [Step, Takes, step, hexit, hcollector, hroot], rfl⟩
      · refine main_goes_on h hd hexit ?_
        intro task ht
        simp only [Wiring.tasks, List.mem_append, List.mem_map, List.mem_range, List.mem_cons,
          List.not_mem_nil, or_false] at ht
        rcases ht with ⟨i, hi, rfl⟩ | rfl | rfl
        · obtain ⟨r, hr⟩ := hprocessors i hi
          rw [result, hr]
          cases r <;> exact ⟨_, rfl⟩
        · obtain ⟨r, hr⟩ := hpoller
          rw [result, hr]
          cases r <;> exact ⟨_, rfl⟩
        · rw [result]
          cases hc : s.collector with
          | running => exact absurd hc hcollector
          | _ => exact ⟨_, rfl⟩
    · exact poller_goes_on haddressed h hd hexit hspin hprocessors fun r hr => hpoller ⟨r, hr⟩
  · simp only [not_forall, not_exists] at hprocessors
    obtain ⟨i, hi, hrunning⟩ := hprocessors
    exact processor_goes_on h hd hexit hi hrunning

/-! ## How it ends -/

/-- The loop without an end gets no answer. -/
theorem Spinning.step (h : s.Spinning) (hl : s.step m l = some s') : s'.Spinning := by
  obtain ⟨t, k, hphase⟩ := h
  have hsame : s'.poller = s.poller → s'.Spinning := fun hp => ⟨t, k, by rw [hp]; exact hphase⟩
  cases (step_cases hl).2 with
  | poller hp _ =>
    cases PollerTask.step_cases hp with
    | cancelled hs => rw [hphase] at hs; cases hs
    | tick hs => rw [hphase] at hs; cases hs
    | answer hs hq =>
      rw [hphase] at hs
      cases hs
      rcases Exec.await_inv hq with ⟨hnil, -⟩ | ⟨r, -⟩
      · cases hnil
      · exact r.elim
    | polled hs => rw [hphase] at hs; cases hs
  | contracts _ _ => exact hsame rfl
  | close _ _ _ _ => exact hsame rfl
  | collect _ => exact hsame rfl
  | collectorCancelled _ _ => exact hsame rfl
  | collectorPanicked _ => exact hsame rfl
  | ctrlC _ => exact hsame rfl
  | joinNext _ _ _ => exact hsame rfl
  | joinAll _ _ _ _ => exact hsame rfl
  | joinPanicked _ _ _ _ => exact hsame rfl
  | finish _ _ => exact hsame rfl

/-- `main` does not return while the poller spins. -/
theorem not_returned_of_spinning (h : Run (Step m) (start m) ls s) (hspin : s.Spinning) :
    s.main ≠ .returned := by
  intro hr
  have hinv := MainInv.run h
  have hmem : SetTask.poller ∈ m.tasks := by simp [Wiring.tasks]
  obtain ⟨r, hresult⟩ := hinv.joined _ (hinv.returned hr _ hmem)
  obtain ⟨x, hx⟩ := poller_stopped_of_result hresult
  obtain ⟨t, k, hphase⟩ := hspin
  rw [hphase] at hx
  cases hx

/-- How the process ends after the shutdown. -/
structure Ends (m : Wiring) (s : Process) : Prop where
  rest : ComesToRest (Closing m) s
  ends : ∃ ls' s', Run (Closing m) s ls' s' ∧ AtRest (Closing m) s'
  left : ∀ ls' s', Run (Closing m) s ls' s' → AtRest (Closing m) s' → s'.main = .returned ∨
    s'.main = .panicked ∧ s'.collector = .panicked ∨ s'.Spinning
  hangs : s.Spinning → ∀ ls' s', Run (Step m) s ls' s' → s'.main ≠ .returned

/-- **The shutdown ends the process.** From the cancellation of the token on,
however the tasks interleave and whatever the calls are answered with: unless
a task keeps choosing the other branch of its `select!`, nothing goes on for
ever, and no task is stuck, not on a full channel either, until `main` has
joined all tasks, or has panicked with the collector. The one exception is a
poll over sub-ranges that do not end, and then `main` never returns. -/
theorem shutdown_ends {parse : String → Except String Address} {keyOrder : KeyOrder}
    {signer : Address} {args : Cli} (hm : Challenger.main parse keyOrder signer args = .ok m)
    (h : Run (Step m) (start m) ls s) (hd : s.Down) : Ends m s := by
  have hrest := comesToRest_of_down h hd
  constructor
  case rest => exact hrest
  case ends => exact hrest.exists_atRest
  case left =>
    intro ls' s' h' hatRest
    have hrun := h.append h'.unguarded
    have hd' : s'.Down := h'.preserves (fun hd hl => down_step hl.1 hd) hd
    by_cases hspin : s'.Spinning
    · exact .inr (.inr hspin)
    · by_cases hexit : s'.exited = false
      · obtain ⟨l, s'', hl⟩ := goes_on (main_addressed hm) hrun hd' hexit hspin
        exact absurd hl (hatRest l s'')
      · simp only [exited, Bool.not_eq_false, Bool.or_eq_true, decide_eq_true_eq] at hexit
        exact hexit.imp_right fun hp => .inl ⟨hp, (MainInv.run hrun).panicked hp⟩
  case hangs =>
    intro hspin ls' s' h'
    have hspin' : s'.Spinning := h'.preserves (fun hs hl => hs.step hl) hspin
    exact not_returned_of_spinning (h.append h') hspin'

/-- A challenge is running when the process is told to shut down. -/
def sampleInterrupted : List ProcessLabel := sampleChallenged ++ [.ctrlC]

omit [ScribeAbi] in
theorem shutdown_ends_sample : ∃ s, Run (@Step sampleAbi sampleWiring) (start sampleWiring)
    sampleInterrupted s ∧ (s.contracts.challenge 0 0).isSome = true ∧
      @Ends sampleAbi sampleWiring s := by
  let _ := sampleAbi
  obtain ⟨s, hrun, htest⟩ : ∃ s, Run (Step sampleWiring) (start sampleWiring) sampleInterrupted s ∧
      ((s.contracts.challenge 0 0).isSome &&
        decide (Token.Cancelled s.contracts.world.cancelled Token.root)) = true :=
    exists_run_of_runSteps (fun s : Process => (s.contracts.challenge 0 0).isSome &&
      decide (Token.Cancelled s.contracts.world.cancelled Token.root)) (by decide +kernel)
  obtain ⟨hcall, hdown⟩ := (Bool.and_eq_true _ _).mp htest
  have hdown : Token.Cancelled s.contracts.world.cancelled Token.root := by simpa using hdown
  exact ⟨s, hrun, hcall, shutdown_ends main_sampleWiring hrun hdown⟩

end Process
end Challenger
