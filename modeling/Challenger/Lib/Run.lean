import Mathlib.Data.List.Basic
import Mathlib.Data.List.Induction
import Mathlib.Order.Defs.Unbundled

/-! # Runs of a labelled transition system

A system is a relation between a state, a label and the next state. A run
collects its labels in the order they were taken, the latest last, so that an
invariant may speak of the history as well as of the state. A system given by
a partial function can be run on a list of labels. -/
namespace Challenger.Lib
variable {σ ℓ : Type} {R R' : σ → ℓ → σ → Prop} {G : σ → ℓ → Prop} {s s' s'' : σ} {ls ls' : List ℓ}

inductive Run (R : σ → ℓ → σ → Prop) (s : σ) : List ℓ → σ → Prop where
  | nil : Run R s [] s
  | snoc {ls : List ℓ} {l : ℓ} {s' s'' : σ} :
      Run R s ls s' → R s' l s'' → Run R s (ls ++ [l]) s''

namespace Run

theorem single {l : ℓ} (h : R s l s') : Run R s [l] s' := .snoc .nil h

theorem append (h : Run R s ls s') (h' : Run R s' ls' s'') : Run R s (ls ++ ls') s'' := by
  induction h' with
  | nil => rw [List.append_nil]; exact h
  | snoc _ hl ih => rw [← List.append_assoc]; exact .snoc ih hl

theorem cons {l : ℓ} (h : R s l s') (h' : Run R s' ls s'') : Run R s (l :: ls) s'' :=
  (single h).append h'

theorem mono (hR : ∀ s l s', R s l s' → R' s l s') (h : Run R s ls s') : Run R' s ls s' := by
  induction h with
  | nil => exact .nil
  | snoc _ hl ih => exact .snoc ih (hR _ _ _ hl)

/-- What holds of the empty history at the start, and of every longer history
when it held before the last step, holds of every run. -/
theorem invariant {P : List ℓ → σ → Prop} (h0 : P [] s)
    (hstep : ∀ {ls s' l s''}, Run R s ls s' → P ls s' → R s' l s'' → P (ls ++ [l]) s'')
    (h : Run R s ls s') : P ls s' := by
  induction h with
  | nil => exact h0
  | snoc hr hl ih => exact hstep hr ih hl

/-- A property of states that every step preserves. -/
theorem preserves {P : σ → Prop} (hstep : ∀ {s l s'}, P s → R s l s' → P s') (h : Run R s ls s')
    (hs : P s) : P s' :=
  h.invariant (P := fun _ s => P s) hs fun _ ih hl => hstep ih hl

theorem nil_inv (h : Run R s [] s') : s' = s := by
  generalize hls : [] = ls at h
  cases h with
  | nil => rfl
  | snoc _ _ => exact absurd hls.symm (List.append_ne_nil_of_right_ne_nil _ (List.cons_ne_nil _ _))

theorem snoc_inv {l : ℓ} (h : Run R s (ls ++ [l]) s'') : ∃ s', Run R s ls s' ∧ R s' l s'' := by
  generalize hls : ls ++ [l] = ls' at h
  cases h with
  | nil => exact absurd hls (List.append_ne_nil_of_right_ne_nil _ (List.cons_ne_nil _ _))
  | snoc hr hl =>
    obtain ⟨rfl, hl'⟩ := List.append_inj' hls rfl
    cases hl'
    exact ⟨_, hr, hl⟩

/-- A step that leads back to where it starts can be taken again. -/
theorem replicate {l : ℓ} (h : R s l s) (n : Nat) : Run R s (List.replicate n l) s := by
  induction n with
  | zero => exact .nil
  | succ n ih => exact .cons h ih

/-- A run on two lists of labels goes through a state between them. -/
theorem split (h : Run R s (ls ++ ls') s'') : ∃ s', Run R s ls s' ∧ Run R s' ls' s'' := by
  induction ls' using List.reverseRecOn generalizing s'' with
  | nil => rw [List.append_nil] at h; exact ⟨s'', h, .nil⟩
  | append_singleton ls' l ih =>
    rw [← List.append_assoc] at h
    obtain ⟨s₁, hr, hl⟩ := h.snoc_inv
    obtain ⟨s', h₁, h₂⟩ := ih hr
    exact ⟨s', h₁, .snoc h₂ hl⟩

end Run

/-! ## Steps under a condition -/

/-- The steps that meet a condition on their label and the state they are
taken in. -/
def Guarded (R : σ → ℓ → σ → Prop) (G : σ → ℓ → Prop) : σ → ℓ → σ → Prop :=
  fun s l s' => R s l s' ∧ G s l

theorem Run.unguarded (h : Run (Guarded R G) s ls s') : Run R s ls s' :=
  h.mono fun _ _ _ hl => hl.1

/-- A condition that the labels meet in every state. -/
theorem Run.guarded (h : Run R s ls s') (hG : ∀ l ∈ ls, ∀ s, G s l) : Run (Guarded R G) s ls s' := by
  induction h with
  | nil => exact .nil
  | snoc _ hl ih =>
    simp only [List.mem_append, List.mem_singleton] at hG
    exact .snoc (ih fun l h => hG l (.inl h)) ⟨hl, hG _ (.inr rfl) _⟩

/-- Every step met a condition that may also speak of the history before it. -/
def Throughout (R : σ → ℓ → σ → Prop) (C : List ℓ → σ → ℓ → Prop) (s : σ) (ls : List ℓ) : Prop :=
  ∀ ls₁ l ls₂ s₁, ls = ls₁ ++ l :: ls₂ → Run R s ls₁ s₁ → C ls₁ s₁ l

/-- An invariant of the runs whose steps meet a condition. -/
theorem Run.invariant_throughout {C : List ℓ → σ → ℓ → Prop} {P : List ℓ → σ → Prop} (h0 : P [] s)
    (hstep : ∀ {ls s' l s''}, Run R s ls s' → P ls s' → C ls s' l → R s' l s'' → P (ls ++ [l]) s'')
    (h : Run R s ls s') (hC : Throughout R C s ls) : P ls s' := by
  refine h.invariant (P := fun ls s' => Throughout R C s ls → P ls s') (fun _ => h0) ?_ hC
  intro ls s₁ l s₂ hr ih hl hC
  refine hstep hr (ih ?_) (hC ls l [] s₁ rfl hr) hl
  intro ls₁ l' ls₂ s' hls
  exact hC ls₁ l' (ls₂ ++ [l]) s' (by rw [hls, List.append_assoc, List.cons_append])

/-! ## Leaving steps out -/

/-- Steps that change nothing in view can be left out of a run, as long as the
other ones can be taken from every state that looks the same. -/
theorem Run.filter {V : σ → σ → Prop} {keep : ℓ → Bool} {t : σ} (h0 : V s t)
    (hkeep : ∀ {ls s' l s'' t'}, Run R s ls s' → R s' l s'' → keep l = true → V s' t' →
      ∃ t'', R t' l t'' ∧ V s'' t'')
    (hdrop : ∀ {ls s' l s'' t'}, Run R s ls s' → R s' l s'' → keep l = false → V s' t' → V s'' t')
    (h : Run R s ls s') : ∃ t', Run R t (ls.filter keep) t' ∧ V s' t' := by
  induction h with
  | nil => exact ⟨t, .nil, h0⟩
  | @snoc ls l s' s'' hr hl ih =>
    obtain ⟨t', hrun, hview⟩ := ih
    rw [List.filter_append]
    cases hk : keep l with
    | true =>
      obtain ⟨t'', hl', hview'⟩ := hkeep hr hl hk hview
      rw [List.filter_cons_of_pos hk]
      exact ⟨t'', .snoc hrun hl', hview'⟩
    | false =>
      rw [List.filter_cons_of_neg (by simp [hk]), List.filter_nil, List.append_nil]
      exact ⟨t', hrun, hdrop hr hl hk hview⟩

/-! ## Systems given by a partial function -/

def Takes (step : σ → ℓ → Option σ) : σ → ℓ → σ → Prop := fun s l s' => step s l = some s'

/-- The labels of such a run determine its end. -/
theorem Run.det {step : σ → ℓ → Option σ} (h : Run (Takes step) s ls s')
    (h' : Run (Takes step) s ls s'') : s' = s'' := by
  induction h generalizing s'' with
  | nil => exact h'.nil_inv.symm
  | snoc _ hl ih =>
    obtain ⟨s₁, hr', hl'⟩ := h'.snoc_inv
    rw [← ih hr', Takes, hl] at hl'
    exact Option.some.inj hl'

/-- Takes the labels in turn, as far as there is a step for each. -/
def runSteps (step : σ → ℓ → Option σ) : σ → List ℓ → Option σ
  | s, [] => some s
  | s, l :: ls => (step s l).bind fun s' => runSteps step s' ls

theorem run_of_runSteps {step : σ → ℓ → Option σ} (h : runSteps step s ls = some s') :
    Run (Takes step) s ls s' := by
  induction ls generalizing s with
  | nil => rw [← Option.some.inj h]; exact .nil
  | cons l ls ih =>
    obtain ⟨s₁, hs₁, hr⟩ := Option.bind_eq_some_iff.mp h
    exact .cons hs₁ (ih hr)

/-- A run on given labels to a state that passes a test. -/
theorem exists_run_of_runSteps {step : σ → ℓ → Option σ} (test : σ → Bool)
    (h : (runSteps step s ls).any test = true) : ∃ s', Run (Takes step) s ls s' ∧ test s' = true := by
  obtain ⟨s', hs', ht⟩ := (Option.any_eq_true _ _).mp h
  exact ⟨s', run_of_runSteps hs', ht⟩

/-- The same, with a test of each step. -/
def runGuarded (step : σ → ℓ → Option σ) (guard : σ → ℓ → Bool) : σ → List ℓ → Option σ :=
  runSteps fun s l => if guard s l then step s l else none

theorem exists_run_of_runGuarded {step : σ → ℓ → Option σ} {guard : σ → ℓ → Bool}
    (test : σ → Bool) (h : (runGuarded step guard s ls).any test = true) :
    ∃ s', Run (Guarded (Takes step) fun s l => guard s l = true) s ls s' ∧ test s' = true := by
  obtain ⟨s', hr, ht⟩ := exists_run_of_runSteps test h
  refine ⟨s', hr.mono ?_, ht⟩
  intro s l s' hl
  change (if guard s l = true then step s l else none) = some s' at hl
  split at hl
  · exact ⟨hl, ‹_›⟩
  · cases hl

end Challenger.Lib
