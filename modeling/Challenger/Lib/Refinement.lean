import Challenger.Lib.Run

/-! # Refinement mappings

A step of a concrete system is none, one or several steps of an abstract one,
between the states that the mapping gives. Then so is every run. Refinements
compose. -/
namespace Challenger.Lib
variable {σ ℓ τ ℓ' υ ℓ'' : Type} {R : σ → ℓ → σ → Prop} {R' : τ → ℓ' → τ → Prop}
  {R'' : υ → ℓ'' → υ → Prop} {s s' : σ} {ls : List ℓ}

structure Refinement (R : σ → ℓ → σ → Prop) (R' : τ → ℓ' → τ → Prop) where
  state : σ → τ
  labels : ℓ → List ℓ'
  step : ∀ {s l s'}, R s l s' → Run R' (state s) (labels l) (state s')

namespace Refinement

theorem run (f : Refinement R R') (h : Run R s ls s') :
    Run R' (f.state s) (ls.flatMap f.labels) (f.state s') := by
  induction h with
  | nil => exact .nil
  | snoc _ hl ih =>
    rw [List.flatMap_append, List.flatMap_singleton]
    exact ih.append (f.step hl)

def comp (g : Refinement R' R'') (f : Refinement R R') : Refinement R R'' where
  state s := g.state (f.state s)
  labels l := (f.labels l).flatMap g.labels
  step hl := g.run (f.step hl)

end Refinement
end Challenger.Lib
