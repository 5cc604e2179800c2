import Mathlib.Data.List.Infix
import Mathlib.Data.List.Nodup

/-! # A stream in order, with repetitions

A sender that goes back after a failure repeats elements, but takes none
before all the earlier ones: at each point its list has the elements of an
initial segment of the stream. -/
namespace Challenger.Lib
variable {α : Type} {stream l l' u v w : List α} {x : α}

/-- At each point the list has the elements of an initial segment. -/
def InOrder (stream l : List α) : Prop :=
  ∀ v, v <+: l → ∃ w, w <+: stream ∧ ∀ x, x ∈ v ↔ x ∈ w

namespace InOrder

theorem nil (stream : List α) : InOrder stream [] := by
  intro v hv
  exact ⟨[], List.nil_prefix, by simp [List.prefix_nil.mp hv]⟩

/-- A part of the list that ends earlier. -/
theorem of_prefix (h : InOrder stream l) (hl : l' <+: l) : InOrder stream l' :=
  fun v hv => h v (hv.trans hl)

theorem mem (h : InOrder stream l) (hx : x ∈ l) : x ∈ stream := by
  obtain ⟨w, hw, hmem⟩ := h l List.prefix_rfl
  exact hw.subset ((hmem x).mp hx)

/-- The sender goes back to a place it has been at, and goes on from there. -/
theorem append {done rest t : List α} (h : InOrder stream u) (hstream : stream = done ++ rest)
    (hdone : ∀ x ∈ done, x ∈ u) (ht : t <+: rest) : InOrder stream (u ++ t) := by
  intro v hv
  rcases List.prefix_or_prefix_of_prefix hv (List.prefix_append u t) with hle | ⟨t', rfl⟩
  · exact h v hle
  · have ht' := (List.prefix_append_right_inj u).mp hv
    obtain ⟨w, hw, hmem⟩ := h u List.prefix_rfl
    have hsegment : done ++ t' <+: stream := by
      rw [hstream]
      exact (List.prefix_append_right_inj done).mpr (ht'.trans ht)
    have hunion : ∀ x, x ∈ u ++ t' ↔ x ∈ w ∨ x ∈ done ++ t' := by
      intro x
      simp only [List.mem_append, hmem]
      constructor
      · exact fun hx => hx.imp_right .inr
      · intro hx
        rcases hx with hx | hx | hx
        · exact .inl hx
        · exact .inl ((hmem x).mp (hdone x hx))
        · exact .inr hx
    -- of two initial segments the longer one has the elements of both
    rcases List.prefix_or_prefix_of_prefix hw hsegment with hle | hle
    · refine ⟨done ++ t', hsegment, ?_⟩
      intro x
      rw [hunion]
      exact or_iff_right_of_imp fun hx => hle.subset hx
    · refine ⟨w, hw, ?_⟩
      intro x
      rw [hunion]
      exact or_iff_left_of_imp fun hx => hle.subset hx

/-- Nothing is taken before what comes before it in the stream. -/
theorem before {rest : List α} (h : InOrder stream l) (hnodup : stream.Nodup)
    (hstream : stream = w ++ x :: rest) (hv : v ++ [x] <+: l) : ∀ y ∈ w, y ∈ v := by
  obtain ⟨w', hw', hmem⟩ := h _ hv
  subst hstream
  have hx : x ∉ w := fun hx =>
    (List.nodup_append.mp hnodup).2.2 x hx x List.mem_cons_self rfl
  intro y hy
  have hne : y ≠ x := fun he => hx (he ▸ hy)
  have hyw : y ∈ w' := by
    rcases List.prefix_or_prefix_of_prefix hw' (List.prefix_append w (x :: rest)) with hle | hle
    · exact absurd (hle.subset ((hmem x).mp (by simp))) hx
    · exact hle.subset hy
  simpa [hne] using (hmem y).mpr hyw

end InOrder
end Challenger.Lib
