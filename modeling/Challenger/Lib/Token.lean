import Mathlib.Data.List.Infix

/-! # Trees of cancellation tokens

A token is the path of names from it up to the root. Cancelling a token
cancels everything below it, also what is created there later; it does not
touch its parent or the children of its parent. -/
namespace Challenger.Lib
variable {α : Type}

abbrev Token (α : Type) := List α

namespace Token

def root : Token α := []

/-- The child of a token with a name no other child of it has. -/
def child (parent : Token α) (name : α) : Token α := name :: parent

/-- A token is cancelled if it, or one above it, is among those `cancel` was
called on. -/
def Cancelled (cancelled : List (Token α)) (t : Token α) : Prop := ∃ c ∈ cancelled, c <:+ t

instance [DecidableEq α] (cancelled : List (Token α)) (t : Token α) :
    Decidable (Cancelled cancelled t) := inferInstanceAs (Decidable (∃ c ∈ cancelled, c <:+ t))

theorem Cancelled.mono {cs cs' : List (Token α)} {t : Token α} (hsub : ∀ c ∈ cs, c ∈ cs')
    (h : Cancelled cs t) : Cancelled cs' t := by
  obtain ⟨c, hc, ht⟩ := h
  exact ⟨c, hsub c hc, ht⟩

theorem cancelled_cons {c t : Token α} {cs : List (Token α)} :
    Cancelled (c :: cs) t ↔ c <:+ t ∨ Cancelled cs t := List.exists_mem_cons_iff ..

theorem cancelled_root {cs : List (Token α)} : Cancelled cs root ↔ root ∈ cs := by
  constructor
  · rintro ⟨c, hc, ht⟩
    have hroot : c = root := List.suffix_nil.mp ht
    exact hroot ▸ hc
  · intro h
    exact ⟨root, h, List.suffix_rfl⟩

/-- A child is cancelled by itself or from above. -/
theorem cancelled_child {cs : List (Token α)} {parent : Token α} {name : α} :
    Cancelled cs (child parent name) ↔ child parent name ∈ cs ∨ Cancelled cs parent := by
  constructor
  · rintro ⟨c, hc, ht⟩
    rcases List.suffix_cons_iff.mp ht with rfl | ht
    · exact .inl hc
    · exact .inr ⟨c, hc, ht⟩
  · rintro (h | ⟨c, hc, ht⟩)
    · exact ⟨_, h, List.suffix_rfl⟩
    · exact ⟨c, hc, ht.trans (List.suffix_cons name parent)⟩

theorem child_injective {parent : Token α} {a b : α} (h : child parent a = child parent b) :
    a = b := (List.cons.inj h).1

theorem child_ne_root {parent : Token α} {a : α} : child parent a ≠ root := List.cons_ne_nil _ _

end Token
end Challenger.Lib
