import Mathlib.Algebra.BigOperators.Group.Finset.Basic
import Mathlib.Algebra.Order.BigOperators.Group.Finset

/-!
# (key: budget) A counter that pays for a potential

A natural-number potential `f` on an arbitrary type, and a counter `R` that covers it: every
finite sum of `f` is at most `R`.  The lemmas say how the cover survives the two things a
machine does to it: the counter grows, or one point's potential changes while the counter
changes by at least as much.

* `Covers.le`       one point's potential is covered;
* `Covers.mono`, `Covers.of_le`   a larger counter, or a smaller potential, is still covered;
* `Covers.update`   one point changes, the counter moves with it.
-/

set_option linter.unusedSectionVars false

namespace Budget

open Finset

variable {α : Type} [DecidableEq α]

/-- `R` covers the potential `f`: every finite sum of `f` is at most `R` -/
def Covers (f : α → Nat) (R : Nat) : Prop := ∀ S : Finset α, ∑ x ∈ S, f x ≤ R

variable {f g : α → Nat} {R R' : Nat}

theorem Covers.le (h : Covers f R) (a : α) : f a ≤ R := by
  have h1 := h {a}
  rwa [sum_singleton] at h1

theorem Covers.mono (h : Covers f R) (hR : R ≤ R') : Covers f R' :=
  fun S => (h S).trans hR

/-- a pointwise smaller potential is covered by the same counter -/
theorem Covers.of_le (h : Covers f R) (hgf : ∀ x, g x ≤ f x) : Covers g R :=
  fun S => (sum_le_sum fun x _ => hgf x).trans (h S)

/-- a potential that is zero everywhere is covered by any counter -/
theorem covers_zero (hf : ∀ x, f x = 0) (R : Nat) : Covers f R := by
  intro S
  rw [sum_eq_zero (fun x _ => hf x)]
  exact Nat.zero_le R

/-- **One point changes.**  If `g` differs from `f` at `a` only, and the counter moves from `R`
to `R'` with `R + g a ≤ R' + f a`, the cover is kept. -/
theorem Covers.update (h : Covers f R) {a : α} (hfg : ∀ x, x ≠ a → g x = f x)
    (hR : R + g a ≤ R' + f a) : Covers g R' := by
  intro S
  have ha : a ∈ insert a S := mem_insert_self a S
  have hf := add_sum_erase (insert a S) f ha
  have hS := h (insert a S)
  have hrest : ∑ x ∈ (insert a S).erase a, g x = ∑ x ∈ (insert a S).erase a, f x :=
    sum_congr rfl fun x hx => hfg x (ne_of_mem_erase hx)
  calc ∑ x ∈ S, g x ≤ ∑ x ∈ insert a S, g x := sum_le_sum_of_subset (subset_insert a S)
    _ = g a + ∑ x ∈ (insert a S).erase a, g x := (add_sum_erase _ g ha).symm
    _ = g a + ∑ x ∈ (insert a S).erase a, f x := by rw [hrest]
    _ ≤ R' := by omega

end Budget
