import Mathlib.Data.List.Sort
import Mathlib.Data.Finset.Basic

/-!
# (key: keyorder) Enumerating a finite set in the order of a key

Go ranges over a map in an order it leaves open.  A model quantifies over all such orders; to
run a model on a concrete input one order is needed that a kernel can compute.  For a type with
an injective key into `ℕ`, `sort e s` lists a multiset in increasing order of the key, by
insertion sort (structural, so `decide` evaluates it), and does not depend on the
representative list of the multiset.

* `sort_perm`, `mem_sort`, `nodup_sort`   it lists the multiset, each element as often.
-/

namespace KeyOrder

variable {α : Type*} (e : α ↪ ℕ)

/-- the order `sort` lists in -/
def le (a b : α) : Prop := e a ≤ e b

instance : DecidableRel (le e) := fun a b => inferInstanceAs (Decidable (e a ≤ e b))

instance : Std.Total (le e) := ⟨fun a b => le_total (e a) (e b)⟩

instance : IsTrans α (le e) := ⟨fun _ _ _ (h₁ : e _ ≤ e _) (h₂ : e _ ≤ e _) => h₁.trans h₂⟩

theorem insertionSort_eq_of_perm {l₁ l₂ : List α} (h : l₁.Perm l₂) :
    l₁.insertionSort (le e) = l₂.insertionSort (le e) := by
  have hp : (l₁.insertionSort (le e)).Perm (l₂.insertionSort (le e)) :=
    ((List.perm_insertionSort _ l₁).trans h).trans (List.perm_insertionSort _ l₂).symm
  refine hp.eq_of_pairwise ?_ (List.pairwise_insertionSort _ _) (List.pairwise_insertionSort _ _)
  intro a b _ _ hab hba
  exact e.injective (Nat.le_antisymm hab hba)

/-- the elements of `s` in increasing order of `e` -/
def sort (s : Multiset α) : List α :=
  Quot.liftOn s (fun l => l.insertionSort (le e)) fun _ _ h => insertionSort_eq_of_perm e h

theorem sort_perm (s : Multiset α) : ((sort e s : List α) : Multiset α) = s := by
  induction s using Quot.inductionOn with
  | h l => exact Quot.sound (List.perm_insertionSort _ l)

theorem mem_sort {s : Multiset α} {a : α} : a ∈ sort e s ↔ a ∈ s := by
  rw [← Multiset.mem_coe, sort_perm]

theorem nodup_sort {s : Multiset α} (h : s.Nodup) : (sort e s).Nodup := by
  rw [← Multiset.coe_nodup, sort_perm]
  exact h

end KeyOrder
