import Mathlib

/-!
# (key: once) `sync.Once` and the flags it sets, and invariants of runs

`Once.Do(f)` runs `f` for its first caller only.  When several callers each pass a function that
sets a flag of their own, the once decides which flag is ever set: none before it has fired, and
never two.  A caller whose progress waits for its own flag therefore waits for ever unless it is
the one the once chose.

* `Once.call`            one `Do` by a caller, on the flag of the once and the callers' flags;
* `Once.Gated`           none set before the once has fired, and at most one set;
* `Once.Gated.call`, `Once.gated_clear`   a `Do` keeps it, and it holds with no flag set;
* `Once.call_flag_of`, `Once.call_flag_of_ne`   a `Do` clears no flag and sets no other's;
* `Once.Gated.card_le_one`   at most one caller of a finite family has its flag;
* `reachable_inv`        what holds at the start and each step keeps holds along every run.
-/

namespace Once

variable {ι : Type*}

/-- the flags a once sets: none before it has fired, and at most one -/
structure Gated (done : Bool) (flags : ι → Bool) : Prop where
  fired : ∀ i, flags i = true → done = true
  unique : ∀ i j, flags i = true → flags j = true → i = j

theorem gated_clear (done : Bool) : Gated done (fun _ : ι => false) :=
  ⟨fun _ h => absurd h Bool.false_ne_true, fun _ _ h => absurd h Bool.false_ne_true⟩

theorem Gated.card_le_one [Fintype ι] {done : Bool} {flags : ι → Bool} (h : Gated done flags) :
    (Finset.univ.filter fun i => flags i = true).card ≤ 1 :=
  Finset.card_le_one.mpr fun i hi j hj =>
    h.unique i j (Finset.mem_filter.mp hi).2 (Finset.mem_filter.mp hj).2

variable [DecidableEq ι]

/-- `once.Do(func() { flags[i] = true })` by the caller `i`: the once has fired after it, and the
flag of `i` is set if it had not fired before -/
def call (done : Bool) (flags : ι → Bool) (i : ι) : Bool × (ι → Bool) :=
  (true, if done then flags else Function.update flags i true)

theorem Gated.call {done : Bool} {flags : ι → Bool} (h : Gated done flags) (i : ι) :
    Gated (call done flags i).1 (call done flags i).2 := by
  cases done with
  | true => exact ⟨fun _ _ => rfl, h.unique⟩
  | false =>
    -- the first call: no flag was set, and only that of `i` is
    have hnone : ∀ j, flags j = false := fun j => Bool.eq_false_iff.mpr fun hj =>
      Bool.false_ne_true (h.fired j hj)
    have hset : ∀ j, (Once.call false flags i).2 j = true → j = i := by
      intro j hj
      by_contra hne
      simp only [Once.call, Bool.false_eq_true, if_false, Function.update_of_ne hne,
        hnone j] at hj
    exact ⟨fun _ _ => rfl, fun j k hj hk => (hset j hj).trans (hset k hk).symm⟩

/-- a `Do` never clears a flag -/
theorem call_flag_of {done : Bool} {flags : ι → Bool} {j : ι} (hj : flags j = true) (i : ι) :
    (call done flags i).2 j = true := by
  cases done with
  | true => exact hj
  | false =>
    by_cases hji : j = i
    · subst hji
      simp [call]
    · simp [call, Function.update_of_ne hji, hj]

/-- a `Do` by `i` leaves the flag of every other caller as it was -/
theorem call_flag_of_ne {done : Bool} {flags : ι → Bool} {i j : ι} (hji : j ≠ i) :
    (call done flags i).2 j = flags j := by
  cases done with
  | true => rfl
  | false => exact Function.update_of_ne hji _ _

end Once

/-- **Invariant rule.**  A property of the start state that every step keeps holds in every state
a run reaches. -/
theorem reachable_inv {σ : Type*} {step : σ → σ → Prop} {P : σ → Prop} {s₀ s : σ}
    (h₀ : P s₀) (hstep : ∀ a b, P a → step a b → P b) (h : Relation.ReflTransGen step s₀ s) :
    P s := by
  induction h with
  | refl => exact h₀
  | tail _ hab ih => exact hstep _ _ ih hab
