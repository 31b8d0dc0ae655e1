import Mathlib

/-!
# (key: estate) Methods with a receiver that keep their changes on an error

A Go method on a pointer receiver that returns an error has still changed its receiver; in
`EStateM ε σ` an error carries the state it was raised in, so a caller that recovers from it goes
on from there.

* `EStateM.attempt`     the error of a run as a value, for a caller that inspects it;
* `EStateM.Result.state`   the state a run ends in, by either outcome;
* `EStateM.run_bind_eq_ok`, `EStateM.run_bind_eq_error`   a bind returns iff both halves do, and
                        fails in the first half or in the second;
* `EStateM.Safe`        a property of the state that a program keeps whatever its outcome, with
                        the errors it cannot throw, and the rules that build it up along a
                        program.
-/

namespace EStateM

variable {ε σ α β : Type}

/-- `x`, its error handed back as a value in the state the error left -/
def attempt (x : EStateM ε σ α) : EStateM ε σ (Except ε α) :=
  tryCatch (Except.ok <$> x) fun e => pure (.error e)

@[simp] theorem run_attempt (x : EStateM ε σ α) (s : σ) :
    (attempt x).run s =
      match x.run s with
      | .ok a s => .ok (.ok a) s
      | .error e s => .ok (.error e) s := by
  show EStateM.tryCatch _ _ s = _
  simp only [EStateM.tryCatch, run, Functor.map, EStateM.map]
  cases x s <;> rfl

/-- the state a run ends in, whether it returns or fails -/
def Result.state : Result ε σ α → σ
  | .ok _ s => s
  | .error _ s => s

@[simp] theorem Result.state_ok (a : α) (s : σ) : (Result.ok a s : Result ε σ α).state = s := rfl

@[simp] theorem Result.state_error (e : ε) (s : σ) :
    (Result.error e s : Result ε σ α).state = s := rfl

@[simp] theorem Result.state_map (f : α → β) (r : Result ε σ α) : (r.map f).state = r.state := by
  cases r <;> rfl

theorem run_bind_eq_ok {x : EStateM ε σ α} {f : α → EStateM ε σ β} {s s'' : σ} {b : β} :
    (x >>= f).run s = .ok b s'' ↔ ∃ a s', x.run s = .ok a s' ∧ (f a).run s' = .ok b s'' := by
  rw [run_bind]
  cases x.run s with
  | ok a s' => simp
  | error e s' => simp

theorem run_bind_eq_error {x : EStateM ε σ α} {f : α → EStateM ε σ β} {s s'' : σ} {e : ε} :
    (x >>= f).run s = .error e s'' ↔
      x.run s = .error e s'' ∨ ∃ a s', x.run s = .ok a s' ∧ (f a).run s' = .error e s'' := by
  rw [run_bind]
  cases x.run s with
  | ok a s' => simp
  | error e' s' => simp

theorem state_run_bind (x : EStateM ε σ α) (f : α → EStateM ε σ β) (s : σ) :
    ((x >>= f).run s).state =
      match x.run s with
      | .ok a s' => ((f a).run s').state
      | .error _ s' => s' := by
  rw [run_bind]
  cases x.run s <;> rfl

/-! ## invariants, and the errors a program cannot throw -/

section

variable {P : σ → Prop} {bad : ε → Prop}

/-- a result that ends in a state where `P` holds, with a value where `Q` holds or an error where
`bad` does not -/
def Result.Safe (P : σ → Prop) (Q : α → Prop) (bad : ε → Prop) : Result ε σ α → Prop
  | .ok a t => P t ∧ Q a
  | .error e t => P t ∧ ¬ bad e

theorem Result.Safe.state {Q : α → Prop} {r : Result ε σ α} (h : r.Safe P Q bad) : P r.state := by
  cases r with
  | ok a t => exact h.1
  | error e t => exact h.1

theorem Result.Safe.map {Q : α → Prop} {R : β → Prop} {r : Result ε σ α} (h : r.Safe P Q bad)
    {f : α → β} (hf : ∀ a, Q a → R (f a)) : (r.map f).Safe P R bad := by
  cases r with
  | ok a t => exact ⟨h.1, hf a h.2⟩
  | error e t => exact h

/-- from `s`, the run of `x` ends, by either outcome, in a state where `P` holds; it returns only
values where `Q` holds and throws no error where `bad` holds -/
def SafeAt (P : σ → Prop) (Q : α → Prop) (bad : ε → Prop) (x : EStateM ε σ α) (s : σ) : Prop :=
  (x.run s).Safe P Q bad

/-- `x` is safe from every state where `P` holds -/
def Safe (P : σ → Prop) (Q : α → Prop) (bad : ε → Prop) (x : EStateM ε σ α) : Prop :=
  ∀ s, P s → SafeAt P Q bad x s

theorem safeAt_of_run_ok {Q : α → Prop} {x : EStateM ε σ α} {s t : σ} {a : α}
    (h : x.run s = .ok a t) :
    SafeAt P Q bad x s ↔ P t ∧ Q a := by
  rw [SafeAt, h]
  rfl

theorem safeAt_of_run_error {Q : α → Prop} {x : EStateM ε σ α} {s t : σ} {e : ε}
    (h : x.run s = .error e t) :
    SafeAt P Q bad x s ↔ P t ∧ ¬ bad e := by
  rw [SafeAt, h]
  rfl

theorem safeAt_congr {Q : α → Prop} {x y : EStateM ε σ α} {s t : σ} (h : x.run s = y.run t) :
    SafeAt P Q bad x s ↔ SafeAt P Q bad y t := by
  rw [SafeAt, SafeAt, h]

theorem SafeAt.state {Q : α → Prop} {x : EStateM ε σ α} {s : σ} (h : SafeAt P Q bad x s) :
    P (x.run s).state :=
  Result.Safe.state h

/-- without a property of states or values, safety says which errors a program cannot throw -/
theorem safe_of_error {x : EStateM ε σ α} (h : ∀ s e t, x.run s = .error e t → ¬ bad e) :
    Safe (fun _ => True) (fun _ => True) bad x := by
  intro s _
  cases hr : x.run s with
  | ok a t => exact (safeAt_of_run_ok hr).mpr ⟨trivial, trivial⟩
  | error e t => exact (safeAt_of_run_error hr).mpr ⟨trivial, h s e t hr⟩

/-- the rule of a bind: the first half from `s`, the second from where the first returned -/
theorem safeAt_bind {x : EStateM ε σ α} {f : α → EStateM ε σ β} {s : σ} {R : β → Prop} :
    SafeAt P R bad (x >>= f) s ↔
      match x.run s with
      | .ok a t => SafeAt P R bad (f a) t
      | .error e t => P t ∧ ¬ bad e := by
  cases h : x.run s with
  | ok a t => simp only [SafeAt, run_bind, h]
  | error e t => simp only [SafeAt, run_bind, h]; rfl

@[simp] theorem safeAt_pure {Q : α → Prop} (a : α) (s : σ) :
    SafeAt P Q bad (pure a : EStateM ε σ α) s ↔ P s ∧ Q a := Iff.rfl

@[simp] theorem safeAt_throw {Q : α → Prop} (e : ε) (s : σ) :
    SafeAt P Q bad (throw e : EStateM ε σ α) s ↔ P s ∧ ¬ bad e := Iff.rfl

@[simp] theorem safeAt_throw_bind {Q : α → Prop} (e : ε) (f : β → EStateM ε σ α) (s : σ) :
    SafeAt P Q bad (throw e >>= f) s ↔ P s ∧ ¬ bad e := Iff.rfl

@[simp] theorem safeAt_get_bind {Q : α → Prop} (f : σ → EStateM ε σ α) (s : σ) :
    SafeAt P Q bad (get >>= f) s ↔ SafeAt P Q bad (f s) s := Iff.rfl

@[simp] theorem safeAt_modify_bind {Q : α → Prop} (g : σ → σ) (f : PUnit → EStateM ε σ α) (s : σ) :
    SafeAt P Q bad (modify g >>= f) s ↔ SafeAt P Q bad (f ⟨⟩) (g s) := Iff.rfl

@[simp] theorem safeAt_set_bind {Q : α → Prop} (t : σ) (f : PUnit → EStateM ε σ α) (s : σ) :
    SafeAt P Q bad (set t >>= f) s ↔ SafeAt P Q bad (f ⟨⟩) t := Iff.rfl

@[simp] theorem safeAt_modify {Q : PUnit → Prop} (g : σ → σ) (s : σ) :
    SafeAt P Q bad (modify g : EStateM ε σ PUnit) s ↔ P (g s) ∧ Q ⟨⟩ := Iff.rfl

@[simp] theorem safeAt_set {Q : PUnit → Prop} (t : σ) (s : σ) :
    SafeAt P Q bad (set t : EStateM ε σ PUnit) s ↔ P t ∧ Q ⟨⟩ := Iff.rfl

/-- `attempt` throws nothing: what follows it goes on from where `x` ended, with its outcome -/
theorem safeAt_attempt_bind {x : EStateM ε σ α} {f : Except ε α → EStateM ε σ β} {s : σ}
    {R : β → Prop} :
    SafeAt P R bad (attempt x >>= f) s ↔
      match x.run s with
      | .ok a t => SafeAt P R bad (f (.ok a)) t
      | .error e t => SafeAt P R bad (f (.error e)) t := by
  rw [safeAt_bind, run_attempt]
  cases x.run s <;> rfl

theorem SafeAt.mono {Q R : α → Prop} {x : EStateM ε σ α} {s : σ} (h : SafeAt P Q bad x s)
    (hQ : ∀ a, Q a → R a) : SafeAt P R bad x s := by
  cases hr : x.run s with
  | ok a t => exact (safeAt_of_run_ok hr).mpr (((safeAt_of_run_ok hr).mp h).imp_right (hQ a))
  | error e t => exact (safeAt_of_run_error hr).mpr ((safeAt_of_run_error hr).mp h)

/-- a bind is safe from `s` when its first half is, and its second half is from every state the
first returns in, with the value it returns -/
theorem SafeAt.bind {Q : α → Prop} {R : β → Prop} {x : EStateM ε σ α} {f : α → EStateM ε σ β}
    {s : σ} (hx : SafeAt P Q bad x s)
    (hf : ∀ a t, x.run s = .ok a t → P t → Q a → SafeAt P R bad (f a) t) :
    SafeAt P R bad (x >>= f) s := by
  rw [safeAt_bind]
  cases h : x.run s with
  | ok a t =>
    obtain ⟨ht, ha⟩ := (safeAt_of_run_ok h).mp hx
    exact hf a t h ht ha
  | error e t => exact (safeAt_of_run_error h).mp hx

/-- `SafeAt.bind` for a first half with no property of its value -/
theorem SafeAt.bind_trivial {R : β → Prop} {x : EStateM ε σ α} {f : α → EStateM ε σ β} {s : σ}
    (hx : SafeAt P (fun _ => True) bad x s)
    (hf : ∀ a t, x.run s = .ok a t → P t → SafeAt P R bad (f a) t) : SafeAt P R bad (x >>= f) s :=
  hx.bind fun a t h ht _ => hf a t h ht

theorem Safe.bind {Q : α → Prop} {R : β → Prop} {x : EStateM ε σ α} {f : α → EStateM ε σ β}
    (hx : Safe P Q bad x) (hf : ∀ a t, P t → Q a → SafeAt P R bad (f a) t) :
    Safe P R bad (x >>= f) :=
  fun s hs => (hx s hs).bind fun a t _ => hf a t

end

end EStateM
