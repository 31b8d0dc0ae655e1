import Mathlib

/-!
# (key: monad) Inverting a successful `Except` computation

Go functions that return `(T, error)` are modelled in `Except`; a result about the value of a
successful run peels the run apart one bind at a time.

* `Except.bind_eq_ok_iff`, `Except.bind_eq_error_iff`   a bind succeeds iff both halves do, and
                        fails with the first half's error or the second's;
* `Except.pure_eq_ok_iff`, `Except.throw_ne_ok`   the two leaves;
* `Except.map_eq_ok_iff`   a mapped run succeeds iff the run does;
* `Except.failIf`, `Except.ofOption`   an early `return err` and a checked dereference, with
  their success lemmas;
* `Except.foldlM_inv`   what every step of a successful loop keeps, the whole loop keeps;
* `List.mapM_eq_none_of_mem`   one element that panics makes a loop in `Option` panic;
* `List.mapM_congr_of_mem`   two loops in `Option` whose bodies agree on the list agree, and
  `List.eq_of_mapM_eq_some` the converse for loops that give one result.
-/

namespace Except

variable {ε α β : Type}

@[simp] theorem bind_eq_ok_iff {x : Except ε α} {f : α → Except ε β} {b : β} :
    x >>= f = .ok b ↔ ∃ a, x = .ok a ∧ f a = .ok b := by
  cases x <;> simp [bind, Except.bind]

@[simp] theorem pure_eq_ok_iff {a b : α} : (pure a : Except ε α) = .ok b ↔ a = b := by
  simp [pure, Except.pure]

@[simp] theorem throw_ne_ok {e : ε} {b : α} : (throw e : Except ε α) ≠ .ok b := by
  simp [throw, throwThe, MonadExceptOf.throw]

@[simp] theorem bind_eq_error_iff {x : Except ε α} {f : α → Except ε β} {e : ε} :
    x >>= f = .error e ↔ x = .error e ∨ ∃ a, x = .ok a ∧ f a = .error e := by
  cases x <;> simp [bind, Except.bind]

@[simp] theorem pure_ne_error {a : α} {e : ε} : (pure a : Except ε α) ≠ .error e := by
  simp [pure, Except.pure]

/-- `if c { return e }` -/
def failIf (c : Prop) [Decidable c] (e : ε) : Except ε Unit := if c then .error e else .ok ()

/-- the value of an option, or the error `e` where there is none -/
def ofOption (e : ε) : Option α → Except ε α
  | some a => .ok a
  | none => .error e

@[simp] theorem failIf_eq_ok_iff {c : Prop} [Decidable c] {e : ε} {u : Unit} :
    failIf c e = .ok u ↔ ¬ c := by
  unfold failIf
  split <;> simp_all

@[simp] theorem failIf_eq_error_iff {c : Prop} [Decidable c] {e e' : ε} :
    failIf c e = .error e' ↔ c ∧ e = e' := by
  unfold failIf
  split <;> simp_all

@[simp] theorem ofOption_eq_ok_iff {e : ε} {o : Option α} {a : α} :
    ofOption e o = .ok a ↔ o = some a := by
  cases o <;> simp [ofOption]

@[simp] theorem mapError_eq_ok_iff {ε' : Type} {f : ε → ε'} {x : Except ε α} {a : α} :
    x.mapError f = .ok a ↔ x = .ok a := by
  cases x <;> simp [Except.mapError]

@[simp] theorem mapError_ok {ε' : Type} {f : ε → ε'} {a : α} :
    (Except.ok a : Except ε α).mapError f = .ok a := rfl

/-- a run mapped to `b` is a run that succeeds with a value sent to `b`: how a fact about the
result of a run is read off a `decide` on what the result maps to -/
theorem map_eq_ok_iff {f : α → β} {x : Except ε α} {b : β} :
    x.map f = .ok b ↔ ∃ a, x = .ok a ∧ f a = b := by
  cases x <;> simp [Except.map]

/-- the invariant rule of a loop over a list in `Except` -/
theorem foldlM_inv {σ : Type} {P : σ → Prop} {f : σ → α → Except ε σ} {xs : List α}
    (hf : ∀ s a s', a ∈ xs → P s → f s a = .ok s' → P s') :
    ∀ {s s' : σ}, xs.foldlM f s = .ok s' → P s → P s' := by
  induction xs with
  | nil =>
    intro s s' h hs
    simp only [List.foldlM_nil, pure_eq_ok_iff] at h
    exact h ▸ hs
  | cons x xs ih =>
    intro s s' h hs
    simp only [List.foldlM_cons, bind_eq_ok_iff] at h
    obtain ⟨t, ht, hrest⟩ := h
    exact ih (fun s a s' ha => hf s a s' (List.mem_cons_of_mem _ ha)) hrest
      (hf s x t List.mem_cons_self hs ht)

end Except

namespace List

theorem mapM_eq_none_of_mem {α β : Type} {f : α → Option β} {a : α} :
    ∀ {l : List α}, a ∈ l → f a = none → l.mapM f = none
  | b :: l, ha, hf => by
    rw [List.mapM_cons]
    rcases List.mem_cons.mp ha with rfl | hmem
    · rw [hf]
      rfl
    · cases f b with
      | none => rfl
      | some c =>
        rw [mapM_eq_none_of_mem hmem hf]
        rfl

/-- two loops in `Option` over one list that give the same results agree at every element -/
theorem eq_of_mapM_eq_some {α β : Type} {f g : α → Option β} :
    ∀ {l : List α} {xs : List β}, l.mapM f = some xs → l.mapM g = some xs → ∀ a ∈ l, f a = g a
  | [], _, _, _, _, ha => absurd ha List.not_mem_nil
  | b :: l, xs, hf, hg, a, ha => by
    rw [List.mapM_cons] at hf hg
    cases hfb : f b with
    | none => rw [hfb] at hf; cases hf
    | some y =>
      cases hgb : g b with
      | none => rw [hgb] at hg; cases hg
      | some z =>
        rw [hfb] at hf
        rw [hgb] at hg
        cases hfl : l.mapM f with
        | none => rw [hfl] at hf; cases hf
        | some ys =>
          cases hgl : l.mapM g with
          | none => rw [hgl] at hg; cases hg
          | some zs =>
            rw [hfl] at hf
            rw [hgl] at hg
            have hf' : y :: ys = xs := Option.some.inj hf
            have hg' : z :: zs = xs := Option.some.inj hg
            rw [← hg', List.cons.injEq] at hf'
            rcases List.mem_cons.mp ha with rfl | ha
            · rw [hfb, hgb, hf'.1]
            · exact eq_of_mapM_eq_some hfl (by rw [hgl, ← hf'.2]) a ha

theorem mapM_congr_of_mem {α β : Type} {f g : α → Option β} :
    ∀ {l : List α}, (∀ a ∈ l, f a = g a) → l.mapM f = l.mapM g
  | [], _ => rfl
  | b :: l, h => by
    rw [List.mapM_cons, List.mapM_cons, h b List.mem_cons_self,
      mapM_congr_of_mem fun a ha => h a (List.mem_cons_of_mem b ha)]

end List
