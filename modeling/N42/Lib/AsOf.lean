import Mathlib

/-!
# (key: asof) Reads as of a version, from change sets of pre-images

A store that keeps, for each version `b`, the value each key had before the writes of `b` (the
change set of `b`), and for each key the set of versions whose change set has it (the index),
answers a read as of version `n`, the state before the writes of `n`, by the first version at
or after `n` that has the key: its pre-image, or the current value when no version from `n` on
has it.

* `seek`, `seek_eq_some_iff`, `seek_eq_none_iff`   the least element at or above `n`;
* `Recorded`             change sets and an index that record the versions `s 0, …, s H`;
* `Recorded.eq_of_frame`   a key no change set of `(m, m']` has keeps its value from `m` to `m'`;
* `Recorded.read_eq`     the read as of `n` is `s (n - 1)`.
-/

namespace AsOf

/-- `SeekInBitmap64`: the least element of `idx` at or above `n` -/
def seek (idx : Finset ℕ) (n : ℕ) : Option ℕ :=
  if h : (idx.filter (n ≤ ·)).Nonempty then some ((idx.filter (n ≤ ·)).min' h) else none

theorem seek_eq_some_iff {idx : Finset ℕ} {n b : ℕ} :
    seek idx n = some b ↔ b ∈ idx ∧ n ≤ b ∧ ∀ c ∈ idx, n ≤ c → b ≤ c := by
  unfold seek
  split
  · rename_i h
    rw [Option.some.injEq]
    constructor
    · rintro rfl
      have hmem := Finset.mem_filter.mp (Finset.min'_mem _ h)
      exact ⟨hmem.1, hmem.2, fun c hc hnc => Finset.min'_le _ c (Finset.mem_filter.mpr ⟨hc, hnc⟩)⟩
    · rintro ⟨hb, hnb, hmin⟩
      refine Nat.le_antisymm ?_ ?_
      · exact Finset.min'_le _ b (Finset.mem_filter.mpr ⟨hb, hnb⟩)
      · have hmem := Finset.mem_filter.mp (Finset.min'_mem _ h)
        exact hmin _ hmem.1 hmem.2
  · rename_i h
    refine ⟨fun h' => absurd h' (Option.some_ne_none _).symm, fun ⟨hb, hnb, _⟩ => ?_⟩
    exact absurd ⟨b, Finset.mem_filter.mpr ⟨hb, hnb⟩⟩ h

theorem seek_eq_none_iff {idx : Finset ℕ} {n : ℕ} : seek idx n = none ↔ ∀ c ∈ idx, c < n := by
  unfold seek
  split
  · rename_i h
    obtain ⟨c, hc⟩ := h
    have hc' := Finset.mem_filter.mp hc
    exact ⟨fun h' => absurd h' (Option.some_ne_none _), fun h' => absurd (h' c hc'.1) (by omega)⟩
  · rename_i h
    refine ⟨fun _ c hc => Nat.lt_of_not_le fun hnc => h ⟨c, Finset.mem_filter.mpr ⟨hc, hnc⟩⟩,
      fun _ => rfl⟩

variable {K V : Type*}

/-- the change sets `pre` and the index `idx` record the versions `1, …, H` of the states `s`:
a key no change set of `b` has keeps its value through `b`, a change set holds the value from
before `b`, and the index lists the versions whose change set has the key -/
structure Recorded (s : ℕ → K → V) (pre : ℕ → K → Option V) (idx : K → Finset ℕ) (H : ℕ) :
    Prop where
  frame : ∀ b k, 1 ≤ b → b ≤ H → pre b k = none → s b k = s (b - 1) k
  pre_eq : ∀ b k v, 1 ≤ b → b ≤ H → pre b k = some v → v = s (b - 1) k
  index : ∀ k b, b ∈ idx k ↔ 1 ≤ b ∧ b ≤ H ∧ (pre b k).isSome

/-- the read as of version `n`: the pre-image of the first version from `n` on whose change set
has `k`, else the current value -/
def read (cur : K → V) (pre : ℕ → K → Option V) (idx : K → Finset ℕ) (n : ℕ) (k : K) :
    Option V :=
  match seek (idx k) n with
  | some b => pre b k
  | none => some (cur k)

section Recorded

variable {s : ℕ → K → V} {pre : ℕ → K → Option V} {idx : K → Finset ℕ} {H : ℕ}

theorem Recorded.eq_of_frame (h : Recorded s pre idx H) (k : K) {m : ℕ} :
    ∀ m', m ≤ m' → m' ≤ H → (∀ b, m < b → b ≤ m' → pre b k = none) → s m' k = s m k
  | 0, hm, _, _ => by rw [Nat.le_zero.mp hm]
  | m' + 1, hm, hH, hnone => by
    rcases Nat.lt_or_ge m (m' + 1) with hlt | hge
    · -- the last version keeps the key, and the ones before it by induction
      have hlast : s (m' + 1) k = s m' k := h.frame (m' + 1) k (by omega) hH
        (hnone (m' + 1) hlt (Nat.le_refl _))
      rw [hlast]
      exact h.eq_of_frame k m' (by omega) (by omega) fun b hb hb' => hnone b hb (by omega)
    · rw [Nat.le_antisymm hm hge]

/-- **A read as of `n` is the state before `n`**, for `n` from `1` to one past the last version -/
theorem Recorded.read_eq (h : Recorded s pre idx H) {n : ℕ} (hn₁ : 1 ≤ n) (hn : n ≤ H + 1)
    (k : K) : read (s H) pre idx n k = some (s (n - 1) k) := by
  unfold read
  split
  · rename_i b hb
    obtain ⟨hbmem, hnb, hmin⟩ := seek_eq_some_iff.mp hb
    obtain ⟨hb₁, hbH, hsome⟩ := (h.index k b).mp hbmem
    obtain ⟨v, hv⟩ := Option.isSome_iff_exists.mp hsome
    -- between `n` and `b` no change set has the key, by the choice of `b`
    have hgap : ∀ c, n - 1 < c → c ≤ b - 1 → pre c k = none := fun c hc hcb => by
      by_contra hc'
      have hcmem : c ∈ idx k := (h.index k c).mpr ⟨by omega, by omega, Option.isSome_iff_ne_none.mpr hc'⟩
      have := hmin c hcmem (by omega)
      omega
    rw [hv, h.pre_eq b k v hb₁ hbH hv, h.eq_of_frame k (b - 1) (by omega) (by omega) hgap]
  · rename_i hb
    have hbelow := seek_eq_none_iff.mp hb
    have hgap : ∀ c, n - 1 < c → c ≤ H → pre c k = none := fun c hc hcH => by
      by_contra hc'
      have hcmem : c ∈ idx k := (h.index k c).mpr ⟨by omega, hcH, Option.isSome_iff_ne_none.mpr hc'⟩
      have := hbelow c hcmem
      omega
    rw [h.eq_of_frame k H (by omega) (Nat.le_refl _) hgap]

end Recorded

end AsOf
