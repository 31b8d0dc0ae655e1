import Mathlib

/-!
# (key: bigendian) Numbers as big-endian bytes

A number below `256 ^ k` is written in `k` bytes, the highest first: the base-256 digits of
`Nat.digitsAppend`, in reverse.  The fewest bytes that hold `n` are `size n`, and that writing is
the one without a leading zero byte.

* `toNat_ofNat`, `ofNat_toNat`   writing and reading are inverse, below `256 ^ k` and on lists of
                          `k` bytes;
* `toNat_append`, `toNat_cons`   the value of a concatenation;
* `size_le_iff`, `lt_size_iff`   `size n` is the least `k` with `n < 256 ^ k`;
* `head_ofNat_size`, `ofNat_size_toNat`   the writing in `size n` bytes has no leading zero, and
                          a list with none is that writing of its value.
-/

namespace BigEndian

/-- the number the bytes spell, the first byte the highest -/
def toNat (bs : List UInt8) : ℕ := Nat.ofDigits 256 (bs.reverse.map UInt8.toNat)

/-- the `k` lowest bytes of `n`, the highest first -/
def ofNat (k n : ℕ) : List UInt8 :=
  ((Nat.digitsAppend 256 k (n % 256 ^ k)).map UInt8.ofNat).reverse

/-- the fewest bytes that hold `n`: its bit length, rounded up to bytes -/
def size (n : ℕ) : ℕ := (Nat.size n + 7) / 8

theorem digits_lt_of_mem {bs : List UInt8} : ∀ d ∈ bs.reverse.map UInt8.toNat, d < 256 := by
  intro d hd
  obtain ⟨b, -, rfl⟩ := List.mem_map.mp hd
  exact b.toNat_lt

theorem toNat_ofNat_map {k n : ℕ} :
    (Nat.digitsAppend 256 k (n % 256 ^ k)).map (fun d => (UInt8.ofNat d).toNat) =
      Nat.digitsAppend 256 k (n % 256 ^ k) := by
  conv_rhs => rw [← List.map_id (Nat.digitsAppend 256 k (n % 256 ^ k))]
  refine List.map_congr_left fun d hd => ?_
  exact UInt8.toNat_ofNat_of_lt' (Nat.lt_of_mem_digitsAppend (by decide) k d hd)

@[simp] theorem length_ofNat (k n : ℕ) : (ofNat k n).length = k := by
  rw [ofNat, List.length_reverse, List.length_map]
  exact Nat.length_digitsAppend (by decide) k (Nat.mod_lt _ (Nat.pow_pos (by decide)))

theorem toNat_ofNat (k n : ℕ) : toNat (ofNat k n) = n % 256 ^ k := by
  rw [toNat, ofNat, List.reverse_reverse, List.map_map]
  change Nat.ofDigits 256 ((Nat.digitsAppend 256 k (n % 256 ^ k)).map
    fun d => (UInt8.ofNat d).toNat) = _
  rw [toNat_ofNat_map, Nat.digitsAppend, Nat.ofDigits_append_replicate_zero, Nat.ofDigits_digits]

theorem toNat_lt (bs : List UInt8) : toNat bs < 256 ^ bs.length := by
  have h := Nat.ofDigits_lt_base_pow_length (by decide : 1 < 256) (@digits_lt_of_mem bs)
  rwa [List.length_map, List.length_reverse] at h

theorem ofNat_toNat (bs : List UInt8) : ofNat bs.length (toNat bs) = bs := by
  have hdigits : Nat.digitsAppend 256 bs.length (Nat.ofDigits 256 (bs.reverse.map UInt8.toNat)) =
      bs.reverse.map UInt8.toNat :=
    (Nat.setInvOn_digitsAppend_ofDigits (by decide) bs.length).1
      ⟨by simp, digits_lt_of_mem⟩
  rw [ofNat, Nat.mod_eq_of_lt (toNat_lt bs), toNat, hdigits, List.map_map]
  have hid : (UInt8.ofNat ∘ UInt8.toNat) = id := funext fun _ => UInt8.ofNat_toNat
  rw [hid, List.map_id, List.reverse_reverse]

theorem toNat_append (xs ys : List UInt8) :
    toNat (xs ++ ys) = toNat xs * 256 ^ ys.length + toNat ys := by
  rw [toNat, List.reverse_append, List.map_append, Nat.ofDigits_append, List.length_map,
    List.length_reverse, toNat, toNat]
  ring

theorem toNat_cons (b : UInt8) (bs : List UInt8) :
    toNat (b :: bs) = b.toNat * 256 ^ bs.length + toNat bs := by
  have h := toNat_append [b] bs
  rwa [List.singleton_append, show toNat [b] = b.toNat from by simp [toNat]] at h

@[simp] theorem toNat_nil : toNat [] = 0 := rfl

theorem size_le_iff {n k : ℕ} : size n ≤ k ↔ n < 256 ^ k := by
  have hpow : (256 : ℕ) ^ k = 2 ^ (8 * k) := by rw [pow_mul]; norm_num
  rw [hpow, ← Nat.size_le, size]
  omega

theorem lt_size_iff {n k : ℕ} : k < size n ↔ 256 ^ k ≤ n := by
  rw [← not_le, size_le_iff, not_lt]

@[simp] theorem size_zero : size 0 = 0 := rfl

theorem size_toNat_cons {b : UInt8} (hb : b ≠ 0) (bs : List UInt8) :
    size (toNat (b :: bs)) = bs.length + 1 := by
  have hlow : 256 ^ bs.length ≤ toNat (b :: bs) := by
    have hb1 : 1 ≤ b.toNat := Nat.one_le_iff_ne_zero.mpr fun h => hb (UInt8.toNat_inj.mp h)
    rw [toNat_cons]
    exact (Nat.le_mul_of_pos_left _ hb1).trans (Nat.le_add_right _ _)
  have hhigh := toNat_lt (b :: bs)
  rw [List.length_cons] at hhigh
  exact Nat.le_antisymm (size_le_iff.mpr hhigh) (lt_size_iff.mpr hlow)

/-- a list without a leading zero is the writing of its value in `size` bytes -/
theorem ofNat_size_toNat {bs : List UInt8} (hbs : bs.head? ≠ some 0) :
    ofNat (size (toNat bs)) (toNat bs) = bs := by
  cases bs with
  | nil => rfl
  | cons b bs =>
    have hb : b ≠ 0 := fun h => hbs (by rw [h]; rfl)
    rw [size_toNat_cons hb, ← List.length_cons, ofNat_toNat]

theorem head_ofNat_size (n : ℕ) : (ofNat (size n) n).head? ≠ some 0 := by
  intro hhead
  obtain ⟨t, ht⟩ : ∃ t, ofNat (size n) n = 0 :: t := by
    cases h : ofNat (size n) n with
    | nil => rw [h] at hhead; cases hhead
    | cons b t => rw [h] at hhead; cases hhead; exact ⟨t, rfl⟩
  have hval : toNat (ofNat (size n) n) = n :=
    (toNat_ofNat _ n).trans (Nat.mod_eq_of_lt (size_le_iff.mp le_rfl))
  have hlen : t.length + 1 = size n := by
    rw [← List.length_cons, ← ht, length_ofNat]
  -- a leading zero puts the value below `256 ^ (size n - 1)`, which `size` rules out
  have hlow : 256 ^ t.length ≤ n := lt_size_iff.mp (by omega)
  rw [ht, toNat_cons] at hval
  have := toNat_lt t
  simp only [UInt8.toNat_zero, zero_mul, zero_add] at hval
  omega

end BigEndian
