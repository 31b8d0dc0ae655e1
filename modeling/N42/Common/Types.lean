import Mathlib

/-!
# (key: types) Words, addresses and hashes

The node computes with `holiman/uint256` words: 256-bit, wrapping on overflow, `x / 0 = 0`,
`Cmp` returning `-1`, `0` or `1`.  They are `BitVec 256` here.  An address is the 20-byte
big-endian array `types.Address`, read as one 160-bit number; a hash is 32 bytes.

* `U256.newInt`        `uint256.NewInt` / `SetUint64`;
* `U256.cmp`           `Cmp`, with its three cases as simp lemmas;
* `U256.mulOverflow`, `U256.addOverflow`   the product and sum with the carry flag, and
                       `toNat_mul_of_not_mulOverflow` / `toNat_add_of_not_addOverflow`: without
                       the flag the wrapped result is the exact one;
* `U256.min256`        `math.Min256`.
-/

set_option linter.unusedSectionVars false
set_option linter.unusedVariables false

namespace N42

/-- a `uint256.Int` -/
abbrev U256 := BitVec 256

/-- a `types.Address` (20 bytes, big endian) -/
abbrev Address := BitVec 160

/-- a `types.Hash` (32 bytes, big endian) -/
abbrev Hash := BitVec 256

namespace U256

/-- `uint256.NewInt(n)` -/
def newInt (n : UInt64) : U256 := BitVec.ofNat 256 n.toNat

/-- `x.Cmp(y)` -/
def cmp (x y : U256) : Int := if x < y then -1 else if x = y then 0 else 1

/-- `MulOverflow`: the wrapped product and whether the exact one needs more than 256 bits -/
def mulOverflow (x y : U256) : U256 × Bool := (x * y, decide (2 ^ 256 ≤ x.toNat * y.toNat))

/-- `AddOverflow`: the wrapped sum and its carry -/
def addOverflow (x y : U256) : U256 × Bool := (x + y, decide (2 ^ 256 ≤ x.toNat + y.toNat))

/-- `math.Min256` -/
def min256 (x y : U256) : U256 := if 0 < cmp x y then y else x

@[simp] theorem toNat_newInt (n : UInt64) : (newInt n).toNat = n.toNat := by
  have h : n.toNat < 2 ^ 256 := lt_trans n.toNat_lt (by norm_num)
  simpa [newInt] using h

/-- `Cmp` read through the numbers it compares -/
theorem cmp_eq (x y : U256) :
    cmp x y = if x.toNat < y.toNat then -1 else if x.toNat = y.toNat then 0 else 1 := by
  simp only [cmp, BitVec.lt_def, ← BitVec.toNat_inj]

theorem cmp_eq_neg_one_iff (x y : U256) : cmp x y = -1 ↔ x < y := by
  rw [cmp_eq, BitVec.lt_def]
  split_ifs <;> simp_all

theorem cmp_eq_zero_iff (x y : U256) : cmp x y = 0 ↔ x = y := by
  rw [cmp_eq, ← BitVec.toNat_inj]
  split_ifs <;> simp_all
  omega

theorem cmp_eq_one_iff (x y : U256) : cmp x y = 1 ↔ y < x := by
  rw [cmp_eq, BitVec.lt_def]
  split_ifs <;> simp_all <;> omega

/-- `Cmp` says no more than the order: the three readings the code makes of it -/
@[simp] theorem cmp_lt_zero_iff (x y : U256) : cmp x y < 0 ↔ x < y := by
  rw [cmp_eq, BitVec.lt_def]
  split_ifs <;> simp_all

@[simp] theorem cmp_le_zero_iff (x y : U256) : cmp x y ≤ 0 ↔ x ≤ y := by
  rw [cmp_eq, BitVec.le_def]
  split_ifs <;> simp_all <;> omega

@[simp] theorem cmp_pos_iff (x y : U256) : 0 < cmp x y ↔ y < x := by
  rw [cmp_eq, BitVec.lt_def]
  split_ifs <;> simp_all <;> omega

@[simp] theorem one_le_cmp_iff (x y : U256) : 1 ≤ cmp x y ↔ y < x := by
  rw [cmp_eq, BitVec.lt_def]
  split_ifs <;> simp_all <;> omega

@[simp] theorem mulOverflow_fst (x y : U256) : (mulOverflow x y).1 = x * y := rfl

@[simp] theorem addOverflow_fst (x y : U256) : (addOverflow x y).1 = x + y := rfl

theorem mulOverflow_snd_eq_false_iff (x y : U256) :
    (mulOverflow x y).2 = false ↔ x.toNat * y.toNat < 2 ^ 256 := by
  simp [mulOverflow]

theorem addOverflow_snd_eq_false_iff (x y : U256) :
    (addOverflow x y).2 = false ↔ x.toNat + y.toNat < 2 ^ 256 := by
  simp [addOverflow]

theorem toNat_mul_of_lt {x y : U256} (h : x.toNat * y.toNat < 2 ^ 256) :
    (x * y).toNat = x.toNat * y.toNat := by
  rw [BitVec.toNat_mul, Nat.mod_eq_of_lt h]

theorem toNat_add_of_lt {x y : U256} (h : x.toNat + y.toNat < 2 ^ 256) :
    (x + y).toNat = x.toNat + y.toNat := by
  rw [BitVec.toNat_add, Nat.mod_eq_of_lt h]

theorem toNat_mul_of_not_mulOverflow {x y : U256} (h : (mulOverflow x y).2 = false) :
    (x * y).toNat = x.toNat * y.toNat :=
  toNat_mul_of_lt ((mulOverflow_snd_eq_false_iff x y).mp h)

theorem toNat_add_of_not_addOverflow {x y : U256} (h : (addOverflow x y).2 = false) :
    (x + y).toNat = x.toNat + y.toNat :=
  toNat_add_of_lt ((addOverflow_snd_eq_false_iff x y).mp h)

/-- a `SetUint64` word times a word, when the product fits -/
theorem toNat_newInt_mul {n : UInt64} {y : U256} (h : n.toNat * y.toNat < 2 ^ 256) :
    (newInt n * y).toNat = n.toNat * y.toNat := by
  rw [toNat_mul_of_lt (by rwa [toNat_newInt]), toNat_newInt]

theorem toNat_min256 (x y : U256) : (min256 x y).toNat = min x.toNat y.toNat := by
  unfold min256
  split_ifs with h
  · rw [cmp_pos_iff, BitVec.lt_def] at h
    omega
  · rw [cmp_pos_iff, BitVec.not_lt, BitVec.le_def] at h
    omega

end U256

end N42
