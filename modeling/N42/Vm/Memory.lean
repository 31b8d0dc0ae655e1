import N42.Core.StateTransition

/-!
# (key: memory) Memory expansion and its gas

`Memory` of `internal/vm/memory.go` (its bytes and the cached `lastGasCost`), `memoryGasCost`
of `gas_table.go`, and the memory part of one round of `EVMInterpreter.Run`: the size the
operation asks for is rounded up to words (`math.SafeMul(ToWordSize(memSize), 32)`), charged by
the operation's dynamic gas through `memoryGasCost` and the memory resized to it.  Every
dynamic gas function of an operation with a memory size calls `memoryGasCost` once, on that
rounded size; a frame whose gas then runs out returns, so a run of a frame is a sequence of
rounds that all succeed, from the memory `Reset` hands it.

* `Inv`                 the memory is whole words, within the accepted bound, and
                        `lastGasCost` is the cost of its words;
* `memoryGasCost_expand`   an expansion charges the difference of the two costs, computed
                        without overflow or underflow;
* `Inv.expandMemory`, `Inv.expandAll`   one round keeps the invariant and charges the growth of
                        the cost; a run charges the cost of the final size;
* `memoryGasCost_telescopes`   the fees of a frame add up to `3 w + w² / 512` for its final
                        `w` words.
-/

namespace N42

namespace Vm

/-- `params.MemoryGas` -/
def memoryGas : UInt64 := 3
/-- `params.QuadCoeffDiv` -/
def quadCoeffDiv : UInt64 := 512

/-- `vm.Memory` -/
structure Memory where
  store : List UInt8
  lastGasCost : UInt64
deriving DecidableEq, Repr

namespace Memory

/-- `Len()` -/
def len (m : Memory) : Nat := m.store.length

/-- `Reset()`, on the memory a frame takes from the pool -/
def reset (_ : Memory) : Memory := ⟨[], 0⟩

/-- `Resize(size)`: `l := int(size) - m.Len()`, and `l` zero bytes appended when positive -/
def resize (m : Memory) (size : UInt64) : Memory :=
  let l : ℤ := size.toInt64.toInt - m.len
  if l ≤ 0 then m else { m with store := m.store ++ List.replicate l.toNat 0 }

end Memory

/-- `memoryGasCost(mem, newMemSize)`, with the `lastGasCost` it leaves behind -/
def memoryGasCost (mem : Memory) (newMemSize : UInt64) : Except VmError (UInt64 × Memory) :=
  if newMemSize = 0 then .ok (0, mem)
  else if newMemSize > 0x1FFFFFFFE0 then .error .errGasUintOverflow
  else
    let newMemSizeWords := toWordSize newMemSize
    let newMemSize := newMemSizeWords * 32
    if newMemSize > UInt64.ofNat mem.len then
      let square := newMemSizeWords * newMemSizeWords
      let linCoef := newMemSizeWords * memoryGas
      let quadCoef := square / quadCoeffDiv
      let newTotalFee := linCoef + quadCoef
      let fee := newTotalFee - mem.lastGasCost
      .ok (fee, { mem with lastGasCost := newTotalFee })
    else .ok (0, mem)

/-- `math.SafeMul(x, y)`: the low word of the product and whether it overflowed -/
def safeMul (x y : UInt64) : UInt64 × Bool := (x * y, decide (2 ^ 64 ≤ x.toNat * y.toNat))

/-- the memory part of one round of `Run` for an operation whose `memorySize` returned
`memSize`: the fee `memoryGasCost` charges and the memory after `Resize` -/
def expandMemory (mem : Memory) (memSize : UInt64) : Except VmError (UInt64 × Memory) := do
  let (memorySize, overflow) := safeMul (toWordSize memSize) 32
  if overflow then throw .errGasUintOverflow
  let (fee, mem) ← memoryGasCost mem memorySize
  pure (fee, if memorySize > 0 then mem.resize memorySize else mem)

/-- the rounds of a frame, in order: the fees charged and the memory at the end -/
def expandAll : Memory → List UInt64 → Except VmError (List UInt64 × Memory)
  | mem, [] => .ok ([], mem)
  | mem, s :: rest => do
    let (fee, mem) ← expandMemory mem s
    let (fees, mem) ← expandAll mem rest
    pure (fee :: fees, mem)

/-- the memories a frame passes through: the reset one, then one round after another -/
inductive Reachable : Memory → Prop where
  | reset (m : Memory) : Reachable m.reset
  | expand {m m' : Memory} {s fee : UInt64} :
      Reachable m → expandMemory m s = .ok (fee, m') → Reachable m'

/-- the cost of `w` words of memory, `3 w + w² / 512` -/
def expansionCost (w : ℕ) : ℕ := 3 * w + w * w / 512

/-- the memory is whole words, no more than `memoryGasCost` accepts, and `lastGasCost` is the
cost of its words -/
structure Inv (m : Memory) : Prop where
  aligned : m.len % 32 = 0
  bounded : m.len ≤ 0x1FFFFFFFE0
  cost : m.lastGasCost.toNat = expansionCost (m.len / 32)

/-! ## the arithmetic -/

theorem toNat_toWordSize_of_le {size : UInt64} (h : size.toNat ≤ 0x1FFFFFFFE0) :
    (toWordSize size).toNat = (size.toNat + 31) / 32 := by
  have hn : ¬ size > maxUint64 - 31 := by
    rw [gt_iff_lt, UInt64.lt_iff_toNat_lt, UInt64.toNat_sub_of_le _ _ (by decide)]
    simp only [toNat_maxUint64, UInt64.reduceToNat]
    omega
  rw [toWordSize, if_neg hn, UInt64.toNat_div, UInt64.toNat_add,
    Nat.mod_eq_of_lt (by simp; omega)]
  rfl

/-- a size `memoryGasCost` accepts has at most `2^32 - 1` words -/
theorem toWordSize_le {size : UInt64} (h : size.toNat ≤ 0x1FFFFFFFE0) :
    (toWordSize size).toNat ≤ 0xFFFFFFFF := by
  rw [toNat_toWordSize_of_le h]
  omega

theorem expansionCost_lt {w : ℕ} (h : w ≤ 0xFFFFFFFF) :
    w * w < 2 ^ 64 ∧ expansionCost w < 2 ^ 64 := by
  have hsq : w * w ≤ 0xFFFFFFFF * 0xFFFFFFFF := Nat.mul_le_mul h h
  unfold expansionCost
  omega

theorem expansionCost_mono {w w' : ℕ} (h : w ≤ w') : expansionCost w ≤ expansionCost w' := by
  have hsq : w * w ≤ w' * w' := Nat.mul_le_mul h h
  have : w * w / 512 ≤ w' * w' / 512 := Nat.div_le_div_right hsq
  unfold expansionCost
  omega

/-- the total fee of `w` words computed in `uint64` is the exact cost -/
theorem toNat_newTotalFee {w : UInt64} (h : w.toNat ≤ 0xFFFFFFFF) :
    (w * memoryGas + w * w / quadCoeffDiv).toNat = expansionCost w.toNat := by
  obtain ⟨hsq, hcost⟩ := expansionCost_lt h
  have hmul : (w * w).toNat = w.toNat * w.toNat := by
    rw [UInt64.toNat_mul, Nat.mod_eq_of_lt hsq]
  have hlin : (w * memoryGas).toNat = w.toNat * 3 := by
    rw [UInt64.toNat_mul, Nat.mod_eq_of_lt (by simp [memoryGas]; omega)]
    rfl
  have hquad : (w * w / quadCoeffDiv).toNat = w.toNat * w.toNat / 512 := by
    rw [UInt64.toNat_div, hmul]
    rfl
  unfold expansionCost at hcost ⊢
  rw [UInt64.toNat_add, hlin, hquad, Nat.mod_eq_of_lt (by omega)]
  omega

/-! ## one expansion -/

variable {m m' : Memory} {n s fee : UInt64}

/-- **An expansion charges the growth of the cost.**  On a memory of the invariant, a size
`memoryGasCost` accepts whose words exceed the memory charges the cost of the new words less
the cost already charged, without overflow (`toNat_newTotalFee`) or underflow -/
theorem memoryGasCost_expand (hm : Inv m) (hn : n.toNat ≤ 0x1FFFFFFFE0) (h0 : n ≠ 0)
    (hgt : m.len < (toWordSize n).toNat * 32) :
    memoryGasCost m n = .ok
      (UInt64.ofNat (expansionCost (toWordSize n).toNat - expansionCost (m.len / 32)),
        { m with lastGasCost := UInt64.ofNat (expansionCost (toWordSize n).toNat) }) ∧
      expansionCost (m.len / 32) ≤ expansionCost (toWordSize n).toNat := by
  have hw := toWordSize_le hn
  have hfee := toNat_newTotalFee hw
  have hmono : expansionCost (m.len / 32) ≤ expansionCost (toWordSize n).toNat :=
    expansionCost_mono (by omega)
  have hlen : UInt64.ofNat m.len < toWordSize n * 32 := by
    rw [UInt64.lt_iff_toNat_lt, UInt64.toNat_ofNat', UInt64.toNat_mul,
      Nat.mod_eq_of_lt (by have := hm.bounded; omega)]
    simp only [UInt64.reduceToNat]
    omega
  have hng : ¬ n > 0x1FFFFFFFE0 := by
    rw [gt_iff_lt, UInt64.lt_iff_toNat_lt]
    simp only [UInt64.reduceToNat]
    omega
  refine ⟨?_, hmono⟩
  simp only [memoryGasCost, h0, if_false, hng, gt_iff_lt, hlen, if_true]
  -- the fee and the new total, read as numbers
  have hcost := hm.cost
  congr 2
  · apply UInt64.toNat_inj.mp
    rw [UInt64.toNat_sub_of_le _ _ (UInt64.le_iff_toNat_le.mpr (by omega)), hfee, hcost,
      UInt64.toNat_ofNat', Nat.mod_eq_of_lt (by have := (expansionCost_lt hw).2; omega)]
  · congr 1
    apply UInt64.toNat_inj.mp
    rw [hfee, UInt64.toNat_ofNat', Nat.mod_eq_of_lt (expansionCost_lt hw).2]

/-- a size whose words do not exceed the memory charges nothing and leaves it as it is -/
theorem memoryGasCost_within (hn : n.toNat ≤ 0x1FFFFFFFE0) (hbound : m.len < 2 ^ 64)
    (hle : (toWordSize n).toNat * 32 ≤ m.len) : memoryGasCost m n = .ok (0, m) := by
  have hw := toWordSize_le hn
  have hng : ¬ n > 0x1FFFFFFFE0 := by
    rw [gt_iff_lt, UInt64.lt_iff_toNat_lt]
    simp only [UInt64.reduceToNat]
    omega
  have hlen : ¬ toWordSize n * 32 > UInt64.ofNat m.len := by
    rw [gt_iff_lt, UInt64.lt_iff_toNat_lt, UInt64.toNat_ofNat', UInt64.toNat_mul,
      Nat.mod_eq_of_lt hbound, Nat.mod_eq_of_lt (by simp; omega)]
    simp only [UInt64.reduceToNat]
    omega
  by_cases h0 : n = 0
  · subst h0
    rfl
  · simp only [memoryGasCost, h0, hng, hlen, if_false]

theorem toInt_toInt64 {x : UInt64} (h : x.toNat < 2 ^ 63) : x.toInt64.toInt = x.toNat := by
  rw [Int64.toInt, UInt64.toBitVec_toInt64, BitVec.toInt_eq_toNat_of_lt (by simp; omega)]
  rfl

namespace Memory

theorem resize_of_le {size : UInt64} (hs : size.toNat < 2 ^ 63) (h : size.toNat ≤ m.len) :
    m.resize size = m := by
  rw [resize, if_pos (by rw [toInt_toInt64 hs]; omega)]

@[simp] theorem lastGasCost_resize (size : UInt64) :
    (m.resize size).lastGasCost = m.lastGasCost := by
  simp only [resize]
  split_ifs <;> rfl

theorem len_resize {size : UInt64} (hs : size.toNat < 2 ^ 63) (h : m.len ≤ size.toNat) :
    (m.resize size).len = size.toNat := by
  simp only [resize, toInt_toInt64 hs]
  split_ifs with hl
  · unfold len at h hl ⊢
    omega
  · simp only [len, List.length_append, List.length_replicate] at h hl ⊢
    omega

end Memory

/-- the size `Run` hands to the dynamic gas: `ToWordSize(memSize) * 32`, when it does not
overflow -/
theorem toNat_words {s : UInt64} (h : ¬ 2 ^ 64 ≤ (toWordSize s).toNat * (32 : UInt64).toNat) :
    (toWordSize s * 32).toNat = (toWordSize s).toNat * 32 := by
  rw [UInt64.toNat_mul, Nat.mod_eq_of_lt (by omega)]
  rfl

/-- one round when `ToWordSize(memSize) * 32` does not overflow -/
theorem expandMemory_eq (h : ¬ 2 ^ 64 ≤ (toWordSize s).toNat * (32 : UInt64).toNat) :
    expandMemory m s = memoryGasCost m (toWordSize s * 32) >>= fun p =>
      .ok (p.1, if toWordSize s * 32 > 0 then p.2.resize (toWordSize s * 32) else p.2) := by
  unfold expandMemory safeMul
  dsimp only
  rw [if_neg (by simpa using h)]
  rfl

/-- a whole number of words rounds to itself -/
theorem toWordSize_words {w : UInt64} (h : w.toNat * 32 ≤ 0x1FFFFFFFE0)
    (hw : (w * 32).toNat = w.toNat * 32) : toWordSize (w * 32) = w := by
  apply UInt64.toNat_inj.mp
  rw [toNat_toWordSize_of_le (by omega), hw]
  omega

/-- **One round keeps the invariant** and charges the growth of the cost of the memory's
words: nothing when the words asked for are already there, else the cost of the new words less
that of the old -/
theorem Inv.expandMemory (hm : Inv m) (h : expandMemory m s = .ok (fee, m')) :
    Inv m' ∧ fee.toNat + expansionCost (m.len / 32) = expansionCost (m'.len / 32) := by
  by_cases hov : 2 ^ 64 ≤ (toWordSize s).toNat * (32 : UInt64).toNat
  · simp only [Vm.expandMemory, safeMul, hov, decide_true, if_true] at h
    cases h
  · have hS := toNat_words hov
    rw [expandMemory_eq hov, Except.bind_eq_ok_iff] at h
    obtain ⟨⟨f, m₁⟩, hgc, hres⟩ := h
    simp only [Except.ok.injEq, Prod.mk.injEq] at hres
    obtain ⟨rfl, rfl⟩ := hres
    have hbound := hm.bounded
    by_cases hle : (toWordSize s).toNat * 32 ≤ m.len
    · -- the words are already there: no fee, and the resize changes nothing
      have hwithin : memoryGasCost m (toWordSize s * 32) = .ok (0, m) := by
        by_cases h0 : toWordSize s * 32 = 0
        · rw [h0]
          rfl
        · exact memoryGasCost_within (by omega) (by omega)
            (by rw [toWordSize_words (by omega) hS]; exact hle)
      rw [hwithin, Except.ok.injEq, Prod.mk.injEq] at hgc
      obtain ⟨rfl, rfl⟩ := hgc
      split
      · rw [Memory.resize_of_le (by omega) (by omega)]
        exact ⟨hm, by simp⟩
      · exact ⟨hm, by simp⟩
    · -- an expansion: it must be within the bound, and charges the difference of the costs
      have hne : toWordSize s * 32 ≠ 0 := fun h0 => by
        have := congrArg UInt64.toNat h0
        simp only [hS, UInt64.reduceToNat] at this
        omega
      have hin : (toWordSize s * 32).toNat ≤ 0x1FFFFFFFE0 := by
        by_contra hout
        have herr : memoryGasCost m (toWordSize s * 32) = .error .errGasUintOverflow := by
          have hgt : toWordSize s * 32 > 0x1FFFFFFFE0 := by
            rw [gt_iff_lt, UInt64.lt_iff_toNat_lt]
            simp only [UInt64.reduceToNat]
            omega
          simp only [memoryGasCost, hne, if_false, hgt, if_true]
        rw [herr] at hgc
        cases hgc
      have hwords := toWordSize_words (by omega) hS
      have hw : (toWordSize s).toNat ≤ 0xFFFFFFFF := by omega
      obtain ⟨hexp, hmono⟩ := memoryGasCost_expand hm hin hne
        (by rw [hwords]; omega)
      rw [hexp, Except.ok.injEq, Prod.mk.injEq] at hgc
      obtain ⟨rfl, rfl⟩ := hgc
      rw [hwords] at hmono ⊢
      -- the memory after the charge, whose length the resize then raises to the words asked for
      generalize hm₁ : ({ m with
        lastGasCost := UInt64.ofNat (expansionCost (toWordSize s).toNat) } : Memory) = m₁
      have hlen₁ : m₁.len = m.len := by rw [← hm₁]; rfl
      have hcost₁ : m₁.lastGasCost = UInt64.ofNat (expansionCost (toWordSize s).toNat) := by
        rw [← hm₁]
      split
      · have hlen : (m₁.resize (toWordSize s * 32)).len = (toWordSize s).toNat * 32 := by
          rw [Memory.len_resize (by omega) (by omega), hS]
        refine ⟨⟨?_, ?_, ?_⟩, ?_⟩
        · rw [hlen]
          omega
        · rw [hlen]
          omega
        · rw [Memory.lastGasCost_resize, hlen, Nat.mul_div_cancel _ (by norm_num), hcost₁,
            UInt64.toNat_ofNat', Nat.mod_eq_of_lt (expansionCost_lt hw).2]
        · rw [hlen, Nat.mul_div_cancel _ (by norm_num), UInt64.toNat_ofNat',
            Nat.mod_eq_of_lt (by have := (expansionCost_lt hw).2; omega)]
          omega
      · -- the size is not zero, so the resize happens
        rename_i hnpos
        refine absurd ?_ hnpos
        rw [gt_iff_lt, UInt64.lt_iff_toNat_lt]
        simp only [UInt64.reduceToNat]
        omega

/-- **A run keeps the invariant** and charges, over all its rounds, the growth of the cost from
the first memory to the last -/
theorem Inv.expandAll {sizes fees : List UInt64} (hm : Inv m)
    (h : Vm.expandAll m sizes = .ok (fees, m')) :
    Inv m' ∧ (fees.map UInt64.toNat).sum + expansionCost (m.len / 32) =
      expansionCost (m'.len / 32) := by
  induction sizes generalizing m fees with
  | nil =>
    simp only [Vm.expandAll, Except.ok.injEq, Prod.mk.injEq] at h
    obtain ⟨rfl, rfl⟩ := h
    exact ⟨hm, by simp⟩
  | cons s rest ih =>
    simp only [Vm.expandAll, Except.bind_eq_ok_iff] at h
    obtain ⟨⟨f, m₁⟩, h₁, ⟨fs, m₂⟩, h₂, hres⟩ := h
    simp only [pure, Except.pure, Except.ok.injEq, Prod.mk.injEq] at hres
    obtain ⟨rfl, rfl⟩ := hres
    obtain ⟨hm₁, hcost₁⟩ := hm.expandMemory h₁
    obtain ⟨hm₂, hcost₂⟩ := ih hm₁ h₂
    refine ⟨hm₂, ?_⟩
    simp only [List.map_cons, List.sum_cons]
    omega

theorem inv_reset (m : Memory) : Inv m.reset :=
  ⟨rfl, Nat.zero_le _, by simp [Memory.reset, Memory.len, expansionCost]⟩

theorem Reachable.inv (h : Reachable m) : Inv m := by
  induction h with
  | reset m => exact inv_reset m
  | expand _ hstep ih => exact (ih.expandMemory hstep).1

/-- **Memory gas telescopes.**  Over the rounds of a frame the fees add up to the cost
`3 w + w² / 512` of the final `w` words; every memory the frame passes through is whole words
with `lastGasCost` the cost of its words; the products and the sum of `memoryGasCost` do not
overflow for any size it accepts; and on every such memory the subtraction of `lastGasCost`
from the new total does not underflow -/
theorem memoryGasCost_telescopes :
    (∀ (m : Memory) (sizes fees : List UInt64) (m' : Memory),
      Vm.expandAll m.reset sizes = .ok (fees, m') →
        (fees.map UInt64.toNat).sum = expansionCost (m'.len / 32)) ∧
    (∀ m, Reachable m →
      m.len % 32 = 0 ∧ m.lastGasCost.toNat = expansionCost (m.len / 32)) ∧
    (∀ n : UInt64, n.toNat ≤ 0x1FFFFFFFE0 →
      (toWordSize n * toWordSize n).toNat = (toWordSize n).toNat * (toWordSize n).toNat ∧
      (toWordSize n * memoryGas + toWordSize n * toWordSize n / quadCoeffDiv).toNat =
        expansionCost (toWordSize n).toNat) ∧
    (∀ m, Reachable m → ∀ n : UInt64, n.toNat ≤ 0x1FFFFFFFE0 →
      m.len < (toWordSize n).toNat * 32 →
      m.lastGasCost.toNat ≤
        (toWordSize n * memoryGas + toWordSize n * toWordSize n / quadCoeffDiv).toNat) := by
  refine ⟨fun m sizes fees m' h => ?_, fun m hr => ⟨hr.inv.aligned, hr.inv.cost⟩,
    fun n hn => ?_, fun m hr n hn hgt => ?_⟩
  · have := ((inv_reset m).expandAll h).2
    have h0 : m.reset.len = 0 := rfl
    rwa [h0, Nat.zero_div, show expansionCost 0 = 0 from rfl, Nat.add_zero] at this
  · have hw := toWordSize_le hn
    refine ⟨?_, toNat_newTotalFee hw⟩
    rw [UInt64.toNat_mul, Nat.mod_eq_of_lt (expansionCost_lt hw).1]
  · have hw := toWordSize_le hn
    rw [toNat_newTotalFee hw, hr.inv.cost]
    exact expansionCost_mono (by omega)

theorem memoryGasCost_telescopes_fourRounds :
    expandAll (Memory.reset ⟨[], 0⟩) [32, 64, 1000, 10] =
        .ok ([3, 3, 92, 0], ⟨List.replicate 1024 0, 98⟩) ∧
      ([3, 3, 92, 0].map UInt64.toNat).sum =
        expansionCost ((⟨List.replicate 1024 0, 98⟩ : Memory).len / 32) :=
  have h : expandAll (Memory.reset ⟨[], 0⟩) [32, 64, 1000, 10] =
      .ok ([3, 3, 92, 0], ⟨List.replicate 1024 0, 98⟩) := by decide +kernel
  ⟨h, memoryGasCost_telescopes.1 _ _ _ _ h⟩

end Vm

end N42
