import N42.TxsPool.SortedMap
import N42.Params.Protocol

/-!
# (key: txslist) The transaction list of one account

`txsList` of `internal/txspool/txs_list.go`: the nonce-sorted map of an account's
transactions, whether it is a pending (`strict`) or a queued list, and the highest cost and gas
seen (`costcap`, `gascap`), which let `Filter` skip its scan.  Go ranges over a map in an order of
its own; here `ord items` is that order, any enumeration of the keys.

* `replaces`, `toNat_bumpThreshold`   the replacement rule of `Add`, with its thresholds in
                         wrapping 256-bit words;
* `replaces_iff_of_no_wrap`  where nothing wraps, the rule is the percentage bump over the
                         integers;
* `add_accepts_same_caps_at_wrap`   at a fee cap of `2^255` and a bump of 10%, the bumped
                         threshold wraps to `0` and a replacement at the same price is taken;
* `CapsCover`, `Reachable.inv`   on every list the operations reach, `costcap` and `gascap`
                         bound the cost and the gas of every transaction held;
* `filter_outcome`, `reachable_filter`   what `Filter` removes, invalidates and keeps.
-/

namespace N42

/-- `txsList` -/
structure TxsList where
  strict : Bool
  txs : TxsSortedMap
  costcap : U256
  gascap : UInt64

namespace TxsList

/-- `newTxsList(strict)` -/
def newTxsList (strict : Bool) : TxsList := ⟨strict, TxsSortedMap.empty, U256.newInt 0, 0⟩

/-- `Overlaps(tx)` -/
def overlaps (l : TxsList) (tx : Transaction) : Bool := (l.txs.get tx.nonce).isSome

/-- a threshold of `Add`: `(100 + priceBump) * cap / 100`, the sum in 64 bits and the product
in 256 -/
def bumpThreshold (priceBump : UInt64) (cap : U256) : U256 :=
  U256.newInt (100 + priceBump) * cap / U256.newInt 100

/-- the checks of `Add` against the transaction `old` of the same nonce: neither cap may be
lower than the old one, and both must reach the bumped thresholds -/
def replaces (old tx : Transaction) (priceBump : UInt64) : Bool :=
  if U256.cmp old.gasFeeCap tx.gasFeeCap ≥ 1 ∨ U256.cmp old.gasTipCap tx.gasTipCap ≥ 1 then false
  else if U256.cmp tx.gasFeeCap (bumpThreshold priceBump old.gasFeeCap) < 0 ∨
      U256.cmp tx.gasTipCap (bumpThreshold priceBump old.gasTipCap) < 0 then false
  else true

/-- `Add(tx, priceBump)`: whether `tx` was taken, the transaction it replaced, and the list -/
def add (l : TxsList) (tx : Transaction) (priceBump : UInt64) :
    Bool × Option Transaction × TxsList :=
  let old := l.txs.get tx.nonce
  if old.all fun old => replaces old tx priceBump then
    (true, old,
      { l with
        txs := l.txs.put tx
        costcap := if U256.cmp l.costcap tx.cost < 0 then tx.cost else l.costcap
        gascap := if l.gascap < tx.gas then tx.gas else l.gascap })
  else (false, none, l)

/-- `Forward(threshold)` -/
def forward (l : TxsList) (threshold : UInt64) : Option (TxsList × List Transaction) :=
  (l.txs.forward threshold).map fun r => ({ l with txs := r.1 }, r.2)

/-- `txsSortedMap.Filter(f)`, each range over the items in the order `ord` gives -/
def filterSorted (ord : NonceItems → List UInt64) (f : Transaction → Bool) (m : TxsSortedMap) :
    TxsSortedMap × List Transaction :=
  m.filterReheap (ord m.items) (ord (m.filter (ord m.items) f).1.items) f

/-- the test of `Filter`: gas above the limit, or `value + gasPrice * gas` above the cost limit -/
def overLimits (costLimit : U256) (gasLimit : UInt64) (tx : Transaction) : Bool :=
  decide (gasLimit < tx.gas) ||
    decide (U256.cmp (tx.value + tx.gasPrice * U256.newInt tx.gas) costLimit > 0)

/-- the least nonce of the removed transactions, from `math.MaxUint64` -/
def lowestNonce (removed : List Transaction) : UInt64 :=
  removed.foldl (fun lowest tx => if lowest > tx.nonce then tx.nonce else lowest) maxUint64

/-- `Filter(costLimit, gasLimit)`: the list, the transactions removed and, in strict mode,
those invalidated above the lowest nonce removed -/
def filter (ord : NonceItems → List UInt64) (l : TxsList) (costLimit : U256) (gasLimit : UInt64) :
    TxsList × List Transaction × List Transaction :=
  if U256.cmp l.costcap costLimit ≤ 0 ∧ l.gascap ≤ gasLimit then (l, [], [])
  else
    let r := filterSorted ord (overLimits costLimit gasLimit) l.txs
    let l' := { l with txs := r.1, costcap := costLimit, gascap := gasLimit }
    if r.2.isEmpty then (l', [], [])
    else
      let s := if l.strict then
          r.1.filter (ord r.1.items) fun tx => decide (tx.nonce > lowestNonce r.2)
        else (r.1, [])
      ({ l' with txs := s.1.reheap (ord s.1.items) }, r.2, s.2)

/-- `Cap(threshold)` -/
def cap (l : TxsList) (threshold : Int) : Option (TxsList × List Transaction) :=
  (l.txs.cap threshold).map fun r => ({ l with txs := r.1 }, r.2)

/-- `Remove(tx)`: whether the nonce was held, and in strict mode the transactions above it,
which leave the list too -/
def remove (ord : NonceItems → List UInt64) (l : TxsList) (tx : Transaction) :
    Bool × List Transaction × TxsList :=
  let r := l.txs.remove tx.nonce
  if !r.2 then (false, [], { l with txs := r.1 })
  else if l.strict then
    let s := filterSorted ord (fun t => decide (t.nonce > tx.nonce)) r.1
    (true, s.2, { l with txs := s.1 })
  else (true, [], { l with txs := r.1 })

/-- `Ready(start)` -/
def ready (l : TxsList) (start : UInt64) : TxsList × List Transaction :=
  ({ l with txs := (l.txs.ready start).1 }, (l.txs.ready start).2)

/-- `Len()` -/
def len (l : TxsList) : Nat := l.txs.len

/-- `Empty()` -/
def empty (l : TxsList) : Bool := l.len = 0

/-- `Flatten()` -/
def flatten (ord : NonceItems → List UInt64) (l : TxsList) : TxsList × List Transaction :=
  ({ l with txs := (l.txs.flatten (ord l.txs.items)).1 }, (l.txs.flatten (ord l.txs.items)).2)

/-- `LastElement()` -/
def lastElement (ord : NonceItems → List UInt64) (l : TxsList) : Option (TxsList × Transaction) :=
  (l.txs.lastElement (ord l.txs.items)).map fun r => ({ l with txs := r.1 }, r.2)

/-! ## the replacement rule of `Add` -/

/-- a threshold of `Add` as a number: the 64-bit sum wraps, then the 256-bit product -/
theorem toNat_bumpThreshold (priceBump : UInt64) (cap : U256) :
    (bumpThreshold priceBump cap).toNat =
      (100 + priceBump.toNat) % 2 ^ 64 * cap.toNat % 2 ^ 256 / 100 := by
  rw [bumpThreshold, BitVec.toNat_udiv, BitVec.toNat_mul, U256.toNat_newInt, U256.toNat_newInt,
    UInt64.toNat_add]
  rfl

theorem replaces_eq_true_iff (old tx : Transaction) (priceBump : UInt64) :
    replaces old tx priceBump = true ↔
      old.gasFeeCap ≤ tx.gasFeeCap ∧ old.gasTipCap ≤ tx.gasTipCap ∧
      bumpThreshold priceBump old.gasFeeCap ≤ tx.gasFeeCap ∧
      bumpThreshold priceBump old.gasTipCap ≤ tx.gasTipCap := by
  unfold replaces
  simp only [ge_iff_le, U256.one_le_cmp_iff, U256.cmp_lt_zero_iff]
  by_cases h₁ : tx.gasFeeCap < old.gasFeeCap ∨ tx.gasTipCap < old.gasTipCap
  · rw [if_pos h₁]
    simp only [Bool.false_eq_true, false_iff]
    rcases h₁ with h | h <;> intro hc
    · exact absurd hc.1 (BitVec.not_le.mpr h)
    · exact absurd hc.2.1 (BitVec.not_le.mpr h)
  · rw [if_neg h₁]
    by_cases h₂ : tx.gasFeeCap < bumpThreshold priceBump old.gasFeeCap ∨
        tx.gasTipCap < bumpThreshold priceBump old.gasTipCap
    · rw [if_pos h₂]
      simp only [Bool.false_eq_true, false_iff]
      rcases h₂ with h | h <;> intro hc
      · exact absurd hc.2.2.1 (BitVec.not_le.mpr h)
      · exact absurd hc.2.2.2 (BitVec.not_le.mpr h)
    · rw [if_neg h₂]
      simp only [not_or, BitVec.not_lt] at h₁ h₂
      exact iff_of_true rfl ⟨h₁.1, h₁.2, h₂.1, h₂.2⟩

/-- where neither the bumped percentage nor the products wrap, `Add` replaces exactly at the
percentage bump over the integers -/
theorem replaces_iff_of_no_wrap (old tx : Transaction) (priceBump : UInt64)
    (hb : 100 + priceBump.toNat < 2 ^ 64)
    (hfee : (100 + priceBump.toNat) * old.gasFeeCap.toNat < 2 ^ 256)
    (htip : (100 + priceBump.toNat) * old.gasTipCap.toNat < 2 ^ 256) :
    replaces old tx priceBump = true ↔
      old.gasFeeCap.toNat ≤ tx.gasFeeCap.toNat ∧ old.gasTipCap.toNat ≤ tx.gasTipCap.toNat ∧
      old.gasFeeCap.toNat * (100 + priceBump.toNat) / 100 ≤ tx.gasFeeCap.toNat ∧
      old.gasTipCap.toNat * (100 + priceBump.toNat) / 100 ≤ tx.gasTipCap.toNat := by
  have hthreshold : ∀ cap : U256, (100 + priceBump.toNat) * cap.toNat < 2 ^ 256 →
      (bumpThreshold priceBump cap).toNat = cap.toNat * (100 + priceBump.toNat) / 100 := by
    intro cap hcap
    rw [toNat_bumpThreshold, Nat.mod_eq_of_lt hb, Nat.mod_eq_of_lt hcap, Nat.mul_comm]
  rw [replaces_eq_true_iff, BitVec.le_def, BitVec.le_def, BitVec.le_def, BitVec.le_def,
    hthreshold _ hfee, hthreshold _ htip]

theorem replaces_iff_of_no_wrap_at_bump :
    (100 + (10 : UInt64).toNat < 2 ^ 64 ∧ (100 + (10 : UInt64).toNat) * (7 : U256).toNat < 2 ^ 256) ∧
      (replaces ⟨.legacy ⟨0, 7, 0, none, none, 0, [], none, none, none, []⟩⟩
        ⟨.legacy ⟨0, 8, 0, none, none, 0, [], none, none, none, []⟩⟩ 10 = true ↔
        7 ≤ 8 ∧ 7 ≤ 8 ∧ 7 * 110 / 100 ≤ 8 ∧ 7 * 110 / 100 ≤ 8) :=
  ⟨⟨by decide, by decide⟩, replaces_iff_of_no_wrap _ _ 10 (by decide) (by decide) (by decide)⟩

/-- a rejected transaction leaves the list as it was -/
theorem add_of_not_all {l : TxsList} {tx : Transaction} {priceBump : UInt64}
    (h : (l.txs.get tx.nonce).all (fun old => replaces old tx priceBump) = false) :
    l.add tx priceBump = (false, none, l) := by
  simp only [add, h, Bool.false_eq_true, if_false]

theorem add_of_not_replaces {l : TxsList} {tx old : Transaction} {priceBump : UInt64}
    (hold : l.txs.get tx.nonce = some old) (h : replaces old tx priceBump = false) :
    l.add tx priceBump = (false, none, l) :=
  add_of_not_all (by rw [hold, Option.all_some, h])

/-- an accepted transaction is held under its nonce, the one it replaced is returned, and the
caps take in its cost and gas -/
theorem add_of_replaces (l : TxsList) (tx : Transaction) (priceBump : UInt64)
    (h : (l.txs.get tx.nonce).all (fun old => replaces old tx priceBump) = true) :
    (l.add tx priceBump).1 = true ∧ (l.add tx priceBump).2.1 = l.txs.get tx.nonce ∧
      (l.add tx priceBump).2.2 =
        { l with
          txs := l.txs.put tx
          costcap := if U256.cmp l.costcap tx.cost < 0 then tx.cost else l.costcap
          gascap := if l.gascap < tx.gas then tx.gas else l.gascap } := by
  simp only [add, h, if_true]
  exact ⟨trivial, trivial, trivial⟩

/-- the old transaction of a replacement at a fee cap of `2^255` -/
def wrapOld : Transaction :=
  ⟨.dynamicFee
    { chainID := 1, nonce := 0, gasTipCap := 0x8000000000000000000000000000000000000000000000000000000000000000,
      gasFeeCap := 0x8000000000000000000000000000000000000000000000000000000000000000, gas := 21000,
      toAddr := none, fromAddr := none, value := 0, data := [], accessList := [], sign := [],
      v := none, r := none, s := none }⟩

/-- the same transaction at the same caps, sending one wei -/
def wrapNew : Transaction :=
  ⟨.dynamicFee
    { chainID := 1, nonce := 0, gasTipCap := 0x8000000000000000000000000000000000000000000000000000000000000000,
      gasFeeCap := 0x8000000000000000000000000000000000000000000000000000000000000000, gas := 21000,
      toAddr := none, fromAddr := none, value := 1, data := [], accessList := [], sign := [],
      v := none, r := none, s := none }⟩

/-- with a bump of 10% the threshold `110 * 2^255` wraps to `0`, so `Add` replaces `wrapOld`
by `wrapNew` at the same price, where the bump over the integers asks for more -/
theorem add_accepts_same_caps_at_wrap :
    ((newTxsList true).add wrapOld 10).2.2.txs.get wrapNew.nonce = some wrapOld ∧
      (((newTxsList true).add wrapOld 10).2.2.add wrapNew 10).1 = true ∧
      (((newTxsList true).add wrapOld 10).2.2.add wrapNew 10).2.1 = some wrapOld ∧
      wrapNew.gasFeeCap.toNat < wrapOld.gasFeeCap.toNat * (100 + 10) / 100 := by
  have hfirst := add_of_replaces (newTxsList true) wrapOld 10 rfl
  have hget : ((newTxsList true).add wrapOld 10).2.2.txs.get wrapNew.nonce = some wrapOld := by
    rw [hfirst.2.2]
    exact Finmap.lookup_insert _
  have hrep : replaces wrapOld wrapNew 10 = true := by decide
  have hsecond := add_of_replaces ((newTxsList true).add wrapOld 10).2.2 wrapNew 10
    (by rw [hget, Option.all_some, hrep])
  exact ⟨hget, hsecond.1, hsecond.2.1.trans hget, by decide⟩

/-! ## the items an operation leaves -/

/-- every item of `m'` is an item of `m` -/
def ItemsSub (m' m : TxsSortedMap) : Prop :=
  ∀ n tx, m'.items.lookup n = some tx → m.items.lookup n = some tx

theorem ItemsSub.trans {m₁ m₂ m₃ : TxsSortedMap} (h₁ : ItemsSub m₁ m₂) (h₂ : ItemsSub m₂ m₃) :
    ItemsSub m₁ m₃ :=
  fun n tx h => h₂ n tx (h₁ n tx h)

theorem itemsSub_of_lookup {m' m : TxsSortedMap}
    (h : ∀ n, m'.items.lookup n = none ∨ m'.items.lookup n = m.items.lookup n) : ItemsSub m' m := by
  intro n tx hn
  rcases h n with h | h
  · rw [h] at hn
    cases hn
  · rw [← h]
    exact hn

theorem itemsSub_of_ite {m' m : TxsSortedMap} {p : UInt64 → Prop} [DecidablePred p]
    (h : ∀ n, m'.items.lookup n = if p n then none else m.items.lookup n) : ItemsSub m' m :=
  itemsSub_of_lookup fun n => by
    rw [h n]
    split
    · exact Or.inl rfl
    · exact Or.inr rfl

theorem itemsSub_forward {m m' : TxsSortedMap} {removed : List Transaction}
    (hm : TxsSortedMap.Inv m) {t : UInt64} (h : m.forward t = some (m', removed)) :
    ItemsSub m' m := by
  obtain ⟨m'', removed', h', -, hlookup, -⟩ := TxsSortedMap.forward_spec hm t
  rw [h, Option.some.injEq, Prod.mk.injEq] at h'
  rw [h'.1]
  exact itemsSub_of_ite hlookup

theorem itemsSub_cap {m m' : TxsSortedMap} {drops : List Transaction} (hm : TxsSortedMap.Inv m)
    {k : Int} (h : m.cap k = some (m', drops)) : ItemsSub m' m := by
  obtain ⟨hle, hneg, hcap⟩ := TxsSortedMap.cap_spec hm k
  by_cases hk : (m.len : Int) ≤ k
  · rw [hle hk, Option.some.injEq, Prod.mk.injEq] at h
    rw [← h.1]
    exact fun _ _ => id
  by_cases hk0 : k < 0
  · rw [hneg hk0] at h
    cases h
  obtain ⟨m'', drops', h', -, -, -, -, hlookup, -⟩ := hcap (by omega) (by omega)
  rw [h, Option.some.injEq, Prod.mk.injEq] at h'
  rw [h'.1]
  exact itemsSub_of_ite hlookup

theorem itemsSub_ready {m : TxsSortedMap} (hm : TxsSortedMap.Inv m) (s : UInt64) :
    ItemsSub (m.ready s).1 m := by
  by_cases hs : ∀ n ∈ m.items, s < n
  · rw [(TxsSortedMap.ready_spec hm s).2.1 hs]
    exact fun _ _ => id
  · -- below `s` there is an item, so the heap has a head, the least nonce, where the run starts
    obtain ⟨n1, hn1, hle1⟩ : ∃ n1 ∈ m.items, ¬ s < n1 := by
      by_contra hno
      exact hs fun n hn => by_contra fun h => hno ⟨n, hn, h⟩
    have hne : m.index ≠ [] := fun h => by
      have := (hm.heap.mem n1).mpr hn1
      rw [h] at this
      cases this
    obtain ⟨h0, hh⟩ := Option.isSome_iff_exists.mp (List.isSome_head?.mpr hne)
    obtain ⟨hh0, hmin⟩ := TxsSortedMap.head_eq_min hm hh
    have hle : h0 ≤ s := by
      have := hmin n1 hn1
      rw [UInt64.le_iff_toNat_le] at this ⊢
      rw [UInt64.lt_iff_toNat_lt] at hle1
      omega
    exact itemsSub_of_ite ((TxsSortedMap.ready_spec hm s).2.2 h0 hh0 hmin hle).2.2.2.2

theorem itemsSub_remove (m : TxsSortedMap) (nonce : UInt64) : ItemsSub (m.remove nonce).1 m := by
  unfold TxsSortedMap.remove
  split
  · exact fun _ _ => id
  · have herase : ∀ n, (m.items.erase nonce).lookup n =
        if n = nonce then none else m.items.lookup n := fun n => by
      by_cases hn : n = nonce
      · rw [hn, Finmap.lookup_erase, if_pos rfl]
      · rw [Finmap.lookup_erase_ne hn, if_neg hn]
    exact itemsSub_of_ite herase

section Filter

variable {ord : NonceItems → List UInt64} (hord : ∀ items, Enumerates (ord items) items)
include hord

theorem lookup_filterSorted (f : Transaction → Bool) (m : TxsSortedMap) (n : UInt64) :
    (filterSorted ord f m).1.items.lookup n = (m.items.lookup n).filter fun tx => !f tx := by
  rw [filterSorted, (TxsSortedMap.filterReheap_items _ _ f m).1]
  exact TxsSortedMap.lookup_filter (hord _) f n

theorem filterSorted_removed {m : TxsSortedMap} (hk : TxsSortedMap.Keyed m.items)
    (f : Transaction → Bool) :
    ((filterSorted ord f m).2.map Transaction.nonce).Nodup ∧
      ∀ tx, tx ∈ (filterSorted ord f m).2 ↔ m.items.lookup tx.nonce = some tx ∧ f tx = true := by
  rw [filterSorted, (TxsSortedMap.filterReheap_items _ _ f m).2]
  exact TxsSortedMap.filter_removed hk (hord _) f

end Filter

theorem lowestNonce_fold (removed : List Transaction) : ∀ a : UInt64,
    removed.foldl (fun lowest tx => if lowest > tx.nonce then tx.nonce else lowest) a ≤ a ∧
      (∀ tx ∈ removed,
        removed.foldl (fun lowest tx => if lowest > tx.nonce then tx.nonce else lowest) a ≤
          tx.nonce) ∧
      (removed.foldl (fun lowest tx => if lowest > tx.nonce then tx.nonce else lowest) a = a ∨
        ∃ tx ∈ removed,
          removed.foldl (fun lowest tx => if lowest > tx.nonce then tx.nonce else lowest) a =
            tx.nonce) := by
  induction removed with
  | nil => intro a; exact ⟨UInt64.le_refl a, (fun _ h => by cases h), Or.inl rfl⟩
  | cons tx rest ih =>
    intro a
    obtain ⟨hle, hall, heq⟩ := ih (if a > tx.nonce then tx.nonce else a)
    simp only [List.foldl_cons, List.mem_cons, forall_eq_or_imp, exists_eq_or_imp]
    -- the accumulator after `tx` is the least of `a` and its nonce
    have hmin : (if a > tx.nonce then tx.nonce else a) ≤ a ∧
        (if a > tx.nonce then tx.nonce else a) ≤ tx.nonce := by
      split <;> rename_i h <;> simp only [gt_iff_lt, UInt64.lt_iff_toNat_lt] at h <;>
        simp only [UInt64.le_iff_toNat_le] <;> omega
    refine ⟨UInt64.le_trans hle hmin.1, ⟨UInt64.le_trans hle hmin.2, hall⟩, ?_⟩
    rcases heq with h | h
    · rw [h]
      split
      · exact Or.inr (Or.inl rfl)
      · exact Or.inl rfl
    · exact Or.inr (Or.inr h)

/-- `lowest` is the least nonce of what `Filter` removed -/
theorem lowestNonce_spec (removed : List Transaction) :
    (∀ tx ∈ removed, lowestNonce removed ≤ tx.nonce) ∧
      (removed ≠ [] → ∃ tx ∈ removed, lowestNonce removed = tx.nonce) := by
  obtain ⟨-, hall, heq⟩ := lowestNonce_fold removed maxUint64
  refine ⟨hall, fun hne => ?_⟩
  rcases heq with h | h
  · -- the start `math.MaxUint64` is above every nonce, so a first one reaches it
    obtain ⟨tx, rest, rfl⟩ := List.exists_cons_of_ne_nil hne
    refine ⟨tx, List.mem_cons_self, ?_⟩
    have hle := hall tx List.mem_cons_self
    rw [lowestNonce, h] at *
    apply UInt64.toNat_inj.mp
    have := tx.nonce.toNat_lt
    have hmax : maxUint64.toNat = 2 ^ 64 - 1 := rfl
    rw [UInt64.le_iff_toNat_le] at hle
    omega
  · exact h

theorem not_overLimits_iff (costLimit : U256) (gasLimit : UInt64) (tx : Transaction) :
    overLimits costLimit gasLimit tx = false ↔ tx.gas ≤ gasLimit ∧ tx.cost ≤ costLimit := by
  simp only [overLimits, Transaction.cost, Bool.or_eq_false_iff, decide_eq_false_iff_not,
    gt_iff_lt, U256.cmp_pos_iff, BitVec.not_lt, UInt64.not_lt]
  rw [BitVec.add_comm]

/-! ## what `Filter` keeps, removes and invalidates -/

/-- the items before are those kept, removed and invalidated, each once -/
structure Partition (items kept : NonceItems) (removed invalids : List Transaction) : Prop where
  held : ∀ tx, items.lookup tx.nonce = some tx ↔
    kept.lookup tx.nonce = some tx ∨ tx ∈ removed ∨ tx ∈ invalids
  kept_sub : ∀ n tx, kept.lookup n = some tx → items.lookup n = some tx
  nodup : ((removed ++ invalids).map Transaction.nonce).Nodup
  gone : ∀ tx ∈ removed ++ invalids, tx.nonce ∉ kept

theorem lookup_filter_eq_some {o : Option Transaction} {p : Transaction → Bool} {tx : Transaction} :
    o.filter (fun t => !p t) = some tx ↔ o = some tx ∧ p tx = false := by
  rw [Option.filter_eq_some_iff, Bool.not_eq_true']

/-- two filters one after the other split the items into three -/
theorem partition_two_stages {items mid kept : NonceItems} {removed invalids : List Transaction}
    {f g : Transaction → Bool}
    (hmid : ∀ n, mid.lookup n = (items.lookup n).filter fun tx => !f tx)
    (hkept : ∀ n, kept.lookup n = (mid.lookup n).filter fun tx => !g tx)
    (hr : (removed.map Transaction.nonce).Nodup ∧
      ∀ tx, tx ∈ removed ↔ items.lookup tx.nonce = some tx ∧ f tx = true)
    (hi : (invalids.map Transaction.nonce).Nodup ∧
      ∀ tx, tx ∈ invalids ↔ mid.lookup tx.nonce = some tx ∧ g tx = true) :
    Partition items kept removed invalids := by
  have hm : ∀ n tx, mid.lookup n = some tx ↔ items.lookup n = some tx ∧ f tx = false :=
    fun n tx => by rw [hmid]; exact lookup_filter_eq_some
  have hk : ∀ n tx, kept.lookup n = some tx ↔ mid.lookup n = some tx ∧ g tx = false :=
    fun n tx => by rw [hkept]; exact lookup_filter_eq_some
  refine ⟨fun tx => ?_, fun n tx h => ((hm n tx).mp ((hk n tx).mp h).1).1, ?_, ?_⟩
  · rw [hk, hm, hr.2, hi.2, hm]
    cases f tx <;> cases g tx <;> simp
  · rw [List.map_append, List.nodup_append]
    refine ⟨hr.1, hi.1, ?_⟩
    rintro _ ha _ hb rfl
    obtain ⟨tx, htx, rfl⟩ := List.mem_map.mp ha
    obtain ⟨tx', htx', heq⟩ := List.mem_map.mp hb
    obtain ⟨hin, hf⟩ := (hr.2 tx).mp htx
    obtain ⟨hin', -⟩ := (hi.2 tx').mp htx'
    -- the nonce is both removed first and still there for the second filter
    rw [heq, hm, hin, Option.some.injEq] at hin'
    obtain ⟨rfl, hf'⟩ := hin'
    rw [hf] at hf'
    cases hf'
  · intro tx htx
    rw [← Finmap.lookup_eq_none, hkept, hmid]
    rcases List.mem_append.mp htx with h | h
    · obtain ⟨hin, hf⟩ := (hr.2 tx).mp h
      simp [hin, hf, Option.filter_some]
    · obtain ⟨hin, hg⟩ := (hi.2 tx).mp h
      rw [← hmid, hin]
      simp [hg, Option.filter_some]

theorem partition_refl (items : NonceItems) : Partition items items [] [] :=
  ⟨fun _ => by simp, fun _ _ => id, List.nodup_nil, fun _ h => by cases h⟩

/-- the strict stage of `Filter`: a second `filter` in strict mode, nothing otherwise -/
theorem strictStage_spec {ord : NonceItems → List UInt64}
    (hord : ∀ items, Enumerates (ord items) items) {m : TxsSortedMap}
    (hk : TxsSortedMap.Keyed m.items) (strict : Bool) (g : Transaction → Bool) :
    (∀ n, (if strict then m.filter (ord m.items) g else (m, [])).1.items.lookup n =
      (m.items.lookup n).filter fun tx => !(strict && g tx)) ∧
    (((if strict then m.filter (ord m.items) g else (m, [])).2.map Transaction.nonce).Nodup ∧
      ∀ tx, tx ∈ (if strict then m.filter (ord m.items) g else (m, [])).2 ↔
        m.items.lookup tx.nonce = some tx ∧ (strict && g tx) = true) := by
  cases strict with
  | false =>
    simp only [Bool.false_eq_true, if_false, Bool.false_and]
    refine ⟨fun n => ?_, List.nodup_nil, fun tx => by simp⟩
    cases m.items.lookup n <;> rfl
  | true =>
    simp only [Bool.true_and, if_true]
    exact ⟨TxsSortedMap.lookup_filter (hord _) g, TxsSortedMap.filter_removed hk (hord _) g⟩

/-- what `Filter(costLimit, gasLimit)` leaves: a partition of the items before, with what is
kept within both limits and, in strict mode, below every nonce removed -/
structure FilterOutcome (l : TxsList) (costLimit : U256) (gasLimit : UInt64)
    (r : TxsList × List Transaction × List Transaction) : Prop where
  partition : Partition l.txs.items r.1.txs.items r.2.1 r.2.2
  within : ∀ n tx, r.1.txs.items.lookup n = some tx → tx.gas ≤ gasLimit ∧ tx.cost ≤ costLimit
  below : l.strict = true → ∀ tx ∈ r.2.1, ∀ n ∈ r.1.txs.items, n < tx.nonce

/-- `costcap` and `gascap` bound the cost and the gas of every transaction held -/
def CapsCover (l : TxsList) : Prop :=
  ∀ n tx, l.txs.items.lookup n = some tx → tx.cost ≤ l.costcap ∧ tx.gas ≤ l.gascap

theorem filter_outcome {ord : NonceItems → List UInt64}
    (hord : ∀ items, Enumerates (ord items) items) {l : TxsList}
    (hk : TxsSortedMap.Keyed l.txs.items) (hc : CapsCover l) (costLimit : U256)
    (gasLimit : UInt64) : FilterOutcome l costLimit gasLimit (l.filter ord costLimit gasLimit) := by
  unfold filter
  split
  · -- the short circuit: what is held is within the caps, and the caps within the limits
    rename_i hshort
    rw [U256.cmp_le_zero_iff] at hshort
    refine ⟨partition_refl _, fun n tx h => ?_, fun _ tx htx => by cases htx⟩
    obtain ⟨hcost, hgas⟩ := hc n tx h
    exact ⟨UInt64.le_trans hgas hshort.2, BitVec.le_trans hcost hshort.1⟩
  · dsimp only
    have hmid := lookup_filterSorted hord (overLimits costLimit gasLimit) l.txs
    have hr := filterSorted_removed hord hk (overLimits costLimit gasLimit)
    have hk' : TxsSortedMap.Keyed (filterSorted ord (overLimits costLimit gasLimit) l.txs).1.items :=
      fun n tx h => hk n tx (lookup_filter_eq_some.mp (hmid n ▸ h)).1
    generalize filterSorted ord (overLimits costLimit gasLimit) l.txs = r at hmid hr hk'
    -- a kept transaction passed the test of `Filter`
    have hpass : ∀ n tx, r.1.items.lookup n = some tx → tx.gas ≤ gasLimit ∧ tx.cost ≤ costLimit :=
      fun n tx h => (not_overLimits_iff _ _ _).mp (lookup_filter_eq_some.mp (hmid n ▸ h)).2
    split
    · rename_i hempty
      have hnil : r.2 = [] := List.isEmpty_iff.mp hempty
      refine ⟨?_, hpass, fun _ tx htx => ?_⟩
      · have := @partition_two_stages _ _ _ _ [] _ (fun _ => false) hmid
          (fun n => by cases r.1.items.lookup n <;> rfl) hr ⟨List.nodup_nil, fun tx => by simp⟩
        rwa [hnil] at this
      · dsimp only at htx
        cases htx
    · rename_i hempty
      obtain ⟨hkept, hinv⟩ := strictStage_spec hord hk' l.strict
        (fun tx => decide (tx.nonce > lowestNonce r.2))
      generalize (if l.strict then r.1.filter (ord r.1.items)
        (fun tx => decide (tx.nonce > lowestNonce r.2)) else (r.1, [])) = st at hkept hinv
      have hsub : ∀ n tx, st.1.items.lookup n = some tx → r.1.items.lookup n = some tx :=
        fun n tx h => (lookup_filter_eq_some.mp (hkept n ▸ h)).1
      refine ⟨partition_two_stages hmid hkept hr hinv, fun n tx h => hpass n tx (hsub n tx h),
        fun hstrict tx htx n hn => ?_⟩
      dsimp only at htx hn
      -- a kept nonce is at most the lowest removed one, and is not it
      obtain ⟨t, ht⟩ := Option.isSome_iff_exists.mp (Finmap.lookup_isSome.mpr hn)
      have htnonce : t.nonce = n := hk' n t (hsub n t ht)
      have hle : t.nonce ≤ lowestNonce r.2 := by
        have := (lookup_filter_eq_some.mp (hkept n ▸ ht)).2
        rw [hstrict, Bool.true_and, decide_eq_false_iff_not, gt_iff_lt] at this
        exact UInt64.not_lt.mp this
      obtain ⟨hlow, hex⟩ := lowestNonce_spec r.2
      obtain ⟨tx0, htx0, hlow0⟩ := hex (fun h => hempty (List.isEmpty_iff.mpr h))
      have hgone : r.1.items.lookup tx0.nonce = none := by
        obtain ⟨hin, hf⟩ := (hr.2 tx0).mp htx0
        rw [hmid, hin, Option.filter_some, hf]
        rfl
      have hne : n ≠ tx0.nonce := fun h => by
        rw [← h, hsub n t ht] at hgone
        cases hgone
      have h1 := hlow tx htx
      rw [UInt64.le_iff_toNat_le] at hle h1
      rw [UInt64.lt_iff_toNat_lt]
      have : n.toNat ≠ tx0.nonce.toNat := fun h => hne (UInt64.toNat_inj.mp h)
      rw [← htnonce] at this ⊢
      rw [hlow0] at hle h1
      omega

/-! ## every list the operations reach -/

/-- the lists `newTxsList` and the operations reach; each step that ranges over a map does so
in an order of its own, any enumeration of the keys -/
inductive Reachable : TxsList → Prop
  | newTxsList (strict : Bool) : Reachable (newTxsList strict)
  | add {l : TxsList} (tx : Transaction) (priceBump : UInt64) :
      Reachable l → Reachable (l.add tx priceBump).2.2
  | forward {l l' : TxsList} {threshold : UInt64} {removed : List Transaction} :
      Reachable l → l.forward threshold = some (l', removed) → Reachable l'
  | filter {l : TxsList} {ord : NonceItems → List UInt64}
      (hord : ∀ items, Enumerates (ord items) items) (costLimit : U256) (gasLimit : UInt64) :
      Reachable l → Reachable (l.filter ord costLimit gasLimit).1
  | cap {l l' : TxsList} {threshold : Int} {drops : List Transaction} :
      Reachable l → l.cap threshold = some (l', drops) → Reachable l'
  | remove {l : TxsList} {ord : NonceItems → List UInt64}
      (hord : ∀ items, Enumerates (ord items) items) (tx : Transaction) :
      Reachable l → Reachable (l.remove ord tx).2.2
  | ready {l : TxsList} (start : UInt64) : Reachable l → Reachable (l.ready start).1
  | flatten {l : TxsList} {ord : NonceItems → List UInt64}
      (hord : ∀ items, Enumerates (ord items) items) : Reachable l → Reachable (l.flatten ord).1

/-- what every list reached satisfies: its map is one the map's operations reach, and the caps
cover what it holds -/
structure Inv (l : TxsList) : Prop where
  txs : TxsSortedMap.Reachable l.txs
  caps : CapsCover l

theorem CapsCover.of_itemsSub {l l' : TxsList} (hc : CapsCover l) (hsub : ItemsSub l'.txs l.txs)
    (hcost : l'.costcap = l.costcap) (hgas : l'.gascap = l.gascap) : CapsCover l' := by
  intro n tx h
  rw [hcost, hgas]
  exact hc n tx (hsub n tx h)

/-- a cap raised to take in a new value stays above the old one and reaches the new one -/
theorem le_raise {α : Type} [LE α] [LT α] [DecidableLT α] (cap x : α)
    (hrefl : ∀ a : α, a ≤ a) (hlt : cap < x → cap ≤ x) (hnlt : ¬ cap < x → x ≤ cap) :
    cap ≤ (if cap < x then x else cap) ∧ x ≤ (if cap < x then x else cap) := by
  split
  · exact ⟨hlt ‹_›, hrefl x⟩
  · exact ⟨hrefl cap, hnlt ‹_›⟩

theorem Inv.add {l : TxsList} (hl : Inv l) (tx : Transaction) (priceBump : UInt64) :
    Inv (l.add tx priceBump).2.2 := by
  cases hrep : (l.txs.get tx.nonce).all fun old => replaces old tx priceBump with
  | false =>
    rw [add_of_not_all hrep]
    exact hl
  | true =>
    rw [(add_of_replaces l tx priceBump hrep).2.2]
    refine ⟨hl.txs.put tx, fun n t h => ?_⟩
    dsimp only at h ⊢
    -- the caps only grow, and they take in the new transaction
    have hcost := le_raise l.costcap tx.cost BitVec.le_refl BitVec.le_of_lt BitVec.not_lt.mp
    have hgas := le_raise l.gascap tx.gas UInt64.le_refl UInt64.le_of_lt UInt64.not_lt.mp
    simp only [U256.cmp_lt_zero_iff]
    by_cases hn : n = tx.nonce
    · rw [hn, TxsSortedMap.put, Finmap.lookup_insert, Option.some.injEq] at h
      rw [← h]
      exact ⟨hcost.2, hgas.2⟩
    · rw [TxsSortedMap.put, Finmap.lookup_insert_of_ne _ hn] at h
      obtain ⟨h1, h2⟩ := hl.caps n t h
      exact ⟨BitVec.le_trans h1 hcost.1, UInt64.le_trans h2 hgas.1⟩

theorem Inv.forward {l l' : TxsList} {removed : List Transaction} (hl : Inv l) {t : UInt64}
    (h : l.forward t = some (l', removed)) : Inv l' := by
  obtain ⟨r, hr, heq⟩ := Option.map_eq_some_iff.mp h
  obtain ⟨rfl, -⟩ := Prod.mk.inj heq
  exact ⟨hl.txs.forward hr, hl.caps.of_itemsSub (itemsSub_forward hl.txs.inv hr) rfl rfl⟩

theorem Inv.cap {l l' : TxsList} {drops : List Transaction} (hl : Inv l) {k : Int}
    (h : l.cap k = some (l', drops)) : Inv l' := by
  obtain ⟨r, hr, heq⟩ := Option.map_eq_some_iff.mp h
  obtain ⟨rfl, -⟩ := Prod.mk.inj heq
  exact ⟨hl.txs.cap hr, hl.caps.of_itemsSub (itemsSub_cap hl.txs.inv hr) rfl rfl⟩

theorem Inv.ready {l : TxsList} (hl : Inv l) (start : UInt64) : Inv (l.ready start).1 :=
  ⟨hl.txs.ready start, hl.caps.of_itemsSub (itemsSub_ready hl.txs.inv start) rfl rfl⟩

section Orders

variable {ord : NonceItems → List UInt64} (hord : ∀ items, Enumerates (ord items) items)
include hord

theorem Inv.flatten {l : TxsList} (hl : Inv l) : Inv (l.flatten ord).1 :=
  ⟨hl.txs.flatten (hord _), hl.caps.of_itemsSub (fun n tx h => by
    change (l.txs.flatten (ord l.txs.items)).1.items.lookup n = some tx at h
    rwa [(TxsSortedMap.flatten_spec hl.txs.inv (hord _)).2] at h) rfl rfl⟩

theorem Inv.remove {l : TxsList} (hl : Inv l) (tx : Transaction) : Inv (l.remove ord tx).2.2 := by
  have hsub := itemsSub_remove l.txs tx.nonce
  have hrem := hl.txs.remove tx.nonce
  unfold TxsList.remove
  dsimp only
  split
  · exact ⟨hrem, hl.caps.of_itemsSub hsub rfl rfl⟩
  · split
    · -- strict mode: the transactions above the nonce go too
      have hk := hrem.inv.keyed
      refine ⟨hrem.filter _ (hord _) (hord _), hl.caps.of_itemsSub (ItemsSub.trans ?_ hsub) rfl rfl⟩
      intro n t h
      exact (lookup_filter_eq_some.mp (lookup_filterSorted hord _ _ n ▸ h)).1
    · exact ⟨hrem, hl.caps.of_itemsSub hsub rfl rfl⟩

theorem filter_txs_reachable {l : TxsList} (h : TxsSortedMap.Reachable l.txs) (costLimit : U256)
    (gasLimit : UInt64) : TxsSortedMap.Reachable (l.filter ord costLimit gasLimit).1.txs := by
  unfold filter
  split
  · exact h
  · dsimp only
    have hr : TxsSortedMap.Reachable
        (filterSorted ord (overLimits costLimit gasLimit) l.txs).1 :=
      h.filter _ (hord _) (hord _)
    generalize filterSorted ord (overLimits costLimit gasLimit) l.txs = r at hr
    split
    · exact hr
    · cases l.strict with
      | true => exact hr.filterThenReheap _ (hord _) (hord _)
      | false => exact hr.reheap (hord _)

theorem Inv.filter {l : TxsList} (hl : Inv l) (costLimit : U256) (gasLimit : UInt64) :
    Inv (l.filter ord costLimit gasLimit).1 := by
  refine ⟨filter_txs_reachable hord hl.txs costLimit gasLimit, ?_⟩
  have hout := filter_outcome hord hl.txs.inv.keyed hl.caps costLimit gasLimit
  -- either the list is as it was, or its caps are the limits, which the kept ones are within
  by_cases hshort : U256.cmp l.costcap costLimit ≤ 0 ∧ l.gascap ≤ gasLimit
  · have heq : l.filter ord costLimit gasLimit = (l, [], []) := by
      rw [TxsList.filter, if_pos hshort]
    rw [heq]
    exact hl.caps
  · have hcaps : (l.filter ord costLimit gasLimit).1.costcap = costLimit ∧
        (l.filter ord costLimit gasLimit).1.gascap = gasLimit := by
      unfold TxsList.filter
      rw [if_neg hshort]
      dsimp only
      split <;> exact ⟨rfl, rfl⟩
    intro n tx h
    rw [hcaps.1, hcaps.2]
    exact (hout.within n tx h).symm

end Orders

theorem Reachable.inv {l : TxsList} (h : Reachable l) : Inv l := by
  induction h with
  | newTxsList strict =>
    exact ⟨TxsSortedMap.Reachable.empty, fun n tx h => by cases h⟩
  | add tx priceBump _ ih => exact ih.add tx priceBump
  | forward _ hf ih => exact ih.forward hf
  | filter hord costLimit gasLimit _ ih => exact ih.filter hord costLimit gasLimit
  | cap _ hc ih => exact ih.cap hc
  | remove hord tx _ ih => exact ih.remove hord tx
  | ready start _ ih => exact ih.ready start
  | flatten hord _ ih => exact ih.flatten hord

/-- **Filtering an account list.**  On every list the operations reach, `costcap` and `gascap`
bound every transaction held, so `Filter` takes its short circuit only when nothing held is
above a limit; and `Filter`, ranging over the maps in any order, splits what was held into the
kept, the removed and the invalidated, each once, keeping only what is within both limits and, in
strict mode, below every nonce removed. -/
theorem reachable_filter {l : TxsList} (hr : Reachable l) {ord : NonceItems → List UInt64}
    (hord : ∀ items, Enumerates (ord items) items) (costLimit : U256) (gasLimit : UInt64) :
    CapsCover l ∧
      (U256.cmp l.costcap costLimit ≤ 0 ∧ l.gascap ≤ gasLimit →
        ∀ n tx, l.txs.items.lookup n = some tx → tx.gas ≤ gasLimit ∧ tx.cost ≤ costLimit) ∧
      FilterOutcome l costLimit gasLimit (l.filter ord costLimit gasLimit) := by
  have hl := hr.inv
  refine ⟨hl.caps, fun hshort n tx h => ?_, filter_outcome hord hl.txs.inv.keyed hl.caps _ _⟩
  have hout := filter_outcome hord hl.txs.inv.keyed hl.caps costLimit gasLimit
  rw [filter, if_pos hshort] at hout
  exact hout.within n tx h

/-- a strict list of nonces `0` to `3`, nonce `1` with `300` gas and the others with `100` -/
def fourAdded : TxsList :=
  let l₁ := ((newTxsList true).add (TxsSortedMap.nonceTx 0 100) 10).2.2
  let l₂ := (l₁.add (TxsSortedMap.nonceTx 1 300) 10).2.2
  let l₃ := (l₂.add (TxsSortedMap.nonceTx 2 100) 10).2.2
  (l₃.add (TxsSortedMap.nonceTx 3 100) 10).2.2

/-- `Filter(1000, 200)` on it: nonce `1` is over the gas limit and removed, nonces `2` and `3`
above it are invalidated, and nonce `0` is kept -/
theorem reachable_filter_strict :
    (fourAdded.filter ascendingKeys 1000 200).2 =
        ([TxsSortedMap.nonceTx 1 300],
          [TxsSortedMap.nonceTx 2 100, TxsSortedMap.nonceTx 3 100]) ∧
      (fourAdded.filter ascendingKeys 1000 200).1.txs.items.lookup 0 =
        some (TxsSortedMap.nonceTx 0 100) ∧
      CapsCover fourAdded ∧
      (U256.cmp fourAdded.costcap 1000 ≤ 0 ∧ fourAdded.gascap ≤ 200 →
        ∀ n tx, fourAdded.txs.items.lookup n = some tx → tx.gas ≤ 200 ∧ tx.cost ≤ 1000) ∧
      FilterOutcome fourAdded 1000 200 (fourAdded.filter ascendingKeys 1000 200) :=
  ⟨by decide +kernel, by decide +kernel,
    reachable_filter (.add _ _ (.add _ _ (.add _ _ (.add _ _ (.newTxsList true)))))
      ascendingKeys_enumerates 1000 200⟩

end TxsList

end N42
