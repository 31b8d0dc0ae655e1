import N42.Common.Transaction
import N42.Lib.Heap

/-!
# (key: sortedmap) The nonce-sorted map of one account's transactions

`txsSortedMap` of `internal/txspool/txs_list.go`: the transactions of one account by nonce
(`items`), a min-heap of the nonces (`index`, a `nonceHeap` under `container/heap`) and, once
`flatten` has run, the transactions sorted by nonce (`cache`).  Go ranges over `items` in an
order of its own choosing; where that order is read (`filter`, `reheap`, `flatten`) it is an
argument.  An index past the end of a slice is `none`.  A nonce of the heap always has an item
(`Inv`), so the `nil` that reading a missing one would append is never appended.

* `Inv`                  the heap holds the key set once each, in heap order, each item sits
                         under its own nonce, and a cache is the items sorted by nonce;
* `Inv.put`, `Inv.forward`, `Inv.filterReheap`, `Inv.cap`, `Inv.remove`, `Inv.ready`,
  `Inv.flatten`          every operation keeps it, and `Reachable.inv` gives it on every map
                         the operations reach;
* `forward_spec`, `cap_spec`, `ready_spec`, `flatten_spec`   what each returns and removes on
                         a map with the invariant;
* `reachable_spec`       both together, on every map the operations reach.  `Cap` with a
                         negative threshold panics (`cap_negative_panics`).
-/

namespace N42

open scoped List

/-- the items of a `txsSortedMap` -/
abbrev NonceItems := Finmap fun _ : UInt64 => Transaction

/-- `nonceHeap.Less` -/
def nonceLess (a b : UInt64) : Bool := decide (a < b)

/-- `txsSortedMap` -/
structure TxsSortedMap where
  items : NonceItems
  index : List UInt64
  cache : Option (List Transaction)

/-- an iteration order of Go's `range` over a map: each key once -/
def Enumerates (order : List UInt64) (items : NonceItems) : Prop :=
  order.Nodup ∧ ∀ n, n ∈ order ↔ n ∈ items

/-- an iteration order of the keys, for instances: Go leaves the order of a map unspecified -/
noncomputable def keyOrder (items : NonceItems) : List UInt64 := items.keys.toList

theorem keyOrder_enumerates (items : NonceItems) : Enumerates (keyOrder items) items :=
  ⟨Finset.nodup_toList _, fun _ => Finset.mem_toList.trans Finmap.mem_keys⟩

/-- the keys by increasing nonce: an iteration order that can be run -/
def ascendingKeys (items : NonceItems) : List UInt64 :=
  Quot.liftOn items.keys.val (List.insertionSort (· ≤ ·)) fun _ _ h =>
    -- two sorts of permuted lists are one list, as `≤` is antisymmetric
    ((List.perm_insertionSort _ _).trans
        (h.trans (List.perm_insertionSort _ _).symm)).eq_of_pairwise'
      (List.pairwise_insertionSort _ _) (List.pairwise_insertionSort _ _)

theorem ascendingKeys_coe (items : NonceItems) :
    (ascendingKeys items : Multiset UInt64) = items.keys.val := by
  unfold ascendingKeys
  generalize items.keys.val = s
  induction s using Quot.inductionOn with
  | h l => exact Quot.sound (List.perm_insertionSort _ l)

theorem ascendingKeys_enumerates (items : NonceItems) :
    Enumerates (ascendingKeys items) items := by
  have h := ascendingKeys_coe items
  refine ⟨?_, fun n => ?_⟩
  · rw [← Multiset.coe_nodup, h]
    exact items.keys.nodup
  · rw [← Multiset.mem_coe, h, Finset.mem_val, Finmap.mem_keys]

namespace TxsSortedMap

/-- `newTxSortedMap()` -/
def empty : TxsSortedMap := ⟨∅, [], none⟩

/-- `Get(nonce)` -/
def get (m : TxsSortedMap) (nonce : UInt64) : Option Transaction := m.items.lookup nonce

/-- `Len()` -/
def len (m : TxsSortedMap) : Nat := m.items.keys.card

/-- `Put(tx)`: a new nonce is pushed on the heap, and the cache is dropped -/
def put (m : TxsSortedMap) (tx : Transaction) : TxsSortedMap where
  items := m.items.insert tx.nonce tx
  index := if m.items.lookup tx.nonce = none then BinHeap.push nonceLess m.index tx.nonce
    else m.index
  cache := none

/-- the loop of `Forward`: pop the heap while its least nonce is below the threshold -/
def forwardLoop (threshold : UInt64) :
    Nat → List UInt64 → NonceItems → List Transaction →
      List UInt64 × NonceItems × List Transaction
  | 0, index, items, removed => (index, items, removed)
  | fuel + 1, index, items, removed =>
    match index.head?, BinHeap.pop nonceLess index with
    | some n0, some (nonce, index') =>
      if n0 < threshold then
        forwardLoop threshold fuel index' (items.erase nonce)
          (removed ++ (items.lookup nonce).toList)
      else (index, items, removed)
    | _, _ => (index, items, removed)

/-- `Forward(threshold)`: the cache loses as many items from its front as were removed -/
def forward (m : TxsSortedMap) (threshold : UInt64) : Option (TxsSortedMap × List Transaction) :=
  let r := forwardLoop threshold m.index.length m.index m.items []
  let cache : Option (Option (List Transaction)) :=
    match m.cache with
    | none => some none
    | some c => if r.2.2.length ≤ c.length then some (some (c.drop r.2.2.length)) else none
  cache.map fun cache => (⟨r.2.1, r.1, cache⟩, r.2.2)

/-- `filter(f)`: the items that `f` selects, in the iteration `order`, are deleted; the heap is
left as it was -/
def filter (order : List UInt64) (f : Transaction → Bool) (m : TxsSortedMap) :
    TxsSortedMap × List Transaction :=
  let drop := order.filter fun n => (m.items.lookup n).any f
  (⟨drop.foldl (fun items n => items.erase n) m.items, m.index,
    if drop.isEmpty then m.cache else none⟩, drop.filterMap fun n => m.items.lookup n)

/-- `reheap()`: the heap rebuilt from the keys in the iteration `order` -/
def reheap (order : List UInt64) (m : TxsSortedMap) : TxsSortedMap :=
  ⟨m.items, BinHeap.init nonceLess order, none⟩

/-- `Filter(f)`: `filter`, then `reheap` over the remaining keys if anything was removed -/
def filterReheap (order order' : List UInt64) (f : Transaction → Bool) (m : TxsSortedMap) :
    TxsSortedMap × List Transaction :=
  let r := m.filter order f
  (if r.2.isEmpty then r.1 else r.1.reheap order', r.2)

/-- `Cap(threshold)`: the heap sorted, the items from position `Len() - 1` down to `threshold`
dropped, the heap cut to `threshold` and re-initialised, the cache cut at its back.  A negative
threshold reads `index[-1]`. -/
def cap (m : TxsSortedMap) (threshold : Int) : Option (TxsSortedMap × List Transaction) :=
  if (m.len : Int) ≤ threshold then some (m, [])
  else if threshold < 0 then none
  else
    let sorted := m.index.mergeSort fun a b => decide (a ≤ b)
    if sorted.length < m.len then none
    else
      let dropNonces := ((sorted.take m.len).drop threshold.toNat).reverse
      let drops := dropNonces.filterMap fun n => m.items.lookup n
      let cache : Option (Option (List Transaction)) :=
        match m.cache with
        | none => some none
        | some c => if drops.length ≤ c.length then some (some (c.take (c.length - drops.length)))
          else none
      cache.map fun cache =>
        (⟨dropNonces.foldl (fun items n => items.erase n) m.items,
          BinHeap.init nonceLess (sorted.take threshold.toNat), cache⟩, drops)

/-- `Remove(nonce)`: the nonce is searched in the heap and removed there -/
def remove (m : TxsSortedMap) (nonce : UInt64) : TxsSortedMap × Bool :=
  if m.items.lookup nonce = none then (m, false)
  else
    let index :=
      match m.index.findIdx? (· == nonce) with
      | some i => ((BinHeap.remove nonceLess m.index i).map Prod.snd).getD m.index
      | none => m.index
    (⟨m.items.erase nonce, index, none⟩, true)

/-- the loop of `Ready`: pop the heap while its least nonce is the next one -/
def readyLoop : Nat → UInt64 → List UInt64 → NonceItems → List Transaction →
    List UInt64 × NonceItems × List Transaction
  | 0, _, index, items, ready => (index, items, ready)
  | fuel + 1, next, index, items, ready =>
    match index.head?, BinHeap.pop nonceLess index with
    | some n0, some (_, index') =>
      if n0 = next then
        readyLoop fuel (next + 1) index' (items.erase next) (ready ++ (items.lookup next).toList)
      else (index, items, ready)
    | _, _ => (index, items, ready)

/-- `Ready(start)`: nothing, with the cache kept, when the least nonce is above `start` -/
def ready (m : TxsSortedMap) (start : UInt64) : TxsSortedMap × List Transaction :=
  match m.index.head? with
  | none => (m, [])
  | some n0 =>
    if start < n0 then (m, [])
    else
      let r := readyLoop m.index.length n0 m.index m.items []
      (⟨r.2.1, r.1, none⟩, r.2.2)

/-- `sort.Sort(TxByNonce(txs))` -/
def sortByNonce (txs : List Transaction) : List Transaction :=
  txs.mergeSort fun a b => decide (a.nonce ≤ b.nonce)

/-- `flatten()`: the cache, built in the iteration `order` and sorted if there was none -/
def flatten (order : List UInt64) (m : TxsSortedMap) : TxsSortedMap × List Transaction :=
  match m.cache with
  | some c => (m, c)
  | none =>
    let c := sortByNonce (order.filterMap fun n => m.items.lookup n)
    (⟨m.items, m.index, some c⟩, c)

/-- `LastElement()`: the last of the flattened items; an empty map reads `cache[-1]` -/
def lastElement (order : List UInt64) (m : TxsSortedMap) : Option (TxsSortedMap × Transaction) :=
  (m.flatten order).2.getLast?.map fun tx => ((m.flatten order).1, tx)

/-! ## the invariant -/

theorem nonceLess_strictWeak : BinHeap.StrictWeak nonceLess := by
  constructor
  · intro a b h
    simp only [nonceLess, decide_eq_true_eq, decide_eq_false_iff_not, UInt64.lt_iff_toNat_lt] at *
    omega
  · intro a b c hab hbc
    simp only [nonceLess, decide_eq_false_iff_not, UInt64.lt_iff_toNat_lt] at *
    omega

/-- `c` is the items, sorted by strictly increasing nonce -/
def SortedItems (items : NonceItems) (c : List Transaction) : Prop :=
  c.Pairwise (fun a b => a.nonce < b.nonce) ∧ ∀ tx, tx ∈ c ↔ items.lookup tx.nonce = some tx

/-- the heap holds each key once and in heap order -/
structure HeapOf (index : List UInt64) (items : NonceItems) : Prop where
  nodup : index.Nodup
  mem : ∀ n, n ∈ index ↔ n ∈ items
  ordered : BinHeap.Ordered nonceLess index

/-- every item sits under its own nonce -/
def Keyed (items : NonceItems) : Prop := ∀ n tx, items.lookup n = some tx → tx.nonce = n

/-- what every map the operations reach satisfies -/
structure Inv (m : TxsSortedMap) : Prop where
  keyed : Keyed m.items
  heap : HeapOf m.index m.items
  cache : ∀ c, m.cache = some c → SortedItems m.items c

theorem inv_empty : Inv empty := by
  refine ⟨fun n tx h => ?_, ⟨List.nodup_nil, fun n => ?_, ?_⟩, fun c h => ?_⟩
  · simp [empty] at h
  · exact iff_of_false List.not_mem_nil Finmap.notMem_empty
  · intro k hk hkn
    simp [empty] at hkn
  · cases h

/-- a heap built by `heap.Init` from an iteration order of the keys -/
theorem heapOf_init {order : List UInt64} {items : NonceItems} (ho : Enumerates order items) :
    HeapOf (BinHeap.init nonceLess order) items where
  nodup := (BinHeap.init_perm nonceLess order).nodup_iff.mpr ho.1
  mem n := ((BinHeap.init_perm nonceLess order).mem_iff).trans (ho.2 n)
  ordered := BinHeap.ordered_init nonceLess_strictWeak order

theorem lookup_foldl_erase (drop : List UInt64) :
    ∀ (items : NonceItems) (n : UInt64),
      (drop.foldl (fun items n => items.erase n) items).lookup n =
        if n ∈ drop then none else items.lookup n := by
  induction drop with
  | nil => intro items n; simp
  | cons d drop ih =>
    intro items n
    rw [List.foldl_cons, ih]
    by_cases hnd : n = d
    · subst hnd
      simp [Finmap.lookup_erase]
    · simp [List.mem_cons, hnd, Finmap.lookup_erase_ne hnd]

theorem mem_foldl_erase (drop : List UInt64) (items : NonceItems) (n : UInt64) :
    n ∈ drop.foldl (fun items n => items.erase n) items ↔ n ∉ drop ∧ n ∈ items := by
  rw [← Finmap.lookup_isSome, lookup_foldl_erase, ← Finmap.lookup_isSome]
  split <;> simp_all

theorem Keyed.foldl_erase {items : NonceItems} (hk : Keyed items) (drop : List UInt64) :
    Keyed (drop.foldl (fun items n => items.erase n) items) := by
  intro n tx h
  rw [lookup_foldl_erase] at h
  split at h
  · cases h
  · exact hk n tx h

/-! ## `Put` -/

theorem Keyed.insert {items : NonceItems} (hk : Keyed items) (tx : Transaction) :
    Keyed (items.insert tx.nonce tx) := by
  intro n t h
  by_cases hn : n = tx.nonce
  · subst hn
    rw [Finmap.lookup_insert] at h
    cases h
    rfl
  · rw [Finmap.lookup_insert_of_ne _ hn] at h
    exact hk n t h

theorem HeapOf.push {index : List UInt64} {items : NonceItems} (hh : HeapOf index items)
    {n : UInt64} (hn : n ∉ items) (tx : Transaction) :
    HeapOf (BinHeap.push nonceLess index n) (items.insert n tx) := by
  have hp := BinHeap.push_perm nonceLess index n
  refine ⟨hp.nodup_iff.mpr ?_, fun k => ?_, hh.ordered.push nonceLess_strictWeak n⟩
  · rw [List.nodup_append]
    refine ⟨hh.nodup, List.nodup_singleton n, fun a ha b hb => ?_⟩
    rw [List.mem_singleton] at hb
    subst hb
    exact fun h => hn (h ▸ (hh.mem a).mp ha)
  · rw [hp.mem_iff, List.mem_append, List.mem_singleton, Finmap.mem_insert, hh.mem]
    tauto

theorem Inv.put {m : TxsSortedMap} (hm : Inv m) (tx : Transaction) : Inv (m.put tx) := by
  refine ⟨hm.keyed.insert tx, ?_, fun c h => by cases h⟩
  unfold TxsSortedMap.put
  dsimp only
  split
  · rename_i hnone
    exact hm.heap.push (Finmap.lookup_eq_none.mp hnone) tx
  · rename_i hsome
    have hmem : tx.nonce ∈ m.items := by
      rw [← Finmap.lookup_isSome]
      cases h : m.items.lookup tx.nonce
      · exact absurd h hsome
      · rfl
    refine ⟨hm.heap.nodup, fun k => ?_, hm.heap.ordered⟩
    rw [hm.heap.mem, Finmap.mem_insert]
    constructor
    · exact .inr
    · rintro (rfl | h)
      · exact hmem
      · exact h

/-! ## `Remove` -/

/-- taking one nonce off the heap, as `heap.Pop` and `heap.Remove` do, keeps it the heap of the
items without that nonce -/
theorem HeapOf.erase {index index' : List UInt64} {items : NonceItems} {n : UInt64}
    (hh : HeapOf index items) (hp : n :: index' ~ index)
    (ho : BinHeap.Ordered nonceLess index') : HeapOf index' (items.erase n) := by
  have hnd : (n :: index').Nodup := hp.nodup_iff.mpr hh.nodup
  refine ⟨(List.nodup_cons.mp hnd).2, fun k => ?_, ho⟩
  rw [Finmap.mem_erase, ← hh.mem, ← hp.mem_iff, List.mem_cons]
  constructor
  · intro hk
    exact ⟨fun hkn => (List.nodup_cons.mp hnd).1 (hkn ▸ hk), .inr hk⟩
  · rintro ⟨hkn, rfl | hk⟩
    · exact absurd rfl hkn
    · exact hk

/-- `Remove` finds the nonce in the heap and `heap.Remove` takes exactly it out -/
theorem heap_remove_of_mem {index : List UInt64} {n : UInt64} (hn : n ∈ index)
    (ho : BinHeap.Ordered nonceLess index) :
    ∃ i index', index.findIdx? (· == n) = some i ∧
      BinHeap.remove nonceLess index i = some (n, index') ∧ n :: index' ~ index ∧
      BinHeap.Ordered nonceLess index' := by
  have hsome : (index.findIdx? (· == n)).isSome := by
    rw [List.findIdx?_isSome, List.any_eq_true]
    exact ⟨n, hn, by simp⟩
  obtain ⟨i, hi⟩ := Option.isSome_iff_exists.mp hsome
  obtain ⟨hlt, hpi, -⟩ := List.findIdx?_eq_some_iff_getElem.mp hi
  obtain ⟨⟨x, index'⟩, hr⟩ := Option.isSome_iff_exists.mp (BinHeap.remove_isSome nonceLess hlt)
  obtain ⟨hord, hx⟩ := ho.remove nonceLess_strictWeak hr
  have hxn : x = n := by
    rw [List.getElem?_eq_getElem hlt, Option.some.injEq] at hx
    simpa [← hx] using hpi
  subst hxn
  exact ⟨i, index', hi, hr, BinHeap.remove_perm hr, hord⟩

theorem Inv.remove {m : TxsSortedMap} (hm : Inv m) (nonce : UInt64) : Inv (m.remove nonce).1 := by
  unfold TxsSortedMap.remove
  split
  · exact hm
  · rename_i hsome
    have hmem : nonce ∈ m.index := by
      rw [hm.heap.mem, ← Finmap.lookup_isSome]
      cases h : m.items.lookup nonce
      · exact absurd h hsome
      · rfl
    obtain ⟨i, index', hi, hr, hp, ho⟩ := heap_remove_of_mem hmem hm.heap.ordered
    refine ⟨fun n tx h => ?_, ?_, fun c h => by cases h⟩
    · by_cases hn : n = nonce
      · subst hn
        rw [Finmap.lookup_erase] at h
        cases h
      · rw [Finmap.lookup_erase_ne hn] at h
        exact hm.keyed n tx h
    · simp only [hi, hr, Option.map_some, Option.getD_some]
      exact hm.heap.erase hp ho

/-! ## `filter`, `reheap` and `Filter` -/

theorem filter_fst_items (order : List UInt64) (f : Transaction → Bool) (m : TxsSortedMap) :
    (m.filter order f).1.items = (order.filter fun n => (m.items.lookup n).any f).foldl
      (fun items n => items.erase n) m.items := rfl

/-- a `filter` that returns nothing has changed nothing -/
theorem filter_eq_self_of_isEmpty {order : List UInt64} {f : Transaction → Bool}
    {m : TxsSortedMap} (h : (m.filter order f).2.isEmpty = true) : (m.filter order f).1 = m := by
  have hdrop : (order.filter fun n => (m.items.lookup n).any f) = [] := by
    rw [List.isEmpty_iff, filter, List.filterMap_eq_nil_iff] at h
    rw [List.eq_nil_iff_forall_not_mem]
    intro n hn
    have hnone := h n hn
    rw [List.mem_filter, hnone] at hn
    simp at hn
  unfold filter
  rw [hdrop]
  rfl

theorem Keyed.reheap {m : TxsSortedMap} (hk : Keyed m.items) {order : List UInt64}
    (ho : Enumerates order m.items) : Inv (m.reheap order) :=
  ⟨hk, heapOf_init ho, fun c h => by cases h⟩

/-- `filter` followed by `reheap`, as `Filter` and the strict branch of `txsList.Filter` run
them -/
theorem Keyed.reheap_filter {m : TxsSortedMap} (hk : Keyed m.items) {order order' : List UInt64}
    {f : Transaction → Bool} (ho : Enumerates order' (m.filter order f).1.items) :
    Inv ((m.filter order f).1.reheap order') :=
  (hk.foldl_erase _).reheap ho

theorem Inv.filterReheap {m : TxsSortedMap} (hm : Inv m) {order order' : List UInt64}
    {f : Transaction → Bool} (ho : Enumerates order' (m.filter order f).1.items) :
    Inv (m.filterReheap order order' f).1 := by
  unfold TxsSortedMap.filterReheap
  dsimp only
  split
  · rename_i hempty
    rw [filter_eq_self_of_isEmpty hempty]
    exact hm
  · exact hm.keyed.reheap_filter ho

/-! ## `flatten` -/

/-- reading the items along an iteration order gives back the order's nonces -/
theorem map_nonce_filterMap {items : NonceItems} (hk : Keyed items) :
    ∀ {order : List UInt64}, (∀ n ∈ order, n ∈ items) →
      (order.filterMap fun n => items.lookup n).map Transaction.nonce = order
  | [], _ => rfl
  | n :: order, hmem => by
    obtain ⟨tx, htx⟩ := Option.isSome_iff_exists.mp
      (Finmap.lookup_isSome.mpr (hmem n List.mem_cons_self))
    rw [List.filterMap_cons, htx]
    simp only [List.map_cons, hk n tx htx,
      map_nonce_filterMap hk fun k hk' => hmem k (List.mem_cons_of_mem n hk')]

theorem nonce_le_trans (a b c : Transaction) :
    decide (a.nonce ≤ b.nonce) = true → decide (b.nonce ≤ c.nonce) = true →
      decide (a.nonce ≤ c.nonce) = true := by
  simp only [decide_eq_true_eq, UInt64.le_iff_toNat_le]
  omega

theorem nonce_le_total (a b : Transaction) :
    (decide (a.nonce ≤ b.nonce) || decide (b.nonce ≤ a.nonce)) = true := by
  simp only [Bool.or_eq_true, decide_eq_true_eq, UInt64.le_iff_toNat_le]
  omega

/-- sorting the items read along an iteration order gives them by strictly increasing nonce -/
theorem sortedItems_sortByNonce {items : NonceItems} (hk : Keyed items) {order : List UInt64}
    (ho : Enumerates order items) :
    SortedItems items (sortByNonce (order.filterMap fun n => items.lookup n)) := by
  have hperm : sortByNonce (order.filterMap fun n => items.lookup n) ~
      order.filterMap fun n => items.lookup n :=
    List.mergeSort_perm _ _
  have hle : (sortByNonce (order.filterMap fun n => items.lookup n)).Pairwise
      fun a b => decide (a.nonce ≤ b.nonce) = true :=
    List.pairwise_mergeSort nonce_le_trans nonce_le_total _
  -- the nonces of the sorted items are the order's, so they are distinct
  have hnd : ((sortByNonce (order.filterMap fun n => items.lookup n)).map
      Transaction.nonce).Nodup := by
    rw [(hperm.map Transaction.nonce).nodup_iff,
      map_nonce_filterMap hk fun n hn => (ho.2 n).mp hn]
    exact ho.1
  refine ⟨?_, fun tx => ?_⟩
  · have hne := List.pairwise_map.mp hnd
    refine (hle.and hne).imp fun {a b} hab => ?_
    have h1 := hab.1
    have h2 := hab.2
    simp only [decide_eq_true_eq, UInt64.le_iff_toNat_le] at h1
    rw [UInt64.lt_iff_toNat_lt]
    have : a.nonce.toNat ≠ b.nonce.toNat := fun h => h2 (UInt64.toNat_inj.mp h)
    omega
  · rw [hperm.mem_iff, List.mem_filterMap]
    constructor
    · rintro ⟨n, -, hn⟩
      rwa [← hk n tx hn] at hn
    · intro h
      exact ⟨tx.nonce, (ho.2 _).mpr (Finmap.lookup_isSome.mp (by rw [h]; rfl)), h⟩

theorem Inv.flatten {m : TxsSortedMap} (hm : Inv m) {order : List UInt64}
    (ho : Enumerates order m.items) : Inv (m.flatten order).1 := by
  unfold TxsSortedMap.flatten
  split
  · exact hm
  · refine ⟨hm.keyed, hm.heap, fun c h => ?_⟩
    cases h
    exact sortedItems_sortByNonce hm.keyed ho

/-- **`Flatten`** returns the items by strictly increasing nonce, and changes no item -/
theorem flatten_spec {m : TxsSortedMap} (hm : Inv m) {order : List UInt64}
    (ho : Enumerates order m.items) :
    SortedItems m.items (m.flatten order).2 ∧ (m.flatten order).1.items = m.items := by
  unfold TxsSortedMap.flatten
  split
  · rename_i c hc
    exact ⟨hm.cache c hc, rfl⟩
  · exact ⟨sortedItems_sortByNonce hm.keyed ho, rfl⟩

/-! ## what `filter` removes -/

/-- `filter` takes out exactly the items the test holds of -/
theorem lookup_filter {m : TxsSortedMap} {order : List UInt64} (ho : Enumerates order m.items)
    (f : Transaction → Bool) (n : UInt64) :
    (m.filter order f).1.items.lookup n = (m.items.lookup n).filter fun tx => !f tx := by
  rw [filter_fst_items, lookup_foldl_erase]
  simp only [List.mem_filter]
  cases h : m.items.lookup n with
  | none => simp
  | some tx =>
    have hn : n ∈ order := (ho.2 n).mpr (Finmap.mem_of_lookup_eq_some h)
    cases hf : f tx <;> simp [hn, hf, Option.filter_some]

/-- what `filter` returns: the items the test holds of, under distinct nonces -/
theorem filter_removed {m : TxsSortedMap} (hk : Keyed m.items) {order : List UInt64}
    (ho : Enumerates order m.items) (f : Transaction → Bool) :
    ((m.filter order f).2.map Transaction.nonce).Nodup ∧
      ∀ tx, tx ∈ (m.filter order f).2 ↔ m.items.lookup tx.nonce = some tx ∧ f tx = true := by
  have hmem : ∀ n ∈ order.filter (fun n => (m.items.lookup n).any f), n ∈ m.items :=
    fun n hn => (ho.2 n).mp (List.mem_filter.mp hn).1
  refine ⟨?_, fun tx => ?_⟩
  · rw [show (m.filter order f).2 = (order.filter fun n => (m.items.lookup n).any f).filterMap
      fun n => m.items.lookup n from rfl, map_nonce_filterMap hk hmem]
    exact ho.1.filter _
  · rw [show (m.filter order f).2 = (order.filter fun n => (m.items.lookup n).any f).filterMap
      fun n => m.items.lookup n from rfl, List.mem_filterMap]
    constructor
    · rintro ⟨n, hn, htx⟩
      rw [hk n tx htx]
      refine ⟨htx, ?_⟩
      have := (List.mem_filter.mp hn).2
      rwa [htx, Option.any_some] at this
    · rintro ⟨htx, hf⟩
      refine ⟨tx.nonce, List.mem_filter.mpr ⟨(ho.2 _).mpr (Finmap.mem_of_lookup_eq_some htx), ?_⟩,
        htx⟩
      rw [htx, Option.any_some, hf]

theorem filterReheap_items (order order' : List UInt64) (f : Transaction → Bool)
    (m : TxsSortedMap) :
    (m.filterReheap order order' f).1.items = (m.filter order f).1.items ∧
      (m.filterReheap order order' f).2 = (m.filter order f).2 := by
  unfold TxsSortedMap.filterReheap
  dsimp only
  split <;> exact ⟨rfl, rfl⟩

/-! ## lists sorted by strictly increasing nonce -/

/-- two lists sorted by a strictly increasing key with the same members are one list -/
theorem eq_of_pairwise_lt_of_mem_iff {α : Type} (key : α → UInt64) {l₁ l₂ : List α}
    (h₁ : l₁.Pairwise fun a b => key a < key b) (h₂ : l₂.Pairwise fun a b => key a < key b)
    (h : ∀ x, x ∈ l₁ ↔ x ∈ l₂) : l₁ = l₂ := by
  have hnd : ∀ {l : List α}, l.Pairwise (fun a b => key a < key b) → l.Nodup :=
    fun hl => hl.imp fun {a b} hab heq => by subst heq; exact absurd hab (UInt64.lt_irrefl _)
  refine List.Perm.eq_of_pairwise (fun a b _ _ hab hba => ?_) h₁ h₂
    ((List.perm_ext_iff_of_nodup (hnd h₁) (hnd h₂)).mpr h)
  rw [UInt64.lt_iff_toNat_lt] at hab hba
  omega

theorem eq_of_sorted_of_mem_iff {l₁ l₂ : List Transaction}
    (h₁ : l₁.Pairwise fun a b => a.nonce < b.nonce)
    (h₂ : l₂.Pairwise fun a b => a.nonce < b.nonce) (h : ∀ x, x ∈ l₁ ↔ x ∈ l₂) : l₁ = l₂ :=
  eq_of_pairwise_lt_of_mem_iff Transaction.nonce h₁ h₂ h

/-- in a list sorted by nonce, the items below a bound come first -/
theorem sorted_eq_filter_append {c : List Transaction}
    (hc : c.Pairwise fun a b => a.nonce < b.nonce) (p : UInt64 → Bool)
    (hp : ∀ a b, a ≤ b → p b = true → p a = true) :
    c = c.filter (fun x => p x.nonce) ++ c.filter (fun x => !p x.nonce) := by
  induction c with
  | nil => rfl
  | cons a c ih =>
    have hrest := ih (List.pairwise_cons.mp hc).2
    by_cases ha : p a.nonce = true
    · simp only [List.filter_cons, ha, if_true, Bool.not_true, Bool.false_eq_true, if_false,
        List.cons_append]
      exact congrArg (a :: ·) hrest
    · -- everything after `a` is above it, so nothing after it passes either
      have hnone : c.filter (fun x => p x.nonce) = [] := by
        rw [List.filter_eq_nil_iff]
        intro x hx hpx
        have hlt := (List.pairwise_cons.mp hc).1 x hx
        have hle : a.nonce ≤ x.nonce := by
          rw [UInt64.le_iff_toNat_le]
          rw [UInt64.lt_iff_toNat_lt] at hlt
          omega
        exact ha (hp a.nonce x.nonce hle hpx)
      have hall : c.filter (fun x => !p x.nonce) = c := by
        rw [List.filter_eq_self]
        intro x hx
        have hpx : p x.nonce = false := by
          rw [List.filter_eq_nil_iff] at hnone
          simpa using hnone x hx
        simp [hpx]
      simp only [List.filter_cons, ha, Bool.false_eq_true, if_false, Bool.not_false, if_true, hnone,
        hall, List.nil_append]

/-! ## `Forward` -/

/-- the head of a heap is its least nonce -/
theorem head_le {index : List UInt64} (ho : BinHeap.Ordered nonceLess index) {n0 : UInt64}
    (hh : index.head? = some n0) : ∀ n ∈ index, n0 ≤ n := by
  intro n hn
  obtain ⟨k, hk, rfl⟩ := List.getElem_of_mem hn
  have h0 : index[0]? = some n0 := by rw [← List.head?_eq_getElem?]; exact hh
  have := BinHeap.OrderedBelow.root_min nonceLess_strictWeak ho le_rfl k hk n0 index[k] h0
    (List.getElem?_eq_getElem hk)
  simp only [nonceLess, decide_eq_false_iff_not, UInt64.lt_iff_toNat_lt] at this
  rw [UInt64.le_iff_toNat_le]
  omega

/-- one pop of the heap: the nonce taken is its head and no nonce left is below it -/
theorem pop_spec {index index' : List UInt64} {items : NonceItems} (hh : HeapOf index items)
    {n0 nonce : UInt64} (hhead : index.head? = some n0)
    (hp : BinHeap.pop nonceLess index = some (nonce, index')) :
    nonce = n0 ∧ HeapOf index' (items.erase nonce) ∧ nonce ∈ items ∧
      ∀ n ∈ index', nonce < n := by
  obtain ⟨hord, h0⟩ := hh.ordered.pop nonceLess_strictWeak hp
  have hperm := BinHeap.pop_perm hp
  have hn0 : nonce = n0 := by
    rw [← List.head?_eq_getElem?, hhead] at h0
    exact (Option.some.inj h0).symm
  have hnd := hperm.nodup_iff.mpr hh.nodup
  refine ⟨hn0, hh.erase hperm hord, (hh.mem nonce).mp (hperm.mem_iff.mp List.mem_cons_self),
    fun n hn => ?_⟩
  have hle := head_le hh.ordered hhead n (hperm.mem_iff.mp (List.mem_cons_of_mem _ hn))
  have hne : n ≠ nonce := fun h => (List.nodup_cons.mp hnd).1 (h ▸ hn)
  rw [hn0] at hne ⊢
  rw [UInt64.le_iff_toNat_le] at hle
  rw [UInt64.lt_iff_toNat_lt]
  have : n.toNat ≠ n0.toNat := fun h => hne (UInt64.toNat_inj.mp h)
  omega

/-- what the loop of `Forward` keeps, against the items `items₀` it started from -/
structure ForwardInv (t : UInt64) (items₀ : NonceItems) (index : List UInt64)
    (items : NonceItems) (removed : List Transaction) : Prop where
  heap : HeapOf index items
  sub : ∀ n, n ∈ items → items.lookup n = items₀.lookup n
  gone : ∀ n, n ∈ items₀ → n ∉ items → n < t
  mem_removed : ∀ tx, tx ∈ removed ↔ items₀.lookup tx.nonce = some tx ∧ tx.nonce ∉ items
  sorted : removed.Pairwise fun a b => a.nonce < b.nonce
  below : ∀ tx ∈ removed, ∀ n ∈ items, tx.nonce < n

theorem ForwardInv.step {t : UInt64} {items₀ items : NonceItems} {index index' : List UInt64}
    {removed : List Transaction} (hk : Keyed items₀) (hf : ForwardInv t items₀ index items removed)
    {n0 nonce : UInt64} (hhead : index.head? = some n0)
    (hp : BinHeap.pop nonceLess index = some (nonce, index')) (hlt : n0 < t) :
    ForwardInv t items₀ index' (items.erase nonce) (removed ++ (items.lookup nonce).toList) := by
  obtain ⟨rfl, hheap, hmem, hmin⟩ := pop_spec hf.heap hhead hp
  obtain ⟨tx, htx⟩ := Option.isSome_iff_exists.mp (Finmap.lookup_isSome.mpr hmem)
  have htx₀ : items₀.lookup nonce = some tx := (hf.sub nonce hmem).symm.trans htx
  have hnonce : tx.nonce = nonce := hk nonce tx htx₀
  rw [htx, Option.toList_some]
  refine ⟨hheap, fun n hn => ?_, fun n hn₀ hn => ?_, fun tx' => ?_, ?_, ?_⟩
  · obtain ⟨hne, hn'⟩ := Finmap.mem_erase.mp hn
    rw [Finmap.lookup_erase_ne hne]
    exact hf.sub n hn'
  · by_cases hne : n = nonce
    · exact hne ▸ hlt
    · exact hf.gone n hn₀ fun h => hn (Finmap.mem_erase.mpr ⟨hne, h⟩)
  · rw [List.mem_append, List.mem_singleton, hf.mem_removed, Finmap.mem_erase]
    constructor
    · rintro (⟨hl, hn⟩ | rfl)
      · exact ⟨hl, fun h => hn h.2⟩
      · exact ⟨hnonce ▸ htx₀, fun h => h.1 hnonce⟩
    · rintro ⟨hl, hn⟩
      by_cases hne : tx'.nonce = nonce
      · rw [hne, htx₀] at hl
        exact .inr (Option.some.inj hl).symm
      · exact .inl ⟨hl, fun h => hn ⟨hne, h⟩⟩
  · rw [List.pairwise_append]
    refine ⟨hf.sorted, List.pairwise_singleton _ _, fun a ha b hb => ?_⟩
    rw [List.mem_singleton] at hb
    subst hb
    rw [hnonce]
    exact hf.below a ha nonce hmem
  · intro a ha n hn
    rw [List.mem_append, List.mem_singleton] at ha
    have hn' := (Finmap.mem_erase.mp hn).2
    rcases ha with ha | rfl
    · exact hf.below a ha n hn'
    · rw [hnonce]
      exact hmin n ((hheap.mem n).mpr hn)

/-- the loop of `Forward` runs until the least nonce left is at or above the threshold, by
induction on the fuel, which stays at least the size of the heap -/
theorem forwardLoop_spec {t : UInt64} {items₀ : NonceItems} (hk : Keyed items₀) :
    ∀ (fuel : Nat) (index : List UInt64) (items : NonceItems) (removed : List Transaction),
      index.length ≤ fuel → ForwardInv t items₀ index items removed →
        ForwardInv t items₀ (forwardLoop t fuel index items removed).1
          (forwardLoop t fuel index items removed).2.1
          (forwardLoop t fuel index items removed).2.2 ∧
        ∀ n ∈ (forwardLoop t fuel index items removed).2.1, t ≤ n
  | 0, index, items, removed, hlen, hf => by
    have hnil : index = [] := List.eq_nil_of_length_eq_zero (by omega)
    refine ⟨hf, fun n hn => absurd ((hf.heap.mem n).mpr hn) ?_⟩
    rw [hnil]
    exact List.not_mem_nil
  | fuel + 1, index, items, removed, hlen, hf => by
    -- the stop of the loop: the heap is empty or its head is at or above the threshold
    have hstop : (∀ n0, index.head? = some n0 → t ≤ n0) → ∀ n ∈ items, t ≤ n := by
      intro hh n hn
      have hni := (hf.heap.mem n).mpr hn
      cases hhd : index.head? with
      | none => rw [List.head?_eq_none_iff] at hhd; rw [hhd] at hni; cases hni
      | some n0 =>
        have := head_le hf.heap.ordered hhd n hni
        have := hh n0 hhd
        rw [UInt64.le_iff_toNat_le] at *
        omega
    rw [forwardLoop]
    split
    · rename_i n0 nonce index' hhd hp
      split
      · rename_i hlt
        have hlen' : index'.length + 1 = index.length := by
          rw [← (BinHeap.pop_perm hp).length_eq, List.length_cons]
        exact forwardLoop_spec hk fuel _ _ _ (by omega) (hf.step hk hhd hp hlt)
      · rename_i hge
        refine ⟨hf, hstop fun n hn => ?_⟩
        rw [hhd, Option.some.injEq] at hn
        subst hn
        rw [UInt64.le_iff_toNat_le]
        rw [UInt64.lt_iff_toNat_lt] at hge
        omega
    · rename_i hno
      refine ⟨hf, hstop fun n0 hh => ?_⟩
      have hne : index ≠ [] := fun h => by rw [h] at hh; cases hh
      obtain ⟨⟨nonce, index'⟩, hp⟩ := Option.isSome_iff_exists.mp
        (BinHeap.pop_isSome nonceLess (List.length_pos_of_ne_nil hne))
      exact absurd hp (hno n0 nonce index' hh)

theorem forwardInv_start {items : NonceItems} {index : List UInt64} (hh : HeapOf index items)
    (t : UInt64) : ForwardInv t items index items [] :=
  ⟨hh, fun _ _ => rfl, fun _ h₀ h => absurd h₀ h,
    fun _ => iff_of_false List.not_mem_nil fun ⟨hl, hn⟩ => hn (Finmap.mem_of_lookup_eq_some hl),
    List.Pairwise.nil, fun _ h => absurd h List.not_mem_nil⟩

/-- at the end of the loop, what is left is the items at or above the threshold -/
theorem ForwardInv.lookup_eq {t : UInt64} {items₀ items : NonceItems} {index : List UInt64}
    {removed : List Transaction} (hf : ForwardInv t items₀ index items removed)
    (hge : ∀ n ∈ items, t ≤ n) (n : UInt64) :
    items.lookup n = if n < t then none else items₀.lookup n := by
  split
  · rename_i hlt
    refine Finmap.lookup_eq_none.mpr fun hn => ?_
    have := hge n hn
    rw [UInt64.le_iff_toNat_le] at this
    rw [UInt64.lt_iff_toNat_lt] at hlt
    omega
  · rename_i hnlt
    by_cases hn : n ∈ items
    · exact hf.sub n hn
    · rw [Finmap.lookup_eq_none.mpr hn]
      by_cases hn₀ : n ∈ items₀
      · exact absurd (hf.gone n hn₀ hn) hnlt
      · exact (Finmap.lookup_eq_none.mpr hn₀).symm

theorem lt_downward (t : UInt64) (a b : UInt64) (hab : a ≤ b) (hb : decide (b < t) = true) :
    decide (a < t) = true := by
  simp only [decide_eq_true_eq, UInt64.lt_iff_toNat_lt] at *
  rw [UInt64.le_iff_toNat_le] at hab
  omega

/-- **`Forward(t)`** does not panic, removes exactly the items below `t` and returns them by
increasing nonce, and keeps the invariant: the cache loses exactly them from its front -/
theorem forward_spec {m : TxsSortedMap} (hm : Inv m) (t : UInt64) :
    ∃ m' removed, m.forward t = some (m', removed) ∧ Inv m' ∧
      (∀ n, m'.items.lookup n = if n < t then none else m.items.lookup n) ∧
      removed.Pairwise (fun a b => a.nonce < b.nonce) ∧
      ∀ tx, tx ∈ removed ↔ m.items.lookup tx.nonce = some tx ∧ tx.nonce < t := by
  obtain ⟨hf, hge⟩ := forwardLoop_spec hm.keyed m.index.length m.index m.items [] le_rfl
    (forwardInv_start hm.heap t)
  unfold TxsSortedMap.forward
  generalize forwardLoop t m.index.length m.index m.items [] = r at hf hge ⊢
  obtain ⟨index', items', removed⟩ := r
  have hlook := hf.lookup_eq hge
  have hmemr : ∀ tx, tx ∈ removed ↔ m.items.lookup tx.nonce = some tx ∧ tx.nonce < t := by
    intro tx
    rw [hf.mem_removed, ← Finmap.lookup_eq_none, hlook]
    constructor
    · rintro ⟨hl, hn⟩
      refine ⟨hl, ?_⟩
      by_contra hlt
      rw [if_neg hlt, hl] at hn
      cases hn
    · rintro ⟨hl, hlt⟩
      exact ⟨hl, by rw [if_pos hlt]⟩
  have hinv : ∀ cache, (∀ c, cache = some c → SortedItems items' c) →
      Inv ⟨items', index', cache⟩ := by
    refine fun cache hc => ⟨fun n tx h => ?_, hf.heap, hc⟩
    rw [hlook] at h
    split at h
    · cases h
    · exact hm.keyed n tx h
  cases hc : m.cache with
  | none => exact ⟨_, removed, rfl, hinv none (fun c h => by cases h), hlook, hf.sorted, hmemr⟩
  | some c =>
    obtain ⟨hcs, hcm⟩ := hm.cache c hc
    have hsplit := sorted_eq_filter_append hcs (fun n => decide (n < t)) (lt_downward t)
    -- the removed items are the front of the cache
    have hrem : removed = c.filter fun x => decide (x.nonce < t) :=
      eq_of_sorted_of_mem_iff hf.sorted (hcs.sublist List.filter_sublist) fun tx => by
        rw [hmemr, List.mem_filter, hcm, decide_eq_true_eq]
    have hdrop : c.drop removed.length = c.filter fun x => !decide (x.nonce < t) := by
      have := congrArg (List.drop (c.filter fun x => decide (x.nonce < t)).length) hsplit
      rw [List.drop_left] at this
      rw [hrem]
      exact this
    have hle : removed.length ≤ c.length := hrem ▸ List.length_filter_le _ _
    refine ⟨⟨items', index', some (c.drop removed.length)⟩, removed,
      by simp only [if_pos hle, Option.map_some], hinv _ fun c' h => ?_, hlook, hf.sorted, hmemr⟩
    cases h
    rw [hdrop]
    refine ⟨hcs.sublist List.filter_sublist, fun tx => ?_⟩
    rw [List.mem_filter, hcm, hlook]
    by_cases hlt : tx.nonce < t
    · simp [hlt]
    · simp [hlt]

theorem Inv.forward {m m' : TxsSortedMap} {removed : List Transaction} (hm : Inv m) {t : UInt64}
    (h : m.forward t = some (m', removed)) : Inv m' := by
  obtain ⟨m'', removed', h', hinv, -⟩ := forward_spec hm t
  rw [h] at h'
  cases h'
  exact hinv

/-! ## `Ready` -/

/-- what the loop of `Ready` keeps: the items taken are the run of nonces from `n0`, the ones
left are above it, and `next` follows the run in 64-bit arithmetic -/
structure ReadyInv (n0 : UInt64) (items₀ : NonceItems) (next : UInt64) (index : List UInt64)
    (items : NonceItems) (ready : List Transaction) : Prop where
  heap : HeapOf index items
  sub : ∀ n, n ∈ items → items.lookup n = items₀.lookup n
  next_eq : next.toNat = (n0.toNat + ready.length) % 2 ^ 64
  run : (ready.map fun tx => tx.nonce.toNat) = List.range' n0.toNat ready.length
  mem_ready : ∀ tx ∈ ready, items₀.lookup tx.nonce = some tx
  above : ∀ n ∈ items, n0.toNat + ready.length ≤ n.toNat
  gone : ∀ n ∈ items₀, n ∉ items → n.toNat < n0.toNat + ready.length

theorem ReadyInv.step {n0 next : UInt64} {items₀ items : NonceItems} {index index' : List UInt64}
    {ready : List Transaction} (hk : Keyed items₀) (hr : ReadyInv n0 items₀ next index items ready)
    {x : UInt64} (hhead : index.head? = some next)
    (hp : BinHeap.pop nonceLess index = some (x, index')) :
    ReadyInv n0 items₀ (next + 1) index' (items.erase next)
      (ready ++ (items.lookup next).toList) := by
  obtain ⟨rfl, hheap, hmem, -⟩ := pop_spec hr.heap hhead hp
  obtain ⟨tx, htx⟩ := Option.isSome_iff_exists.mp (Finmap.lookup_isSome.mpr hmem)
  have htx₀ : items₀.lookup x = some tx := (hr.sub x hmem).symm.trans htx
  have hnonce : tx.nonce = x := hk x tx htx₀
  -- the next nonce is an item, so the run has not wrapped
  have habove := hr.above x hmem
  have hx : x.toNat = n0.toNat + ready.length := by
    have := hr.next_eq
    have := x.toNat_lt
    rw [Nat.mod_eq_of_lt (by omega)] at *
    omega
  rw [htx, Option.toList_some]
  refine ⟨hheap, fun n hn => ?_, ?_, ?_, fun t ht => ?_, fun n hn => ?_, fun n hn₀ hn => ?_⟩
  · obtain ⟨hne, hn'⟩ := Finmap.mem_erase.mp hn
    rw [Finmap.lookup_erase_ne hne]
    exact hr.sub n hn'
  · rw [UInt64.toNat_add, hx, List.length_append, List.length_singleton]
    simp only [UInt64.toNat_one]
    omega
  · rw [List.map_append, hr.run, List.length_append, List.length_singleton, List.range'_concat]
    simp [hnonce, hx]
  · rw [List.mem_append, List.mem_singleton] at ht
    rcases ht with ht | rfl
    · exact hr.mem_ready t ht
    · rw [hnonce]
      exact htx₀
  · obtain ⟨hne, hn'⟩ := Finmap.mem_erase.mp hn
    have := hr.above n hn'
    have : n.toNat ≠ x.toNat := fun h => hne (UInt64.toNat_inj.mp h)
    rw [List.length_append, List.length_singleton]
    omega
  · rw [List.length_append, List.length_singleton]
    by_cases hne : n = x
    · rw [hne]
      omega
    · have := hr.gone n hn₀ fun h => hn (Finmap.mem_erase.mpr ⟨hne, h⟩)
      omega

/-- the loop of `Ready` stops where the next nonce is missing, by induction on the fuel, which
stays at least the size of the heap -/
theorem readyLoop_spec {n0 : UInt64} {items₀ : NonceItems} (hk : Keyed items₀) :
    ∀ (fuel : Nat) (next : UInt64) (index : List UInt64) (items : NonceItems)
      (ready : List Transaction), index.length ≤ fuel →
        ReadyInv n0 items₀ next index items ready →
        let r := readyLoop fuel next index items ready
        ∃ next', ReadyInv n0 items₀ next' r.1 r.2.1 r.2.2 ∧
          (n0.toNat + r.2.2.length < 2 ^ 64 → next' ∉ r.2.1)
  | 0, next, index, items, ready, hlen, hr => by
    have hnil : index = [] := List.eq_nil_of_length_eq_zero (by omega)
    refine ⟨next, hr, fun _ hn => ?_⟩
    have := (hr.heap.mem next).mpr hn
    rw [hnil] at this
    cases this
  | fuel + 1, next, index, items, ready, hlen, hr => by
    -- at a stop, a next nonce that were an item would be the head
    have hstop : (∀ h0, index.head? = some h0 → h0 ≠ next) →
        n0.toNat + ready.length < 2 ^ 64 → next ∉ items := by
      intro hh hlt hn
      have hni := (hr.heap.mem next).mpr hn
      cases hhd : index.head? with
      | none =>
        rw [List.head?_eq_none_iff] at hhd
        rw [hhd] at hni
        cases hni
      | some h0 =>
        have hle := head_le hr.heap.ordered hhd next hni
        have hab := hr.above h0 ((hr.heap.mem h0).mp (List.mem_of_mem_head? hhd))
        have hnext := hr.next_eq
        rw [Nat.mod_eq_of_lt hlt] at hnext
        rw [UInt64.le_iff_toNat_le] at hle
        exact hh h0 hhd (UInt64.toNat_inj.mp (by omega))
    dsimp only
    rw [readyLoop]
    split
    · rename_i h0 x index' hhd hp
      split
      · rename_i heq
        subst heq
        have hlen' : index'.length + 1 = index.length := by
          rw [← (BinHeap.pop_perm hp).length_eq, List.length_cons]
        exact readyLoop_spec hk fuel _ _ _ _ (by omega) (hr.step hk hhd hp)
      · rename_i hne
        refine ⟨next, hr, hstop fun h0' hh => ?_⟩
        rw [hhd, Option.some.injEq] at hh
        exact hh ▸ hne
    · rename_i hno
      refine ⟨next, hr, hstop fun h0 hh => ?_⟩
      have hne : index ≠ [] := fun h => by rw [h] at hh; cases hh
      obtain ⟨⟨x, index'⟩, hp⟩ := Option.isSome_iff_exists.mp
        (BinHeap.pop_isSome nonceLess (List.length_pos_of_ne_nil hne))
      exact absurd hp (hno h0 x index' hh)

/-- the head of the heap of an invariant map is its least nonce -/
theorem head_eq_min {m : TxsSortedMap} (hm : Inv m) {h0 : UInt64} (hh : m.index.head? = some h0) :
    h0 ∈ m.items ∧ ∀ n ∈ m.items, h0 ≤ n :=
  ⟨(hm.heap.mem h0).mp (List.mem_of_mem_head? hh),
    fun n hn => head_le hm.heap.ordered hh n ((hm.heap.mem n).mpr hn)⟩

theorem readyInv_start {index : List UInt64} {items : NonceItems} {n0 : UInt64}
    (hh : HeapOf index items) (hmin : ∀ n ∈ items, n0 ≤ n) : ReadyInv n0 items n0 index items [] :=
  ⟨hh, fun _ _ => rfl, by simp [Nat.mod_eq_of_lt n0.toNat_lt], rfl, (fun _ h => by cases h),
    (fun n hn => by simpa [UInt64.le_iff_toNat_le] using hmin n hn), fun _ h h' => absurd h h'⟩

/-- a nonce is in the run iff its number lies in the range the run covers -/
theorem ReadyInv.mem_run {n0 next : UInt64} {items₀ items : NonceItems} {index : List UInt64}
    {ready : List Transaction} (hr : ReadyInv n0 items₀ next index items ready) (n : UInt64) :
    n ∈ ready.map Transaction.nonce ↔
      n0.toNat ≤ n.toNat ∧ n.toNat < n0.toNat + ready.length := by
  rw [← List.mem_range'_1, ← hr.run, List.mem_map, List.mem_map]
  constructor
  · rintro ⟨tx, htx, rfl⟩
    exact ⟨tx, htx, rfl⟩
  · rintro ⟨tx, htx, h⟩
    exact ⟨tx, htx, UInt64.toNat_inj.mp h⟩

/-- what is left after the run: the items of the run are gone and every other item stays -/
theorem ReadyInv.lookup_eq {n0 next : UInt64} {items₀ items : NonceItems} {index : List UInt64}
    {ready : List Transaction} (hr : ReadyInv n0 items₀ next index items ready)
    (hmin : ∀ n ∈ items₀, n0 ≤ n) (n : UInt64) :
    items.lookup n = if n ∈ ready.map Transaction.nonce then none else items₀.lookup n := by
  split
  · rename_i hn
    have := (hr.mem_run n).mp hn
    exact Finmap.lookup_eq_none.mpr fun h => absurd (hr.above n h) (by omega)
  · rename_i hn
    by_cases hi : n ∈ items
    · exact hr.sub n hi
    by_cases hi₀ : n ∈ items₀
    · -- a taken item lies in the run
      have hlt := hr.gone n hi₀ hi
      have hle := UInt64.le_iff_toNat_le.mp (hmin n hi₀)
      exact absurd ((hr.mem_run n).mpr ⟨hle, hlt⟩) hn
    · rw [Finmap.lookup_eq_none.mpr hi, Finmap.lookup_eq_none.mpr hi₀]

/-- `Ready(start)` under the invariant: nothing when every nonce is above `start`; otherwise the
run of consecutive nonces from the least one, up to the first nonce missing, all of which leave
the map -/
theorem ready_spec {m : TxsSortedMap} (hm : Inv m) (s : UInt64) :
    Inv (m.ready s).1 ∧
    ((∀ n ∈ m.items, s < n) → m.ready s = (m, [])) ∧
    ∀ n0 ∈ m.items, (∀ n ∈ m.items, n0 ≤ n) → n0 ≤ s →
      (m.ready s).2 ≠ [] ∧
      ((m.ready s).2.map fun tx => tx.nonce.toNat) = List.range' n0.toNat (m.ready s).2.length ∧
      (∀ tx ∈ (m.ready s).2, m.items.lookup tx.nonce = some tx) ∧
      (n0.toNat + (m.ready s).2.length < 2 ^ 64 →
        n0 + (m.ready s).2.length.toUInt64 ∉ m.items) ∧
      ∀ n, (m.ready s).1.items.lookup n =
        if n ∈ (m.ready s).2.map Transaction.nonce then none else m.items.lookup n := by
  cases hh : m.index.head? with
  | none =>
    -- an empty heap is an empty map
    have hempty : ∀ n, n ∉ m.items := fun n hn => by
      rw [List.head?_eq_none_iff] at hh
      have := (hm.heap.mem n).mpr hn
      rw [hh] at this
      cases this
    have hr : m.ready s = (m, []) := by rw [ready, hh]
    exact ⟨hr ▸ hm, fun _ => hr, fun n0 hn0 => absurd hn0 (hempty n0)⟩
  | some h0 =>
    obtain ⟨hh0, hmin⟩ := head_eq_min hm hh
    by_cases hs : s < h0
    · have hr : m.ready s = (m, []) := by simp only [ready, hh, if_pos hs]
      refine ⟨hr ▸ hm, fun _ => hr, fun n0 hn0 hmin0 hle => ?_⟩
      have h1 := UInt64.le_iff_toNat_le.mp (hmin n0 hn0)
      have h2 := UInt64.le_iff_toNat_le.mp (hmin0 h0 hh0)
      have h3 := UInt64.le_iff_toNat_le.mp hle
      have h4 := UInt64.lt_iff_toNat_lt.mp hs
      omega
    · obtain ⟨next', hr, hstop⟩ := readyLoop_spec hm.keyed m.index.length h0 m.index m.items []
        le_rfl (readyInv_start hm.heap hmin)
      simp only [ready, hh, if_neg hs]
      generalize readyLoop m.index.length h0 m.index m.items [] = r at hr hstop
      obtain ⟨index', items', ready⟩ := r
      dsimp only at hr hstop ⊢
      refine ⟨⟨fun n tx h => hm.keyed n tx (hr.sub n (Finmap.mem_of_lookup_eq_some h) ▸ h),
        hr.heap, fun _ h => by cases h⟩, fun hall => absurd (hall h0 hh0) hs,
        fun n0 hn0 hmin0 _ => ?_⟩
      -- the least nonce is the head
      have hn0 : n0 = h0 := by
        have h1 := UInt64.le_iff_toNat_le.mp (hmin n0 hn0)
        have h2 := UInt64.le_iff_toNat_le.mp (hmin0 h0 hh0)
        exact UInt64.toNat_inj.mp (by omega)
      subst hn0
      -- past the run, the next nonce is the loop's last one, and it is not an item
      have hnext : n0.toNat + ready.length < 2 ^ 64 → n0 + ready.length.toUInt64 ∉ m.items := by
        intro hlt hn
        have hne := hstop hlt
        have heq : n0 + ready.length.toUInt64 = next' := by
          apply UInt64.toNat_inj.mp
          rw [hr.next_eq, UInt64.toNat_add, Nat.toUInt64_eq, UInt64.toNat_ofNat', Nat.add_mod_mod]
        have := hr.gone _ hn (heq ▸ hne)
        rw [heq, hr.next_eq, Nat.mod_eq_of_lt hlt] at this
        omega
      refine ⟨fun hnil => ?_, hr.run, hr.mem_ready, hnext, hr.lookup_eq hmin⟩
      -- an empty run would leave the least nonce, the loop's first, in the map
      subst hnil
      have hin : n0 ∈ items' := by
        by_contra hn
        have := hr.gone n0 hn0 hn
        simp at this
      exact hnext (by simpa using n0.toNat_lt) (by simpa using hn0)

/-! ## `Cap` -/

theorem HeapOf.length_eq {index : List UInt64} {items : NonceItems} (hh : HeapOf index items) :
    index.length = items.keys.card := by
  rw [← List.toFinset_card_of_nodup hh.nodup]
  congr 1
  ext n
  rw [List.mem_toFinset, Finmap.mem_keys]
  exact hh.mem n

theorem le_trans_decide (a b c : UInt64) :
    decide (a ≤ b) = true → decide (b ≤ c) = true → decide (a ≤ c) = true := by
  simp only [decide_eq_true_eq, UInt64.le_iff_toNat_le]
  omega

theorem le_total_decide (a b : UInt64) : (decide (a ≤ b) || decide (b ≤ a)) = true := by
  simp only [Bool.or_eq_true, decide_eq_true_eq, UInt64.le_iff_toNat_le]
  omega

/-- the heap after `sort.Sort`: the keys by strictly increasing nonce -/
theorem HeapOf.sorted {index : List UInt64} {items : NonceItems} (hh : HeapOf index items) :
    (index.mergeSort fun a b => decide (a ≤ b)).Pairwise (· < ·) ∧
      ∀ n, n ∈ index.mergeSort (fun a b => decide (a ≤ b)) ↔ n ∈ items := by
  have hperm := List.mergeSort_perm index fun a b => decide (a ≤ b)
  have hle := List.pairwise_mergeSort le_trans_decide le_total_decide index
  have hnd : (index.mergeSort fun a b => decide (a ≤ b)).Nodup := hperm.nodup_iff.mpr hh.nodup
  refine ⟨(hle.and hnd).imp fun {a b} hab => ?_, fun n => hperm.mem_iff.trans (hh.mem n)⟩
  have h1 := hab.1
  have h2 : a.toNat ≠ b.toNat := fun h => hab.2 (UInt64.toNat_inj.mp h)
  simp only [decide_eq_true_eq, UInt64.le_iff_toNat_le] at h1
  rw [UInt64.lt_iff_toNat_lt]
  omega

/-- a cache lists the nonces of the sorted heap -/
theorem SortedItems.map_nonce {items : NonceItems} {c : List Transaction} {index : List UInt64}
    (hk : Keyed items) (hc : SortedItems items c) (hh : HeapOf index items) :
    c.map Transaction.nonce = index.mergeSort fun a b => decide (a ≤ b) := by
  obtain ⟨hsort, hmem⟩ := hh.sorted
  refine eq_of_pairwise_lt_of_mem_iff id (List.pairwise_map.mpr hc.1) hsort fun n => ?_
  rw [hmem, List.mem_map]
  constructor
  · rintro ⟨tx, htx, rfl⟩
    exact Finmap.mem_of_lookup_eq_some ((hc.2 tx).mp htx)
  · intro hn
    obtain ⟨tx, htx⟩ := Option.isSome_iff_exists.mp (Finmap.lookup_isSome.mpr hn)
    have hnonce := hk n tx htx
    exact ⟨tx, (hc.2 tx).mpr (by rw [hnonce]; exact htx), hnonce⟩

/-- a prefix of a sorted cache, over the items that keep exactly its nonces -/
theorem SortedItems.take_of_map {items items' : NonceItems} {c : List Transaction}
    {kept : List UInt64} {k : Nat} (hc : SortedItems items c)
    (hkept : (c.take k).map Transaction.nonce = kept) (hmem : ∀ n, n ∈ items' ↔ n ∈ kept)
    (hsub : ∀ n ∈ items', items'.lookup n = items.lookup n) : SortedItems items' (c.take k) := by
  refine ⟨hc.1.sublist (List.take_sublist _ _), fun tx => ⟨fun htx => ?_, fun h => ?_⟩⟩
  · have hin : tx.nonce ∈ items' := (hmem _).mpr (hkept ▸ List.mem_map_of_mem htx)
    rw [hsub _ hin]
    exact (hc.2 tx).mp (List.mem_of_mem_take htx)
  · have hin := Finmap.mem_of_lookup_eq_some h
    rw [hsub _ hin] at h
    -- the cache entry under this nonce is the item itself
    obtain ⟨tx', htx', heq⟩ := List.mem_map.mp (hkept ▸ (hmem _).mp hin)
    have h' := (hc.2 tx').mp (List.mem_of_mem_take htx')
    rw [heq, h, Option.some.injEq] at h'
    rw [h']
    exact htx'

/-- **`Cap(k)`** on a map with the invariant: nothing when there are at most `k` items, a
panic for a negative `k`, and otherwise the `len - k` items of highest nonce, highest first,
which leave the map -/
theorem cap_spec {m : TxsSortedMap} (hm : Inv m) (k : Int) :
    ((m.len : Int) ≤ k → m.cap k = some (m, [])) ∧ (k < 0 → m.cap k = none) ∧
    (0 ≤ k → k < m.len → ∃ m' drops, m.cap k = some (m', drops) ∧ Inv m' ∧
      drops.length = m.len - k.toNat ∧
      drops.Pairwise (fun a b => b.nonce < a.nonce) ∧
      (∀ tx ∈ drops, m.items.lookup tx.nonce = some tx) ∧
      (∀ n, m'.items.lookup n =
        if n ∈ drops.map Transaction.nonce then none else m.items.lookup n) ∧
      ∀ tx ∈ drops, ∀ n ∈ m'.items, n < tx.nonce) := by
  refine ⟨fun h => by rw [cap, if_pos h], fun h => by rw [cap, if_neg (by omega), if_pos h],
    fun hk0 hlt => ?_⟩
  obtain ⟨hsort, hmem⟩ := hm.heap.sorted
  have hslen : (m.index.mergeSort fun a b => decide (a ≤ b)).length = m.len :=
    (List.length_mergeSort _).trans hm.heap.length_eq
  have hcache : ∀ c, m.cache = some c →
      c.map Transaction.nonce = m.index.mergeSort fun a b => decide (a ≤ b) :=
    fun c hc => (hm.cache c hc).map_nonce hm.keyed hm.heap
  rw [cap, if_neg (by omega), if_neg (by omega), if_neg (by omega)]
  dsimp only
  rw [List.take_of_length_le hslen.le]
  generalize m.index.mergeSort (fun a b => decide (a ≤ b)) = sorted at hsort hmem hslen hcache
  -- the sorted heap splits into the nonces kept and the nonces dropped, all below all
  obtain ⟨hkept, hdropped, hbelow⟩ := List.pairwise_append.mp
    ((List.take_append_drop k.toNat sorted).symm ▸ hsort)
  have hsplit : ∀ n, n ∈ m.items ↔ n ∈ sorted.take k.toNat ∨ n ∈ sorted.drop k.toNat := by
    intro n
    rw [← hmem, ← List.mem_append, List.take_append_drop]
  have hnot : ∀ n ∈ sorted.take k.toNat, n ∉ sorted.drop k.toNat :=
    fun n hn hd => UInt64.lt_irrefl n (hbelow n hn n hd)
  generalize hK : sorted.take k.toNat = kept at hkept hbelow hsplit hnot
  generalize hD : sorted.drop k.toNat = dropped at hdropped hbelow hsplit hnot
  -- the items left are those of the kept nonces
  have hlookup : ∀ n, (dropped.reverse.foldl (fun items n => items.erase n) m.items).lookup n =
      if n ∈ dropped then none else m.items.lookup n := by
    intro n
    simp only [lookup_foldl_erase, List.mem_reverse]
  have hmem' : ∀ n, n ∈ dropped.reverse.foldl (fun items n => items.erase n) m.items ↔
      n ∈ kept := by
    intro n
    rw [mem_foldl_erase, List.mem_reverse, hsplit]
    constructor
    · rintro ⟨hnd, hn | hn⟩
      · exact hn
      · exact absurd hn hnd
    · exact fun hn => ⟨hnot n hn, Or.inl hn⟩
  have hsub : ∀ n ∈ dropped.reverse.foldl (fun items n => items.erase n) m.items,
      (dropped.reverse.foldl (fun items n => items.erase n) m.items).lookup n =
        m.items.lookup n := by
    intro n hn
    rw [hlookup, if_neg (hnot n ((hmem' n).mp hn))]
  have hheap : HeapOf (BinHeap.init nonceLess kept)
      (dropped.reverse.foldl (fun items n => items.erase n) m.items) :=
    heapOf_init ⟨hkept.imp fun {a b} (h : a < b) (heq : a = b) => UInt64.lt_irrefl a (heq ▸ h),
      fun n => (hmem' n).symm⟩
  -- the transactions dropped are read under the dropped nonces
  have hmap : (dropped.reverse.filterMap fun n => m.items.lookup n).map Transaction.nonce =
      dropped.reverse :=
    map_nonce_filterMap hm.keyed fun n hn =>
      (hsplit n).mpr (Or.inr (List.mem_reverse.mp hn))
  have hdlen : (dropped.reverse.filterMap fun n => m.items.lookup n).length =
      m.len - k.toNat := by
    rw [← List.length_map Transaction.nonce, hmap, List.length_reverse, ← hD, List.length_drop,
      hslen]
  have hdmem : ∀ n, n ∈ (dropped.reverse.filterMap fun n => m.items.lookup n).map
      Transaction.nonce ↔ n ∈ dropped := by
    intro n
    rw [hmap, List.mem_reverse]
  have hrest : (dropped.reverse.filterMap fun n => m.items.lookup n).length = m.len - k.toNat ∧
      (dropped.reverse.filterMap fun n => m.items.lookup n).Pairwise
        (fun a b => b.nonce < a.nonce) ∧
      (∀ tx ∈ dropped.reverse.filterMap fun n => m.items.lookup n,
        m.items.lookup tx.nonce = some tx) ∧
      (∀ n, (dropped.reverse.foldl (fun items n => items.erase n) m.items).lookup n =
        if n ∈ (dropped.reverse.filterMap fun n => m.items.lookup n).map Transaction.nonce
        then none else m.items.lookup n) ∧
      ∀ tx ∈ dropped.reverse.filterMap (fun n => m.items.lookup n),
        ∀ n ∈ dropped.reverse.foldl (fun items n => items.erase n) m.items, n < tx.nonce := by
    refine ⟨hdlen, ?_, fun tx htx => ?_, fun n => ?_, fun tx htx n hn => ?_⟩
    · have hrev : dropped.reverse.Pairwise (fun a b => b < a) := List.pairwise_reverse.mpr hdropped
      rw [← hmap] at hrev
      exact List.pairwise_map.mp hrev
    · obtain ⟨n, -, hn⟩ := List.mem_filterMap.mp htx
      rw [hm.keyed n tx hn]
      exact hn
    · simp only [hlookup, hdmem]
    · exact hbelow n ((hmem' n).mp hn) tx.nonce ((hdmem _).mp (List.mem_map_of_mem htx))
  cases hc : m.cache with
  | none =>
    exact ⟨_, _, rfl, ⟨hm.keyed.foldl_erase _, hheap, fun _ h => by cases h⟩, hrest⟩
  | some c =>
    -- the cache keeps its first `k` entries, the kept nonces
    have hcmap := hcache c hc
    have hclen : c.length = m.len := by rw [← List.length_map Transaction.nonce, hcmap, hslen]
    have hk : c.length - (dropped.reverse.filterMap fun n => m.items.lookup n).length =
        k.toNat := by
      rw [hdlen, hclen]
      omega
    have hcache' : SortedItems (dropped.reverse.foldl (fun items n => items.erase n) m.items)
        (c.take k.toNat) :=
      (hm.cache c hc).take_of_map (by rw [List.map_take, hcmap, hK]) hmem' hsub
    have hle : (dropped.reverse.filterMap fun n => m.items.lookup n).length ≤ c.length := by
      rw [hdlen, hclen]
      omega
    simp only [if_pos hle, hk, Option.map_some]
    exact ⟨_, _, rfl, ⟨hm.keyed.foldl_erase _, hheap, fun c' h => by cases h; exact hcache'⟩,
      hrest⟩

theorem Inv.cap {m m' : TxsSortedMap} {drops : List Transaction} (hm : Inv m) {k : Int}
    (h : m.cap k = some (m', drops)) : Inv m' := by
  obtain ⟨hle, hneg, hcap⟩ := cap_spec hm k
  by_cases hk : (m.len : Int) ≤ k
  · rw [hle hk, Option.some.injEq, Prod.mk.injEq] at h
    exact h.1 ▸ hm
  by_cases hk0 : k < 0
  · rw [hneg hk0] at h
    cases h
  obtain ⟨m'', drops', h', hinv, -⟩ := hcap (by omega) (by omega)
  rw [h, Option.some.injEq, Prod.mk.injEq] at h'
  exact h'.1 ▸ hinv

theorem Inv.ready {m : TxsSortedMap} (hm : Inv m) (s : UInt64) : Inv (m.ready s).1 :=
  (ready_spec hm s).1

/-! ## every map the operations reach -/

/-- the maps `newTxSortedMap` and the operations reach, `reheap` after `Filter` as
`txsList.Filter` runs it included; where Go ranges over `items`, any iteration order of the keys
may be taken -/
inductive Reachable : TxsSortedMap → Prop
  | empty : Reachable empty
  | put {m : TxsSortedMap} (tx : Transaction) : Reachable m → Reachable (m.put tx)
  | forward {m m' : TxsSortedMap} {t : UInt64} {removed : List Transaction} :
      Reachable m → m.forward t = some (m', removed) → Reachable m'
  | filter {m : TxsSortedMap} {order order' : List UInt64} (f : Transaction → Bool) :
      Reachable m → Enumerates order m.items → Enumerates order' (m.filter order f).1.items →
      Reachable (m.filterReheap order order' f).1
  | filterThenReheap {m : TxsSortedMap} {order order' : List UInt64} (f : Transaction → Bool) :
      Reachable m → Enumerates order m.items → Enumerates order' (m.filter order f).1.items →
      Reachable ((m.filter order f).1.reheap order')
  | reheap {m : TxsSortedMap} {order : List UInt64} :
      Reachable m → Enumerates order m.items → Reachable (m.reheap order)
  | cap {m m' : TxsSortedMap} {k : Int} {drops : List Transaction} :
      Reachable m → m.cap k = some (m', drops) → Reachable m'
  | remove {m : TxsSortedMap} (nonce : UInt64) : Reachable m → Reachable (m.remove nonce).1
  | ready {m : TxsSortedMap} (start : UInt64) : Reachable m → Reachable (m.ready start).1
  | flatten {m : TxsSortedMap} {order : List UInt64} :
      Reachable m → Enumerates order m.items → Reachable (m.flatten order).1

theorem Reachable.inv {m : TxsSortedMap} (h : Reachable m) : Inv m := by
  induction h with
  | empty => exact inv_empty
  | put tx _ ih => exact ih.put tx
  | forward _ hf ih => exact ih.forward hf
  | filter f _ _ ho' ih => exact ih.filterReheap ho'
  | filterThenReheap f _ _ ho' ih => exact ih.keyed.reheap_filter ho'
  | reheap _ ho ih => exact ih.keyed.reheap ho
  | cap _ hc ih => exact ih.cap hc
  | remove nonce _ ih => exact ih.remove nonce
  | ready start _ ih => exact ih.ready start
  | flatten _ ho ih => exact ih.flatten ho

/-! ## what the operations return on every map reached -/

/-- `Flatten` returns the items by strictly increasing nonce, whatever the iteration order -/
def FlattenSorted (m : TxsSortedMap) : Prop :=
  ∀ order, Enumerates order m.items → SortedItems m.items (m.flatten order).2

/-- `Forward(t)` removes and returns exactly the items below `t` -/
def ForwardExact (m : TxsSortedMap) : Prop :=
  ∀ t, ∃ m' removed, m.forward t = some (m', removed) ∧
    (∀ n, m'.items.lookup n = if n < t then none else m.items.lookup n) ∧
    removed.Pairwise (fun a b => a.nonce < b.nonce) ∧
    ∀ tx, tx ∈ removed ↔ m.items.lookup tx.nonce = some tx ∧ tx.nonce < t

/-- `Cap(k)`, for `k ≥ 0`, removes and returns exactly the `len - k` items of highest nonce,
highest first -/
def CapExact (m : TxsSortedMap) : Prop :=
  ∀ k : Int, 0 ≤ k → ∃ m' drops, m.cap k = some (m', drops) ∧
    drops.length = m.len - k.toNat ∧ drops.Pairwise (fun a b => b.nonce < a.nonce) ∧
    (∀ tx ∈ drops, m.items.lookup tx.nonce = some tx) ∧
    (∀ n, m'.items.lookup n =
      if n ∈ drops.map Transaction.nonce then none else m.items.lookup n) ∧
    ∀ tx ∈ drops, ∀ n ∈ m'.items, n < tx.nonce

/-- `Ready(s)` returns nothing when every nonce is above `s`, and otherwise the run of
consecutive nonces from the least one up to the first one missing, which it removes -/
def ReadyRun (m : TxsSortedMap) : Prop :=
  ∀ s, ((∀ n ∈ m.items, s < n) → (m.ready s).2 = []) ∧
    ∀ n0 ∈ m.items, (∀ n ∈ m.items, n0 ≤ n) → n0 ≤ s →
      (m.ready s).2 ≠ [] ∧
      ((m.ready s).2.map fun tx => tx.nonce.toNat) = List.range' n0.toNat (m.ready s).2.length ∧
      (∀ tx ∈ (m.ready s).2, m.items.lookup tx.nonce = some tx) ∧
      (n0.toNat + (m.ready s).2.length < 2 ^ 64 →
        n0 + (m.ready s).2.length.toUInt64 ∉ m.items) ∧
      ∀ n, (m.ready s).1.items.lookup n =
        if n ∈ (m.ready s).2.map Transaction.nonce then none else m.items.lookup n

theorem Inv.capExact {m : TxsSortedMap} (hm : Inv m) : CapExact m := by
  intro k hk0
  obtain ⟨hle, -, hcap⟩ := cap_spec hm k
  by_cases hk : (m.len : Int) ≤ k
  · -- at most `k` items: nothing is dropped
    refine ⟨m, [], hle hk, ?_, List.Pairwise.nil, by simp, by simp, by simp⟩
    rw [List.length_nil]
    omega
  · obtain ⟨m', drops, h, -, hrest⟩ := hcap hk0 (by omega)
    exact ⟨m', drops, h, hrest⟩

/-- **The representation invariant of the nonce-sorted map.**  On every map the operations
reach, the heap holds the key set once each in heap order and a cache is the items by
increasing nonce; `Flatten`, `Forward`, `Cap` and `Ready` then return what they are for. -/
theorem reachable_spec {m : TxsSortedMap} (hr : Reachable m) :
    Inv m ∧ FlattenSorted m ∧ ForwardExact m ∧ CapExact m ∧ ReadyRun m := by
  have hm := hr.inv
  refine ⟨hm, fun order ho => (flatten_spec hm ho).1, fun t => ?_, hm.capExact, fun s => ?_⟩
  · obtain ⟨m', removed, h, -, hrest⟩ := forward_spec hm t
    exact ⟨m', removed, h, hrest⟩
  · obtain ⟨-, hnone, hrun⟩ := ready_spec hm s
    exact ⟨fun h => by rw [hnone h], hrun⟩

/-- a transaction of nonce `n` and gas `gas` -/
def nonceTx (n gas : UInt64) : Transaction :=
  ⟨.dynamicFee
    { chainID := 1, nonce := n, gasTipCap := 1, gasFeeCap := 1, gas := gas, toAddr := none,
      fromAddr := none, value := 0, data := [], accessList := [], sign := [], v := none,
      r := none, s := none }⟩

/-- nonces `0`, `1` and `2` put in, in the order `2`, `0`, `1` -/
def threePut : TxsSortedMap :=
  ((empty.put (nonceTx 2 21000)).put (nonceTx 0 21000)).put (nonceTx 1 21000)

/-- `Forward(1)` takes out nonce `0`, and `Cap(1)` then drops one of the two left -/
theorem reachable_spec_after_cap :
    ∃ m m' removed drops, threePut.forward 1 = some (m, removed) ∧
      m.cap 1 = some (m', drops) ∧ removed = [nonceTx 0 21000] ∧ drops.length = 1 ∧
      (Inv m' ∧ FlattenSorted m' ∧ ForwardExact m' ∧ CapExact m' ∧ ReadyRun m') := by
  have hrun : (threePut.forward 1).map (fun r => (r.2, r.1.len)) =
      some ([nonceTx 0 21000], 2) := by decide +kernel
  obtain ⟨⟨m, removed⟩, h₁, hr⟩ := Option.map_eq_some_iff.mp hrun
  simp only [Prod.mk.injEq] at hr
  have hm : Reachable m := .forward (.put _ (.put _ (.put _ .empty))) h₁
  -- two items are left, so `Cap(1)` drops one
  obtain ⟨m', drops, h₂, -, hlen, -⟩ :=
    (cap_spec hm.inv 1).2.2 (by decide) (by rw [hr.2]; decide)
  refine ⟨m, m', removed, drops, h₁, h₂, hr.1, ?_, reachable_spec (.cap hm h₂)⟩
  rw [hlen, hr.2]
  rfl

/-- a negative threshold makes `Cap` read `index[-1]`, even on the empty map -/
theorem cap_negative_panics : Reachable empty ∧ empty.cap (-1) = none :=
  ⟨Reachable.empty, (cap_spec inv_empty (-1)).2.1 (by decide)⟩

end TxsSortedMap

end N42
