import N42.TxsPool.Validate
import N42.Lib.Heap

/-!
# (key: priced) The lookup of all transactions and the price-sorted eviction heaps

`txLookup` and `txPricedList` of `internal/txspool/txs_list.go`.  The lookup maps the hash of
every pooled transaction to it, locals and remotes apart; the priced list keeps the remote ones
in two heaps, `urgent` (by effective tip under a base fee) and `floating` (by fee cap), and a
count of the entries gone stale.  A heap entry is never removed when its transaction leaves the
lookup: it is only skipped, and counted, when it reaches the top.  The hash of a transaction is
`Transaction.hash rlpHash`; the keccak `rlpHash` is a parameter.

* `priceCmp`, `priceLess`     `priceHeap.cmp` and `Less`: the effective tips with `uint256Min`
                              as written, then the gas price, twice;
* `toNat_effectiveGasTipValue`   that tip is the larger of the tip cap and the wrapped
                              `feeCap - baseFee`;
* `TxLookup`, `TxPricedList`  the two structures, with `put`, `removed`, `underpriced`,
                              `discard` and `reheap`;
* `discardLoop_spec`          the loop of `Discard` drops only live remote entries and keeps
                              every live entry it does not drop;
* `discardLoop_add_fuel`      its fuel `2 * len(urgent) + len(floating) + 1` is never spent;
* `discard_returns_duplicate` a transaction removed and added again sits twice in `urgent`,
                              and `Discard` returns it twice.
-/

namespace N42

open scoped List

/-- `numSlots(tx)`: `(unsafe.Sizeof(tx) + txSlotSize - 1) / txSlotSize`, where `tx` is a
pointer -/
def numSlots (_tx : Transaction) : Int := (pointerSize + txSlotSize - 1) / txSlotSize

/-- `urgentRatio`, `floatingRatio` -/
def urgentRatio : Nat := 4
def floatingRatio : Nat := 1

/-! ## the price order -/

/-- `priceHeap.cmp` with the heap's base fee: the effective tips, then the gas prices, and then
the gas prices again where the comment speaks of tips -/
def priceCmp (baseFee : Option U256) (a b : Transaction) : Int :=
  let byPrice :=
    if U256.cmp a.gasPrice b.gasPrice ≠ 0 then U256.cmp a.gasPrice b.gasPrice
    else U256.cmp a.gasPrice b.gasPrice
  match baseFee with
  | some _ =>
    if a.effectiveGasTipCmp b baseFee ≠ 0 then a.effectiveGasTipCmp b baseFee else byPrice
  | none => byPrice

/-- `priceHeap.Less`: by `cmp`, a tie to the higher nonce -/
def priceLess (baseFee : Option U256) (a b : Transaction) : Bool :=
  match priceCmp baseFee a b with
  | -1 => true
  | 1 => false
  | _ => decide (a.nonce > b.nonce)

/-- `priceHeap` -/
structure PriceHeap where
  baseFee : Option U256
  list : List Transaction
deriving DecidableEq

namespace PriceHeap

/-- `heap.Push(h, tx)` -/
def push (h : PriceHeap) (tx : Transaction) : PriceHeap :=
  { h with list := BinHeap.push (priceLess h.baseFee) h.list tx }

/-- `heap.Pop(h)`, `none` on an empty heap, where `Pop` reads `old[-1]` -/
def pop (h : PriceHeap) : Option (Transaction × PriceHeap) :=
  (BinHeap.pop (priceLess h.baseFee) h.list).map fun r => (r.1, { h with list := r.2 })

/-- `heap.Init(h)` -/
def init (h : PriceHeap) : PriceHeap := { h with list := BinHeap.init (priceLess h.baseFee) h.list }

end PriceHeap

/-! ## `txLookup` -/

/-- the transactions of a `txLookup`, by hash -/
abbrev HashItems := Finmap fun _ : Hash => Transaction

/-- `txLookup` -/
structure TxLookup where
  slots : Int
  locals : HashItems
  remotes : HashItems

namespace TxLookup

variable (rlpHash : HashInput → Hash)

/-- `newTxLookup()` -/
def empty : TxLookup := ⟨0, ∅, ∅⟩

/-- `Get(hash)` -/
def get (t : TxLookup) (hash : Hash) : Option Transaction :=
  match t.locals.lookup hash with
  | some tx => some tx
  | none => t.remotes.lookup hash

/-- `GetRemote(hash)` -/
def getRemote (t : TxLookup) (hash : Hash) : Option Transaction := t.remotes.lookup hash

/-- `Count()` -/
def count (t : TxLookup) : Nat := t.locals.keys.card + t.remotes.keys.card

/-- `RemoteCount()` -/
def remoteCount (t : TxLookup) : Nat := t.remotes.keys.card

/-- `Add(tx, local)` -/
def add (t : TxLookup) (tx : Transaction) (isLocal : Bool) : TxLookup :=
  let hash := tx.hash rlpHash
  if isLocal then { t with slots := t.slots + numSlots tx, locals := t.locals.insert hash tx }
  else { t with slots := t.slots + numSlots tx, remotes := t.remotes.insert hash tx }

/-- `Remove(hash)`: nothing when the hash is in neither set -/
def remove (t : TxLookup) (hash : Hash) : TxLookup :=
  let found := match t.locals.lookup hash with
    | some tx => some tx
    | none => t.remotes.lookup hash
  match found with
  | none => t
  | some tx =>
    { slots := t.slots - numSlots tx, locals := t.locals.erase hash,
      remotes := t.remotes.erase hash }

end TxLookup

/-! ## `txPricedList` -/

/-- `txPricedList`; its `all` is the pool's lookup, an argument of each function reading it -/
structure TxPricedList where
  stales : Int
  urgent : PriceHeap
  floating : PriceHeap
deriving DecidableEq

namespace TxPricedList

variable (rlpHash : HashInput → Hash)

/-- `newTxPricedList(all)` -/
def empty : TxPricedList := ⟨0, ⟨none, []⟩, ⟨none, []⟩⟩

/-- `Put(tx, local)`: a remote transaction goes to `urgent` -/
def put (l : TxPricedList) (tx : Transaction) (isLocal : Bool) : TxPricedList :=
  if isLocal then l else { l with urgent := l.urgent.push tx }

/-- `n` pops of a heap, in the order they come off -/
def popMany : Nat → PriceHeap → Option (List Transaction × PriceHeap)
  | 0, h => some ([], h)
  | n + 1, h =>
    match h.pop with
    | none => none
    | some (tx, h') => (popMany n h').map fun r => (tx :: r.1, r.2)

/-- `Reheap()`: `urgent` rebuilt from the remotes of `all` in the iteration `order`, and its
worst fifth popped into `floating` -/
def reheap (all : TxLookup) (order : List Hash) (l : TxPricedList) : Option TxPricedList :=
  let urgent : PriceHeap :=
    PriceHeap.init { l.urgent with list := order.filterMap fun hash => all.remotes.lookup hash }
  let floatingCount := urgent.list.length * floatingRatio / (urgentRatio + floatingRatio)
  (popMany floatingCount urgent).map fun r =>
    { stales := 0, urgent := r.2, floating := PriceHeap.init { l.floating with list := r.1 } }

/-- `Removed(count)`: a `Reheap` once more than a quarter of the entries are stale -/
def removed (all : TxLookup) (order : List Hash) (l : TxPricedList) (count : Int) :
    Option TxPricedList :=
  let l := { l with stales := l.stales + count }
  if l.stales ≤ (((l.urgent.list.length + l.floating.list.length) / 4 : Nat) : Int) then some l
  else reheap all order l

/-- the loop of `underpricedFor`: stale entries popped off the top, and counted -/
def dropStale (all : TxLookup) : Nat → PriceHeap → Int → PriceHeap × Int
  | 0, h, d => (h, d)
  | fuel + 1, h, d =>
    match h.list.head? with
    | none => (h, d)
    | some top =>
      if all.getRemote (top.hash rlpHash) = none then
        match h.pop with
        | some (_, h') => dropStale all fuel h' (d - 1)
        | none => (h, d)
      else (h, d)

/-- `underpricedFor(h, tx)`: the heap after its stale top is gone, the change of `stales`, and
whether `tx` is no better than the best remaining top -/
def underpricedFor (all : TxLookup) (h : PriceHeap) (tx : Transaction) :
    PriceHeap × Int × Bool :=
  let r := dropStale rlpHash all h.list.length h 0
  match r.1.list.head? with
  | none => (r.1, r.2, false)
  | some top => (r.1, r.2, decide (priceCmp r.1.baseFee top tx ≥ 0))

/-- `Underpriced(tx)`, with Go's left-to-right evaluation: `floating` is only cleaned when the
first conjunct holds -/
def underpriced (all : TxLookup) (l : TxPricedList) (tx : Transaction) : TxPricedList × Bool :=
  let u := underpricedFor rlpHash all l.urgent tx
  let l := { l with urgent := u.1, stales := l.stales + u.2.1 }
  if !(u.2.2 || l.urgent.list.length == 0) then (l, false)
  else
    let f := underpricedFor rlpHash all l.floating tx
    let l := { l with floating := f.1, stales := l.stales + f.2.1 }
    if !(f.2.2 || l.floating.list.length == 0) then (l, false)
    else (l, l.urgent.list.length != 0 || l.floating.list.length != 0)

/-- the loop of `Discard`: while slots are missing, move the best of `urgent` to `floating`
while `urgent` is more than four times the larger, else drop the best of `floating`; stale
entries are counted and skipped -/
def discardLoop (all : TxLookup) :
    Nat → TxPricedList → Int → List Transaction → Option (TxPricedList × Int × List Transaction)
  | 0, l, slots, drop => some (l, slots, drop)
  | fuel + 1, l, slots, drop =>
    if slots > 0 then
      if l.urgent.list.length * floatingRatio > l.floating.list.length * urgentRatio ∨
          floatingRatio = 0 then
        match l.urgent.pop with
        | none => none
        | some (tx, urgent) =>
          if all.getRemote (tx.hash rlpHash) = none then
            discardLoop all fuel { l with urgent, stales := l.stales - 1 } slots drop
          else discardLoop all fuel { l with urgent, floating := l.floating.push tx } slots drop
      else if l.floating.list.length = 0 then some (l, slots, drop)
      else
        match l.floating.pop with
        | none => none
        | some (tx, floating) =>
          if all.getRemote (tx.hash rlpHash) = none then
            discardLoop all fuel { l with floating, stales := l.stales - 1 } slots drop
          else discardLoop all fuel { l with floating } (slots - numSlots tx) (drop ++ [tx])
    else some (l, slots, drop)

/-- `Discard(slots, force)`: the transactions dropped and whether enough room was made; without
`force`, a short drop goes back to `urgent` and nothing is returned -/
def discard (all : TxLookup) (l : TxPricedList) (slots : Int) (force : Bool) :
    Option (TxPricedList × List Transaction × Bool) :=
  (discardLoop rlpHash all (2 * l.urgent.list.length + l.floating.list.length + 1) l slots
      []).map fun r =>
    if r.2.1 > 0 ∧ !force then
      ({ r.1 with urgent := r.2.2.foldl (fun h tx => h.push tx) r.1.urgent }, [], false)
    else (r.1, r.2.2, true)

/-- `SetBaseFee(baseFee)` -/
def setBaseFee (all : TxLookup) (order : List Hash) (l : TxPricedList) (baseFee : Option U256) :
    Option TxPricedList :=
  reheap all order { l with urgent := { l.urgent with baseFee } }

end TxPricedList

/-! ## what the price order computes -/

theorem toNat_uint256Min (x y : U256) : (uint256Min x y).toNat = max x.toNat y.toNat := by
  unfold uint256Min
  split
  · rename_i h
    rw [U256.cmp_eq_one_iff, BitVec.lt_def] at h
    omega
  · rename_i h
    rw [U256.cmp_eq_one_iff, BitVec.lt_def] at h
    omega

/-- the effective tip under a base fee is the larger of the tip cap and `feeCap - baseFee` in
wrapping words: a fee cap below the base fee gives a tip near `2^256` -/
theorem toNat_effectiveGasTipValue (tx : Transaction) (baseFee : U256) :
    (tx.effectiveGasTipValue (some baseFee)).toNat =
      max tx.gasTipCap.toNat ((2 ^ 256 - baseFee.toNat + tx.gasFeeCap.toNat) % 2 ^ 256) := by
  rw [Transaction.effectiveGasTipValue, Transaction.effectiveGasTip, toNat_uint256Min,
    BitVec.toNat_sub]

/-- without a base fee the heap orders by gas price alone: the second comparison repeats the
first, so the tip never breaks a tie -/
theorem priceCmp_none (a b : Transaction) :
    priceCmp none a b = U256.cmp a.gasPrice b.gasPrice := by
  unfold priceCmp
  dsimp only
  split <;> rfl

/-- the tip cut `Pending(true)` makes in the flattened list of a non-local account: everything
before the first transaction whose effective tip is below the pool's gas price -/
def pendingTipCut (gasPrice : U256) (baseFee : Option U256) (txs : List Transaction) :
    List Transaction :=
  txs.takeWhile fun tx => !decide (tx.effectiveGasTipIntCmp gasPrice baseFee < 0)

/-- a transaction whose fee cap of 1 is below the base fee of 2 -/
def underwaterTx : Transaction :=
  ⟨.dynamicFee
    { chainID := 1, nonce := 0, gasTipCap := 1, gasFeeCap := 1, gas := 21000, toAddr := none,
      fromAddr := none, value := 0, data := [], accessList := [], sign := [], v := none,
      r := none, s := none }⟩

/-- a transaction whose fee cap of 10 covers the base fee of 2 and a tip of 1 -/
def coveredTx : Transaction :=
  ⟨.dynamicFee
    { chainID := 1, nonce := 0, gasTipCap := 1, gasFeeCap := 10, gas := 21000, toAddr := none,
      fromAddr := none, value := 0, data := [], accessList := [], sign := [], v := none,
      r := none, s := none }⟩

/-- under a base fee of 2, `1 - 2` wraps and `uint256Min` returns the larger value, so the
transaction that cannot pay the base fee ranks above the one that can, its effective tip is
not below a gas price of 1, and `Pending(true)` keeps it -/
theorem underwater_tx_ranks_first :
    underwaterTx.gasFeeCap < 2 ∧ 2 ≤ coveredTx.gasFeeCap ∧
      priceCmp (some 2) underwaterTx coveredTx = 1 ∧
      underwaterTx.effectiveGasTipIntCmp 1 (some 2) = 1 ∧
      pendingTipCut 1 (some 2) [underwaterTx] = [underwaterTx] := by
  refine ⟨by decide, by decide, by decide, by decide, by decide⟩

/-! ## the loop of `Discard` -/

section Discard

variable (rlpHash : HashInput → Hash) (all : TxLookup)

/-- an entry whose transaction is still a remote of the lookup -/
def Live (tx : Transaction) : Bool := (all.getRemote (tx.hash rlpHash)).isSome

/-- what the loop of `Discard` keeps: the live entries of the two heaps and the drop together
are those it started with, the drop is live, and each entry dropped took one slot -/
structure DiscardInv (l₀ : TxPricedList) (slots₀ : Int) (l : TxPricedList) (slots : Int)
    (drop : List Transaction) : Prop where
  perm : (l.urgent.list ++ l.floating.list ++ drop).filter (Live rlpHash all) ~
    (l₀.urgent.list ++ l₀.floating.list).filter (Live rlpHash all)
  live : ∀ tx ∈ drop, Live rlpHash all tx = true
  slots_eq : slots + drop.length = slots₀

theorem discardInv_start (l : TxPricedList) (slots : Int) :
    DiscardInv rlpHash all l slots l slots [] :=
  ⟨by rw [List.append_nil], (fun _ h => by cases h), by simp⟩

theorem filter_live_of_stale {tx : Transaction} (h : all.getRemote (tx.hash rlpHash) = none)
    (rest : List Transaction) :
    (tx :: rest).filter (Live rlpHash all) = rest.filter (Live rlpHash all) := by
  rw [List.filter_cons, Live, h]
  rfl

theorem live_of_not_stale {tx : Transaction} (h : ¬ all.getRemote (tx.hash rlpHash) = none) :
    Live rlpHash all tx = true :=
  Option.isSome_iff_ne_none.mpr h

theorem DiscardInv.pop_urgent_stale {l₀ l : TxPricedList} {slots₀ slots : Int}
    {drop : List Transaction} (hi : DiscardInv rlpHash all l₀ slots₀ l slots drop)
    {tx : Transaction} {urgent : PriceHeap} (hp : l.urgent.pop = some (tx, urgent))
    (hs : all.getRemote (tx.hash rlpHash) = none) :
    DiscardInv rlpHash all l₀ slots₀ { l with urgent, stales := l.stales - 1 } slots drop := by
  obtain ⟨r, hr, heq⟩ := Option.map_eq_some_iff.mp hp
  obtain ⟨rfl, rfl⟩ := Prod.mk.inj heq
  have hperm : r.1 :: r.2 ~ l.urgent.list := BinHeap.pop_perm hr
  refine ⟨?_, hi.live, hi.slots_eq⟩
  refine List.Perm.trans ?_ hi.perm
  rw [← filter_live_of_stale rlpHash all hs]
  exact (((hperm.append_right _).append_right _).filter _)

theorem PriceHeap.pop_perm {h h' : PriceHeap} {tx : Transaction} (hp : h.pop = some (tx, h')) :
    tx :: h'.list ~ h.list ∧ h'.baseFee = h.baseFee := by
  obtain ⟨r, hr, heq⟩ := Option.map_eq_some_iff.mp hp
  obtain ⟨rfl, rfl⟩ := Prod.mk.inj heq
  exact ⟨BinHeap.pop_perm hr, rfl⟩

theorem PriceHeap.pop_isSome {h : PriceHeap} (hh : 0 < h.list.length) : h.pop.isSome := by
  rw [PriceHeap.pop, Option.isSome_map]
  exact BinHeap.pop_isSome _ hh

theorem PriceHeap.pop_length {h h' : PriceHeap} {tx : Transaction} (hp : h.pop = some (tx, h')) :
    h'.list.length + 1 = h.list.length := by
  simpa using (PriceHeap.pop_perm hp).1.length_eq

theorem PriceHeap.push_perm (h : PriceHeap) (tx : Transaction) : (h.push tx).list ~ h.list ++ [tx] :=
  BinHeap.push_perm _ _ _

theorem PriceHeap.foldl_push_perm (drop : List Transaction) :
    ∀ h : PriceHeap, (drop.foldl (fun h tx => h.push tx) h).list ~ h.list ++ drop := by
  induction drop with
  | nil => intro h; rw [List.foldl_nil, List.append_nil]
  | cons tx drop ih =>
    intro h
    rw [List.foldl_cons]
    refine (ih _).trans ?_
    rw [← List.singleton_append, ← List.append_assoc]
    exact (h.push_perm tx).append_right _

theorem DiscardInv.pop_urgent_live {l₀ l : TxPricedList} {slots₀ slots : Int}
    {drop : List Transaction} (hi : DiscardInv rlpHash all l₀ slots₀ l slots drop)
    {tx : Transaction} {urgent : PriceHeap} (hp : l.urgent.pop = some (tx, urgent)) :
    DiscardInv rlpHash all l₀ slots₀ { l with urgent, floating := l.floating.push tx } slots
      drop := by
  refine ⟨List.Perm.trans ?_ hi.perm, hi.live, hi.slots_eq⟩
  apply List.Perm.filter
  -- the entry moves from one heap to the other
  have hu := (PriceHeap.pop_perm hp).1
  have hf := l.floating.push_perm tx
  calc urgent.list ++ (l.floating.push tx).list ++ drop
      ~ urgent.list ++ (l.floating.list ++ [tx]) ++ drop :=
        (hf.append_left _).append_right _
    _ ~ (tx :: urgent.list) ++ l.floating.list ++ drop := by
        rw [List.perm_iff_count]
        intro a
        simp only [List.count_append, List.count_cons, List.count_nil]
        omega
    _ ~ l.urgent.list ++ l.floating.list ++ drop := (hu.append_right _).append_right _

theorem DiscardInv.pop_floating_stale {l₀ l : TxPricedList} {slots₀ slots : Int}
    {drop : List Transaction} (hi : DiscardInv rlpHash all l₀ slots₀ l slots drop)
    {tx : Transaction} {floating : PriceHeap} (hp : l.floating.pop = some (tx, floating))
    (hs : all.getRemote (tx.hash rlpHash) = none) :
    DiscardInv rlpHash all l₀ slots₀ { l with floating, stales := l.stales - 1 } slots drop := by
  refine ⟨List.Perm.trans ?_ hi.perm, hi.live, hi.slots_eq⟩
  have hf := (PriceHeap.pop_perm hp).1
  calc (l.urgent.list ++ floating.list ++ drop).filter (Live rlpHash all)
      = (tx :: (l.urgent.list ++ floating.list ++ drop)).filter (Live rlpHash all) :=
        (filter_live_of_stale rlpHash all hs _).symm
    _ ~ (l.urgent.list ++ (tx :: floating.list) ++ drop).filter (Live rlpHash all) := by
        apply List.Perm.filter
        rw [List.perm_iff_count]
        intro a
        simp only [List.count_append, List.count_cons]
        omega
    _ ~ (l.urgent.list ++ l.floating.list ++ drop).filter (Live rlpHash all) :=
        ((hf.append_left _).append_right _).filter _

theorem DiscardInv.pop_floating_live {l₀ l : TxPricedList} {slots₀ slots : Int}
    {drop : List Transaction} (hi : DiscardInv rlpHash all l₀ slots₀ l slots drop)
    {tx : Transaction} {floating : PriceHeap} (hp : l.floating.pop = some (tx, floating))
    (hs : ¬ all.getRemote (tx.hash rlpHash) = none) :
    DiscardInv rlpHash all l₀ slots₀ { l with floating } (slots - numSlots tx) (drop ++ [tx]) := by
  refine ⟨List.Perm.trans ?_ hi.perm, fun t ht => ?_, ?_⟩
  · apply List.Perm.filter
    have hf := (PriceHeap.pop_perm hp).1
    -- the entry leaves `floating` for the drop
    calc l.urgent.list ++ floating.list ++ (drop ++ [tx])
        ~ l.urgent.list ++ (tx :: floating.list) ++ drop := by
          rw [List.perm_iff_count]
          intro a
          simp only [List.count_append, List.count_cons, List.count_nil]
          omega
      _ ~ l.urgent.list ++ l.floating.list ++ drop := (hf.append_left _).append_right _
  · rcases List.mem_append.mp ht with ht | ht
    · exact hi.live t ht
    · rw [List.mem_singleton.mp ht]
      exact live_of_not_stale rlpHash all hs
  · have hone : numSlots tx = 1 := rfl
    rw [List.length_append, List.length_singleton, ← hi.slots_eq, hone]
    push_cast
    omega

/-- the loop of `Discard` runs without a panic and keeps `DiscardInv`, by induction on the
fuel: each round pops a heap it has just seen to be non-empty -/
theorem discardLoop_spec {l₀ : TxPricedList} {slots₀ : Int} :
    ∀ (fuel : Nat) (l : TxPricedList) (slots : Int) (drop : List Transaction),
      DiscardInv rlpHash all l₀ slots₀ l slots drop →
        ∃ l' slots' drop', TxPricedList.discardLoop rlpHash all fuel l slots drop =
          some (l', slots', drop') ∧ DiscardInv rlpHash all l₀ slots₀ l' slots' drop'
  | 0, l, slots, drop, hi => ⟨l, slots, drop, rfl, hi⟩
  | fuel + 1, l, slots, drop, hi => by
    rw [TxPricedList.discardLoop]
    split
    · split
      · rename_i hbig
        have hlen : 0 < l.urgent.list.length := by
          simp only [floatingRatio, urgentRatio] at hbig
          omega
        obtain ⟨⟨tx, urgent⟩, hp⟩ := Option.isSome_iff_exists.mp (PriceHeap.pop_isSome hlen)
        rw [hp]
        dsimp only
        split
        · exact discardLoop_spec fuel _ _ _ (hi.pop_urgent_stale rlpHash all hp ‹_›)
        · exact discardLoop_spec fuel _ _ _ (hi.pop_urgent_live rlpHash all hp)
      · split
        · exact ⟨l, slots, drop, rfl, hi⟩
        · rename_i hne
          obtain ⟨⟨tx, floating⟩, hp⟩ :=
            Option.isSome_iff_exists.mp (PriceHeap.pop_isSome (Nat.pos_of_ne_zero hne))
          rw [hp]
          dsimp only
          split
          · exact discardLoop_spec fuel _ _ _ (hi.pop_floating_stale rlpHash all hp ‹_›)
          · exact discardLoop_spec fuel _ _ _ (hi.pop_floating_live rlpHash all hp ‹_›)
    · exact ⟨l, slots, drop, rfl, hi⟩

/-- **The fuel of `Discard` is never spent.**  Each round takes one from
`2 * len(urgent) + len(floating)`, so with more fuel than that the loop ends at one of its own
exits, and any more fuel returns the same -/
theorem discardLoop_add_fuel :
    ∀ (fuel : Nat) (l : TxPricedList) (slots : Int) (drop : List Transaction),
      2 * l.urgent.list.length + l.floating.list.length < fuel → ∀ k,
        TxPricedList.discardLoop rlpHash all (fuel + k) l slots drop =
          TxPricedList.discardLoop rlpHash all fuel l slots drop
  | 0, _, _, _, h, _ => absurd h (Nat.not_lt_zero _)
  | fuel + 1, l, slots, drop, hlt, k => by
    rw [Nat.add_right_comm, TxPricedList.discardLoop, TxPricedList.discardLoop]
    split
    · split
      · -- a move from `urgent` to `floating`, or a stale entry skipped: one less either way
        cases hp : l.urgent.pop with
        | none => rfl
        | some r =>
          obtain ⟨tx, urgent⟩ := r
          have hu := PriceHeap.pop_length hp
          have hf : (l.floating.push tx).list.length = l.floating.list.length + 1 := by
            simpa using (l.floating.push_perm tx).length_eq
          dsimp only
          split
          · exact discardLoop_add_fuel fuel _ _ _ (by dsimp only; omega) k
          · exact discardLoop_add_fuel fuel _ _ _ (by dsimp only; omega) k
      · split
        · rfl
        · cases hp : l.floating.pop with
          | none => rfl
          | some r =>
            obtain ⟨tx, floating⟩ := r
            have hf := PriceHeap.pop_length hp
            dsimp only
            split
            · exact discardLoop_add_fuel fuel _ _ _ (by dsimp only; omega) k
            · exact discardLoop_add_fuel fuel _ _ _ (by dsimp only; omega) k
    · rfl
/-- what `Discard(slots, force)` returns: live remote entries only; on success at least `slots`
of them unless forced, with the live entries left in the heaps and the drop those before; on
failure nothing, with the live entries of the heaps those before -/
theorem discard_spec (l : TxPricedList) (slots : Int) (force : Bool) :
    ∃ l' drop ok, l.discard rlpHash all slots force = some (l', drop, ok) ∧
      (∀ tx ∈ drop, Live rlpHash all tx = true) ∧
      (ok = true → slots ≤ drop.length ∨ force = true) ∧
      (ok = true → (l'.urgent.list ++ l'.floating.list ++ drop).filter (Live rlpHash all) ~
        (l.urgent.list ++ l.floating.list).filter (Live rlpHash all)) ∧
      (ok = false → drop = [] ∧ (l'.urgent.list ++ l'.floating.list).filter (Live rlpHash all) ~
        (l.urgent.list ++ l.floating.list).filter (Live rlpHash all)) := by
  obtain ⟨l', slots', drop', hloop, hi⟩ := discardLoop_spec rlpHash all
    (2 * l.urgent.list.length + l.floating.list.length + 1) l slots []
    (discardInv_start rlpHash all l slots)
  rw [TxPricedList.discard, hloop, Option.map_some]
  dsimp only
  split
  · -- a short drop goes back to `urgent`
    rename_i hshort
    refine ⟨_, _, _, rfl, (fun _ h => by cases h), (fun h => by cases h), (fun h => by cases h),
      fun _ => ⟨rfl, ?_⟩⟩
    refine List.Perm.trans ?_ hi.perm
    apply List.Perm.filter
    have hu := PriceHeap.foldl_push_perm drop' l'.urgent
    calc (drop'.foldl (fun h tx => h.push tx) l'.urgent).list ++ l'.floating.list
        ~ l'.urgent.list ++ drop' ++ l'.floating.list := hu.append_right _
      _ ~ l'.urgent.list ++ l'.floating.list ++ drop' := by
        rw [List.append_assoc, List.append_assoc]
        exact (List.perm_append_comm).append_left _
  · rename_i hok
    refine ⟨_, _, _, rfl, hi.live, fun _ => ?_, fun _ => hi.perm, fun h => by cases h⟩
    -- without `force`, success means the missing slots reached zero
    have hslots := hi.slots_eq
    by_cases hf : force = true
    · exact Or.inr hf
    · left
      simp only [hf, Bool.not_false, and_true, not_lt] at hok
      omega

end Discard

/-! ## `Removed` does not panic -/

/-- `n` pops come off a heap of at least `n` entries -/
theorem TxPricedList.popMany_isSome :
    ∀ (n : Nat) (h : PriceHeap), n ≤ h.list.length → (TxPricedList.popMany n h).isSome
  | 0, _, _ => rfl
  | n + 1, h, hn => by
    obtain ⟨⟨tx, h'⟩, hp⟩ := Option.isSome_iff_exists.mp
      (PriceHeap.pop_isSome (show 0 < h.list.length by omega))
    have hlen := PriceHeap.pop_length hp
    simp only [TxPricedList.popMany, hp, Option.isSome_map]
    exact TxPricedList.popMany_isSome n h' (by omega)

/-- the floating fifth is taken from the heap it is counted on -/
theorem TxPricedList.reheap_isSome (all : TxLookup) (order : List Hash) (l : TxPricedList) :
    (TxPricedList.reheap all order l).isSome := by
  rw [TxPricedList.reheap, Option.isSome_map]
  exact TxPricedList.popMany_isSome _ _ (Nat.div_le_of_le_mul (by
    simp only [floatingRatio, urgentRatio]
    omega))

theorem TxPricedList.removed_isSome (all : TxLookup) (order : List Hash) (l : TxPricedList)
    (count : Int) : (TxPricedList.removed all order l count).isSome := by
  unfold TxPricedList.removed
  dsimp only
  split
  · rfl
  · exact TxPricedList.reheap_isSome all order _

/-! ## a transaction tracked twice -/

/-- a keccak stand-in that hashes a transaction to its nonce -/
def nonceHash : HashInput → Hash
  | .legacy nonce .. => BitVec.ofNat 256 nonce.toNat
  | .accessList _ nonce .. => BitVec.ofNat 256 nonce.toNat
  | .dynamicFee _ nonce .. => BitVec.ofNat 256 nonce.toNat

/-- a remote transaction of nonce `n` whose caps are `n + 1` -/
def remoteTx (n : UInt64) : Transaction :=
  ⟨.dynamicFee
    { chainID := 1, nonce := n, gasTipCap := BitVec.ofNat 256 (n.toNat + 1),
      gasFeeCap := BitVec.ofNat 256 (n.toNat + 1), gas := 21000, toAddr := none,
      fromAddr := none, value := 0, data := [], accessList := [], sign := [], v := none,
      r := none, s := none }⟩

/-- four remotes added to the lookup, as `enqueueTx` adds them -/
def fourRemotes : TxLookup :=
  [0, 1, 2, 3].foldl (fun all n => all.add nonceHash (remoteTx n) false) TxLookup.empty

/-- and put in the priced list -/
def fourPriced : TxPricedList :=
  [0, 1, 2, 3].foldl (fun l n => l.put (remoteTx n) false) TxPricedList.empty

/-- the lookup after `removeTx` took out the cheapest one and `add` brought it back -/
def readdedRemotes : TxLookup :=
  (fourRemotes.remove ((remoteTx 0).hash nonceHash)).add nonceHash (remoteTx 0) false

/-- the priced list after the same: `Removed(1)` leaves one stale entry of four, below the
quarter that would reheap, and `Put` pushes the transaction a second time -/
def readdedPriced : Option TxPricedList :=
  (fourPriced.removed (fourRemotes.remove ((remoteTx 0).hash nonceHash))
      ([1, 2, 3].map fun n => (remoteTx n).hash nonceHash) 1).map
    fun l => l.put (remoteTx 0) false

/-- the stale entry of the cheapest transaction is live again, so `Discard(2, false)` drops
both of its entries and returns it twice -/
theorem discard_returns_duplicate :
    (readdedRemotes.getRemote ((remoteTx 0).hash nonceHash)).isSome ∧
      ((readdedPriced.bind fun l => l.discard nonceHash readdedRemotes 2 false).map
        fun r => r.2) = some ([remoteTx 0, remoteTx 0], true) := by
  decide

end N42
