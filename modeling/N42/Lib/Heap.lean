import Mathlib

/-!
# (key: heap) Go's container/heap over a list

The operations of `container/heap` on a slice, with `Less(i, j)` given as a boolean relation on
the items: `up`, `down` with its bound `n` and its answer whether the item moved, `push`,
`pop` (the user's `Pop` removes the last item), `remove` and `init`.  An index past the end of
the slice, where Go panics, is `none` in `pop` and `remove`; `up` and `down` only ever use
indices below the length.  The loops run on fuel that their own bound provides: `up` moves
towards the root at most `j` times, `down` at most `n` times.

* `swap_perm`, `push_perm`, `pop_perm`, `remove_perm`, `init_perm`   the operations only permute;
* `Ordered`               no item is before its parent;
* `Ordered.push`, `Ordered.pop`, `Ordered.remove`, `ordered_init`   they keep or establish the
                          order, for a `Less` that is a strict weak order;
* `Ordered.root_min`      no item of an ordered heap is before its root, so `pop` returns a
                          least item (`pop_min`).
-/

namespace BinHeap

open scoped List

variable {α : Type}

/-- the parent of position `k`; Go's `(j - 1) / 2` is 0 at `j = 0` too -/
def parent (k : Nat) : Nat := (k - 1) / 2

/-- `h.Swap(i, j)` -/
def swap (h : List α) (i j : Nat) : List α :=
  match h[i]?, h[j]? with
  | some x, some y => (h.set i y).set j x
  | _, _ => h

/-- `h.Less(i, j)` at two positions of the slice -/
def lessAt (less : α → α → Bool) (h : List α) (i j : Nat) : Bool :=
  match h[i]?, h[j]? with
  | some x, some y => less x y
  | _, _ => false

/-- the loop of `up(h, j)`, on fuel -/
def upFuel (less : α → α → Bool) : Nat → List α → Nat → List α
  | 0, h, _ => h
  | fuel + 1, h, j =>
    if parent j = j ∨ lessAt less h j (parent j) = false then h
    else upFuel less fuel (swap h (parent j) j) (parent j)

/-- `up(h, j)` -/
def up (less : α → α → Bool) (h : List α) (j : Nat) : List α := upFuel less j h j

/-- the smaller child of `i` below `n`, as `down` picks it: the right one only if it is before
the left one -/
def minChild (less : α → α → Bool) (h : List α) (i n : Nat) : Nat :=
  if 2 * i + 2 < n ∧ lessAt less h (2 * i + 2) (2 * i + 1) = true then 2 * i + 2 else 2 * i + 1

/-- the loop of `down(h, i0, n)`, on fuel: the slice and the position the item ends at.  Go's
guard `j1 < 0` against an overflow of `int` cannot fire on naturals. -/
def downFuel (less : α → α → Bool) : Nat → List α → Nat → Nat → List α × Nat
  | 0, h, i, _ => (h, i)
  | fuel + 1, h, i, n =>
    if n ≤ 2 * i + 1 then (h, i)
    else if lessAt less h (minChild less h i n) i = false then (h, i)
    else downFuel less fuel (swap h i (minChild less h i n)) (minChild less h i n) n

/-- `down(h, i0, n)`: the slice and whether the item moved -/
def down (less : α → α → Bool) (h : List α) (i0 n : Nat) : List α × Bool :=
  let r := downFuel less n h i0 n
  (r.1, decide (i0 < r.2))

/-- `heap.Push(h, x)` -/
def push (less : α → α → Bool) (h : List α) (x : α) : List α := up less (h ++ [x]) h.length

/-- the user's `Pop`: the last item and the slice without it -/
def popLast (h : List α) : Option (α × List α) := h.getLast?.map fun x => (x, h.dropLast)

/-- `heap.Pop(h)` -/
def pop (less : α → α → Bool) (h : List α) : Option (α × List α) :=
  match h.length with
  | 0 => none
  | n + 1 => popLast (down less (swap h 0 n) 0 n).1

/-- `heap.Remove(h, i)` -/
def remove (less : α → α → Bool) (h : List α) (i : Nat) : Option (α × List α) :=
  match h.length with
  | 0 => none
  | n + 1 =>
    if n < i then none
    else if n = i then popLast h
    else
      let d := down less (swap h i n) i n
      popLast (if d.2 then d.1 else up less d.1 i)

/-- the loop of `heap.Init`: `down(h, i, n)` for `i` from the given bound down to 0 -/
def heapify (less : α → α → Bool) (n : Nat) : Nat → List α → List α
  | 0, h => h
  | i + 1, h => heapify less n i (down less h i n).1

/-- `heap.Init(h)` -/
def init (less : α → α → Bool) (h : List α) : List α :=
  heapify less h.length (h.length / 2) h

/-! ## positions -/

theorem parent_lt {k : Nat} (hk : 0 < k) : parent k < k := by
  unfold parent
  omega

theorem parent_zero : parent 0 = 0 := rfl

theorem parent_eq_iff {c i : Nat} (hc : 0 < c) :
    parent c = i ↔ c = 2 * i + 1 ∨ c = 2 * i + 2 := by
  unfold parent
  omega

theorem parent_two_mul_add_one (i : Nat) : parent (2 * i + 1) = i := by
  unfold parent
  omega

theorem parent_two_mul_add_two (i : Nat) : parent (2 * i + 2) = i := by
  unfold parent
  omega

theorem minChild_parent (less : α → α → Bool) (h : List α) (i n : Nat) :
    parent (minChild less h i n) = i := by
  unfold minChild
  split
  · exact parent_two_mul_add_two i
  · exact parent_two_mul_add_one i

theorem minChild_lt (less : α → α → Bool) (h : List α) {i n : Nat} (hn : 2 * i + 1 < n) :
    minChild less h i n < n := by
  unfold minChild
  split <;> omega

theorem lt_minChild (less : α → α → Bool) (h : List α) (i n : Nat) :
    i < minChild less h i n := by
  unfold minChild
  split <;> omega

/-! ## swap -/

@[simp] theorem length_swap (h : List α) (i j : Nat) : (swap h i j).length = h.length := by
  unfold swap
  split <;> simp

/-- a swap reads each position through the transposition of the two -/
theorem getElem?_swap {h : List α} {i j : Nat} (hi : i < h.length) (hj : j < h.length) (k : Nat) :
    (swap h i j)[k]? = h[Equiv.swap i j k]? := by
  rw [swap, List.getElem?_eq_getElem hi, List.getElem?_eq_getElem hj]
  dsimp only
  rw [Equiv.swap_apply_def]
  by_cases hkj : k = j
  · subst hkj
    simp [hj]
    split <;> simp_all
  · by_cases hki : k = i
    · subst hki
      simp [hi, Ne.symm hkj]
    · simp [Ne.symm hkj, Ne.symm hki, hki, hkj]

theorem swap_perm (h : List α) (i j : Nat) : swap h i j ~ h := by
  unfold swap
  split
  · rename_i x y hx hy
    obtain ⟨hi, rfl⟩ := List.getElem?_eq_some_iff.mp hx
    obtain ⟨hj, rfl⟩ := List.getElem?_eq_some_iff.mp hy
    exact List.set_set_perm hi hj
  · exact List.Perm.refl h

theorem swap_getElem?_of_le {h : List α} {i j : Nat} (hi : i < h.length) (hj : j < h.length)
    {k : Nat} (hki : k ≠ i) (hkj : k ≠ j) : (swap h i j)[k]? = h[k]? := by
  rw [getElem?_swap hi hj, Equiv.swap_apply_of_ne_of_ne hki hkj]

theorem lessAt_eq {less : α → α → Bool} {h : List α} {i j : Nat} {x y : α}
    (hx : h[i]? = some x) (hy : h[j]? = some y) : lessAt less h i j = less x y := by
  rw [lessAt, hx, hy]

/-! ## the operations only permute -/

theorem upFuel_perm (less : α → α → Bool) :
    ∀ (fuel : Nat) (h : List α) (j : Nat), upFuel less fuel h j ~ h
  | 0, h, _ => List.Perm.refl h
  | fuel + 1, h, j => by
    rw [upFuel]
    split
    · exact List.Perm.refl h
    · exact (upFuel_perm less fuel _ _).trans (swap_perm h _ _)

theorem downFuel_perm (less : α → α → Bool) :
    ∀ (fuel : Nat) (h : List α) (i n : Nat), (downFuel less fuel h i n).1 ~ h
  | 0, h, _, _ => List.Perm.refl h
  | fuel + 1, h, i, n => by
    rw [downFuel]
    split
    · exact List.Perm.refl h
    · split
      · exact List.Perm.refl h
      · exact (downFuel_perm less fuel _ _ _).trans (swap_perm h _ _)

theorem up_perm (less : α → α → Bool) (h : List α) (j : Nat) : up less h j ~ h :=
  upFuel_perm less j h j

theorem down_perm (less : α → α → Bool) (h : List α) (i n : Nat) : (down less h i n).1 ~ h :=
  downFuel_perm less n h i n

@[simp] theorem length_up (less : α → α → Bool) (h : List α) (j : Nat) :
    (up less h j).length = h.length :=
  (up_perm less h j).length_eq

@[simp] theorem length_down (less : α → α → Bool) (h : List α) (i n : Nat) :
    (down less h i n).1.length = h.length :=
  (down_perm less h i n).length_eq

theorem push_perm (less : α → α → Bool) (h : List α) (x : α) : push less h x ~ h ++ [x] :=
  up_perm less _ _

theorem popLast_perm {h h' : List α} {x : α} (hp : popLast h = some (x, h')) : x :: h' ~ h := by
  unfold popLast at hp
  obtain ⟨y, hy, hxy⟩ := Option.map_eq_some_iff.mp hp
  obtain ⟨rfl, rfl⟩ := Prod.mk.inj hxy
  have hh : h = h.dropLast ++ [y] := (List.dropLast_append_getLast? y hy).symm
  calc y :: h.dropLast ~ h.dropLast ++ [y] := List.perm_append_singleton y h.dropLast |>.symm
    _ = h := hh.symm

theorem pop_perm {less : α → α → Bool} {h h' : List α} {x : α}
    (hp : pop less h = some (x, h')) :
    x :: h' ~ h := by
  unfold pop at hp
  split at hp
  · cases hp
  · exact (popLast_perm hp).trans ((down_perm less _ 0 _).trans (swap_perm h 0 _))

theorem remove_perm {less : α → α → Bool} {h h' : List α} {i : Nat} {x : α}
    (hp : remove less h i = some (x, h')) : x :: h' ~ h := by
  unfold remove at hp
  split at hp
  · cases hp
  · split at hp
    · cases hp
    · split at hp
      · exact popLast_perm hp
      · refine (popLast_perm hp).trans ?_
        split
        · exact (down_perm less _ i _).trans (swap_perm h i _)
        · exact (up_perm less _ i).trans ((down_perm less _ i _).trans (swap_perm h i _))

theorem heapify_perm (less : α → α → Bool) (n : Nat) :
    ∀ (i : Nat) (h : List α), heapify less n i h ~ h
  | 0, h => List.Perm.refl h
  | i + 1, h => (heapify_perm less n i _).trans (down_perm less h i n)

theorem init_perm (less : α → α → Bool) (h : List α) : init less h ~ h :=
  heapify_perm less _ _ h

theorem popLast_isSome {h : List α} (hh : 0 < h.length) : (popLast h).isSome := by
  unfold popLast
  cases hl : h.getLast? with
  | none =>
    rw [List.getLast?_eq_none_iff] at hl
    simp [hl] at hh
  | some x => rfl

theorem pop_isSome (less : α → α → Bool) {h : List α} (hh : 0 < h.length) :
    (pop less h).isSome := by
  unfold pop
  split
  · omega
  · rename_i n hlen
    exact popLast_isSome (by simp; omega)

/-- `heap.Remove` at a position of the slice does not panic -/
theorem remove_isSome (less : α → α → Bool) {h : List α} {i : Nat} (hi : i < h.length) :
    (remove less h i).isSome := by
  unfold remove
  split
  · omega
  · rename_i n hlen
    rw [if_neg (by omega)]
    split
    · exact popLast_isSome (by omega)
    · exact popLast_isSome (by split <;> simp [hlen])

/-! ## what the sifts leave alone -/

theorem upFuel_getElem?_of_lt (less : α → α → Bool) :
    ∀ (fuel : Nat) (h : List α) (j k : Nat), j < h.length → j < k →
      (upFuel less fuel h j)[k]? = h[k]?
  | 0, _, _, _, _, _ => rfl
  | fuel + 1, h, j, k, hj, hjk => by
    rw [upFuel]
    split
    · rfl
    · rename_i hstop
      have hpj : parent j < j :=
        parent_lt (Nat.pos_of_ne_zero (by rintro rfl; exact hstop (.inl parent_zero)))
      rw [upFuel_getElem?_of_lt less fuel _ _ k (by simp; omega) (by omega),
        swap_getElem?_of_le (by omega) hj (by omega) (by omega)]

theorem downFuel_getElem?_of_le (less : α → α → Bool) :
    ∀ (fuel : Nat) (h : List α) (i n k : Nat), n ≤ h.length → n ≤ k →
      (downFuel less fuel h i n).1[k]? = h[k]?
  | 0, _, _, _, _, _, _ => rfl
  | fuel + 1, h, i, n, k, hn, hnk => by
    rw [downFuel]
    split
    · rfl
    · split
      · rfl
      · rename_i hchild _
        have hj := minChild_lt less h (Nat.lt_of_not_le hchild)
        have hi := lt_minChild less h i n
        rw [downFuel_getElem?_of_le less fuel _ _ n k (by simp; omega) hnk,
          swap_getElem?_of_le (by omega) (by omega) (by omega) (by omega)]

/-! ## the order -/

section order

variable {less : α → α → Bool}

/-- what the order proofs need of `Less`: it is asymmetric and its complement is transitive -/
structure StrictWeak (less : α → α → Bool) : Prop where
  asymm : ∀ a b, less a b = true → less b a = false
  not_trans : ∀ a b c, less a b = false → less b c = false → less a c = false

theorem StrictWeak.irrefl (hs : StrictWeak less) (a : α) : less a a = false := by
  cases h : less a a with
  | false => rfl
  | true => simpa [h] using hs.asymm a a h

theorem StrictWeak.trans (hs : StrictWeak less) {a b c : α} (hab : less a b = true)
    (hbc : less b c = true) : less a c = true := by
  cases hac : less a c with
  | false => simpa [hab] using hs.not_trans a c b hac (hs.asymm b c hbc)
  | true => rfl

/-- the item at `c` is not before the item at `g` -/
def NotBefore (less : α → α → Bool) (h : List α) (c g : Nat) : Prop :=
  ∀ x y, h[g]? = some x → h[c]? = some y → less y x = false

/-- no item below `n` is before its parent -/
def OrderedBelow (less : α → α → Bool) (h : List α) (n : Nat) : Prop :=
  ∀ k, 0 < k → k < n → NotBefore less h k (parent k)

/-- the heap order of the whole slice -/
def Ordered (less : α → α → Bool) (h : List α) : Prop := OrderedBelow less h h.length

theorem notBefore_swap {h : List α} {i j : Nat} (hi : i < h.length) (hj : j < h.length)
    (c g : Nat) :
    NotBefore less (swap h i j) c g ↔ NotBefore less h (Equiv.swap i j c) (Equiv.swap i j g) := by
  unfold NotBefore
  rw [getElem?_swap hi hj, getElem?_swap hi hj]

theorem notBefore_self (hs : StrictWeak less) (h : List α) (c : Nat) : NotBefore less h c c := by
  intro x y hx hy
  rw [hx] at hy
  cases hy
  exact hs.irrefl x

theorem NotBefore.trans (hs : StrictWeak less) {h : List α} {c m g : Nat}
    (hcm : NotBefore less h c m) (hmg : NotBefore less h m g) (hm : m < h.length) :
    NotBefore less h c g := by
  intro x y hx hy
  exact hs.not_trans y h[m] x (hcm _ _ (List.getElem?_eq_getElem hm) hy)
    (hmg _ _ hx (List.getElem?_eq_getElem hm))

/-- an item not before `g` is not before an item that is before `g` -/
theorem NotBefore.of_lessAt (hs : StrictWeak less) {h : List α} {c m g : Nat}
    (hcg : NotBefore less h c g) (hl : lessAt less h m g = true) : NotBefore less h c m := by
  intro x y hx hy
  cases hg : h[g]? with
  | none =>
    rw [lessAt, hx, hg] at hl
    cases hl
  | some z =>
    rw [lessAt_eq hx hg] at hl
    cases hyx : less y x with
    | false => rfl
    | true => simpa [hcg z y hg hy] using hs.trans hyx hl

/-- a `Less` that answers true says the other way round that it is not before -/
theorem notBefore_of_lessAt (hs : StrictWeak less) {h : List α} {c g : Nat}
    (hl : lessAt less h g c = true) : NotBefore less h c g := by
  intro x y hx hy
  rw [lessAt_eq hx hy] at hl
  exact hs.asymm x y hl

theorem notBefore_of_lessAt_false {h : List α} {c g : Nat} (hl : lessAt less h c g = false) :
    NotBefore less h c g := by
  intro x y hx hy
  rwa [lessAt_eq hy hx] at hl

theorem lessAt_false_of_notBefore {h : List α} {c g : Nat} (hc : c < h.length)
    (hg : g < h.length) (hn : NotBefore less h c g) : lessAt less h c g = false := by
  rw [lessAt_eq (List.getElem?_eq_getElem hc) (List.getElem?_eq_getElem hg)]
  exact hn _ _ (List.getElem?_eq_getElem hg) (List.getElem?_eq_getElem hc)

/-- the root of an ordered slice is before or level with every item, by induction along the
parents -/
theorem OrderedBelow.root_min (hs : StrictWeak less) {h : List α} {n : Nat}
    (ho : OrderedBelow less h n) (hn : n ≤ h.length) : ∀ k, k < n → NotBefore less h k 0 := by
  intro k
  induction k using Nat.strong_induction_on with
  | _ k ih =>
    intro hk
    rcases Nat.eq_zero_or_pos k with rfl | hpos
    · exact notBefore_self hs h 0
    · have hp := parent_lt hpos
      exact (ho k hpos hk).trans hs (ih _ hp (by omega)) (by omega)

/-- the smaller child is before or level with both children -/
theorem notBefore_minChild (hs : StrictWeak less) {h : List α} {i n c : Nat}
    (hc : 0 < c) (hcn : c < n) (hpc : parent c = i) : NotBefore less h c (minChild less h i n) := by
  rcases (parent_eq_iff hc).mp hpc with rfl | rfl
  · unfold minChild
    split
    · rename_i hr
      exact notBefore_of_lessAt hs hr.2
    · exact notBefore_self hs h _
  · unfold minChild
    split
    · exact notBefore_self hs h _
    · rename_i hr
      have hl : lessAt less h (2 * i + 2) (2 * i + 1) = false := by
        cases hl : lessAt less h (2 * i + 2) (2 * i + 1)
        · rfl
        · exact absurd ⟨hcn, hl⟩ hr
      exact notBefore_of_lessAt_false hl

/-! ### `up` -/

/-- what `up(h, j)` keeps below `n`: every item off `j` is in order with its parent, and the
children of `j` are not before the parent of `j` -/
structure UpInv (less : α → α → Bool) (h : List α) (n j : Nat) : Prop where
  lt : j < n
  le : n ≤ h.length
  except : ∀ k, 0 < k → k < n → k ≠ j → NotBefore less h k (parent k)
  bridge : 0 < j → ∀ c, 0 < c → c < n → parent c = j → NotBefore less h c (parent j)

theorem UpInv.finish {h : List α} {n j : Nat} (hu : UpInv less h n j)
    (hstop : parent j = j ∨ lessAt less h j (parent j) = false) : OrderedBelow less h n := by
  intro k hk hkn
  by_cases hkj : k = j
  · subst hkj
    rcases hstop with hp | hl
    · exact absurd hp (parent_lt hk).ne
    · exact notBefore_of_lessAt_false hl
  · exact hu.except k hk hkn hkj

theorem UpInv.step (hs : StrictWeak less) {h : List α} {n j : Nat} (hu : UpInv less h n j)
    (hj : 0 < j) (hl : lessAt less h j (parent j) = true) :
    UpInv less (swap h (parent j) j) n (parent j) := by
  have hpj := parent_lt hj
  have hjl : j < h.length := by have := hu.lt; have := hu.le; omega
  have hil : parent j < h.length := by omega
  -- the item at `j` was before its parent, so the parent is not before it
  have hij : NotBefore less h (parent j) j := notBefore_of_lessAt hs hl
  refine ⟨by have := hu.lt; omega, by simpa using hu.le, ?_, ?_⟩
  · intro k hk hkn hki
    rw [notBefore_swap hil hjl]
    by_cases hkj : k = j
    · subst hkj
      rw [Equiv.swap_apply_right, Equiv.swap_apply_left]
      exact hij
    by_cases hpkj : parent k = j
    · rw [Equiv.swap_apply_of_ne_of_ne hki hkj, hpkj, Equiv.swap_apply_right]
      exact hu.bridge hj k hk hkn hpkj
    by_cases hpki : parent k = parent j
    · rw [Equiv.swap_apply_of_ne_of_ne hki hkj, hpki, Equiv.swap_apply_left]
      -- a sibling of `j` is not before the old parent, and the item at `j` was before it
      exact (hpki ▸ hu.except k hk hkn hkj).of_lessAt hs hl
    · rw [Equiv.swap_apply_of_ne_of_ne hki hkj, Equiv.swap_apply_of_ne_of_ne hpki hpkj]
      exact hu.except k hk hkn hkj
  · intro hi c hc hcn hpc
    have hgp := parent_lt hi
    rw [notBefore_swap hil hjl,
      Equiv.swap_apply_of_ne_of_ne (by omega) (show parent (parent j) ≠ j by omega)]
    have hci : parent j < c := hpc ▸ parent_lt hc
    by_cases hcj : c = j
    · subst hcj
      rw [Equiv.swap_apply_right]
      exact hu.except _ hi (by have := hu.lt; omega) (by omega)
    · rw [Equiv.swap_apply_of_ne_of_ne (by omega) hcj]
      exact (hpc ▸ hu.except c hc hcn hcj).trans hs
        (hu.except _ hi (by have := hu.lt; omega) (by omega)) hil

/-- `up` restores the order, by induction on the fuel, which stays at least the position -/
theorem upFuel_ordered (hs : StrictWeak less) {n : Nat} :
    ∀ (fuel : Nat) (h : List α) (j : Nat), j ≤ fuel → UpInv less h n j →
      OrderedBelow less (upFuel less fuel h j) n
  | 0, h, j, hj, hu => by
    have hj0 : j = 0 := by omega
    subst hj0
    exact hu.finish (.inl parent_zero)
  | fuel + 1, h, j, hj, hu => by
    rw [upFuel]
    split
    · rename_i hstop
      exact hu.finish hstop
    · rename_i hstop
      have hj0 : 0 < j := Nat.pos_of_ne_zero fun h0 => hstop (.inl (h0 ▸ parent_zero))
      have hl : lessAt less h j (parent j) = true := by
        cases hl : lessAt less h j (parent j)
        · exact absurd (.inr hl) hstop
        · rfl
      exact upFuel_ordered hs fuel _ _ (by have := parent_lt hj0; omega) (hu.step hs hj0 hl)

theorem UpInv.up_ordered (hs : StrictWeak less) {h : List α} {n j : Nat} (hu : UpInv less h n j) :
    OrderedBelow less (up less h j) n :=
  upFuel_ordered hs j h j le_rfl hu

/-- on a slice already in order below `n`, `up` does nothing -/
theorem up_of_orderedBelow {h : List α} {n j : Nat} (ho : OrderedBelow less h n) (hj : j < n)
    (hn : n ≤ h.length) : up less h j = h := by
  unfold up
  cases j with
  | zero => rfl
  | succ j =>
    have hp := parent_lt (show 0 < j + 1 by omega)
    rw [upFuel, if_pos (.inr (lessAt_false_of_notBefore (by omega) (by omega)
      (ho _ (by omega) hj)))]

/-! ### `down` -/

/-- what `down(h, i0, n)` keeps: every item below `n` whose parent is at or after `lo` and off
`i` is in order with its parent; below the start, the children of `i` are not before the parent
of `i` -/
structure DownInv (less : α → α → Bool) (h : List α) (lo n i : Nat) : Prop where
  le : n ≤ h.length
  lo_le : lo ≤ i
  except : ∀ k, 0 < k → k < n → lo ≤ parent k → parent k ≠ i →
    NotBefore less h k (parent k)
  bridge : lo < i → lo ≤ parent i ∧
    ∀ c, 0 < c → c < n → parent c = i → NotBefore less h c (parent i)

/-- every item below `n` whose parent is at or after `lo` is in order with its parent -/
def DownOk (less : α → α → Bool) (h : List α) (lo n : Nat) : Prop :=
  ∀ k, 0 < k → k < n → lo ≤ parent k → NotBefore less h k (parent k)

theorem DownInv.finish_leaf {h : List α} {lo n i : Nat} (hd : DownInv less h lo n i)
    (hn : n ≤ 2 * i + 1) : DownOk less h lo n := by
  intro k hk hkn hlo
  by_cases hpk : parent k = i
  · have := (parent_eq_iff hk).mp hpk
    omega
  · exact hd.except k hk hkn hlo hpk

theorem DownInv.finish (hs : StrictWeak less) {h : List α} {lo n i : Nat}
    (hd : DownInv less h lo n i) (hn : 2 * i + 1 < n)
    (hl : lessAt less h (minChild less h i n) i = false) : DownOk less h lo n := by
  intro k hk hkn hlo
  by_cases hpk : parent k = i
  · rw [hpk]
    have hj := minChild_lt less h hn
    exact (notBefore_minChild hs hk hkn hpk).trans hs (notBefore_of_lessAt_false hl)
      (by have := hd.le; omega)
  · exact hd.except k hk hkn hlo hpk

theorem DownInv.step (hs : StrictWeak less) {h : List α} {lo n i : Nat}
    (hd : DownInv less h lo n i) (hn : 2 * i + 1 < n)
    (hl : lessAt less h (minChild less h i n) i = true) :
    DownInv less (swap h i (minChild less h i n)) lo n (minChild less h i n) := by
  have hjn := minChild_lt less h hn
  have hij := lt_minChild less h i n
  have hpj := minChild_parent less h i n
  have hmin : ∀ c, 0 < c → c < n → parent c = i →
      NotBefore less h c (minChild less h i n) :=
    fun c hc hcn hpc => notBefore_minChild hs hc hcn hpc
  generalize minChild less h i n = j at hjn hij hpj hl hmin
  have hjl : j < h.length := by have := hd.le; omega
  have hil : i < h.length := by omega
  refine ⟨by simpa using hd.le, by have := hd.lo_le; omega, ?_, ?_⟩
  · intro k hk hkn hlo hpkj
    rw [notBefore_swap hil hjl]
    by_cases hkj : k = j
    · subst hkj
      rw [Equiv.swap_apply_right, hpj, Equiv.swap_apply_left]
      exact notBefore_of_lessAt hs hl
    by_cases hki : k = i
    · subst hki
      -- `i` is below the start, since its parent is at or after `lo`
      have hpi := parent_lt hk
      have hlo' : lo < k := by omega
      rw [Equiv.swap_apply_left, Equiv.swap_apply_of_ne_of_ne (by omega) (by omega)]
      exact (hd.bridge hlo').2 j (by omega) hjn hpj
    by_cases hpki : parent k = i
    · rw [Equiv.swap_apply_of_ne_of_ne hki hkj, hpki, Equiv.swap_apply_left]
      exact hmin k hk hkn hpki
    · rw [Equiv.swap_apply_of_ne_of_ne hki hkj, Equiv.swap_apply_of_ne_of_ne hpki hpkj]
      exact hd.except k hk hkn hlo hpki
  · intro _
    refine ⟨hpj ▸ hd.lo_le, fun c hc hcn hpc => ?_⟩
    have hjc : j < c := hpc ▸ parent_lt hc
    rw [notBefore_swap hil hjl, hpj, Equiv.swap_apply_left,
      Equiv.swap_apply_of_ne_of_ne (by omega) (by omega)]
    exact hpc ▸ hd.except c hc hcn (by rw [hpc]; have := hd.lo_le; omega) (by omega)

/-- `down` restores the order of the items whose parent is at or after `lo`, by induction on the
fuel, which stays at least the distance to the bound -/
theorem downFuel_ordered (hs : StrictWeak less) {lo n : Nat} :
    ∀ (fuel : Nat) (h : List α) (i : Nat), n ≤ fuel + i → DownInv less h lo n i →
      DownOk less (downFuel less fuel h i n).1 lo n
  | 0, h, i, hf, hd => hd.finish_leaf (by omega)
  | fuel + 1, h, i, hf, hd => by
    rw [downFuel]
    split
    · rename_i hn
      exact hd.finish_leaf hn
    · rename_i hn
      have hn' : 2 * i + 1 < n := Nat.lt_of_not_le hn
      split
      · rename_i hl
        exact hd.finish hs hn' hl
      · rename_i hl
        have hl' : lessAt less h (minChild less h i n) i = true := by simpa using hl
        have hij := lt_minChild less h i n
        exact downFuel_ordered hs fuel _ _ (by omega) (hd.step hs hn' hl')

theorem DownInv.down_ordered (hs : StrictWeak less) {h : List α} {lo n i : Nat}
    (hd : DownInv less h lo n i) : DownOk less (down less h i n).1 lo n :=
  downFuel_ordered hs n h i (by omega) hd

/-- when no child of `i` is before it, `down` moves nothing -/
theorem down_of_children {h : List α} {i n : Nat} (hin : i < n) (hn : n ≤ h.length)
    (hc : ∀ c, 0 < c → c < n → parent c = i → NotBefore less h c i) :
    down less h i n = (h, false) := by
  obtain ⟨m, rfl⟩ : ∃ m, n = m + 1 := ⟨n - 1, by omega⟩
  unfold down
  rw [downFuel]
  split
  · simp
  · rename_i hleaf
    have hj := minChild_lt less h (Nat.lt_of_not_le hleaf)
    have hij := lt_minChild less h i (m + 1)
    rw [if_pos (lessAt_false_of_notBefore (by omega) (by omega)
      (hc _ (by omega) hj (minChild_parent less h i _)))]
    simp

theorem lessAt_swap {h : List α} {i j : Nat} (hi : i < h.length) (hj : j < h.length) (c g : Nat) :
    lessAt less (swap h i j) c g = lessAt less h (Equiv.swap i j c) (Equiv.swap i j g) := by
  unfold lessAt
  rw [getElem?_swap hi hj, getElem?_swap hi hj]

theorem OrderedBelow.mono {h : List α} {n m : Nat} (ho : OrderedBelow less h n) (hmn : m ≤ n) :
    OrderedBelow less h m :=
  fun k hk hkm => ho k hk (by omega)

/-- the user's `Pop` after the sifts: the rest is in order, and the item taken is the last -/
theorem popLast_ordered {h h' : List α} {x : α} {n : Nat} (ho : OrderedBelow less h n)
    (hlen : h.length = n + 1) (hp : popLast h = some (x, h')) :
    Ordered less h' ∧ h[n]? = some x := by
  unfold popLast at hp
  obtain ⟨y, hy, hxy⟩ := Option.map_eq_some_iff.mp hp
  obtain ⟨rfl, rfl⟩ := Prod.mk.inj hxy
  refine ⟨?_, ?_⟩
  · intro k hk hkn a b ha hb
    have hkn' : k < n := by simpa [hlen] using hkn
    have hpk := parent_lt hk
    rw [List.getElem?_dropLast, if_pos (by omega)] at ha hb
    exact ho k hk hkn' a b ha hb
  · rw [List.getLast?_eq_getElem?, hlen] at hy
    simpa using hy

/-- `heap.Push` keeps the order: the new item is sifted up from the end -/
theorem Ordered.push (hs : StrictWeak less) {h : List α} (ho : Ordered less h) (x : α) :
    Ordered less (BinHeap.push less h x) := by
  have hu : UpInv less (h ++ [x]) (h.length + 1) h.length := by
    refine ⟨by omega, by simp, ?_, ?_⟩
    · intro k hk hkn hkj a b ha hb
      have hkl : k < h.length := by omega
      have hpk := parent_lt hk
      rw [List.getElem?_append_left (by omega)] at ha
      rw [List.getElem?_append_left hkl] at hb
      exact ho k hk hkl a b ha hb
    · intro _ c hc hcn hpc
      have := (parent_eq_iff hc).mp hpc
      omega
  have hup := hu.up_ordered hs
  unfold Ordered BinHeap.push
  simpa using hup

/-- `heap.Pop` keeps the order and returns the root -/
theorem Ordered.pop (hs : StrictWeak less) {h h' : List α} {x : α} (ho : Ordered less h)
    (hp : BinHeap.pop less h = some (x, h')) : Ordered less h' ∧ h[0]? = some x := by
  unfold BinHeap.pop at hp
  split at hp
  · cases hp
  · rename_i n hlen
    have h0 : 0 < h.length := by omega
    have hnl : n < h.length := by omega
    -- the last item is put at the root; every pair off the root is as it was
    have hd : DownInv less (swap h 0 n) 0 n 0 := by
      refine ⟨by simp; omega, le_rfl, ?_, fun hlt => absurd hlt (lt_irrefl 0)⟩
      intro k hk hkn _ hpk
      have hpkk := parent_lt hk
      rw [notBefore_swap h0 hnl, Equiv.swap_apply_of_ne_of_ne (by omega) (by omega),
        Equiv.swap_apply_of_ne_of_ne hpk (by omega)]
      exact ho k hk (by omega)
    have hdown := hd.down_ordered hs
    have hres := popLast_ordered (fun k hk hkn => hdown k hk hkn (Nat.zero_le _))
      (by simp; omega) hp
    refine ⟨hres.1, ?_⟩
    rw [← hres.2, down, downFuel_getElem?_of_le less n _ 0 n n (by simp; omega) le_rfl,
      getElem?_swap h0 hnl, Equiv.swap_apply_right]

theorem Ordered.pop_min (hs : StrictWeak less) {h h' : List α} {x : α} (ho : Ordered less h)
    (hp : BinHeap.pop less h = some (x, h')) : ∀ y ∈ h, less y x = false := by
  intro y hy
  obtain ⟨k, hk, rfl⟩ := List.getElem_of_mem hy
  exact OrderedBelow.root_min hs ho le_rfl k hk x h[k] (ho.pop hs hp).2
    (List.getElem?_eq_getElem hk)

/-- `heap.Remove` keeps the order and returns the item at the position given: the last item
put there is sifted down, or up if it is before its new parent -/
theorem Ordered.remove (hs : StrictWeak less) {h h' : List α} {i : Nat} {x : α}
    (ho : Ordered less h) (hp : BinHeap.remove less h i = some (x, h')) :
    Ordered less h' ∧ h[i]? = some x := by
  unfold BinHeap.remove at hp
  split at hp
  · cases hp
  rename_i n hlen
  split at hp
  · cases hp
  rename_i hni
  split at hp
  · rename_i hin
    subst hin
    exact popLast_ordered (ho.mono (by omega)) hlen hp
  rename_i hin
  have hi : i < n := by omega
  have hil : i < h.length := by omega
  have hnl : n < h.length := by omega
  -- an item at a child of `i` is not before the old parent of `i`
  have hgrand : ∀ c, 0 < c → c < n → parent c = i → 0 < i →
      NotBefore less h c (parent i) :=
    fun c hc hcn hpc hi0 => (hpc ▸ ho c hc (by omega)).trans hs (ho i hi0 hil)
      (by have := parent_lt hi0; omega)
  have hchild : ∀ c, 0 < c → c < n → parent c = i → c ≠ i ∧ c ≠ n :=
    fun c hc hcn hpc =>
    ⟨by have := parent_lt hc; omega, by omega⟩
  have hr : OrderedBelow less
      (if (down less (swap h i n) i n).2 then (down less (swap h i n) i n).1
        else up less (down less (swap h i n) i n).1 i) n := by
    by_cases hup : 0 < i ∧ lessAt less (swap h i n) i (parent i) = true
    · -- the moved item is before its new parent: `down` moves nothing and `up` sifts it
      have hpi := parent_lt hup.1
      have hl : lessAt less h n (parent i) = true := by
        rw [lessAt_swap hil hnl, Equiv.swap_apply_left,
          Equiv.swap_apply_of_ne_of_ne (by omega) (by omega)] at hup
        exact hup.2
      have hbelow : ∀ c, 0 < c → c < n → parent c = i →
          NotBefore less (swap h i n) c i := by
        intro c hc hcn hpc
        rw [notBefore_swap hil hnl, Equiv.swap_apply_of_ne_of_ne (hchild c hc hcn hpc).1
          (hchild c hc hcn hpc).2, Equiv.swap_apply_left]
        exact (hgrand c hc hcn hpc hup.1).of_lessAt hs hl
      rw [down_of_children hi (by simp; omega) hbelow]
      refine UpInv.up_ordered hs ⟨hi, by simp; omega, ?_, ?_⟩
      · intro k hk hkn hki
        by_cases hpk : parent k = i
        · exact hpk ▸ hbelow k hk hkn hpk
        · have := parent_lt hk
          rw [notBefore_swap hil hnl, Equiv.swap_apply_of_ne_of_ne hki (by omega),
            Equiv.swap_apply_of_ne_of_ne hpk (by omega)]
          exact ho k hk (by omega)
      · intro hi0 c hc hcn hpc
        rw [notBefore_swap hil hnl, Equiv.swap_apply_of_ne_of_ne (hchild c hc hcn hpc).1
          (hchild c hc hcn hpc).2, Equiv.swap_apply_of_ne_of_ne (by omega) (by omega)]
        exact hgrand c hc hcn hpc hi0
    · -- the moved item is not before its new parent: `down` sifts it, and `up` then finds
      -- nothing to do
      have hd : DownInv less (swap h i n) 0 n i := by
        refine ⟨by simp; omega, Nat.zero_le _, ?_, ?_⟩
        · intro k hk hkn _ hpk
          by_cases hki : k = i
          · subst hki
            refine notBefore_of_lessAt_false ?_
            cases hl : lessAt less (swap h k n) k (parent k)
            · rfl
            · exact absurd ⟨hk, hl⟩ hup
          · have := parent_lt hk
            rw [notBefore_swap hil hnl, Equiv.swap_apply_of_ne_of_ne hki (by omega),
              Equiv.swap_apply_of_ne_of_ne hpk (by omega)]
            exact ho k hk (by omega)
        · intro hi0
          refine ⟨Nat.zero_le _, fun c hc hcn hpc => ?_⟩
          have := parent_lt hi0
          rw [notBefore_swap hil hnl, Equiv.swap_apply_of_ne_of_ne (hchild c hc hcn hpc).1
            (hchild c hc hcn hpc).2, Equiv.swap_apply_of_ne_of_ne (by omega) (by omega)]
          exact hgrand c hc hcn hpc hi0
      have hdown : OrderedBelow less (down less (swap h i n) i n).1 n :=
        fun k hk hkn => hd.down_ordered hs k hk hkn (Nat.zero_le _)
      split
      · exact hdown
      · rw [up_of_orderedBelow hdown hi (by simp; omega)]
        exact hdown
  have hlen' : (if (down less (swap h i n) i n).2 then (down less (swap h i n) i n).1
      else up less (down less (swap h i n) i n).1 i).length = n + 1 := by
    split <;> simp [hlen]
  have hres := popLast_ordered hr hlen' hp
  refine ⟨hres.1, ?_⟩
  -- the position `n` is below neither sift, so it keeps the item swapped there
  have hkeep : (down less (swap h i n) i n).1[n]? = h[i]? := by
    rw [down, downFuel_getElem?_of_le less n _ i n n (by simp; omega) le_rfl,
      getElem?_swap hil hnl, Equiv.swap_apply_right]
  rw [← hres.2]
  split
  · exact hkeep.symm
  · rw [up, upFuel_getElem?_of_lt less i _ i n (by simp; omega) hi]
    exact hkeep.symm

/-- `heap.Init` orders any slice: each `down` from `n / 2 - 1` to 0 extends the ordered part -/
theorem heapify_ordered (hs : StrictWeak less) {n : Nat} :
    ∀ (i : Nat) (h : List α), n ≤ h.length → DownOk less h i n →
      OrderedBelow less (heapify less n i h) n
  | 0, h, _, hd => fun k hk hkn => hd k hk hkn (Nat.zero_le _)
  | i + 1, h, hn, hd => by
    have hinv : DownInv less h i n i :=
      ⟨hn, le_rfl, fun k hk hkn _ hne => hd k hk hkn (by omega),
        fun hlt => absurd hlt (lt_irrefl i)⟩
    exact heapify_ordered hs i _ (by simpa using hn) (hinv.down_ordered hs)

theorem ordered_init (hs : StrictWeak less) (h : List α) : Ordered less (init less h) := by
  unfold Ordered
  rw [(init_perm less h).length_eq]
  refine heapify_ordered hs _ h le_rfl ?_
  intro k hk hkn hlo
  unfold parent at hlo
  omega

end order

end BinHeap
