import N42.TxsPool.Pool

/-!
# (key: truncate) `truncatePending` is fair

`truncatePending` of `txs_pool.go` keeps a counter `pending` by hand, pops the accounts above
`AccountSlots` from a priority queue, largest first, and cuts the earlier offenders by one
transaction a round, down to the length of the newest one; when the queue is empty and the
pool is still above `GlobalSlots` it cuts all offenders together, down to `AccountSlots`.

* `countOf_eq_sum`, `countOf_insert`   the count of a map is the sum of its lengths, and a list
                        put back one shorter lowers it by one;
* `KeepsLowest`         a list kept as it was but for some of its highest nonces;
* `capOffenders_spec`   a round cuts each offender by its highest transaction;
* `rounds_spec`         the loop of rounds that both phases run (`equalize_succ`,
                        `truncateEqually_succ`), from lists of one length to lists of one length;
* `OffState`, `OffState.pop`, `truncateOffenders_spec`   the first phase, from an invariant that
                        a pop keeps and fuel above the size of the queue;
* `truncatePending_fair`   the pool after `truncatePending`.
-/

namespace N42

open scoped List

/-- `Len()` of the list of `addr`, zero for an account without one -/
def lenOf (m : AccountLists) (addr : Address) : Nat := ((m.lookup addr).map TxsList.len).getD 0

theorem lenOf_of_lookup {m : AccountLists} {addr : Address} {l : TxsList}
    (h : m.lookup addr = some l) : lenOf m addr = l.len := by
  rw [lenOf, h, Option.map_some, Option.getD_some]

theorem foldl_add_eq_sum (f : Address → Nat) :
    ∀ (l : List Address) (n : Nat), l.foldl (fun n a => n + f a) n = n + (l.map f).sum
  | [], n => by rw [List.foldl_nil, List.map_nil, List.sum_nil, Nat.add_zero]
  | a :: l, n => by
    rw [List.foldl_cons, foldl_add_eq_sum f l, List.map_cons, List.sum_cons]
    omega

/-! ## `KeepsLowest` -/

/-- `l'` is `l` without some of its highest nonces: what it keeps is as it was, and each nonce
it lost is above each one it kept -/
structure KeepsLowest (l' l : TxsList) : Prop where
  sub : ∀ n tx, l'.txs.items.lookup n = some tx → l.txs.items.lookup n = some tx
  above : ∀ n ∈ l.txs.items, n ∉ l'.txs.items → ∀ k ∈ l'.txs.items, k < n

theorem KeepsLowest.refl (l : TxsList) : KeepsLowest l l :=
  ⟨fun _ _ h => h, fun _ hn hn' => absurd hn hn'⟩

theorem KeepsLowest.mem {l' l : TxsList} (h : KeepsLowest l' l) {n : UInt64}
    (hn : n ∈ l'.txs.items) : n ∈ l.txs.items := by
  obtain ⟨tx, htx⟩ := Finmap.mem_iff.mp hn
  exact Finmap.mem_of_lookup_eq_some (h.sub n tx htx)

theorem KeepsLowest.trans {l'' l' l : TxsList} (h₂ : KeepsLowest l'' l') (h₁ : KeepsLowest l' l) :
    KeepsLowest l'' l := by
  refine ⟨fun n tx h => h₁.sub n tx (h₂.sub n tx h), fun n hn hn'' k hk => ?_⟩
  by_cases hn' : n ∈ l'.txs.items
  · -- lost in the second cut
    exact h₂.above n hn' hn'' k hk
  · exact h₁.above n hn hn' k (h₂.mem hk)

/-- `Cap(Len() - 1)` of a list with the invariant and a transaction drops its highest one -/
theorem cap_pred_spec {l : TxsList} (hl : l.Inv) (hpos : 0 < l.len) :
    ∃ l' drops, l.cap ((l.len : Int) - 1) = some (l', drops) ∧ l'.Inv ∧ l'.len + 1 = l.len ∧
      KeepsLowest l' l := by
  obtain ⟨-, -, hcap⟩ := TxsSortedMap.cap_spec hl.txs.inv ((l.len : Int) - 1)
  obtain ⟨m', drops, hm', -, hlen, -, hin, hlook, habove⟩ := hcap (by omega) (by
    show ((l.len : Int) - 1) < (l.txs.len : Int)
    rw [show l.txs.len = l.len from rfl]
    omega)
  have hc : l.cap ((l.len : Int) - 1) = some ({ l with txs := m' }, drops) := by
    rw [TxsList.cap, hm', Option.map_some]
  -- one transaction is dropped: the one of the highest nonce
  obtain ⟨tx, rfl⟩ : ∃ tx, drops = [tx] := by
    have h1 : drops.length = 1 := by
      rw [hlen, show l.txs.len = l.len from rfl]
      omega
    exact List.length_eq_one_iff.mp h1
  have hmem : ∀ n, n ∈ m'.items ↔ n ≠ tx.nonce ∧ n ∈ l.txs.items := by
    intro n
    rw [← Finmap.lookup_isSome, ← Finmap.lookup_isSome, hlook n]
    by_cases hn : n = tx.nonce <;> simp [hn]
  have hkeys : m'.items.keys = l.txs.items.keys.erase tx.nonce := by
    ext n
    rw [Finset.mem_erase, Finmap.mem_keys, Finmap.mem_keys, hmem]
  refine ⟨_, _, hc, hl.cap hc, ?_, ⟨fun n t h => ?_, fun n hn hn' k hk => ?_⟩⟩
  · show m'.items.keys.card + 1 = l.txs.items.keys.card
    have htx : tx.nonce ∈ l.txs.items.keys :=
      Finmap.mem_keys.mpr (Finmap.mem_of_lookup_eq_some (hin tx List.mem_cons_self))
    rw [hkeys, Finset.card_erase_of_mem htx]
    have : 0 < l.txs.items.keys.card := Finset.card_pos.mpr ⟨_, htx⟩
    omega
  · have h' := hlook n
    change m'.items.lookup n = some t at h
    rw [h] at h'
    split at h'
    · cases h'
    · exact h'.symm
  · have hne : n = tx.nonce := by
      by_contra hne
      exact hn' ((hmem n).mpr ⟨hne, hn⟩)
    subst hne
    exact habove tx List.mem_cons_self k hk

namespace TxsPool

variable {c : PoolCtx}

/-! ## the count -/

theorem countOf_eq_sum (hc : c.Valid) (m : AccountLists) :
    countOf c m = ∑ a ∈ m.keys, lenOf m a := by
  obtain ⟨hnd, hmem⟩ := hc.accountOrder m
  have hkeys : (c.accountOrder m).toFinset = m.keys := by
    ext a
    rw [List.mem_toFinset, hmem, Finmap.mem_keys]
  show (c.accountOrder m).foldl (fun n a => n + lenOf m a) 0 = _
  rw [foldl_add_eq_sum, Nat.zero_add, ← hkeys, List.sum_toFinset _ hnd]

theorem keys_insert_of_mem {m : AccountLists} {a : Address} (ha : a ∈ m) (l : TxsList) :
    (m.insert a l).keys = m.keys := by
  ext x
  rw [Finmap.mem_keys, Finmap.mem_keys, Finmap.mem_insert]
  constructor
  · rintro (rfl | hx)
    · exact ha
    · exact hx
  · exact Or.inr

/-- a list put back in place of the one of `a` changes the count by the difference -/
theorem countOf_insert (hc : c.Valid) {m : AccountLists} {a : Address} (ha : a ∈ m)
    (l : TxsList) : countOf c (m.insert a l) + lenOf m a = countOf c m + l.len := by
  have hk : a ∈ m.keys := Finmap.mem_keys.mpr ha
  rw [countOf_eq_sum hc, countOf_eq_sum hc, keys_insert_of_mem ha,
    ← Finset.add_sum_erase _ _ hk, ← Finset.add_sum_erase _ _ hk]
  have hrest : ∑ x ∈ m.keys.erase a, lenOf (m.insert a l) x = ∑ x ∈ m.keys.erase a, lenOf m x :=
    Finset.sum_congr rfl fun x hx => by
      rw [lenOf, lenOf, Finmap.lookup_insert_of_ne _ (Finset.ne_of_mem_erase hx)]
  rw [hrest, lenOf_of_lookup (Finmap.lookup_insert _)]
  omega

/-! ## a round -/

theorem pricedRemoved_isSome (p : TxsPool) (count : Int) : (p.pricedRemoved c count).isSome := by
  rw [pricedRemoved, Option.isSome_map]
  exact TxPricedList.removed_isSome _ _ _ _

theorem pricedRemoved_eq {p q : TxsPool} {count : Int} (h : p.pricedRemoved c count = some q) :
    q = { p with priced := q.priced } := by
  obtain ⟨priced, -, rfl⟩ := Option.map_eq_some_iff.mp h
  rfl

/-- the drops of one offender touch the lookup and the virtual nonces only -/
theorem foldl_drops_eq (addr : Address) : ∀ (drops : List Transaction) (p : TxsPool),
    ∃ all nonces, drops.foldl (fun (p : TxsPool) tx =>
      { p with
        all := p.all.remove (tx.hash c.rlpHash)
        pendingNonces := p.pendingNonces.setIfLower p.currentState addr tx.nonce }) p =
      { p with all, pendingNonces := nonces }
  | [], p => ⟨p.all, p.pendingNonces, rfl⟩
  | tx :: drops, p => by
    obtain ⟨all, nonces, h⟩ := foldl_drops_eq addr drops _
    exact ⟨all, nonces, by rw [List.foldl_cons, h]⟩

/-- the first offender of a round: its list is put back as `Cap` leaves it, and the counter is
one lower -/
theorem capOffenders_cons {p : TxsPool} {a : Address} {l l' : TxsList}
    {drops : List Transaction} (pending : Nat) (rest : List Address)
    (hl : p.pending.lookup a = some l)
    (hcap : l.cap ((l.len : Int) - 1) = some (l', drops)) :
    ∃ q : TxsPool, q.pending = p.pending.insert a l' ∧ q.locals = p.locals ∧
      q.config = p.config ∧
      p.capOffenders c pending (a :: rest) = q.capOffenders c (pending - 1) rest := by
  obtain ⟨all, nonces, hfold⟩ :=
    foldl_drops_eq (c := c) a drops { p with pending := p.pending.insert a l' }
  obtain ⟨q, hq⟩ := Option.isSome_iff_exists.mp (pricedRemoved_isSome (c := c)
    { p with pending := p.pending.insert a l', all, pendingNonces := nonces } drops.length)
  have hqe := pricedRemoved_eq hq
  refine ⟨q, by rw [hqe], by rw [hqe], by rw [hqe], ?_⟩
  rw [capOffenders, List.foldlM_cons]
  simp only [hl, hcap, Option.bind_eq_bind, Option.bind_some, hfold, hq]
  rfl

/-- **A round.**  `Cap(Len() - 1)` on each of distinct offenders, each with a list of at least
one transaction: each loses its highest transaction, the counter and the count drop by the
number of offenders, and every other list is as it was -/
theorem capOffenders_spec (hc : c.Valid) :
    ∀ (offenders : List Address) (p : TxsPool) (pending : Nat), offenders.Nodup →
      (∀ a ∈ offenders, ∃ l, p.pending.lookup a = some l ∧ l.Inv ∧ 0 < l.len) →
      ∃ q, p.capOffenders c pending offenders = some (q, pending - offenders.length) ∧
        q.locals = p.locals ∧ q.config = p.config ∧
        countOf c q.pending + offenders.length = countOf c p.pending ∧
        (∀ a ∉ offenders, q.pending.lookup a = p.pending.lookup a) ∧
        ∀ a ∈ offenders, ∃ l l', p.pending.lookup a = some l ∧ q.pending.lookup a = some l' ∧
          l'.Inv ∧ l'.len + 1 = l.len ∧ KeepsLowest l' l
  | [], p, pending, _, _ =>
    ⟨p, rfl, rfl, rfl, rfl, fun _ _ => rfl, fun _ h => absurd h List.not_mem_nil⟩
  | a :: rest, p, pending, hnd, hof => by
    obtain ⟨l, hl, hinv, hpos⟩ := hof a List.mem_cons_self
    obtain ⟨l', drops, hcap, hinv', hlen, hkeep⟩ := cap_pred_spec hinv hpos
    obtain ⟨q₁, hq₁p, hq₁l, hq₁c, hstep⟩ :=
      capOffenders_cons (c := c) pending rest hl hcap
    obtain ⟨hna, hnd'⟩ := List.nodup_cons.mp hnd
    have hne : ∀ b ∈ rest, b ≠ a := fun b hb h => hna (h ▸ hb)
    -- the other offenders keep their lists through the first cut
    have hof' : ∀ b ∈ rest, ∃ l, q₁.pending.lookup b = some l ∧ l.Inv ∧ 0 < l.len := by
      intro b hb
      rw [hq₁p, Finmap.lookup_insert_of_ne _ (hne b hb)]
      exact hof b (List.mem_cons_of_mem _ hb)
    obtain ⟨q, hq, hql, hqc, hcount, hframe, hcut⟩ :=
      capOffenders_spec hc rest q₁ (pending - 1) hnd' hof'
    have hfirst := countOf_insert hc (Finmap.mem_of_lookup_eq_some hl) l'
    rw [← hq₁p, lenOf_of_lookup hl] at hfirst
    refine ⟨q, ?_, hql.trans hq₁l, hqc.trans hq₁c, ?_, fun b hb => ?_, fun b hb => ?_⟩
    · rw [hstep, hq, List.length_cons, Nat.sub_sub, Nat.add_comm 1]
    · rw [List.length_cons]
      omega
    · have hba : b ≠ a := fun h => hb (h ▸ List.mem_cons_self)
      rw [hframe b (fun h => hb (List.mem_cons_of_mem _ h)), hq₁p,
        Finmap.lookup_insert_of_ne _ hba]
    · rcases List.mem_cons.mp hb with rfl | hb
      · refine ⟨l, l', hl, ?_, hinv', hlen, hkeep⟩
        rw [hframe b hna, hq₁p, Finmap.lookup_insert]
      · obtain ⟨l₁, l₂, h₁, h₂, hcut'⟩ := hcut b hb
        rw [hq₁p, Finmap.lookup_insert_of_ne _ (hne b hb)] at h₁
        exact ⟨l₁, l₂, h₁, h₂, hcut'⟩

/-! ## the loop of rounds -/

section Rounds

variable (hc : c.Valid) (G : List Address) (pivot : Address) (bound : TxsPoolConfig → Nat)
  (loop : Nat → TxsPool → Nat → Option (TxsPool × Nat))
  (hloop : ∀ fuel p pending, loop (fuel + 1) p pending =
    if pending > p.config.globalSlots.toNat then
      (p.pendingLen pivot).bind fun len =>
        if len > bound p.config then
          (p.capOffenders c pending G).bind fun r => loop fuel r.1 r.2
        else some (p, pending)
    else some (p, pending))
include hc hloop

/-- **The loop of rounds**, as both phases run it: while the counter is above `GlobalSlots` and
the list of the pivot above the bound, a round on the group.  From lists of the group all of
one length `L` at least the bound, the loop stops at one length `L'` between the two, at the
bound or with the count at most `GlobalSlots`; fuel above the counter is enough, since each
round lowers it. -/
theorem rounds_spec (hnd : G.Nodup) (hpiv : pivot ∈ G) :
    ∀ (fuel : Nat) (p : TxsPool) (pending L : Nat), pending < fuel →
      pending = countOf c p.pending →
      (∀ a ∈ G, ∃ l, p.pending.lookup a = some l ∧ l.Inv ∧ l.len = L) → bound p.config ≤ L →
      ∃ q L', loop fuel p pending = some (q, countOf c q.pending) ∧
        q.locals = p.locals ∧ q.config = p.config ∧
        (∀ a ∈ G, ∃ l, q.pending.lookup a = some l ∧ l.Inv ∧ l.len = L') ∧
        bound p.config ≤ L' ∧ L' ≤ L ∧
        (countOf c q.pending ≤ p.config.globalSlots.toNat ∨ L' = bound p.config) ∧
        (∀ a ∉ G, q.pending.lookup a = p.pending.lookup a) ∧
        ∀ a ∈ G, ∀ l l', p.pending.lookup a = some l → q.pending.lookup a = some l' →
          KeepsLowest l' l
  | 0, _, _, _, hf, _, _, _ => absurd hf (Nat.not_lt_zero _)
  | fuel + 1, p, pending, L, hf, hcount, hlens, hb => by
    have hstay : ∀ a ∈ G, ∀ l l', p.pending.lookup a = some l → p.pending.lookup a = some l' →
        KeepsLowest l' l := fun a _ l l' h h' => by
      rw [h] at h'
      cases h'
      exact KeepsLowest.refl l
    rw [hloop]
    by_cases hg : pending > p.config.globalSlots.toNat
    · rw [if_pos hg]
      obtain ⟨lp, hlp, -, hlpL⟩ := hlens pivot hpiv
      rw [pendingLen, hlp, Option.map_some, Option.bind_some, hlpL]
      by_cases hL : L > bound p.config
      · rw [if_pos hL]
        -- a round: every list of the group one shorter
        obtain ⟨q₁, hq₁, hq₁l, hq₁c, hcnt, hframe, hcut⟩ :=
          capOffenders_spec hc G p pending hnd fun a ha => by
            obtain ⟨l, hl, hi, hlen⟩ := hlens a ha
            exact ⟨l, hl, hi, by omega⟩
        have hG : 0 < G.length := List.length_pos_of_mem hpiv
        have hlens₁ : ∀ a ∈ G, ∃ l, q₁.pending.lookup a = some l ∧ l.Inv ∧ l.len = L - 1 := by
          intro a ha
          obtain ⟨l, l', hl, hl', hi, hlen, -⟩ := hcut a ha
          obtain ⟨l₀, hl₀, -, hL₀⟩ := hlens a ha
          rw [hl] at hl₀
          cases hl₀
          exact ⟨l', hl', hi, by omega⟩
        obtain ⟨q, L', hq, hql, hqc, hlens', hb', hle', hstop, hframe', hcut'⟩ :=
          rounds_spec hnd hpiv fuel q₁ (pending - G.length) (L - 1) (by omega) (by omega)
            hlens₁ (by rw [hq₁c]; omega)
        rw [hq₁c] at hb' hstop
        refine ⟨q, L', ?_, hql.trans hq₁l, hqc.trans hq₁c, hlens', hb', by omega, hstop,
          fun a ha => by rw [hframe' a ha, hframe a ha], fun a ha l l' hl hl' => ?_⟩
        · rw [hq₁, Option.bind_some]
          exact hq
        · obtain ⟨l₁, l₂, h₁, h₂, -, -, hk⟩ := hcut a ha
          rw [hl] at h₁
          cases h₁
          exact (hcut' a ha l₂ l' h₂ hl').trans hk
      · rw [if_neg hL]
        exact ⟨p, L, by rw [hcount], rfl, rfl, hlens, hb, Nat.le_refl _, Or.inr (by omega),
          fun _ _ => rfl, hstay⟩
    · rw [if_neg hg]
      exact ⟨p, L, by rw [hcount], rfl, rfl, hlens, hb, Nat.le_refl _, Or.inl (by omega),
        fun _ _ => rfl, hstay⟩

end Rounds

theorem getElem?_length_sub_two {prev : List Address} {new : Address} (hne : prev ≠ []) :
    ((prev ++ [new])[(prev ++ [new]).length - 2]?).getD 0 = prev.getLast hne := by
  have hlen : 0 < prev.length := List.length_pos_iff.mpr hne
  rw [List.length_append, List.length_singleton,
    show prev.length + 1 - 2 = prev.length - 1 by omega, List.getElem?_append_left (by omega),
    List.getLast_eq_getElem, List.getElem?_eq_getElem (by omega)]
  rfl

/-- the inner loop of the first phase is the loop of rounds on the earlier offenders, with the
last of them as the pivot -/
theorem equalize_succ {prev : List Address} (new : Address) (hne : prev ≠ []) (threshold : Nat)
    (fuel : Nat) (p : TxsPool) (pending : Nat) :
    equalize c (prev ++ [new]) threshold (fuel + 1) p pending =
      if pending > p.config.globalSlots.toNat then
        (p.pendingLen (prev.getLast hne)).bind fun len =>
          if len > threshold then
            (p.capOffenders c pending prev).bind fun r =>
              equalize c (prev ++ [new]) threshold fuel r.1 r.2
          else some (p, pending)
      else some (p, pending) := by
  rw [equalize, getElem?_length_sub_two hne, List.dropLast_concat]
  rfl

/-- the second phase is the loop of rounds on all offenders, with the last as the pivot -/
theorem truncateEqually_succ {offenders : List Address} (hne : offenders ≠ []) (fuel : Nat)
    (p : TxsPool) (pending : Nat) :
    truncateEqually c offenders (fuel + 1) p pending =
      if pending > p.config.globalSlots.toNat then
        (p.pendingLen (offenders.getLast hne)).bind fun len =>
          if len > p.config.accountSlots.toNat then
            (p.capOffenders c pending offenders).bind fun r =>
              truncateEqually c offenders fuel r.1 r.2
          else some (p, pending)
      else some (p, pending) := by
  rw [truncateEqually, List.getLast?_eq_some_getLast hne, Option.getD_some]
  rfl

/-! ## the first phase -/

theorem prqueLess_strictWeak : BinHeap.StrictWeak prqueLess :=
  ⟨fun a b h => by simp only [prqueLess, decide_eq_true_eq, decide_eq_false_iff_not] at *; omega,
    fun a b c h₁ h₂ => by simp only [prqueLess, decide_eq_false_iff_not] at *; omega⟩

theorem lookup_of_lenOf_pos {m : AccountLists} {a : Address} (h : 0 < lenOf m a) :
    ∃ l, m.lookup a = some l ∧ l.len = lenOf m a := by
  cases hl : m.lookup a with
  | none => rw [lenOf, hl] at h; exact absurd h (Nat.lt_irrefl 0)
  | some l => exact ⟨l, rfl, (lenOf_of_lookup hl).symm⟩

/-- the first phase after some pops, against the pool `p₀` it started from: the counter is the
count; the accounts left in the queue are untouched, with their lengths as priorities; the
offenders are remote accounts above `AccountSlots` that stay above it, all at one length no
lower than any priority left, unless the count is down to `GlobalSlots`; every other account
is untouched, every list keeps its lowest nonces, and every remote account above
`AccountSlots` is an offender or still queued -/
structure OffState (p₀ : TxsPool) (spammers : Prque) (offenders : List Address) (p : TxsPool)
    (pending : Nat) : Prop where
  count : pending = countOf c p.pending
  locals : p.locals = p₀.locals
  config : p.config = p₀.config
  heap : BinHeap.Ordered prqueLess spammers
  nodup : (spammers.map Prod.fst ++ offenders).Nodup
  spam : ∀ e ∈ spammers, p.pending.lookup e.1 = p₀.pending.lookup e.1 ∧
    lenOf p₀.pending e.1 = e.2 ∧ e.1 ∉ p₀.locals ∧ p₀.config.accountSlots.toNat < e.2
  off : ∀ a ∈ offenders, a ∉ p₀.locals ∧ p₀.config.accountSlots.toNat < lenOf p₀.pending a ∧
    ∃ l, p.pending.lookup a = some l ∧ l.Inv ∧ p₀.config.accountSlots.toNat < l.len
  equal : pending ≤ p₀.config.globalSlots.toNat ∨
    ∃ L, (∀ a ∈ offenders, lenOf p.pending a = L) ∧ ∀ e ∈ spammers, e.2 ≤ L
  frame : ∀ a ∉ offenders, p.pending.lookup a = p₀.pending.lookup a
  keeps : ∀ a l₀ l, p₀.pending.lookup a = some l₀ → p.pending.lookup a = some l →
    KeepsLowest l l₀
  cover : ∀ a, a ∉ p₀.locals → p₀.config.accountSlots.toNat < lenOf p₀.pending a →
    a ∈ offenders ∨ ∃ e ∈ spammers, e.1 = a
  inv : ∀ a l, p₀.pending.lookup a = some l → l.Inv

/-- **A pop of the first phase.**  The offender popped is the largest left; once the earlier
offenders are cut to a length `L'` no lower than its own, to it or until the count is down to
`GlobalSlots`, the state holds again with it among the offenders -/
theorem OffState.pop {p₀ p q : TxsPool} {spammers rest : Prque} {offenders : List Address}
    {pending L' : Nat} {x : Address × Nat} (hs : OffState (c := c) p₀ spammers offenders p pending)
    (hp : BinHeap.pop prqueLess spammers = some (x, rest))
    (hql : q.locals = p.locals) (hqc : q.config = p.config)
    (hlens : ∀ a ∈ offenders, ∃ l, q.pending.lookup a = some l ∧ l.Inv ∧ l.len = L')
    (hge : x.2 ≤ L') (hstop : countOf c q.pending ≤ p₀.config.globalSlots.toNat ∨ L' = x.2)
    (hframe : ∀ a ∉ offenders, q.pending.lookup a = p.pending.lookup a)
    (hkeep : ∀ a ∈ offenders, ∀ l l', p.pending.lookup a = some l → q.pending.lookup a = some l' →
      KeepsLowest l' l) :
    OffState (c := c) p₀ rest (offenders ++ [x.1]) q (countOf c q.pending) := by
  have hperm : x :: rest ~ spammers := BinHeap.pop_perm hp
  have hmin : ∀ y ∈ spammers, prqueLess y x = false := hs.heap.pop_min prqueLess_strictWeak hp
  have hx : x ∈ spammers := hperm.subset List.mem_cons_self
  have hrest : ∀ e ∈ rest, e ∈ spammers := fun e he => hperm.subset (List.mem_cons_of_mem _ he)
  obtain ⟨hxl, hxlen, hxloc, hxslots⟩ := hs.spam x hx
  have hnd' : (rest.map Prod.fst ++ (offenders ++ [x.1])).Nodup := by
    refine (List.Perm.nodup_iff ?_).mpr hs.nodup
    calc rest.map Prod.fst ++ (offenders ++ [x.1])
        = (rest.map Prod.fst ++ offenders) ++ [x.1] := (List.append_assoc _ _ _).symm
      _ ~ x.1 :: (rest.map Prod.fst ++ offenders) := List.perm_append_singleton _ _
      _ = (x :: rest).map Prod.fst ++ offenders := rfl
      _ ~ spammers.map Prod.fst ++ offenders := (hperm.map _).append_right _
  obtain ⟨-, -, hdisj⟩ := List.nodup_append.mp hs.nodup
  have hout : ∀ e ∈ spammers, e.1 ∉ offenders := fun e he ho =>
    hdisj e.1 (List.mem_map_of_mem he) e.1 ho rfl
  -- the popped account is untouched, at its priority
  have hqx : q.pending.lookup x.1 = p₀.pending.lookup x.1 := by
    rw [hframe x.1 (hout x hx), hxl]
  have hlenx : lenOf q.pending x.1 = x.2 := by rw [lenOf, hqx, ← lenOf, hxlen]
  have hle : ∀ e ∈ rest, e.2 ≤ x.2 := fun e he => by
    have := hmin e (hrest e he)
    simp only [prqueLess, decide_eq_false_iff_not] at this
    omega
  refine ⟨rfl, hql.trans hs.locals, hqc.trans hs.config, (hs.heap.pop prqueLess_strictWeak hp).1,
    hnd', fun e he => ?_, fun a ha => ?_, ?_, fun a ha => ?_, fun a l₀ l h₀ h => ?_,
    fun a hloc hlen => ?_, hs.inv⟩
  · obtain ⟨h₁, h₂⟩ := hs.spam e (hrest e he)
    exact ⟨(hframe e.1 (hout e (hrest e he))).trans h₁, h₂⟩
  · rcases List.mem_append.mp ha with ha | ha
    · obtain ⟨hloc, hlen₀, -⟩ := hs.off a ha
      obtain ⟨l, hl, hi, hlen⟩ := hlens a ha
      exact ⟨hloc, hlen₀, l, hl, hi, by omega⟩
    · rw [List.mem_singleton.mp ha]
      obtain ⟨l, hl, hlen⟩ := lookup_of_lenOf_pos (show 0 < lenOf q.pending x.1 by omega)
      refine ⟨hxloc, by omega, l, hl, hs.inv _ _ (hqx ▸ hl), by omega⟩
  · rcases hstop with hstop | hstop
    · exact Or.inl hstop
    · refine Or.inr ⟨x.2, fun a ha => ?_, hle⟩
      rcases List.mem_append.mp ha with ha | ha
      · obtain ⟨l, hl, -, hlen⟩ := hlens a ha
        rw [lenOf_of_lookup hl, hlen, hstop]
      · rw [List.mem_singleton.mp ha, hlenx]
  · have ha' : a ∉ offenders := fun h => ha (List.mem_append_left _ h)
    rw [hframe a ha', hs.frame a ha']
  · by_cases ha : a ∈ offenders
    · obtain ⟨l₁, hl₁, -⟩ := (hs.off a ha).2.2
      exact (hkeep a ha l₁ l hl₁ h).trans (hs.keeps a l₀ l₁ h₀ hl₁)
    · rw [hframe a ha] at h
      exact hs.keeps a l₀ l h₀ h
  · rcases hs.cover a hloc hlen with ha | ⟨e, he, rfl⟩
    · exact Or.inl (List.mem_append_left _ ha)
    · rcases List.mem_cons.mp (hperm.symm.subset he) with rfl | he'
      · exact Or.inl (List.mem_append_right _ List.mem_cons_self)
      · exact Or.inr ⟨e, he', rfl⟩

/-- **The first phase.**  From a state of it, with fuel above the number of accounts queued,
the loop of pops stops in a state of it, with the count down to `GlobalSlots` or the queue
empty -/
theorem truncateOffenders_spec (hc : c.Valid) (p₀ : TxsPool) :
    ∀ (fuel : Nat) (spammers : Prque) (offenders : List Address) (p : TxsPool) (pending : Nat),
      spammers.length < fuel → OffState (c := c) p₀ spammers offenders p pending →
      ∃ spammers' offenders' q pending',
        truncateOffenders c fuel spammers offenders p pending = some (offenders', q, pending') ∧
        OffState (c := c) p₀ spammers' offenders' q pending' ∧
        (pending' ≤ p₀.config.globalSlots.toNat ∨ spammers' = [])
  | 0, _, _, _, _, hf, _ => absurd hf (Nat.not_lt_zero _)
  | fuel + 1, spammers, offenders, p, pending, hf, hs => by
    rw [truncateOffenders]
    by_cases hgo : pending > p.config.globalSlots.toNat ∧ spammers ≠ []
    · rw [if_pos hgo]
      obtain ⟨⟨x, rest⟩, hp⟩ := Option.isSome_iff_exists.mp
        (BinHeap.pop_isSome prqueLess (List.length_pos_iff.mpr hgo.2))
      have hlen : rest.length + 1 = spammers.length := by
        simpa using (BinHeap.pop_perm hp).length_eq
      have hx : (x, rest).1 ∈ spammers := (BinHeap.pop_perm hp).subset List.mem_cons_self
      simp only [hp, Option.bind_eq_bind, Option.bind_some]
      by_cases hne : offenders = []
      · -- the first offender: nothing to cut yet
        subst hne
        have hs' := hs.pop (q := p) hp rfl rfl (fun _ h => absurd h List.not_mem_nil)
          (Nat.le_refl x.2) (Or.inr rfl) (fun _ _ => rfl) (fun _ h => absurd h List.not_mem_nil)
        rw [← hs.count, List.nil_append] at hs'
        rw [if_neg (by simp)]
        exact truncateOffenders_spec hc p₀ fuel rest [x.1] p pending (by omega) hs'
      · have hmore : (offenders ++ [x.1]).length > 1 := by
          rw [List.length_append, List.length_singleton]
          exact Nat.lt_add_of_pos_left (List.length_pos_iff.mpr hne)
        rw [if_pos hmore]
        obtain ⟨hxl, hxlen, -, hxslots⟩ := hs.spam x hx
        obtain ⟨lx, hlx, hlxlen⟩ := lookup_of_lenOf_pos (show 0 < lenOf p₀.pending x.1 by omega)
        rw [pendingLen, hxl, hlx, Option.map_some, Option.bind_some, hlxlen, hxlen]
        -- the earlier offenders are all at one length, at least the new one's
        obtain ⟨L, hL, hLx⟩ := hs.equal.resolve_left (by rw [← hs.config]; omega)
        obtain ⟨-, hnd, -⟩ := List.nodup_append.mp hs.nodup
        have hlens : ∀ a ∈ offenders, ∃ l, p.pending.lookup a = some l ∧ l.Inv ∧ l.len = L :=
          fun a ha => by
            obtain ⟨-, -, l, hl, hi, -⟩ := hs.off a ha
            exact ⟨l, hl, hi, by rw [← lenOf_of_lookup hl, hL a ha]⟩
        obtain ⟨q, L', hq, hql, hqc, hlens', hb', -, hstop, hframe, hkeep⟩ :=
          rounds_spec hc offenders (offenders.getLast hne) (fun _ => x.2)
            (equalize c (offenders ++ [x.1]) x.2) (equalize_succ x.1 hne x.2) hnd
            (List.getLast_mem hne) (pending + 1) p pending L (Nat.lt_succ_self _) hs.count hlens
            (hLx x hx)
        rw [hs.config] at hstop
        rw [hq, Option.bind_some]
        exact truncateOffenders_spec hc p₀ fuel rest (offenders ++ [x.1]) q _ (by omega)
          (hs.pop hp hql hqc hlens' hb' hstop hframe hkeep)
    · rw [if_neg hgo]
      refine ⟨spammers, offenders, p, pending, rfl, hs, ?_⟩
      rw [← hs.config]
      by_cases hg : pending > p.config.globalSlots.toNat
      · exact Or.inr (by_contra fun h => hgo ⟨hg, h⟩)
      · exact Or.inl (by omega)

/-! ## `truncatePending` -/

/-- the entry the first loop of `truncatePending` pushes for `addr`, if any -/
def spammerOf (p : TxsPool) (addr : Address) : Option (Address × Nat) :=
  match p.pending.lookup addr with
  | some list =>
    if addr ∉ p.locals ∧ list.len > p.config.accountSlots.toNat then some (addr, list.len)
    else none
  | none => none

/-- a step of the first loop of `truncatePending` -/
def pushSpammer (p : TxsPool) (s : Prque) (addr : Address) : Prque :=
  match p.pending.lookup addr with
  | some list =>
    if addr ∉ p.locals ∧ list.len > p.config.accountSlots.toNat then
      BinHeap.push prqueLess s (addr, list.len)
    else s
  | none => s

/-- `truncatePending` with its first loop named -/
theorem truncatePending_eq (p : TxsPool) : p.truncatePending c =
    if countOf c p.pending ≤ p.config.globalSlots.toNat then some p
    else (truncateOffenders c (((c.accountOrder p.pending).foldl (pushSpammer p) []).length + 1)
        ((c.accountOrder p.pending).foldl (pushSpammer p) []) [] p (countOf c p.pending)).bind
      fun r => if r.2.2 > r.2.1.config.globalSlots.toNat ∧ r.1.length > 0 then
          (truncateEqually c r.1 (r.2.2 + 1) r.2.1 r.2.2).bind fun x => some x.1
        else some r.2.1 :=
  rfl

/-- the queue of offenders is a heap of the entries `spammerOf` gives, in the iteration order -/
theorem foldl_pushSpammer (p : TxsPool) : ∀ (l : List Address) (s : Prque),
    BinHeap.Ordered prqueLess s →
    BinHeap.Ordered prqueLess (l.foldl (pushSpammer p) s) ∧
      l.foldl (pushSpammer p) s ~ s ++ l.filterMap (spammerOf p)
  | [], s, hs => ⟨hs, by rw [List.foldl_nil, List.filterMap_nil, List.append_nil]⟩
  | a :: l, s, hs => by
    have hstep : BinHeap.Ordered prqueLess (pushSpammer p s a) ∧
        pushSpammer p s a ++ l.filterMap (spammerOf p) ~ s ++ (a :: l).filterMap (spammerOf p) := by
      cases hl : p.pending.lookup a with
      | none =>
        have hn : spammerOf p a = none := by rw [spammerOf, hl]
        have hpush : pushSpammer p s a = s := by rw [pushSpammer, hl]
        exact ⟨by rw [hpush]; exact hs, by rw [hpush, List.filterMap_cons_none hn]⟩
      | some list =>
        by_cases hcond : a ∉ p.locals ∧ list.len > p.config.accountSlots.toNat
        · have hsome : spammerOf p a = some (a, list.len) := by
            simp only [spammerOf, hl, if_pos hcond]
          have hpush : pushSpammer p s a = BinHeap.push prqueLess s (a, list.len) := by
            simp only [pushSpammer, hl, if_pos hcond]
          refine ⟨by rw [hpush]; exact hs.push prqueLess_strictWeak _, ?_⟩
          rw [hpush, List.filterMap_cons_some hsome]
          calc BinHeap.push prqueLess s (a, list.len) ++ l.filterMap (spammerOf p)
              ~ (s ++ [(a, list.len)]) ++ l.filterMap (spammerOf p) :=
                (BinHeap.push_perm _ _ _).append_right _
            _ = s ++ (a, list.len) :: l.filterMap (spammerOf p) := by simp
        · have hn : spammerOf p a = none := by simp only [spammerOf, hl, if_neg hcond]
          have hpush : pushSpammer p s a = s := by simp only [pushSpammer, hl, if_neg hcond]
          exact ⟨by rw [hpush]; exact hs, by rw [hpush, List.filterMap_cons_none hn]⟩
    obtain ⟨ho, hperm⟩ := foldl_pushSpammer p l _ hstep.1
    exact ⟨ho, hperm.trans hstep.2⟩

theorem mem_filterMap_spammerOf {p : TxsPool} {l : List Address} {e : Address × Nat}
    (he : e ∈ l.filterMap (spammerOf p)) :
    e.1 ∈ l ∧ ∃ list, p.pending.lookup e.1 = some list ∧ e.1 ∉ p.locals ∧
      p.config.accountSlots.toNat < list.len ∧ e.2 = list.len := by
  obtain ⟨a, ha, hae⟩ := List.mem_filterMap.mp he
  unfold spammerOf at hae
  split at hae
  · rename_i list hl
    split at hae
    · rename_i hcond
      cases hae
      exact ⟨ha, list, hl, hcond.1, hcond.2, rfl⟩
    · cases hae
  · cases hae

theorem map_fst_filterMap_spammerOf (p : TxsPool) : ∀ l : List Address,
    (l.filterMap (spammerOf p)).map Prod.fst = l.filter fun a => (spammerOf p a).isSome
  | [] => rfl
  | a :: l => by
    cases h : spammerOf p a with
    | none =>
      rw [List.filterMap_cons_none h, List.filter_cons_of_neg (by simp [h]),
        map_fst_filterMap_spammerOf p l]
    | some e =>
      have hea : e.1 = a := (mem_filterMap_spammerOf (l := [a])
        (List.mem_filterMap.mpr ⟨a, List.mem_singleton_self a, h⟩)).1 |> List.mem_singleton.mp
      rw [List.filterMap_cons_some h, List.filter_cons_of_pos (by simp [h]), List.map_cons, hea,
        map_fst_filterMap_spammerOf p l]

/-- the state the first phase starts from: the queue of every remote account above
`AccountSlots`, no offender yet, the pool as it was -/
theorem offState_start (hc : c.Valid) {p : TxsPool}
    (hinv : ∀ a l, p.pending.lookup a = some l → l.Inv) :
    OffState (c := c) p ((c.accountOrder p.pending).foldl (pushSpammer p) []) [] p
      (countOf c p.pending) := by
  obtain ⟨hheap, hperm⟩ := foldl_pushSpammer p (c.accountOrder p.pending) []
    fun _ _ hk => absurd hk (Nat.not_lt_zero _)
  rw [List.nil_append] at hperm
  have hspam := fun e (he : e ∈ (c.accountOrder p.pending).foldl (pushSpammer p) []) =>
    mem_filterMap_spammerOf (hperm.subset he)
  refine ⟨rfl, rfl, rfl, hheap, ?_, fun e he => ?_, fun a ha => absurd ha List.not_mem_nil, ?_,
    fun _ _ => rfl, fun a l₀ l h₀ h => ?_, fun a hloc hlen => ?_, hinv⟩
  · rw [List.append_nil, (hperm.map Prod.fst).nodup_iff, map_fst_filterMap_spammerOf]
    exact (hc.accountOrder p.pending).1.filter _
  · obtain ⟨-, list, hl, hloc, hlen, he2⟩ := hspam e he
    exact ⟨rfl, by rw [lenOf_of_lookup hl, he2], hloc, by omega⟩
  · -- no offender yet: any bound of the priorities will do
    refine Or.inr ⟨(((c.accountOrder p.pending).foldl (pushSpammer p) []).map Prod.snd).sum,
      fun a ha => absurd ha List.not_mem_nil, fun e he => ?_⟩
    exact List.le_sum_of_mem (List.mem_map_of_mem he)
  · rw [h₀] at h
    cases h
    exact KeepsLowest.refl l₀
  · obtain ⟨l, hl, hlen'⟩ := lookup_of_lenOf_pos (show 0 < lenOf p.pending a by omega)
    have hcond : a ∉ p.locals ∧ l.len > p.config.accountSlots.toNat := ⟨hloc, by omega⟩
    have hsp : spammerOf p a = some (a, l.len) := by simp only [spammerOf, hl, if_pos hcond]
    have hord : a ∈ c.accountOrder p.pending :=
      ((hc.accountOrder p.pending).2 a).mpr (Finmap.mem_of_lookup_eq_some hl)
    exact Or.inr ⟨(a, l.len), hperm.symm.subset (List.mem_filterMap.mpr ⟨a, hord, hsp⟩), rfl⟩

/-- a list the first phase changed is of a remote account that was above `AccountSlots`, and it
is still at `AccountSlots` or above -/
theorem OffState.changed {p₀ p : TxsPool} {spammers : Prque} {offenders : List Address}
    {pending : Nat} (hs : OffState (c := c) p₀ spammers offenders p pending) {a : Address}
    (ha : p.pending.lookup a ≠ p₀.pending.lookup a) :
    a ∉ p₀.locals ∧ p₀.config.accountSlots.toNat < lenOf p₀.pending a ∧
      p₀.config.accountSlots.toNat ≤ lenOf p.pending a := by
  by_cases hoff : a ∈ offenders
  · obtain ⟨hloc, hlen, l, hl, -, hl'⟩ := hs.off a hoff
    exact ⟨hloc, hlen, by rw [lenOf_of_lookup hl]; omega⟩
  · exact absurd (hs.frame a hoff) ha

/-- with the queue empty, a remote account that is no offender is at `AccountSlots` or below -/
theorem OffState.le_of_not_mem {p₀ p : TxsPool} {offenders : List Address} {pending : Nat}
    (hs : OffState (c := c) p₀ [] offenders p pending) {a : Address} (hloc : a ∉ p₀.locals)
    (ha : a ∉ offenders) : lenOf p.pending a ≤ p₀.config.accountSlots.toNat := by
  rw [lenOf, hs.frame a ha, ← lenOf]
  by_contra hlen
  rcases hs.cover a hloc (by omega) with h | ⟨e, he, -⟩
  · exact ha h
  · exact List.not_mem_nil he

/-- **The second phase.**  From the end of the first, with the counter above `GlobalSlots` and
the queue empty, the rounds on all offenders stop with every list of the pool fair: a list
changed is of a remote account that was above `AccountSlots` and is still at it or above,
every list keeps its lowest nonces, and the count is down to `GlobalSlots` or every remote
account at `AccountSlots` or below -/
theorem truncateEqually_fair (hc : c.Valid) {p₀ q : TxsPool} {offenders : List Address}
    {pending : Nat} (hs : OffState (c := c) p₀ [] offenders q pending)
    (hg : pending > p₀.config.globalSlots.toNat) (hne : offenders ≠ []) :
    ∃ r, (truncateEqually c offenders (pending + 1) q pending).map Prod.fst = some r ∧
      (∀ a, r.pending.lookup a ≠ p₀.pending.lookup a →
        a ∉ p₀.locals ∧ p₀.config.accountSlots.toNat < lenOf p₀.pending a ∧
          p₀.config.accountSlots.toNat ≤ lenOf r.pending a) ∧
      (∀ a l l', p₀.pending.lookup a = some l → r.pending.lookup a = some l' →
        KeepsLowest l' l) ∧
      (countOf c r.pending ≤ p₀.config.globalSlots.toNat ∨
        ∀ a ∉ p₀.locals, lenOf r.pending a ≤ p₀.config.accountSlots.toNat) := by
  -- the offenders stand at one length, above `AccountSlots`
  obtain ⟨L, hL, -⟩ := hs.equal.resolve_left (by omega)
  obtain ⟨-, hnd, -⟩ := List.nodup_append.mp hs.nodup
  have hlens : ∀ a ∈ offenders, ∃ l, q.pending.lookup a = some l ∧ l.Inv ∧ l.len = L :=
    fun a ha => by
      obtain ⟨-, -, l, hl, hi, -⟩ := hs.off a ha
      exact ⟨l, hl, hi, by rw [← lenOf_of_lookup hl, hL a ha]⟩
  have hbound : q.config.accountSlots.toNat ≤ L := by
    obtain ⟨-, -, l, hl, -, hl'⟩ := hs.off _ (List.getLast_mem hne)
    rw [hs.config, ← hL _ (List.getLast_mem hne), lenOf_of_lookup hl]
    omega
  obtain ⟨r, L', hr, -, hrc, hlens', hb', -, hstop, hframe, hkeep⟩ :=
    rounds_spec hc offenders (offenders.getLast hne) (fun cfg => cfg.accountSlots.toNat)
      (truncateEqually c offenders) (truncateEqually_succ hne) hnd (List.getLast_mem hne)
      (pending + 1) q pending L (Nat.lt_succ_self _) hs.count hlens hbound
  rw [hs.config] at hb' hstop
  have hlenr : ∀ a ∈ offenders, lenOf r.pending a = L' := fun a ha => by
    obtain ⟨l, hl, -, hlen⟩ := hlens' a ha
    rw [lenOf_of_lookup hl, hlen]
  have hout : ∀ a ∉ offenders, r.pending.lookup a = p₀.pending.lookup a := fun a ha => by
    rw [hframe a ha, hs.frame a ha]
  refine ⟨r, by rw [hr, Option.map_some], fun a ha => ?_, fun a l l' hl hl' => ?_, ?_⟩
  · by_cases hoff : a ∈ offenders
    · obtain ⟨hloc, hlen, -⟩ := hs.off a hoff
      exact ⟨hloc, hlen, by rw [hlenr a hoff]; exact hb'⟩
    · exact absurd (hout a hoff) ha
  · by_cases hoff : a ∈ offenders
    · obtain ⟨-, -, lq, hlq, -⟩ := hs.off a hoff
      exact (hkeep a hoff lq l' hlq hl').trans (hs.keeps a l lq hl hlq)
    · rw [hout a hoff, hl] at hl'
      cases hl'
      exact KeepsLowest.refl l
  · refine hstop.imp_right fun hL' a hloc => ?_
    by_cases hoff : a ∈ offenders
    · rw [hlenr a hoff, hL']
    · rw [lenOf, hframe a hoff, ← lenOf]
      exact hs.le_of_not_mem hloc hoff

/-- **`truncatePending` is fair.**  On a pool whose lists all have the list invariant, the call
returns, without a panic and within its fuel; a list it changed is of a remote account that
was above `AccountSlots`, and is still at it or above; every list keeps its lowest nonces, as
it had them; and the pool is down to `GlobalSlots`, or every remote account is at
`AccountSlots` or below -/
theorem truncatePending_fair (hc : c.Valid) (p : TxsPool)
    (hinv : ∀ a l, p.pending.lookup a = some l → l.Inv) :
    ∃ p', p.truncatePending c = some p' ∧
      (∀ a, p'.pending.lookup a ≠ p.pending.lookup a →
        a ∉ p.locals ∧ p.config.accountSlots.toNat < lenOf p.pending a ∧
          p.config.accountSlots.toNat ≤ lenOf p'.pending a) ∧
      (∀ a l l', p.pending.lookup a = some l → p'.pending.lookup a = some l' →
        KeepsLowest l' l) ∧
      (countOf c p'.pending ≤ p.config.globalSlots.toNat ∨
        ∀ a ∉ p.locals, lenOf p'.pending a ≤ p.config.accountSlots.toNat) := by
  rw [truncatePending_eq]
  by_cases hlow : countOf c p.pending ≤ p.config.globalSlots.toNat
  · rw [if_pos hlow]
    refine ⟨p, rfl, fun a ha => absurd rfl ha, fun a l l' hl hl' => ?_, Or.inl hlow⟩
    rw [hl] at hl'
    cases hl'
    exact KeepsLowest.refl l
  rw [if_neg hlow]
  obtain ⟨spammers', offenders', q, pending', hq, hs, hend⟩ :=
    truncateOffenders_spec hc p _ _ [] p _ (Nat.lt_succ_self _) (offState_start hc hinv)
  rw [hq, Option.bind_some]
  dsimp only
  by_cases hmore : pending' > q.config.globalSlots.toNat ∧ offenders'.length > 0
  · -- the second phase runs: the queue is empty, or the first phase would have gone on
    rw [if_pos hmore]
    rw [hs.config] at hmore
    have hempty : spammers' = [] := hend.resolve_left (by omega)
    subst hempty
    obtain ⟨r, hr, hfair⟩ := truncateEqually_fair hc hs hmore.1
      (List.length_pos_iff.mp hmore.2)
    obtain ⟨⟨r', pending''⟩, hr', rfl⟩ := Option.map_eq_some_iff.mp hr
    rw [hr', Option.bind_some]
    exact ⟨r', rfl, hfair⟩
  · rw [if_neg hmore]
    refine ⟨q, rfl, fun a ha => hs.changed ha, hs.keeps, ?_⟩
    -- stopped with the count down, or with no offender and so an empty queue
    by_cases hg : pending' ≤ p.config.globalSlots.toNat
    · exact Or.inl (hs.count ▸ hg)
    · have hempty : spammers' = [] := hend.resolve_left hg
      have hnil : offenders' = [] := List.eq_nil_of_length_eq_zero (by
        rw [hs.config] at hmore
        omega)
      subst hempty hnil
      exact Or.inr fun a hloc => hs.le_of_not_mem hloc List.not_mem_nil
end TxsPool

/-- a strict list of the nonces `0` to `n - 1`, each added as `Add` adds it -/
def nonceRun (n : Nat) : TxsList :=
  (List.range n).foldl (fun l k => (l.add (TxsSortedMap.nonceTx k.toUInt64 21000) 10).2.2)
    (TxsList.newTxsList true)

/-- three remote accounts with `4`, `3` and `2` pending transactions, over a `GlobalSlots` of
`4` at an `AccountSlots` of `1` -/
def spamPool : TxsPool :=
  { TxsPool.newTxsPool
      { samplePool with
        config := { defaultTxPoolConfig with accountSlots := 1, globalSlots := 4 } } with
    pending :=
      ((Finmap.singleton 0xa1 (nonceRun 4)).insert 0xb2 (nonceRun 3)).insert 0xc3 (nonceRun 2) }

theorem reachable_foldl_add : ∀ (ks : List Nat) (l : TxsList), TxsList.Reachable l →
    TxsList.Reachable
      (ks.foldl (fun l k => (l.add (TxsSortedMap.nonceTx k.toUInt64 21000) 10).2.2) l)
  | [], _, hl => hl
  | _ :: ks, _, hl => reachable_foldl_add ks _ (.add _ _ hl)

/-- a lookup of a singleton map with two inserts is one of the three lists -/
theorem lookup_insert_insert_singleton {a₁ a₂ a₃ a : Address} {l₁ l₂ l₃ l : TxsList}
    (h : (((Finmap.singleton a₁ l₁ : AccountLists).insert a₂ l₂).insert a₃ l₃).lookup a = some l) :
    l = l₁ ∨ l = l₂ ∨ l = l₃ := by
  by_cases h₃ : a = a₃
  · subst h₃
    rw [Finmap.lookup_insert, Option.some.injEq] at h
    exact Or.inr (Or.inr h.symm)
  rw [Finmap.lookup_insert_of_ne _ h₃] at h
  by_cases h₂ : a = a₂
  · subst h₂
    rw [Finmap.lookup_insert, Option.some.injEq] at h
    exact Or.inr (Or.inl h.symm)
  rw [Finmap.lookup_insert_of_ne _ h₂] at h
  have h₁ : a = a₁ := (Finmap.mem_singleton _ _ _).mp (Finmap.mem_of_lookup_eq_some h)
  subst h₁
  rw [Finmap.lookup_singleton_eq, Option.some.injEq] at h
  exact Or.inl h.symm

/-- the pool holds `9` transactions, over its `GlobalSlots`, and all three accounts are remote
spammers above `AccountSlots` -/
theorem truncatePending_fair_spamPool :
    spamPool.config.globalSlots.toNat <
      TxsPool.countOf (sortedCtx nonceHash 0) spamPool.pending ∧
    spamPool.locals = ∅ ∧ spamPool.config.accountSlots.toNat = 1 ∧
    [lenOf spamPool.pending 0xa1, lenOf spamPool.pending 0xb2, lenOf spamPool.pending 0xc3] =
      [4, 3, 2] ∧
    (sortedCtx nonceHash 0).Valid ∧
    (∀ a l, spamPool.pending.lookup a = some l → l.Inv) ∧
    ∃ p', spamPool.truncatePending (sortedCtx nonceHash 0) = some p' ∧
      (∀ a, p'.pending.lookup a ≠ spamPool.pending.lookup a →
        a ∉ spamPool.locals ∧
          spamPool.config.accountSlots.toNat < lenOf spamPool.pending a ∧
          spamPool.config.accountSlots.toNat ≤ lenOf p'.pending a) ∧
      (∀ a l l', spamPool.pending.lookup a = some l → p'.pending.lookup a = some l' →
        KeepsLowest l' l) ∧
      (TxsPool.countOf (sortedCtx nonceHash 0) p'.pending ≤
          spamPool.config.globalSlots.toNat ∨
        ∀ a ∉ spamPool.locals, lenOf p'.pending a ≤ spamPool.config.accountSlots.toNat) := by
  have hinv : ∀ a l, spamPool.pending.lookup a = some l → l.Inv := by
    intro a l h
    rcases lookup_insert_insert_singleton h with rfl | rfl | rfl <;>
      exact (reachable_foldl_add _ _ (.newTxsList true)).inv
  exact ⟨by decide +kernel, rfl, rfl, by decide +kernel, sortedCtx_valid nonceHash 0, hinv,
    TxsPool.truncatePending_fair (sortedCtx_valid nonceHash 0) spamPool hinv⟩

end N42
