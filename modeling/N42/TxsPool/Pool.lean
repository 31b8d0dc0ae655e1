import N42.TxsPool.TxsList
import N42.TxsPool.Priced
import N42.Lib.KeyOrder

/-!
# (key: pool) The transaction pool

`TxsPool` of `internal/txspool/txs_pool.go`: the pending and queued lists by account, the
lookup `all`, the price heaps, the heartbeats and the virtual nonces of `txNoncer`, with the
operations that move transactions between them.  A panic of Go (a nil dereference, `Cap` of a
negative threshold, an index past a slice) is `none`.  The chain state is the live view
`currentState` of the pool; `reset` reads of the new head only what `ResetRequest` gives.

Everything an operation reads besides the pool is in `PoolCtx`: the hash of a transaction, the
iteration orders of Go's `range` over the maps of the pool, and the clock of `time.Now()`.  A
run of the pool may use a different context at each step.

The loops of `truncatePending` and `truncateQueue` run on fuel that their own bound gives
(each round of `truncatePending` drops a transaction, each of `truncateQueue` an account);
running out is `none`, so a result that is `some` is one the loop reached by its condition.
-/

namespace N42

/-- the lists of the pool by account, `pending` and `queue` -/
abbrev AccountLists := Finmap fun _ : Address => TxsList

/-- `txNoncer`; its `fallback` is the pool's `currentState`, an argument of the functions that
read it -/
structure TxNoncer where
  nonces : Finmap fun _ : Address => UInt64

namespace TxNoncer

variable (fallback : ReadState)

/-- `get(addr)`: an account not yet known is read from the state, and the nonce kept -/
def get (t : TxNoncer) (addr : Address) : UInt64 × TxNoncer :=
  match t.nonces.lookup addr with
  | some n => (n, t)
  | none => (fallback.getNonce addr, ⟨t.nonces.insert addr (fallback.getNonce addr)⟩)

/-- `set(addr, nonce)` -/
def set (t : TxNoncer) (addr : Address) (nonce : UInt64) : TxNoncer :=
  ⟨t.nonces.insert addr nonce⟩

/-- `setIfLower(addr, nonce)` -/
def setIfLower (t : TxNoncer) (addr : Address) (nonce : UInt64) : TxNoncer :=
  let r := t.get fallback addr
  if r.1 ≤ nonce then r.2 else r.2.set addr nonce

/-- `setAll(all)` -/
def setAll (all : Finmap fun _ : Address => UInt64) : TxNoncer := ⟨all⟩

theorem get_of_lookup {t : TxNoncer} {addr : Address} {n : UInt64}
    (h : t.nonces.lookup addr = some n) : t.get fallback addr = (n, t) := by
  simp only [get, h]

/-- **A nonce once read is kept.**  After `get` has read an account, a later `get` returns the
same nonce whatever state it would fall back on -/
theorem get_get (t : TxNoncer) (fallback' : ReadState) (addr : Address) :
    ((t.get fallback addr).2.get fallback' addr).1 = (t.get fallback addr).1 := by
  cases h : t.nonces.lookup addr with
  | some n => rw [get_of_lookup fallback h, get_of_lookup fallback' h]
  | none =>
    have hl : (t.get fallback addr).2.nonces.lookup addr = some (fallback.getNonce addr) := by
      simp only [get, h, Finmap.lookup_insert]
    rw [get_of_lookup fallback' hl]
    simp only [get, h]

theorem get_set (t : TxNoncer) (addr : Address) (nonce : UInt64) :
    (t.set addr nonce).get fallback addr = (nonce, t.set addr nonce) :=
  get_of_lookup fallback (Finmap.lookup_insert _)

/-- an account `setAll` does not list is read from the state again -/
theorem get_setAll_of_not_mem {all : Finmap fun _ : Address => UInt64} {addr : Address}
    (h : addr ∉ all) : ((setAll all).get fallback addr).1 = fallback.getNonce addr := by
  simp only [get, setAll, Finmap.lookup_eq_none.mpr h]

end TxNoncer

/-- `txLookup.RemoteToLocals(locals)`: the remotes whose sender is local move to `locals`, in
the iteration `order` of the remotes; a sender that is nil is dereferenced -/
def TxLookup.remoteToLocals (t : TxLookup) (locals : Finset Address) (order : List Hash) :
    Option (TxLookup × Int) :=
  order.foldlM (fun (r : TxLookup × Int) hash =>
    match r.1.remotes.lookup hash with
    | none => some r
    | some tx => tx.fromAddr.map fun addr =>
      if addr ∈ locals then
        ({ r.1 with locals := r.1.locals.insert hash tx, remotes := r.1.remotes.erase hash },
          r.2 + 1)
      else r) (t, 0)

/-- what the operations read besides the pool: the hash of a transaction, the iteration orders
of Go's `range` over the nonces of a list, the lists by account, the remotes of the lookup and
an `accountSet`, and the clock -/
structure PoolCtx where
  rlpHash : HashInput → Hash
  nonceOrder : NonceItems → List UInt64
  accountOrder : AccountLists → List Address
  remoteOrder : HashItems → List Hash
  setOrder : Finset Address → List Address
  now : Nat

/-- the orders of a context are iteration orders: each key once -/
structure PoolCtx.Valid (c : PoolCtx) : Prop where
  nonceOrder : ∀ items, Enumerates (c.nonceOrder items) items
  accountOrder : ∀ m : AccountLists, (c.accountOrder m).Nodup ∧ ∀ a, a ∈ c.accountOrder m ↔ a ∈ m
  remoteOrder : ∀ m : HashItems, (c.remoteOrder m).Nodup ∧ ∀ h, h ∈ c.remoteOrder m ↔ h ∈ m
  setOrder : ∀ s : Finset Address, (c.setOrder s).Nodup ∧ ∀ a, a ∈ c.setOrder s ↔ a ∈ s

/-- the fields of `TxsPool` the modelled functions read, beside those of `validateTx` -/
structure TxsPool extends PoolEnv where
  pendingNonces : TxNoncer
  locals : Finset Address
  pending : AccountLists
  queue : AccountLists
  beats : Finmap fun _ : Address => Nat
  all : TxLookup
  priced : TxPricedList
  changesSinceReorg : Int

/-- what `reset(oldBlock, newBlock)` reads of the chain: the transactions the walk from the old
head to the new one gives back (`txDifference(discarded, included)`), `none` where the walk
returns early (an unrooted chain, a missing old head), the gas limit of the new head, and the
forks of the block after it -/
structure ResetRequest where
  reinject : Option (List Transaction)
  gasLimit : UInt64
  istanbul : Bool
  eip2718 : Bool
  eip1559 : Bool

/-- `addressByHeartbeat` -/
structure AddressByHeartbeat where
  address : Address
  heartbeat : Nat
deriving DecidableEq

/-- `prque` as `truncatePending` uses it: a binary heap whose `Less` is the greater priority -/
abbrev Prque := List (Address × Nat)

/-- `sstack.Less`: `a > b` on the priorities -/
def prqueLess (a b : Address × Nat) : Bool := decide (a.2 > b.2)

namespace TxsPool

variable (c : PoolCtx)

/-- `pool.priced.Removed(count)`, its `Reheap` ranging over the remotes of `all` -/
def pricedRemoved (p : TxsPool) (count : Int) : Option TxsPool :=
  (p.priced.removed p.all (c.remoteOrder p.all.remotes) count).map fun priced => { p with priced }

/-- `pool.all.Remove(tx.Hash())` for each transaction of a list -/
def removeAll (all : TxLookup) (txs : List Transaction) : TxLookup :=
  txs.foldl (fun all tx => all.remove (tx.hash c.rlpHash)) all

/-- `promoteTx(addr, hash, tx)`: whether `tx` was taken into `pending[addr]` -/
def promoteTx (p : TxsPool) (addr : Address) (hash : Hash) (tx : Transaction) :
    Option (Bool × TxsPool) :=
  let list := (p.pending.lookup addr).getD (TxsList.newTxsList true)
  let r := list.add tx p.config.priceBump
  let p := { p with pending := p.pending.insert addr r.2.2 }
  if !r.1 then
    (pricedRemoved c { p with all := p.all.remove hash } 1).map fun p => (false, p)
  else
    let p? := match r.2.1 with
      | some old => pricedRemoved c { p with all := p.all.remove (old.hash c.rlpHash) } 1
      | none => some p
    p?.map fun p =>
      (true, { p with
        pendingNonces := p.pendingNonces.set addr (tx.nonce + 1)
        beats := p.beats.insert addr c.now })

/-- `enqueueTx(hash, tx, local, addAll)`: whether a transaction of the same nonce was replaced,
or `ErrReplaceUnderpriced` -/
def enqueueTx (p : TxsPool) (tx : Transaction) (isLocal addAll : Bool) :
    Option (Except PoolError Bool × TxsPool) := do
  let fromAddr ← tx.fromAddr
  let list := (p.queue.lookup fromAddr).getD (TxsList.newTxsList false)
  let r := list.add tx p.config.priceBump
  let p := { p with queue := p.queue.insert fromAddr r.2.2 }
  if !r.1 then return (.error .errReplaceUnderpriced, p)
  let p ← match r.2.1 with
    | some old => pricedRemoved c { p with all := p.all.remove (old.hash c.rlpHash) } 1
    | none => some p
  let p := if addAll then
      { p with all := p.all.add c.rlpHash tx isLocal, priced := p.priced.put tx isLocal }
    else p
  let p := if p.beats.lookup fromAddr = none then { p with beats := p.beats.insert fromAddr c.now }
    else p
  return (.ok r.2.1.isSome, p)

/-- the demotions of `removeTx` and `demoteUnexecutables`: `enqueueTx(hash, tx, false, false)`
for each, its error ignored -/
def enqueueAll (p : TxsPool) (txs : List Transaction) : Option TxsPool :=
  txs.foldlM (fun p tx => (p.enqueueTx c tx false false).map Prod.snd) p

/-- `removeTx(hash, outofbound)` -/
def removeTx (p : TxsPool) (hash : Hash) (outofbound : Bool) : Option TxsPool := do
  match p.all.get hash with
  | none => some p
  | some tx =>
    let addr ← tx.fromAddr
    let p := { p with all := p.all.remove hash }
    let p ← if outofbound then p.pricedRemoved c 1 else some p
    let inPending := (p.pending.lookup addr).map fun pending => pending.remove c.nonceOrder tx
    match inPending with
    | some (true, invalids, pending) =>
      -- the transaction was pending: the ones above it go back to the queue
      let p := { p with
        pending := if pending.empty then p.pending.erase addr else p.pending.insert addr pending }
      let p ← p.enqueueAll c invalids
      return { p with pendingNonces := p.pendingNonces.setIfLower p.currentState addr tx.nonce }
    | _ =>
      match p.queue.lookup addr with
      | none => some p
      | some future =>
        let future := (future.remove c.nonceOrder tx).2.2
        if future.empty then
          return { p with queue := p.queue.erase addr, beats := p.beats.erase addr }
        else return { p with queue := p.queue.insert addr future }

/-- the discards of a full pool in `add`: `removeTx(hash, false)` for each dropped transaction -/
def removeEach (p : TxsPool) (txs : List Transaction) : Option TxsPool :=
  txs.foldlM (fun p tx => p.removeTx c (tx.hash c.rlpHash) false) p

/-- the admission of `add` into a full pool: the underpriced check, the cap on changes since
the last reorg, and the discard of cheaper remotes; the error, if any, with the pool as the
checks leave it -/
def makeRoom (p : TxsPool) (tx : Transaction) (isLocal : Bool) :
    Option (Option PoolError × TxsPool) := do
  let limit := p.config.globalSlots + p.config.globalQueue
  if ((p.all.slots + numSlots tx) % 2 ^ 64).toNat ≤ limit.toNat then return (none, p)
  -- `Underpriced` drops the stale tops of the heaps even when it rejects
  let u := p.priced.underpriced c.rlpHash p.all tx
  let p := if !isLocal then { p with priced := u.1 } else p
  if !isLocal && u.2 then return (some .errUnderpriced, p)
  if p.changesSinceReorg > ((p.config.globalSlots / 4).toNat : Int) then
    return (some .errTxPoolOverflow, p)
  let d ← p.priced.discard c.rlpHash p.all
    (p.all.slots - (limit.toNat : Int) + numSlots tx) isLocal
  let p := { p with priced := d.1 }
  if !isLocal && !d.2.2 then return (some .errTxPoolOverflow, p)
  let p := { p with changesSinceReorg := p.changesSinceReorg + d.2.1.length }
  return (none, ← p.removeEach c d.2.1)

/-- the rest of `add` for a nonce that is not pending: into the queue, and a local sender
marked local the first time -/
def addToQueue (p : TxsPool) (tx : Transaction) (isLocal₀ isLocal : Bool) (fromAddr : Address) :
    Option (Except PoolError Bool × TxsPool) := do
  let (r, p) ← p.enqueueTx c tx isLocal true
  match r with
  | .error e => return (.error e, p)
  | .ok replaced =>
    if isLocal₀ && decide (fromAddr ∉ p.locals) then
      let locals := insert fromAddr p.locals
      let m ← p.all.remoteToLocals locals (c.remoteOrder p.all.remotes)
      let p ← pricedRemoved c { p with locals, all := m.1 } m.2
      return (.ok replaced, p)
    else return (.ok replaced, p)

/-- `add(tx, local)`: whether a transaction was replaced, or the error -/
def add (p : TxsPool) (tx : Transaction) (isLocal₀ : Bool) :
    Option (Except PoolError Bool × TxsPool) := do
  let hash := tx.hash c.rlpHash
  if (p.all.get hash).isSome then return (.error .errAlreadyKnown, p)
  -- `local || pool.locals.containsTx(tx)`: the sender is only read for a remote
  let isLocal ← if isLocal₀ then some true else tx.fromAddr.map fun a => decide (a ∈ p.locals)
  match validateTx p.toPoolEnv tx isLocal with
  | .error .nilFrom => none
  | .error e => return (.error e, p)
  | .ok () =>
    let (err, p) ← p.makeRoom c tx isLocal
    if let some e := err then return (.error e, p)
    let fromAddr ← tx.fromAddr
    match p.pending.lookup fromAddr with
    | some list =>
      if list.overlaps tx then
        -- the nonce is pending: a replacement there, or `ErrReplaceUnderpriced`
        let r := list.add tx p.config.priceBump
        if !r.1 then return (.error .errReplaceUnderpriced, p)
        let p := { p with pending := p.pending.insert fromAddr r.2.2 }
        let p ← match r.2.1 with
          | some old => pricedRemoved c { p with all := p.all.remove (old.hash c.rlpHash) } 1
          | none => some p
        let p := { p with
          all := p.all.add c.rlpHash tx isLocal
          priced := p.priced.put tx isLocal
          beats := p.beats.insert fromAddr c.now }
        return (.ok r.2.1.isSome, p)
      else p.addToQueue c tx isLocal₀ isLocal fromAddr
    | none => p.addToQueue c tx isLocal₀ isLocal fromAddr

/-- `addTxsLocked(txs, local)`: the errors, and the accounts of the transactions added
without a replacement -/
def addTxsLocked (p : TxsPool) (txs : List Transaction) (isLocal : Bool) :
    Option (List (Except PoolError Bool) × Finset Address × TxsPool) :=
  txs.foldlM (fun (r : List (Except PoolError Bool) × Finset Address × TxsPool) tx => do
    let (e, p) ← r.2.2.add c tx isLocal
    let dirty ← match e with
      | .ok false => tx.fromAddr.map fun a => insert a r.2.1
      | _ => some r.2.1
    return (r.1 ++ [e], dirty, p)) ([], ∅, p)

/-- one account of `promoteExecutables`: the queue cut below the state nonce and filtered by
balance and gas, its run from the virtual nonce promoted, and a remote account capped at
`AccountQueue` -/
def promoteAccount (p : TxsPool) (addr : Address) : Option (List Transaction × TxsPool) := do
  match p.queue.lookup addr with
  | none => some ([], p)
  | some list =>
    let (list, forwards) ← list.forward (p.currentState.getNonce addr)
    let p := { p with all := removeAll c p.all forwards }
    let (list, drops, _) := list.filter c.nonceOrder (p.currentState.getBalance addr)
      p.currentMaxGas
    let p := { p with all := removeAll c p.all drops }
    let (start, pendingNonces) := p.pendingNonces.get p.currentState addr
    let p := { p with pendingNonces }
    let (list, readies) := list.ready start
    let (promoted, p) ← readies.foldlM (fun (r : List Transaction × TxsPool) tx => do
      let (ok, p) ← r.2.promoteTx c addr (tx.hash c.rlpHash) tx
      return (if ok then r.1 ++ [tx] else r.1, p)) ([], p)
    let (list, caps) ← if addr ∈ p.locals then some (list, [])
      else list.cap (p.config.accountQueue.toNat : Int)
    let p := { p with all := removeAll c p.all caps }
    let p ← p.pricedRemoved c caps.length
    if list.empty then
      return (promoted, { p with queue := p.queue.erase addr, beats := p.beats.erase addr })
    else return (promoted, { p with queue := p.queue.insert addr list })

/-- `promoteExecutables(accounts)`: the transactions promoted -/
def promoteExecutables (p : TxsPool) (accounts : List Address) :
    Option (List Transaction × TxsPool) :=
  accounts.foldlM (fun (r : List Transaction × TxsPool) addr =>
    (r.2.promoteAccount c addr).map fun s => (r.1 ++ s.1, s.2)) ([], p)

/-- the sum of `Len()` over the lists of a map, in its iteration order -/
def countOf (m : AccountLists) : Nat :=
  (c.accountOrder m).foldl (fun n addr => n + ((m.lookup addr).map TxsList.len).getD 0) 0

/-- one round of `truncatePending`: `Cap(Len() - 1)` on each of `offenders`, the dropped
transaction out of `all` and the virtual nonce lowered to it, and `pending--` each time -/
def capOffenders (p : TxsPool) (pending : Nat) (offenders : List Address) :
    Option (TxsPool × Nat) :=
  offenders.foldlM (fun (r : TxsPool × Nat) addr => do
    let list ← r.1.pending.lookup addr
    let (list, caps) ← list.cap ((list.len : Int) - 1)
    let p := { r.1 with pending := r.1.pending.insert addr list }
    let p := caps.foldl (fun (p : TxsPool) tx =>
      { p with
        all := p.all.remove (tx.hash c.rlpHash)
        pendingNonces := p.pendingNonces.setIfLower p.currentState addr tx.nonce }) p
    let p ← p.pricedRemoved c caps.length
    return (p, r.2 - 1)) (p, pending)

/-- `Len()` of `pending[addr]`, dereferenced -/
def pendingLen (p : TxsPool) (addr : Address) : Option Nat := (p.pending.lookup addr).map TxsList.len

/-- the inner loop of the first phase: all offenders but the last cut by one while the one
before the last is above `threshold` -/
def equalize (offenders : List Address) (threshold : Nat) :
    Nat → TxsPool → Nat → Option (TxsPool × Nat)
  | 0, _, _ => none
  | fuel + 1, p, pending =>
    if pending > p.config.globalSlots.toNat then do
      let len ← p.pendingLen (offenders[offenders.length - 2]?.getD 0)
      if len > threshold then
        let (p, pending) ← p.capOffenders c pending offenders.dropLast
        equalize offenders threshold fuel p pending
      else some (p, pending)
    else some (p, pending)

/-- the first phase of `truncatePending`: offenders popped from the largest, each new one
setting the threshold the earlier ones are cut to -/
def truncateOffenders : Nat → Prque → List Address → TxsPool → Nat →
    Option (List Address × TxsPool × Nat)
  | 0, _, _, _, _ => none
  | fuel + 1, spammers, offenders, p, pending =>
    if pending > p.config.globalSlots.toNat ∧ spammers ≠ [] then do
      let (offender, spammers) ← BinHeap.pop prqueLess spammers
      let offenders := offenders ++ [offender.1]
      if offenders.length > 1 then
        let threshold ← p.pendingLen offender.1
        let (p, pending) ← equalize c offenders threshold (pending + 1) p pending
        truncateOffenders fuel spammers offenders p pending
      else truncateOffenders fuel spammers offenders p pending
    else some (offenders, p, pending)

/-- the second phase of `truncatePending`: all offenders cut by one while the last is above
`AccountSlots` -/
def truncateEqually (offenders : List Address) : Nat → TxsPool → Nat → Option (TxsPool × Nat)
  | 0, _, _ => none
  | fuel + 1, p, pending =>
    if pending > p.config.globalSlots.toNat then do
      let len ← p.pendingLen (offenders.getLast?.getD 0)
      if len > p.config.accountSlots.toNat then
        let (p, pending) ← p.capOffenders c pending offenders
        truncateEqually offenders fuel p pending
      else some (p, pending)
    else some (p, pending)

/-- `truncatePending()` -/
def truncatePending (p : TxsPool) : Option TxsPool := do
  let pending := countOf c p.pending
  if pending ≤ p.config.globalSlots.toNat then return p
  let spammers := (c.accountOrder p.pending).foldl (fun (s : Prque) addr =>
    match p.pending.lookup addr with
    | some list =>
      if addr ∉ p.locals ∧ list.len > p.config.accountSlots.toNat then
        BinHeap.push prqueLess s (addr, list.len)
      else s
    | none => s) []
  let (offenders, p, pending) ←
    truncateOffenders c (spammers.length + 1) spammers [] p pending
  if pending > p.config.globalSlots.toNat ∧ offenders.length > 0 then
    return (← truncateEqually c offenders (pending + 1) p pending).1
  else return p

/-- the partial drop of `truncateQueue`: `removeTx` from the last transaction down while
`drop > 0` -/
def dropNewest : List Transaction → TxsPool → Nat → Option (TxsPool × Nat)
  | [], p, drop => some (p, drop)
  | tx :: txs, p, drop =>
    if drop > 0 then do
      let p ← p.removeTx c (tx.hash c.rlpHash) true
      dropNewest txs p (drop - 1)
    else some (p, drop)

/-- `removeTx(hash, true)` for each transaction, as `truncateQueue` drops a whole account -/
def removeOutOfBound (p : TxsPool) (txs : List Transaction) : Option TxsPool :=
  txs.foldlM (fun p tx => p.removeTx c (tx.hash c.rlpHash) true) p

/-- the loop of `truncateQueue`: the account at the end of the sorted `addresses` loses all its
transactions when they are no more than `drop`, else its last `drop` ones -/
def truncateQueueLoop : Nat → Nat → List AddressByHeartbeat → TxsPool → Option TxsPool
  | 0, _, _, _ => none
  | fuel + 1, drop, addresses, p =>
    if drop > 0 ∧ addresses ≠ [] then do
      let addr := addresses.getLast?.getD ⟨0, 0⟩
      let list ← p.queue.lookup addr.address
      let addresses := addresses.dropLast
      -- `Flatten()` caches the sorted transactions in the list
      let (list, txs) := list.flatten c.nonceOrder
      let p := { p with queue := p.queue.insert addr.address list }
      if list.len ≤ drop then
        let p ← p.removeOutOfBound c txs
        truncateQueueLoop fuel (drop - list.len) addresses p
      else
        let (p, drop) ← dropNewest c txs.reverse p drop
        truncateQueueLoop fuel drop addresses p
    else some p

/-- `sort.Sort(addresses)` by `heartbeat.Before`.  Go's sort is not stable; ties keep the order
of the merge sort here, one of those it may produce. -/
def sortByHeartbeat (addresses : List AddressByHeartbeat) : List AddressByHeartbeat :=
  addresses.mergeSort fun a b => decide (a.heartbeat ≤ b.heartbeat)

/-- the account `truncateQueueLoop` takes first, the last of the sorted list, has the newest
heartbeat of all: the sort runs oldest first and is not reversed -/
theorem heartbeat_le_getLast {addresses : List AddressByHeartbeat} {last : AddressByHeartbeat}
    (hl : (sortByHeartbeat addresses).getLast? = some last) {a : AddressByHeartbeat}
    (ha : a ∈ addresses) : a.heartbeat ≤ last.heartbeat := by
  have hsorted : (sortByHeartbeat addresses).Pairwise
      fun x y => decide (x.heartbeat ≤ y.heartbeat) = true :=
    List.pairwise_mergeSort (fun _ _ _ h₁ h₂ => by simp only [decide_eq_true_eq] at *; omega)
      (fun x y => by simp only [Bool.or_eq_true, decide_eq_true_eq]; omega) addresses
  obtain ⟨init, hinit⟩ := List.getLast?_eq_some_iff.mp hl
  have hmem : a ∈ init ++ [last] := by
    rw [← hinit]
    exact List.mem_mergeSort.mpr ha
  rw [hinit, List.pairwise_append] at hsorted
  rcases List.mem_append.mp hmem with hi | hi
  · simpa using hsorted.2.2 a hi last (List.mem_singleton_self _)
  · rw [List.mem_singleton.mp hi]

/-- accounts already in heartbeat order are left in it -/
theorem sortByHeartbeat_of_sorted {addresses : List AddressByHeartbeat}
    (h : addresses.Pairwise fun a b => a.heartbeat ≤ b.heartbeat) :
    sortByHeartbeat addresses = addresses :=
  List.mergeSort_of_pairwise (by simpa using h)

/-- `truncateQueue()`; an account without a heartbeat reads the zero time -/
def truncateQueue (p : TxsPool) : Option TxsPool :=
  let queued := countOf c p.queue
  if queued ≤ p.config.globalQueue.toNat then some p
  else
    let addresses := (c.accountOrder p.queue).filterMap fun addr =>
      if addr ∉ p.locals then some ⟨addr, (p.beats.lookup addr).getD 0⟩ else none
    let addresses := sortByHeartbeat addresses
    truncateQueueLoop c (addresses.length + 1) (queued - p.config.globalQueue.toNat) addresses p

/-- one account of `demoteUnexecutables`: the pending list cut below the state nonce and
filtered, the invalidated ones back to the queue, and all of it back when a gap opens at the
state nonce -/
def demoteAccount (p : TxsPool) (addr : Address) : Option TxsPool := do
  match p.pending.lookup addr with
  | none => some p
  | some list =>
    let nonce := p.currentState.getNonce addr
    let (list, olds) ← list.forward nonce
    let p := { p with all := removeAll c p.all olds }
    let (list, drops, invalids) := list.filter c.nonceOrder (p.currentState.getBalance addr)
      p.currentMaxGas
    let p := { p with all := removeAll c p.all drops, pending := p.pending.insert addr list }
    let p ← p.enqueueAll c invalids
    let (list, p) ← if list.len > 0 ∧ list.txs.get nonce = none then
        (list.cap 0).bind fun r =>
          (enqueueAll c { p with pending := p.pending.insert addr r.1 } r.2).map fun p => (r.1, p)
      else some (list, p)
    if list.empty then return { p with pending := p.pending.erase addr }
    else return p

/-- `demoteUnexecutables()` -/
def demoteUnexecutables (p : TxsPool) : Option TxsPool :=
  (c.accountOrder p.pending).foldlM (fun p addr => p.demoteAccount c addr) p

/-- `reset(oldBlock, newBlock)`: nothing when the walk returned early, else the gas limit of the
new head, the reinjected transactions added as remotes, then the forks of the next block -/
def reset (p : TxsPool) (req : ResetRequest) : Option TxsPool := do
  let some reinject := req.reinject | return p
  let p := { p with currentMaxGas := req.gasLimit }
  let (_, _, p) ← p.addTxsLocked c reinject false
  return { p with istanbul := req.istanbul, eip2718 := req.eip2718, eip1559 := req.eip1559 }

/-- the virtual nonces `runReorg` sets after a reset: one past the last pending transaction of
each account, whose list keeps the cache `LastElement()` fills; `LastElement()` of an empty list
reads `cache[-1]` -/
def pendingHeads (p : TxsPool) : Option ((Finmap fun _ : Address => UInt64) × TxsPool) :=
  (c.accountOrder p.pending).foldlM
    (fun (r : (Finmap fun _ : Address => UInt64) × TxsPool) addr =>
      match r.2.pending.lookup addr with
      | some list => (list.lastElement c.nonceOrder).map fun l =>
        (r.1.insert addr (l.2.nonce + 1), { r.2 with pending := r.2.pending.insert addr l.1 })
      | none => some r) (∅, p)

/-- `runReorg(done, reset, dirtyAccounts, events)` on the pool: with a reset, every queued
account is promoted, the pending lists demoted, the base fee set (`baseFee`, when London is
active at the next block) and the virtual nonces replaced; then both truncations -/
def runReorg (p : TxsPool) (req : Option ResetRequest) (dirtyAccounts : Option (Finset Address))
    (baseFee : Option U256) : Option (List Transaction × TxsPool) := do
  match req with
  | none =>
    let promoteAddrs := match dirtyAccounts with
      | some dirty => c.setOrder dirty
      | none => []
    let (promoted, p) ← p.promoteExecutables c promoteAddrs
    let p ← p.truncatePending c
    let p ← p.truncateQueue c
    return (promoted, { p with changesSinceReorg := 0 })
  | some req =>
    let p ← p.reset c req
    let (promoted, p) ← p.promoteExecutables c (c.accountOrder p.queue)
    let p ← p.demoteUnexecutables c
    let p ← match baseFee with
      | some fee =>
        (p.priced.setBaseFee p.all (c.remoteOrder p.all.remotes) (some fee)).map fun priced =>
          { p with priced }
      | none => some p
    let (nonces, p) ← p.pendingHeads c
    let p := { p with pendingNonces := TxNoncer.setAll nonces }
    let p ← p.truncatePending c
    let p ← p.truncateQueue c
    return (promoted, { p with changesSinceReorg := 0 })

/-- `NewTxsPool`: empty lists, lookup and heaps over the pool's configuration and chain -/
def newTxsPool (env : PoolEnv) : TxsPool :=
  { env with
    pendingNonces := ⟨∅⟩, locals := ∅, pending := ∅, queue := ∅, beats := ∅,
    all := TxLookup.empty, priced := TxPricedList.empty, changesSinceReorg := 0 }

end TxsPool

/-! ## a context that computes -/

/-- addresses, nonces and hashes as numbers, for an iteration order a kernel can run -/
def addressKey : Address ↪ ℕ := ⟨BitVec.toNat, fun _ _ h => BitVec.eq_of_toNat_eq h⟩

def nonceKey : UInt64 ↪ ℕ := ⟨UInt64.toNat, fun _ _ h => UInt64.toNat_inj.mp h⟩

def hashKey : Hash ↪ ℕ := ⟨BitVec.toNat, fun _ _ h => BitVec.eq_of_toNat_eq h⟩

/-- every `range` in increasing order of the keys, one of the orders Go may take -/
def sortedCtx (rlpHash : HashInput → Hash) (now : Nat) : PoolCtx where
  rlpHash
  nonceOrder items := KeyOrder.sort nonceKey items.keys.val
  accountOrder m := KeyOrder.sort addressKey m.keys.val
  remoteOrder m := KeyOrder.sort hashKey m.keys.val
  setOrder s := KeyOrder.sort addressKey s.val
  now

theorem sortedCtx_valid (rlpHash : HashInput → Hash) (now : Nat) :
    (sortedCtx rlpHash now).Valid where
  nonceOrder items := ⟨KeyOrder.nodup_sort _ items.keys.nodup, fun _ =>
    KeyOrder.mem_sort _ |>.trans Finmap.mem_keys⟩
  accountOrder m := ⟨KeyOrder.nodup_sort _ m.keys.nodup, fun _ =>
    KeyOrder.mem_sort _ |>.trans Finmap.mem_keys⟩
  remoteOrder m := ⟨KeyOrder.nodup_sort _ m.keys.nodup, fun _ =>
    KeyOrder.mem_sort _ |>.trans Finmap.mem_keys⟩
  setOrder s := ⟨KeyOrder.nodup_sort _ s.nodup, fun _ => KeyOrder.mem_sort _⟩

/-! ## a stale virtual nonce -/

/-- a state before a block, at nonce `3` for every account, and after it, at nonce `5` -/
def stateAtNonce (n : UInt64) : ReadState := ⟨fun _ => n, fun _ => BitVec.ofNat 256 (10 ^ 18)⟩

/-- a remote legacy transfer of nonce `5` from `sampleFrom` -/
def gapTx : Transaction :=
  ⟨.legacy
    { nonce := 5, gasPrice := 1, gas := 21000, toAddr := some sampleTo,
      fromAddr := some sampleFrom, value := 0, data := [], v := some 27, r := some 1,
      s := some 1, sign := [] }⟩

/-- `gapTx` added while the state is at nonce `3` (a gap: it is queued), the reorg of its
account, which reads the virtual nonce `3` of the account, a new head at nonce `5`, and the
reorg that resets to it -/
def staleNonceRun : Option TxsPool := do
  let c := sortedCtx nonceHash 0
  let p := TxsPool.newTxsPool { samplePool with currentState := stateAtNonce 3 }
  let (_, p) ← p.add c gapTx false
  let (_, p) ← p.runReorg c none (some {sampleFrom}) none
  let p := { p with currentState := stateAtNonce 5 }
  let (_, p) ← p.runReorg c (some ⟨some [], 30000000, true, true, true⟩) none none
  return p

set_option maxRecDepth 10000 in
/-- after the reset to the head at nonce `5` the transaction of nonce `5` is still queued, and
the virtual nonce of the account is `5`: the promotion ran from the stale virtual nonce `3`
that `get` had kept (`TxNoncer.get_get`), since `reset` no longer renews the noncer -/
theorem reorg_keeps_executable_queued :
    staleNonceRun.map (fun p => (((p.queue.lookup sampleFrom).map fun l => (l.txs.get 5).isSome),
      (p.pendingNonces.get p.currentState sampleFrom).1, p.currentState.getNonce sampleFrom)) =
      some (some true, 5, 5) := by
  decide

/-! ## the newest account evicted first -/

def newcomer : Address := BitVec.ofNat 160 0xc0ffee

/-- a remote legacy transfer of nonce `6` from `newcomer` -/
def newcomerTx : Transaction :=
  ⟨.legacy
    { nonce := 6, gasPrice := 1, gas := 21000, toAddr := some sampleTo,
      fromAddr := some newcomer, value := 0, data := [], v := some 27, r := some 1,
      s := some 1, sign := [] }⟩

/-- a pool with room for one queued transaction, on a state at nonce `3`: `gapTx` of
`sampleFrom` queued at time `1`, then `newcomerTx` queued at time `2` -/
def twoQueuedPool : Option TxsPool := do
  let p := TxsPool.newTxsPool
    { samplePool with currentState := stateAtNonce 3,
                      config := { defaultTxPoolConfig with globalQueue := 1 } }
  let (_, p) ← p.add (sortedCtx nonceHash 1) gapTx false
  let (_, p) ← p.add (sortedCtx nonceHash 2) newcomerTx false
  return p

set_option maxRecDepth 10000 in
/-- two remote accounts, each with one queued transaction, `sampleFrom` the older by its
heartbeat: `truncateQueue` drops the one transaction of `newcomer` and keeps that of
`sampleFrom`, so it evicts the most recently active account first -/
theorem truncateQueue_evicts_newest :
    twoQueuedPool.map (fun p => (p.beats.lookup sampleFrom, p.beats.lookup newcomer,
      (p.queue.lookup sampleFrom).isSome, (p.queue.lookup newcomer).isSome, p.locals)) =
      some (some 1, some 2, true, true, ∅) ∧
    (twoQueuedPool.bind (·.truncateQueue (sortedCtx nonceHash 2))).map (fun p =>
      ((p.queue.lookup sampleFrom).map fun l => (l.txs.get 5).isSome,
        (p.queue.lookup newcomer).isSome)) = some (some true, false) := by
  refine ⟨by decide, ?_⟩
  -- `mergeSort` recurses on a well-founded measure and does not reduce; the two accounts are
  -- already in heartbeat order, so the sort is dropped and the loop is run as it is
  have hloop : twoQueuedPool.bind (·.truncateQueue (sortedCtx nonceHash 2)) =
      twoQueuedPool.bind (TxsPool.truncateQueueLoop (sortedCtx nonceHash 2) 3 1
        [⟨sampleFrom, 1⟩, ⟨newcomer, 2⟩]) := by
    cases hp : twoQueuedPool with
    | none => rfl
    | some p =>
      have hv : twoQueuedPool.map (fun p => (TxsPool.countOf (sortedCtx nonceHash 2) p.queue,
          p.config.globalQueue.toNat,
          ((sortedCtx nonceHash 2).accountOrder p.queue).filterMap fun addr =>
            if addr ∉ p.locals then some (AddressByHeartbeat.mk addr ((p.beats.lookup addr).getD 0))
            else none)) = some (2, 1, [⟨sampleFrom, 1⟩, ⟨newcomer, 2⟩]) := by
        decide
      rw [hp, Option.map_some, Option.some.injEq, Prod.mk.injEq, Prod.mk.injEq] at hv
      obtain ⟨hq, hg, ha⟩ := hv
      have hs : TxsPool.sortByHeartbeat [⟨sampleFrom, 1⟩, ⟨newcomer, 2⟩] =
          [⟨sampleFrom, 1⟩, ⟨newcomer, 2⟩] :=
        TxsPool.sortByHeartbeat_of_sorted (by decide)
      simp only [Option.bind_some, TxsPool.truncateQueue, hq, hg, ha, hs]
      rfl
  rw [hloop]
  decide +kernel

end N42
