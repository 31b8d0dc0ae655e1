import N42.Lib.Once

/-!
# (key: download) The full sync of the downloader

`doSync(FullSync)` of `download.go` spawns five goroutines over the task lists, the result store
and the two response channels of the `Downloader`: `fetchHeaders` and `fetchBodies` send the
requests, `processHeaders` and `processBodies` take the answers of the peers, and
`processChain` inserts the blocks; `spawnSync` collects their five results and returns `nil`
only after five `nil`s.  The model is the whole system: the shared state, the locals of each
goroutine, and a step for one pass of the loop of any goroutine, for an answer of a peer, for
the cancel of the context and for the collector, in any interleaving (`Step`).

Four of the goroutines leave their loops by a test that needs their own `startProcess`, and
each sets it in a `d.once.Do` of the one `once` of the `Downloader`, which keeps its state from
one sync to the next.

* `sendTasks`, `expire`, `poolHeaders`, `collectBlocks`   the inner loops of the passes;
* `Inv`, `Inv.step`      the flags stay `Once.Gated`, and only a goroutine whose flag is set
                         returns `nil`, besides `fetchHeaders`;
* `doSync_never_nil`     in every run, the first or a later one, `doSync` does not return `nil`.
-/

namespace N42

namespace Download

/-- `maxBodiesFetch` -/
def maxBodiesFetch : Nat := 128

/-- `maxHeaderFetch` -/
def maxHeaderFetch : Nat := 192

/-- `maxResultsProcess` -/
def maxResultsProcess : Nat := 2048

/-- `Task`: a request of headers from `IndexBegin` on -/
structure Task where
  taskID : UInt64
  indexBegin : Nat
  deriving DecidableEq, Repr

/-- `blockTask`: a request of the bodies of the blocks `number` -/
structure BlockTask where
  taskID : UInt64
  number : List Nat
  deriving DecidableEq, Repr

/-- `headerResponse`, each header by its number -/
structure HeaderResponse where
  taskID : UInt64
  headers : List Nat
  deriving DecidableEq, Repr

/-- `bodyResponse`: each block message with the number of its header -/
structure BodyResponse (B : Type) where
  taskID : UInt64
  bodies : List (Nat × B)

/-- the calls of the downloader on `common.IBlockChain`, over chain states `C`, and
`block.FromProtoMessage` from messages `B` to blocks `Blk`; a `none` is an error -/
structure SyncEnv (B C Blk : Type) where
  currentNumber : C → Nat
  insertChain : C → List Blk → Option C
  fromProtoMessage : B → Option Blk

/-- the fields of `Downloader` the goroutines share; `ctx.Done()` is ready once `canceled` -/
structure Downloader (B C : Type) where
  bc : C
  highestNumber : Nat
  canceled : Bool
  once : Bool
  headerTasks : List Task
  headerProcessingTasks : Finmap fun _ : UInt64 => Task
  headerProcCh : List HeaderResponse
  blockProcCh : List (BodyResponse B)
  bodyTaskPool : List BlockTask
  bodyProcessingTasks : Finmap fun _ : UInt64 => BlockTask
  bodyResultStore : Finmap fun _ : Nat => B

/-- `NewDownloader`: empty tasks, maps and channels, a once that has not fired -/
def newDownloader (bc : C) (highestNumber : Nat) : Downloader B C :=
  ⟨bc, highestNumber, false, false, [], ∅, [], [], [], ∅, ∅⟩

/-- the five goroutines of `doSync(FullSync)`, in the order it appends them -/
inductive Fetcher
  | fetchHeaders | fetchBodies | processHeaders | processBodies | processChain
  deriving DecidableEq, Repr

instance : Fintype Fetcher :=
  ⟨{.fetchHeaders, .fetchBodies, .processHeaders, .processBodies, .processChain},
    fun f => by cases f <;> decide⟩

/-- `ErrCanceled`, and the error of `InsertChain` that `processChain` returns -/
inductive SyncError
  | canceled | insertChain
  deriving DecidableEq, Repr

/-- a goroutine still in its loop, or returned with its result -/
inductive Status
  | running
  | returned (err : Option SyncError)
  deriving DecidableEq, Repr

/-- the case a `select` takes: `ctx.Done()`, the receive of the goroutine's channel, or the
ticker -/
inductive Pick
  | done | recv | tick
  deriving DecidableEq, Repr

/-- a run of `doSync(FullSync)`: the downloader, its origin and head, the locals of the
goroutines (`startProcess` of the four that have one, the pool of `processHeaders`), and the
channel `errc` of `spawnSync` with the results it has read -/
structure SyncRun (B C : Type) where
  d : Downloader B C
  origin : Nat
  latest : Nat
  created : Bool
  status : Fetcher → Status
  startProcess : Fetcher → Bool
  headerNumberPool : List Nat
  errc : List (Option SyncError)
  received : Nat
  result : Option (Option SyncError)

/-! ## the inner loops -/

/-- the send loop of `fetchHeaders` and `fetchBodies`, one peer of the set a time: the first task
is sent, and on success moved to the processing map; the loop stops with no task left -/
def sendTasks {T : Type} (taskID : T → UInt64) :
    List Bool → List T → (Finmap fun _ : UInt64 => T) → List T × (Finmap fun _ : UInt64 => T)
  | _, [], m => ([], m)
  | [], ts, m => (ts, m)
  | true :: sent, t :: ts, m => sendTasks taskID sent ts (m.insert (taskID t) t)
  | false :: sent, t :: ts, m => sendTasks taskID sent (t :: ts) m

/-- the timeouts of `fetchHeaders`, in the order of the range over the map: a task that timed
out leaves the map for the end of the list -/
def expire : List UInt64 → List Task → (Finmap fun _ : UInt64 => Task) →
    List Task × (Finmap fun _ : UInt64 => Task)
  | [], ts, m => (ts, m)
  | taskID :: rest, ts, m =>
    match m.lookup taskID with
    | some t => expire rest (ts ++ [t]) (m.erase taskID)
    | none => expire rest ts m

/-- the loop of `processHeaders` over the headers of a response: each number into the pool, and
at `maxBodiesFetch` numbers the pool into a new task of bodies, of the random id `ids k` -/
def poolHeaders (ids : Nat → UInt64) :
    Nat → List Nat → List Nat → List BlockTask → List Nat × List BlockTask
  | _, [], pool, tasks => (pool, tasks)
  | k, n :: ns, pool, tasks =>
    if (pool ++ [n]).length ≥ maxBodiesFetch then
      poolHeaders ids (k + 1) ns [] (tasks ++ [⟨ids k, pool ++ [n]⟩])
    else poolHeaders ids k ns (pool ++ [n]) tasks

/-- the loop of `processChain` over `maxResultsProcess` numbers from `wantBlockNumber`: a block
in the store is taken out, and the loop breaks at one that does not convert; the number goes
up whether the store had it or not -/
def collectBlocks {B Blk : Type} (fromProtoMessage : B → Option Blk) :
    Nat → Nat → (Finmap fun _ : Nat => B) → List Blk → (Finmap fun _ : Nat => B) × List Blk
  | 0, _, store, blocks => (store, blocks)
  | i + 1, want, store, blocks =>
    match store.lookup want with
    | some msg =>
      match fromProtoMessage msg with
      | some block =>
        collectBlocks fromProtoMessage i (want + 1) (store.erase want) (blocks ++ [block])
      | none => (store, blocks)
    | none => collectBlocks fromProtoMessage i (want + 1) store blocks

/-- the pool of `processHeaders` becomes tasks of bodies only in whole groups of
`maxBodiesFetch` numbers: no number is lost or doubled, and what is left is a pool below it -/
theorem poolHeaders_spec (ids : Nat → UInt64) :
    ∀ (ns : List Nat) (k : Nat) (pool : List Nat) (tasks : List BlockTask),
      pool.length < maxBodiesFetch →
      ∃ new, (poolHeaders ids k ns pool tasks).2 = tasks ++ new ∧
        (∀ t ∈ new, t.number.length = maxBodiesFetch) ∧
        (new.map BlockTask.number).flatten ++ (poolHeaders ids k ns pool tasks).1 = pool ++ ns ∧
        (poolHeaders ids k ns pool tasks).1.length < maxBodiesFetch
  | [], k, pool, tasks, hpool => ⟨[], by simp [poolHeaders], by simp, by simp [poolHeaders],
      by simpa [poolHeaders] using hpool⟩
  | n :: ns, k, pool, tasks, hpool => by
    by_cases hfull : (pool ++ [n]).length ≥ maxBodiesFetch
    · -- a full pool: one task of `maxBodiesFetch` numbers, and a new empty pool
      obtain ⟨new, h₁, h₂, h₃, h₄⟩ :=
        poolHeaders_spec ids ns (k + 1) [] (tasks ++ [⟨ids k, pool ++ [n]⟩]) (by decide)
      rw [poolHeaders, if_pos hfull]
      refine ⟨⟨ids k, pool ++ [n]⟩ :: new, by rw [h₁, List.append_assoc, List.singleton_append],
        fun t ht => ?_, ?_, h₄⟩
      · rcases List.mem_cons.mp ht with rfl | ht
        · rw [List.length_append, List.length_singleton] at hfull ⊢
          omega
        · exact h₂ t ht
      · rw [List.map_cons, List.flatten_cons, List.append_assoc, h₃, List.nil_append,
          List.append_assoc, List.singleton_append]
    · obtain ⟨new, h₁, h₂, h₃, h₄⟩ :=
        poolHeaders_spec ids ns k (pool ++ [n]) tasks (Nat.lt_of_not_le hfull)
      rw [poolHeaders, if_neg hfull]
      exact ⟨new, h₁, h₂, by rw [h₃, List.append_assoc, List.singleton_append], h₄⟩

theorem collectBlocks_nil_store {B Blk : Type} (fromProtoMessage : B → Option Blk) :
    ∀ (n want : Nat) (blocks : List Blk),
      collectBlocks fromProtoMessage n want ∅ blocks = (∅, blocks)
  | 0, _, _ => rfl
  | n + 1, want, blocks => by
    rw [collectBlocks, Finmap.lookup_empty]
    exact collectBlocks_nil_store fromProtoMessage n (want + 1) blocks

/-- the loop only appends to the batch -/
theorem collectBlocks_prefix {B Blk : Type} (fromProtoMessage : B → Option Blk) :
    ∀ (n want : Nat) (store : Finmap fun _ : Nat => B) (blocks : List Blk),
      ∃ rest, (collectBlocks fromProtoMessage n want store blocks).2 = blocks ++ rest
  | 0, _, _, blocks => ⟨[], by rw [collectBlocks, List.append_nil]⟩
  | n + 1, want, store, blocks => by
    rw [collectBlocks]
    split
    · split
      · rename_i block _
        obtain ⟨rest, h⟩ := collectBlocks_prefix fromProtoMessage n (want + 1) (store.erase want)
          (blocks ++ [block])
        exact ⟨block :: rest, by rw [h, List.append_assoc, List.singleton_append]⟩
      · exact ⟨[], (List.append_nil _).symm⟩
    · exact collectBlocks_prefix fromProtoMessage n (want + 1) store blocks

/-- **The batch of `processChain`.**  When every message of the store converts, the blocks are
those of the store at the numbers from `wantBlockNumber` on, in order, with a number the store
lacks skipped and not a stop -/
theorem collectBlocks_spec {B Blk : Type} (fromProtoMessage : B → Option Blk) :
    ∀ (n want : Nat) (store : Finmap fun _ : Nat => B) (blocks : List Blk),
      (∀ k msg, store.lookup k = some msg → (fromProtoMessage msg).isSome) →
      (collectBlocks fromProtoMessage n want store blocks).2 =
        blocks ++ (List.range' want n).filterMap fun k => (store.lookup k).bind fromProtoMessage
  | 0, _, _, _, _ => by rw [collectBlocks, List.range'_zero, List.filterMap_nil, List.append_nil]
  | n + 1, want, store, blocks, hconv => by
    -- the numbers after `want` see the same store whether `want` was taken out or not
    have hrest : ∀ store' : Finmap fun _ : Nat => B, (∀ k, want < k → store'.lookup k = store.lookup k) →
        ((List.range' (want + 1) n).filterMap fun k => (store'.lookup k).bind fromProtoMessage) =
          (List.range' (want + 1) n).filterMap fun k => (store.lookup k).bind fromProtoMessage :=
      fun store' hs => List.filterMap_congr fun k hk => by
        rw [hs k (by have := (List.mem_range'_1.mp hk).1; omega)]
    rw [collectBlocks, List.range'_succ, List.filterMap_cons]
    cases hw : store.lookup want with
    | none =>
      simp only [Option.bind_none]
      exact collectBlocks_spec fromProtoMessage n (want + 1) store blocks hconv
    | some msg =>
      obtain ⟨block, hb⟩ := Option.isSome_iff_exists.mp (hconv want msg hw)
      simp only [Option.bind_some, hb]
      have herase : ∀ k msg', (store.erase want).lookup k = some msg' →
          (fromProtoMessage msg').isSome := fun k msg' h' => by
        by_cases hk : k = want
        · rw [hk, Finmap.lookup_erase] at h'
          cases h'
        · rw [Finmap.lookup_erase_ne hk] at h'
          exact hconv k msg' h'
      rw [collectBlocks_spec fromProtoMessage n (want + 1) (store.erase want) (blocks ++ [block])
        herase, hrest _ fun k hk => Finmap.lookup_erase_ne (by omega), List.append_assoc,
        List.singleton_append]

/-- a gap in the store does not stop the batch: with the blocks of `want` and `want + 2` and
none of `want + 1`, the batch `InsertChain` is given has the block of `want + 2` right after
that of `want` -/
theorem collectBlocks_skips_gap {B Blk : Type} {fromProtoMessage : B → Option Blk}
    {store : Finmap fun _ : Nat => B} {want : Nat} {m₀ m₂ : B} {b₀ b₂ : Blk}
    (h₀ : store.lookup want = some m₀) (h₁ : store.lookup (want + 1) = none)
    (h₂ : store.lookup (want + 2) = some m₂) (hb₀ : fromProtoMessage m₀ = some b₀)
    (hb₂ : fromProtoMessage m₂ = some b₂) (n : Nat) :
    ∃ rest, (collectBlocks fromProtoMessage (n + 3) want store []).2 = b₀ :: b₂ :: rest := by
  have h₁' : (store.erase want).lookup (want + 1) = none := by
    rw [Finmap.lookup_erase_ne (by omega)]
    exact h₁
  have h₂' : (store.erase want).lookup (want + 1 + 1) = some m₂ := by
    rw [Finmap.lookup_erase_ne (by omega)]
    exact h₂
  simp only [collectBlocks, h₀, hb₀, h₁', h₂', hb₂, List.nil_append]
  obtain ⟨rest, h⟩ := collectBlocks_prefix fromProtoMessage n (want + 1 + 1 + 1)
    ((store.erase want).erase (want + 1 + 1)) ([b₀] ++ [b₂])
  exact ⟨rest, by rw [h]; rfl⟩

namespace SyncRun

variable {B C Blk : Type}

/-- `doSync(FullSync)` up to the spawn: the origin is the current block, the head the highest
number known; every goroutine in its loop, every `startProcess` false -/
def doSync (env : SyncEnv B C Blk) (d : Downloader B C) : SyncRun B C :=
  ⟨d, env.currentNumber d.bc, d.highestNumber, false, fun _ => .running, fun _ => false, [], [], 0,
    none⟩

/-- a goroutine returns `err`, which its wrapper of `spawnSync` sends on `errc` -/
def ret (s : SyncRun B C) (f : Fetcher) (err : Option SyncError) : SyncRun B C :=
  { s with status := Function.update s.status f (.returned err), errc := s.errc ++ [err] }

/-- `d.once.Do(func() { startProcess = true })` by the goroutine `f` -/
def doOnce (s : SyncRun B C) (f : Fetcher) : SyncRun B C :=
  { s with d := { s.d with once := (Once.call s.d.once s.startProcess f).1 },
           startProcess := (Once.call s.d.once s.startProcess f).2 }

/-- the end of a pass: `ctx.Done()` returns `ErrCanceled`, the ticker goes round -/
def select (s : SyncRun B C) (f : Fetcher) : Pick → SyncRun B C
  | .done => s.ret f (some .canceled)
  | _ => s

/-- the tasks `fetchHeaders` creates, `maxHeaderFetch` numbers each, from the one after the
origin to the head -/
def createHeaderTasks (s : SyncRun B C) (ids : Nat → UInt64) : SyncRun B C :=
  let count := (s.latest - (s.origin + 1)) / maxHeaderFetch + 1
  { s with created := true,
           d := { s.d with headerTasks := s.d.headerTasks ++ (List.range count).map fun i =>
             ⟨ids i, s.origin + 1 + maxHeaderFetch * i⟩ } }

/-- a pass of the loop of `fetchHeaders` -/
def fetchHeaders (s : SyncRun B C) (sent : List Bool) (expired : List UInt64) (pick : Pick) :
    SyncRun B C :=
  if s.d.headerTasks = [] ∧ s.d.headerProcessingTasks.keys.card = 0 then s.ret .fetchHeaders none
  else
    let r := sendTasks Task.taskID sent s.d.headerTasks s.d.headerProcessingTasks
    let r := expire expired r.1 r.2
    ({ s with d := { s.d with headerTasks := r.1, headerProcessingTasks := r.2 } }).select
      .fetchHeaders pick

/-- a pass of the loop of `fetchBodies` -/
def fetchBodies (s : SyncRun B C) (sent : List Bool) (pick : Pick) : SyncRun B C :=
  if s.startProcess .fetchBodies ∧ s.d.bodyTaskPool = [] ∧
      s.d.bodyProcessingTasks.keys.card = 0 then s.ret .fetchBodies none
  else
    let s := s.doOnce .fetchBodies
    let r := sendTasks BlockTask.taskID sent s.d.bodyTaskPool s.d.bodyProcessingTasks
    ({ s with d := { s.d with bodyTaskPool := r.1, bodyProcessingTasks := r.2 } }).select
      .fetchBodies pick

/-- a pass of the loop of `processHeaders`; the last pool becomes a task only on its way out -/
def processHeaders (s : SyncRun B C) (ids : Nat → UInt64) (pick : Pick) : SyncRun B C :=
  if s.startProcess .processHeaders ∧ s.d.headerTasks = [] ∧
      s.d.headerProcessingTasks.keys.card = 0 then
    let pool := if s.headerNumberPool = [] then s.d.bodyTaskPool
      else s.d.bodyTaskPool ++ [⟨ids 0, s.headerNumberPool⟩]
    ({ s with d := { s.d with bodyTaskPool := pool } }).ret .processHeaders none
  else
    match pick, s.d.headerProcCh with
    | .recv, task :: rest =>
      let s := s.doOnce .processHeaders
      let r := poolHeaders ids 0 task.headers s.headerNumberPool s.d.bodyTaskPool
      { s with headerNumberPool := r.1,
               d := { s.d with headerProcCh := rest, bodyTaskPool := r.2,
                               headerProcessingTasks := s.d.headerProcessingTasks.erase task.taskID } }
    | pick, _ => s.select .processHeaders pick

/-- a pass of the loop of `processBodies` -/
def processBodies (s : SyncRun B C) (pick : Pick) : SyncRun B C :=
  if s.startProcess .processBodies ∧ s.d.bodyTaskPool = [] ∧
      s.d.bodyProcessingTasks.keys.card = 0 then s.ret .processBodies none
  else
    match pick, s.d.blockProcCh with
    | .recv, response :: rest =>
      let s := s.doOnce .processBodies
      { s with d := { s.d with blockProcCh := rest,
                               bodyProcessingTasks := s.d.bodyProcessingTasks.erase response.taskID,
                               bodyResultStore := response.bodies.foldl
                                 (fun store b => store.insert b.1 b.2) s.d.bodyResultStore } }
    | pick, _ => s.select .processBodies pick

/-- a pass of the loop of `processChain` -/
def processChain (env : SyncEnv B C Blk) (s : SyncRun B C) (pick : Pick) : SyncRun B C :=
  if s.startProcess .processChain ∧ s.d.bodyResultStore.keys.card = 0 ∧ s.d.bodyTaskPool = [] ∧
      s.d.bodyProcessingTasks.keys.card = 0 ∧ s.d.headerTasks = [] ∧
      s.d.headerProcessingTasks.keys.card = 0 then s.ret .processChain none
  else
    let s := s.doOnce .processChain
    match pick with
    | .tick =>
      let r := collectBlocks env.fromProtoMessage maxResultsProcess
        (env.currentNumber s.d.bc + 1) s.d.bodyResultStore []
      if r.2 = [] then s
      else
        match env.insertChain s.d.bc r.2 with
        | some bc => { s with d := { s.d with bodyResultStore := r.1, bc } }
        | none => ({ s with d := { s.d with bodyResultStore := r.1 } }).ret .processChain
            (some .insertChain)
    | pick => s.select .processChain pick

/-- the loop of `spawnSync` reads one result: an error ends it, and so does the fifth `nil`;
then `Close` cancels the context -/
def collect (s : SyncRun B C) : SyncRun B C :=
  match s.errc with
  | [] => s
  | some err :: rest =>
    { s with errc := rest, result := some (some err), d := { s.d with canceled := true } }
  | none :: rest =>
    if s.received + 1 = 5 then
      { s with errc := rest, received := 5, result := some none, d := { s.d with canceled := true } }
    else { s with errc := rest, received := s.received + 1 }

/-! ## steps -/

/-- what a step of the run is: a pass of a goroutine with what its environment gives it (the
random ids, the peers a send reached, the tasks that timed out, the case of its `select`), an
answer of a peer put on a channel by `ConnHandler`, the cancel of the context, or a read of
the collector -/
inductive Choice (B : Type)
  | createHeaderTasks (ids : Nat → UInt64)
  | fetchHeaders (sent : List Bool) (expired : List UInt64) (pick : Pick)
  | fetchBodies (sent : List Bool) (pick : Pick)
  | processHeaders (ids : Nat → UInt64) (pick : Pick)
  | processBodies (pick : Pick)
  | processChain (pick : Pick)
  | answerHeaders (r : HeaderResponse)
  | answerBodies (r : BodyResponse B)
  | cancel
  | collect

/-- a `select` can take `pick`: `ctx.Done()` once canceled, a receive on a channel with a
value, the ticker always -/
def ready (s : SyncRun B C) (hasValue : Bool) : Pick → Bool
  | .done => s.d.canceled
  | .recv => hasValue
  | .tick => true

/-- one step, `none` where it cannot be taken -/
def step (env : SyncEnv B C Blk) (s : SyncRun B C) : Choice B → Option (SyncRun B C)
  | .createHeaderTasks ids =>
    if s.status .fetchHeaders = .running ∧ s.created = false then some (s.createHeaderTasks ids)
    else none
  | .fetchHeaders sent expired pick =>
    if s.status .fetchHeaders = .running ∧ s.created = true ∧ s.ready false pick = true then
      some (s.fetchHeaders sent expired pick)
    else none
  | .fetchBodies sent pick =>
    if s.status .fetchBodies = .running ∧ s.ready false pick = true then
      some (s.fetchBodies sent pick)
    else none
  | .processHeaders ids pick =>
    if s.status .processHeaders = .running ∧ s.ready (s.d.headerProcCh ≠ []) pick = true then
      some (s.processHeaders ids pick)
    else none
  | .processBodies pick =>
    if s.status .processBodies = .running ∧ s.ready (s.d.blockProcCh ≠ []) pick = true then
      some (s.processBodies pick)
    else none
  | .processChain pick =>
    if s.status .processChain = .running ∧ s.ready false pick = true then
      some (s.processChain env pick)
    else none
  | .answerHeaders r => some { s with d := { s.d with headerProcCh := s.d.headerProcCh ++ [r] } }
  | .answerBodies r => some { s with d := { s.d with blockProcCh := s.d.blockProcCh ++ [r] } }
  | .cancel => some { s with d := { s.d with canceled := true } }
  | .collect => if s.result = none then some s.collect else none

/-- the step relation of the run -/
def Step (env : SyncEnv B C Blk) (s s' : SyncRun B C) : Prop := ∃ ch, s.step env ch = some s'

/-- the run along a schedule, skipping what cannot be taken -/
def run (env : SyncEnv B C Blk) : SyncRun B C → List (Choice B) → SyncRun B C
  | s, [] => s
  | s, ch :: chs => run env ((s.step env ch).getD s) chs

theorem run_reachable (env : SyncEnv B C Blk) :
    ∀ (s : SyncRun B C) (chs : List (Choice B)), Relation.ReflTransGen (Step env) s (run env s chs)
  | s, [] => Relation.ReflTransGen.refl
  | s, ch :: chs => by
    rw [run]
    cases h : s.step env ch with
    | none => exact run_reachable env s chs
    | some s' => exact Relation.ReflTransGen.head ⟨ch, h⟩ (run_reachable env s' chs)

/-! ## the invariant -/

/-- the goroutines that have returned `nil` -/
def nilReturned (s : SyncRun B C) : Finset Fetcher :=
  Finset.univ.filter fun f => s.status f = .returned none

/-- what every step keeps: the once gates the flags, `fetchHeaders` has none, only a goroutine
whose flag is set returns `nil` but `fetchHeaders`, and the collector has counted no more
`nil`s than were returned, five when it returns `nil` -/
structure Inv (s : SyncRun B C) : Prop where
  gate : Once.Gated s.d.once s.startProcess
  headers : s.startProcess .fetchHeaders = false
  started : ∀ f, f ≠ .fetchHeaders → s.status f = .returned none → s.startProcess f = true
  count : s.received + s.errc.count none ≤ (nilReturned s).card
  result : s.result = some none → s.received = 5

theorem inv_doSync (env : SyncEnv B C Blk) (d : Downloader B C) : Inv (doSync env d) where
  gate := Once.gated_clear _
  headers := rfl
  started _ _ h := absurd h (by simp [doSync])
  count := Nat.zero_le _
  result h := absurd h (by simp [doSync])

/-- a step that moves only data keeps the invariant -/
theorem Inv.congr {s s' : SyncRun B C} (h : Inv s) (honce : s'.d.once = s.d.once)
    (hflags : s'.startProcess = s.startProcess) (hstatus : s'.status = s.status)
    (herrc : s'.errc = s.errc) (hrec : s'.received = s.received) (hres : s'.result = s.result) :
    Inv s' := by
  have hnil : nilReturned s' = nilReturned s := by rw [nilReturned, nilReturned, hstatus]
  refine ⟨?_, ?_, ?_, ?_, ?_⟩
  · rw [honce, hflags]
    exact h.gate
  · rw [hflags]
    exact h.headers
  · rw [hflags, hstatus]
    exact h.started
  · rw [hnil, herrc, hrec]
    exact h.count
  · rw [hres, hrec]
    exact h.result

theorem nilReturned_ret_none {s : SyncRun B C} {f : Fetcher} :
    nilReturned (s.ret f none) = insert f (nilReturned s) := by
  ext g
  simp only [nilReturned, Finset.mem_filter, Finset.mem_univ, true_and, Finset.mem_insert]
  show Function.update s.status f (.returned none) g = _ ↔ _
  by_cases hg : g = f
  · subst hg
    simp only [Function.update_self, true_or]
  · simp only [Function.update_of_ne hg, hg, false_or]

theorem nilReturned_ret_some {s : SyncRun B C} {f : Fetcher} (hf : s.status f = .running)
    (err : SyncError) : nilReturned (s.ret f (some err)) = nilReturned s := by
  ext g
  simp only [nilReturned, Finset.mem_filter, Finset.mem_univ, true_and]
  show Function.update s.status f (.returned (some err)) g = _ ↔ _
  by_cases hg : g = f
  · subst hg
    simp only [Function.update_self, hf, Status.returned.injEq, reduceCtorEq]
  · simp only [Function.update_of_ne hg]

/-- a goroutine in its loop returns: with `nil` only if its flag is set or it is
`fetchHeaders` -/
theorem Inv.ret {s : SyncRun B C} (h : Inv s) {f : Fetcher} (hf : s.status f = .running)
    {err : Option SyncError} (hnil : err = none → f ≠ .fetchHeaders → s.startProcess f = true) :
    Inv (s.ret f err) := by
  have hnotin : f ∉ nilReturned s := by simp [nilReturned, hf]
  refine ⟨h.gate, h.headers, fun g hg hret => ?_, ?_, h.result⟩
  · by_cases hgf : g = f
    · subst hgf
      simp only [SyncRun.ret, Function.update_self, Status.returned.injEq] at hret
      exact hnil hret hg
    · simp only [SyncRun.ret, Function.update_of_ne hgf] at hret
      exact h.started g hg hret
  · cases err with
    | none =>
      have hc := h.count
      rw [nilReturned_ret_none, Finset.card_insert_of_notMem hnotin]
      simp only [SyncRun.ret, List.count_append, List.count_singleton_self]
      omega
    | some err =>
      rw [nilReturned_ret_some hf]
      simpa [SyncRun.ret] using h.count

theorem Inv.doOnce {s : SyncRun B C} (h : Inv s) {f : Fetcher} (hf : f ≠ .fetchHeaders) :
    Inv (s.doOnce f) where
  gate := h.gate.call f
  headers := by
    show (Once.call s.d.once s.startProcess f).2 .fetchHeaders = false
    rw [Once.call_flag_of_ne hf.symm]
    exact h.headers
  started g hg hret := Once.call_flag_of (h.started g hg hret) f
  count := h.count
  result := h.result

theorem Inv.select {s : SyncRun B C} (h : Inv s) {f : Fetcher} (hf : s.status f = .running)
    (pick : Pick) : Inv (s.select f pick) := by
  cases pick with
  | done => exact h.ret hf fun h => absurd h (Option.some_ne_none _)
  | recv => exact h
  | tick => exact h

/-! ## one step -/

theorem Inv.createHeaderTasks {s : SyncRun B C} (h : Inv s) (ids : Nat → UInt64) :
    Inv (s.createHeaderTasks ids) :=
  h.congr rfl rfl rfl rfl rfl rfl

theorem Inv.fetchHeaders {s : SyncRun B C} (h : Inv s) (hf : s.status .fetchHeaders = .running)
    (sent : List Bool) (expired : List UInt64) (pick : Pick) :
    Inv (s.fetchHeaders sent expired pick) := by
  unfold SyncRun.fetchHeaders
  split
  · exact h.ret hf fun _ hne => absurd rfl hne
  · dsimp only
    refine Inv.select ?_ ?_ pick
    · exact h.congr rfl rfl rfl rfl rfl rfl
    · exact hf

theorem Inv.fetchBodies {s : SyncRun B C} (h : Inv s) (hf : s.status .fetchBodies = .running)
    (sent : List Bool) (pick : Pick) : Inv (s.fetchBodies sent pick) := by
  unfold SyncRun.fetchBodies
  split
  · rename_i hexit
    exact h.ret hf fun _ _ => hexit.1
  · have h₁ := h.doOnce (f := .fetchBodies) (by decide)
    dsimp only
    refine Inv.select ?_ ?_ pick
    · exact h₁.congr rfl rfl rfl rfl rfl rfl
    · exact hf

theorem Inv.processHeaders {s : SyncRun B C} (h : Inv s)
    (hf : s.status .processHeaders = .running) (ids : Nat → UInt64) (pick : Pick) :
    Inv (s.processHeaders ids pick) := by
  unfold SyncRun.processHeaders
  split
  · rename_i hexit
    dsimp only
    refine Inv.ret ?_ ?_ fun _ _ => hexit.1
    · exact h.congr rfl rfl rfl rfl rfl rfl
    · exact hf
  · split
    · exact (h.doOnce (by decide)).congr rfl rfl rfl rfl rfl rfl
    · exact h.select hf _

theorem Inv.processBodies {s : SyncRun B C} (h : Inv s)
    (hf : s.status .processBodies = .running) (pick : Pick) : Inv (s.processBodies pick) := by
  unfold SyncRun.processBodies
  split
  · rename_i hexit
    exact h.ret hf fun _ _ => hexit.1
  · split
    · exact (h.doOnce (by decide)).congr rfl rfl rfl rfl rfl rfl
    · exact h.select hf _

theorem Inv.processChain {s : SyncRun B C} (h : Inv s) (env : SyncEnv B C Blk)
    (hf : s.status .processChain = .running) (pick : Pick) : Inv (s.processChain env pick) := by
  unfold SyncRun.processChain
  split
  · rename_i hexit
    exact h.ret hf fun _ _ => hexit.1
  · have h₁ := h.doOnce (f := .processChain) (by decide)
    -- the pass after the `Do`: the ticker inserts what the store has, `ctx.Done()` returns
    split
    · dsimp only
      split
      · exact h₁
      · split
        · exact h₁.congr rfl rfl rfl rfl rfl rfl
        · refine Inv.ret ?_ ?_ fun hn => absurd hn (Option.some_ne_none _)
          · exact h₁.congr rfl rfl rfl rfl rfl rfl
          · exact hf
    · exact h₁.select hf _

theorem Inv.collect {s : SyncRun B C} (h : Inv s) (hnone : s.result = none) : Inv s.collect := by
  unfold SyncRun.collect
  have hc := h.count
  split
  · exact h
  · rename_i err rest herrc
    rw [herrc, List.count_cons_of_ne (Option.some_ne_none err)] at hc
    refine ⟨h.gate, h.headers, h.started, ?_, fun hr => absurd hr (by simp)⟩
    show s.received + rest.count none ≤ (nilReturned s).card
    exact hc
  · rename_i rest herrc
    rw [herrc, List.count_cons_self] at hc
    split
    · refine ⟨h.gate, h.headers, h.started, ?_, fun _ => rfl⟩
      show 5 + rest.count none ≤ (nilReturned s).card
      omega
    · refine ⟨h.gate, h.headers, h.started, ?_, fun hr => ?_⟩
      · show s.received + 1 + rest.count none ≤ (nilReturned s).card
        omega
      · change s.result = some none at hr
        rw [hnone] at hr
        cases hr

/-- **A step keeps the invariant**, whichever goroutine takes it, with whatever the
environment gives it -/
theorem Inv.step {env : SyncEnv B C Blk} {s s' : SyncRun B C} (h : Inv s) (ch : Choice B)
    (hs : s.step env ch = some s') : Inv s' := by
  cases ch with
  | createHeaderTasks ids =>
    simp only [SyncRun.step] at hs
    split at hs
    · cases hs
      exact h.createHeaderTasks ids
    · cases hs
  | fetchHeaders sent expired pick =>
    simp only [SyncRun.step] at hs
    split at hs
    · rename_i hr
      cases hs
      exact h.fetchHeaders hr.1 sent expired pick
    · cases hs
  | fetchBodies sent pick =>
    simp only [SyncRun.step] at hs
    split at hs
    · rename_i hr
      cases hs
      exact h.fetchBodies hr.1 sent pick
    · cases hs
  | processHeaders ids pick =>
    simp only [SyncRun.step] at hs
    split at hs
    · rename_i hr
      cases hs
      exact h.processHeaders hr.1 ids pick
    · cases hs
  | processBodies pick =>
    simp only [SyncRun.step] at hs
    split at hs
    · rename_i hr
      cases hs
      exact h.processBodies hr.1 pick
    · cases hs
  | processChain pick =>
    simp only [SyncRun.step] at hs
    split at hs
    · rename_i hr
      cases hs
      exact h.processChain env hr.1 pick
    · cases hs
  | answerHeaders r =>
    cases hs
    exact h.congr rfl rfl rfl rfl rfl rfl
  | answerBodies r =>
    cases hs
    exact h.congr rfl rfl rfl rfl rfl rfl
  | cancel =>
    cases hs
    exact h.congr rfl rfl rfl rfl rfl rfl
  | collect =>
    simp only [SyncRun.step] at hs
    split at hs
    · rename_i hr
      cases hs
      exact h.collect hr
    · cases hs

/-- at most two goroutines return `nil`: `fetchHeaders`, and the one the once chose -/
theorem Inv.received_le_two {s : SyncRun B C} (h : Inv s) : s.received ≤ 2 := by
  have hsub : nilReturned s ⊆ insert .fetchHeaders (Finset.univ.filter fun f => s.startProcess f = true) := by
    intro f hf
    rw [Finset.mem_insert, Finset.mem_filter]
    by_cases hfh : f = .fetchHeaders
    · exact Or.inl hfh
    · exact Or.inr ⟨Finset.mem_univ _, h.started f hfh (Finset.mem_filter.mp hf).2⟩
  calc s.received ≤ (nilReturned s).card := Nat.le_of_add_right_le h.count
    _ ≤ (insert .fetchHeaders (Finset.univ.filter fun f => s.startProcess f = true)).card :=
      Finset.card_le_card hsub
    _ ≤ (Finset.univ.filter fun f => s.startProcess f = true).card + 1 := Finset.card_insert_le _ _
    _ ≤ 2 := Nat.add_le_add_right h.gate.card_le_one 1

/-- **`doSync` never returns `nil`.**  In every run of `doSync(FullSync)`, from any state of the
downloader (a fresh one, or one a sync has run on), under any interleaving and any answers of
the peers, the collector of `spawnSync` never reads five `nil`s: of the four goroutines that
share the once, only the first caller's `startProcess` is ever set, the other three leave their
loops only through `ctx.Done()` with `ErrCanceled`, and `doSync` returns `nil` only when all
five return `nil` -/
theorem doSync_never_nil (env : SyncEnv B C Blk) (d : Downloader B C) {s : SyncRun B C}
    (h : Relation.ReflTransGen (Step env) (doSync env d) s) : s.result ≠ some none := by
  have hinv : Inv s := reachable_inv (inv_doSync env d) (fun _ _ ha ⟨ch, hch⟩ => ha.step ch hch) h
  intro hr
  have h5 := hinv.result hr
  have h2 := hinv.received_le_two
  omega

end SyncRun

/-! ## a run that stalls -/

/-- a chain of numbered blocks: `InsertChain` takes the blocks that follow the head in order -/
def numberChain : SyncEnv Nat Nat Nat where
  currentNumber := id
  insertChain head blocks :=
    if blocks = List.range' (head + 1) blocks.length then some (head + blocks.length) else none
  fromProtoMessage := some

/-- a first sync from block `0` to `2` where the peers answer: `fetchBodies` calls the once first
and returns at once, the headers `1` and `2` arrive and `fetchHeaders` returns; the pool of
`processHeaders` never becomes a task of bodies, since its `startProcess` stays false -/
def stalledRun : SyncRun Nat Nat :=
  SyncRun.run numberChain (SyncRun.doSync numberChain (newDownloader 0 2))
    [.createHeaderTasks fun _ => 7, .fetchBodies [] .tick, .fetchBodies [] .tick, .collect,
      .fetchHeaders [true] [] .tick, .answerHeaders ⟨7, [1, 2]⟩,
      .processHeaders (fun _ => 8) .recv, .fetchHeaders [] [] .tick, .collect,
      .processHeaders (fun _ => 8) .tick, .processBodies .tick, .processChain .tick]

example : stalledRun.received = 2 ∧ stalledRun.headerNumberPool = [1, 2] ∧
    stalledRun.d.bodyTaskPool = [] ∧ stalledRun.status .processHeaders = .running ∧
    stalledRun.status .processBodies = .running ∧ stalledRun.status .processChain = .running := by
  decide +kernel

theorem doSync_never_nil_stalled :
    Relation.ReflTransGen (SyncRun.Step numberChain)
        (SyncRun.doSync numberChain (newDownloader 0 2)) stalledRun ∧
      stalledRun.result ≠ some none :=
  ⟨SyncRun.run_reachable _ _ _, SyncRun.doSync_never_nil _ _ (SyncRun.run_reachable _ _ _)⟩

end Download

end N42
