import N42.Common.Block
import N42.Lib.Monad

/-!
# (key: snapshot) The authorization snapshot of the signer votes

`internal/consensus/apos/snapshot.go`: a snapshot holds the signer set, the recent signers (block
number to signer, for the spam window of `len(Signers)/2 + 1` blocks), the votes cast since the
last checkpoint and their tally.  `apply` folds headers into it: a checkpoint clears the votes,
the oldest recent signer is evicted, the sealer must be a signer outside the window, its earlier
vote on the same account is replaced, and a vote with a strict majority adds or removes the
account, a removal taking back every vote the removed signer cast.

* `TallyOf`             the tally as a count of the votes; `tallyOf_iff` says it per address;
* `Snapshot.Consistent`   (a) to (c) of the bookkeeping and one block per recent signer, kept by
                        each step of an iteration (`Consistent.discardVote`, `.castVote`,
                        `.passVote`, ...);
* `applyHeader_eq_ok`   everything a successful iteration does;
* `consistent_of_reachable`   every snapshot `apply` builds from `newSnapshot` is consistent;
* `signers_card_le_applyHeader`   a header removes at most one signer.
-/
namespace N42

namespace Apos

section Ascending

variable {α : Type} [LE α] [DecidableRel fun a b : α => a ≤ b] [IsTrans α fun a b => a ≤ b]
  [Std.Antisymm fun a b : α => a ≤ b] [Std.Total fun a b : α => a ≤ b]

/-- a finite set in ascending order, sorted by insertion so that the kernel can run it -/
def ascending (s : Finset α) : List α :=
  Quot.liftOn s.val (List.insertionSort (· ≤ ·)) fun _ _ h =>
    ((List.perm_insertionSort _ _).trans (h.trans (List.perm_insertionSort _ _).symm)).eq_of_pairwise'
      (List.pairwise_insertionSort _ _) (List.pairwise_insertionSort _ _)

theorem length_ascending (s : Finset α) : (ascending s).length = s.card := by
  obtain ⟨⟨l⟩, _⟩ := s
  exact (List.perm_insertionSort _ l).length_eq

end Ascending

/-- the errors of `apply` and `verifySeal` -/
inductive SnapError where
  | errUnknownBlock
  | errInvalidVotingChain
  | errUnauthorizedSigner
  | errRecentlySigned
  | errInvalidVote
  | errWrongDifficulty
  /-- what `ecrecover` returns for a seal it cannot recover -/
  | ecrecover (msg : String)
  /-- the runtime panic of an integer division by zero -/
  | panic
deriving DecidableEq, Repr

structure Vote where
  signer : Address
  block : UInt64
  address : Address
  authorize : Bool
deriving DecidableEq, Repr

structure Tally where
  authorize : Bool
  votes : Nat
deriving DecidableEq, Repr

/-- `Recents`, block number to signer -/
abbrev Recents := Finmap fun _ : UInt64 => Address

/-- `Snapshot`, without the configuration and the signature cache it points to -/
structure Snapshot where
  number : UInt64
  hash : Hash
  signers : Finset Address
  recents : Recents
  votes : List Vote
  tally : Address → Option Tally

/-- what `apply` and `verifySeal` read besides the snapshot: the configured `Epoch`, which `New`
makes positive (a zero becomes `epochLength`), `ecrecover` and the header hash -/
structure SnapEnv where
  epoch : UInt64
  epoch_pos : 0 < epoch
  ecrecover : Header → Except String Address
  hash : Header → Hash

def nonceAuthVote : BlockNonce := 0xffffffffffffffff
def nonceDropVote : BlockNonce := 0
def diffInTurn : U256 := 2
def diffNoTurn : U256 := 1

def newSnapshot (number : UInt64) (hash : Hash) (signers : List Address) : Snapshot :=
  ⟨number, hash, signers.toFinset, ∅, [], fun _ => none⟩

namespace Snapshot

def validVote (s : Snapshot) (address : Address) (authorize : Bool) : Bool :=
  let signer := decide (address ∈ s.signers)
  (signer && !authorize) || (!signer && authorize)

/-- the entry `cast` writes: one more vote on an existing tally, or a new tally of one -/
def castEntry (old : Option Tally) (authorize : Bool) : Tally :=
  match old with
  | some old => { old with votes := old.votes + 1 }
  | none => ⟨authorize, 1⟩

/-- `cast`; `none` where it returns false and leaves the tally alone -/
def cast (s : Snapshot) (address : Address) (authorize : Bool) : Option Snapshot :=
  if s.validVote address authorize then
    some { s with
      tally := Function.update s.tally address (some (castEntry (s.tally address) authorize)) }
  else none

def uncast (s : Snapshot) (address : Address) (authorize : Bool) : Snapshot :=
  { s with
    tally := match s.tally address with
      | none => s.tally
      | some tally =>
        if tally.authorize ≠ authorize then s.tally
        else if tally.votes > 1 then
          Function.update s.tally address (some { tally with votes := tally.votes - 1 })
        else Function.update s.tally address none }

/-- `uint64(len(snap.Signers)/2 + 1)` -/
def limit (s : Snapshot) : UInt64 := UInt64.ofNat (s.signers.card / 2 + 1)

/-- `if number >= limit { delete(snap.Recents, number-limit) }` -/
def evict (number : UInt64) (s : Snapshot) : Snapshot :=
  { s with recents := if number ≥ s.limit then s.recents.erase (number - s.limit) else s.recents }

/-- the loop of `apply` over `snap.Recents` looking for the signer -/
def recentlySigned (s : Snapshot) (signer : Address) : Bool :=
  decide (∃ k ∈ s.recents.keys, s.recents.lookup k = some signer)

/-- the votes and the tally a checkpoint clears -/
def resetVotes (s : Snapshot) : Snapshot := { s with votes := [], tally := fun _ => none }

def sameVote (signer address : Address) (v : Vote) : Bool :=
  v.signer == signer && v.address == address

/-- the loop that takes back the signer's earlier vote on the header's coinbase; the `break`
after the first match deletes the first vote equal to it -/
def discardVote (signer address : Address) (s : Snapshot) : Snapshot :=
  match s.votes.find? (sameVote signer address) with
  | none => s
  | some vote => { s.uncast vote.address vote.authorize with votes := s.votes.erase vote }

/-- `if snap.cast(header.Coinbase, authorize) { snap.Votes = append(...) }` -/
def castVote (signer : Address) (number : UInt64) (address : Address) (authorize : Bool)
    (s : Snapshot) : Snapshot :=
  match s.cast address authorize with
  | some s' => { s' with votes := s'.votes ++ [⟨signer, number, address, authorize⟩] }
  | none => s

/-- the votes in `votes` taken back from the tally, one after the other -/
def uncastAll (s : Snapshot) (votes : List Vote) : Snapshot :=
  votes.foldl (fun s v => s.uncast v.address v.authorize) s

/-- the loop that takes back every vote the deauthorized signer cast -/
def dropVotesBy (who : Address) (s : Snapshot) : Snapshot :=
  { s.uncastAll (s.votes.filter (·.signer == who)) with votes := s.votes.filter (·.signer != who) }

/-- the end of one iteration of `apply`: a vote with a strict majority adds or removes the
account, and every vote on it is dropped -/
def passVote (number : UInt64) (address : Address) (s : Snapshot) : Snapshot :=
  let tally := (s.tally address).getD ⟨false, 0⟩
  if tally.votes > s.signers.card / 2 then
    let s := if tally.authorize then { s with signers := insert address s.signers }
      else dropVotesBy address (evict number { s with signers := s.signers.erase address })
    { s with
      votes := s.votes.filter (·.address != address)
      tally := Function.update s.tally address none }
  else s

end Snapshot

/-- the `switch` on the header nonce -/
def voteOf (nonce : BlockNonce) : Except SnapError Bool :=
  if nonce = nonceAuthVote then .ok true
  else if nonce = nonceDropVote then .ok false
  else .error .errInvalidVote

open Snapshot in
/-- one iteration of the loop of `apply` -/
def applyHeader (env : SnapEnv) (snap : Snapshot) (header : Header) :
    Except SnapError Snapshot := do
  let number := header.number64
  let snap := if number % env.epoch = 0 then snap.resetVotes else snap
  let snap := evict number snap
  let signer ← (env.ecrecover header).mapError .ecrecover
  Except.failIf (signer ∉ snap.signers) .errUnauthorizedSigner
  Except.failIf (snap.recentlySigned signer = true) .errRecentlySigned
  let snap := { snap with recents := snap.recents.insert number signer }
  let snap := discardVote signer header.coinbase snap
  let authorize ← voteOf header.nonce
  pure (passVote number header.coinbase (castVote signer number header.coinbase authorize snap))

/-- the sanity check of `apply`: each header numbered one above the one before -/
def contiguous : List Header → Bool
  | h₁ :: h₂ :: hs => h₂.number64 == h₁.number64 + 1 && contiguous (h₂ :: hs)
  | _ => true

/-- `Snapshot.apply(headers)` -/
def apply (env : SnapEnv) (s : Snapshot) (headers : List Header) : Except SnapError Snapshot :=
  match headers with
  | [] => .ok s
  | h :: hs =>
    if !contiguous (h :: hs) then .error .errInvalidVotingChain
    else if h.number64 ≠ s.number + 1 then .error .errInvalidVotingChain
    else do
      let snap ← (h :: hs).foldlM (applyHeader env) s
      pure { snap with
        number := snap.number + UInt64.ofNat (hs.length + 1)
        hash := env.hash ((h :: hs).getLast (List.cons_ne_nil h hs)) }

namespace Snapshot

/-- `inturn`; `none` for the panic of `number % 0` on an empty signer set -/
def inturn (s : Snapshot) (number : UInt64) (signer : Address) : Option Bool :=
  let signers := ascending s.signers
  let offset := signers.idxOf signer
  if signers.length = 0 then none
  else some (number % UInt64.ofNat signers.length == UInt64.ofNat offset)

/-- `calcDifficulty`, which `Prepare` and `CalcDifficulty` call; `none` where `inturn` panics -/
def calcDifficulty (s : Snapshot) (signer : Address) : Option U256 :=
  (s.inturn (s.number + 1) signer).map fun b => if b then diffInTurn else diffNoTurn

end Snapshot

/-- the snapshots `apply` builds from `newSnapshot` -/
inductive Reachable (env : SnapEnv) : Snapshot → Prop
  | newSnapshot (number : UInt64) (hash : Hash) (signers : List Address) :
      Reachable env (newSnapshot number hash signers)
  | apply {s s' : Snapshot} {headers : List Header} :
      Reachable env s → apply env s headers = .ok s' → Reachable env s'

/-! ## The tally against the votes -/

/-- the tally entry of one address against the votes on it -/
def EntryFor : Option Tally → List Vote → Prop
  | none, vs => vs = []
  | some τ, vs => τ.votes = vs.length ∧ 0 < τ.votes ∧ ∀ v ∈ vs, v.authorize = τ.authorize

/-- (a) of the bookkeeping: `tally` has an entry for exactly the addresses some vote is on, it
counts those votes, and they all go the entry's way -/
structure TallyOf (tally : Address → Option Tally) (votes : List Vote) : Prop where
  isSome_iff : ∀ a, (tally a).isSome ↔ ∃ v ∈ votes, v.address = a
  count : ∀ a t, tally a = some t → t.votes = votes.countP (·.address == a)
  agree : ∀ a t, tally a = some t → ∀ v ∈ votes, v.address = a → v.authorize = t.authorize

/-- the votes on one address -/
def votesOn (a : Address) (votes : List Vote) : List Vote := votes.filter (·.address == a)

@[simp] theorem mem_votesOn {a : Address} {votes : List Vote} {v : Vote} :
    v ∈ votesOn a votes ↔ v ∈ votes ∧ v.address = a := by
  simp [votesOn]

theorem votesOn_cons_self (v : Vote) (votes : List Vote) :
    votesOn v.address (v :: votes) = v :: votesOn v.address votes := by
  simp [votesOn]

theorem votesOn_cons_of_ne {a : Address} {v : Vote} (h : v.address ≠ a) (votes : List Vote) :
    votesOn a (v :: votes) = votesOn a votes := by
  simp [votesOn, h]

theorem votesOn_append (a : Address) (l l' : List Vote) :
    votesOn a (l ++ l') = votesOn a l ++ votesOn a l' := List.filter_append _ _

theorem tallyOf_iff {tally : Address → Option Tally} {votes : List Vote} :
    TallyOf tally votes ↔ ∀ a, EntryFor (tally a) (votesOn a votes) := by
  constructor
  · intro h a
    cases ht : tally a with
    | none =>
      have hnone := (h.isSome_iff a).not.mp (by simp [ht])
      simp only [EntryFor, votesOn, List.filter_eq_nil_iff, beq_iff_eq]
      exact fun v hv hva => hnone ⟨v, hv, hva⟩
    | some τ =>
      obtain ⟨v, hv, hva⟩ := (h.isSome_iff a).mp (by simp [ht])
      have hc := h.count a τ ht
      rw [List.countP_eq_length_filter] at hc
      refine ⟨hc, ?_, fun w hw => h.agree a τ ht w (mem_votesOn.mp hw).1 (mem_votesOn.mp hw).2⟩
      rw [hc, List.length_pos_iff_exists_mem]
      exact ⟨v, mem_votesOn.mpr ⟨hv, hva⟩⟩
  · intro h
    refine ⟨fun a => ?_, fun a τ ht => ?_, fun a τ ht v hv hva => ?_⟩
    · have ha := h a
      cases ht : tally a with
      | none =>
        rw [ht] at ha
        simp only [EntryFor, votesOn, List.filter_eq_nil_iff, beq_iff_eq] at ha
        simpa using ha
      | some τ =>
        rw [ht] at ha
        obtain ⟨hc, hpos, -⟩ := ha
        obtain ⟨v, hv⟩ := List.exists_mem_of_length_pos (hc ▸ hpos)
        exact ⟨fun _ => ⟨v, (mem_votesOn.mp hv).1, (mem_votesOn.mp hv).2⟩, fun _ => rfl⟩
    · have ha := h a
      rw [ht] at ha
      rw [List.countP_eq_length_filter]
      exact ha.1
    · have ha := h a
      rw [ht] at ha
      exact ha.2.2 v (mem_votesOn.mpr ⟨hv, hva⟩)

namespace TallyOf

variable {tally : Address → Option Tally} {votes : List Vote}

theorem nil : TallyOf (fun _ => none) [] where
  isSome_iff _ := by simp
  count _ _ h := by cases h
  agree _ _ h := by cases h

theorem perm {votes' : List Vote} (h : TallyOf tally votes) (hp : votes.Perm votes') :
    TallyOf tally votes' where
  isSome_iff a := by
    rw [h.isSome_iff a]
    exact exists_congr fun v => and_congr_left' hp.mem_iff
  count a t ht := by rw [h.count a t ht, hp.countP_eq]
  agree a t ht v hv := h.agree a t ht v (hp.mem_iff.mpr hv)

/-- a new vote of an existing tally's way, or on an address with no tally -/
theorem cast {a : Address} {b : Bool} (h : TallyOf tally votes)
    (hway : ∀ t, tally a = some t → t.authorize = b) (signer : Address) (number : UInt64) :
    TallyOf (Function.update tally a (some (Snapshot.castEntry (tally a) b)))
      (votes ++ [⟨signer, number, a, b⟩]) := by
  rw [tallyOf_iff] at h ⊢
  intro c
  by_cases hc : c = a
  · subst hc
    have hw : votesOn c [⟨signer, number, c, b⟩] = [⟨signer, number, c, b⟩] := by simp [votesOn]
    rw [Function.update_self, votesOn_append, hw]
    have hc := h c
    cases ht : tally c with
    | none =>
      rw [ht] at hc
      simp only [EntryFor] at hc
      simp [Snapshot.castEntry, EntryFor, hc]
    | some t =>
      rw [ht] at hc
      obtain ⟨hcount, -, hagree⟩ := hc
      refine ⟨by simp [Snapshot.castEntry, hcount], by simp [Snapshot.castEntry], ?_⟩
      intro v hv
      rcases List.mem_append.mp hv with hv | hv
      · exact hagree v hv
      · simp only [List.mem_singleton] at hv
        subst hv
        exact (hway t ht).symm
  · have hw : votesOn c [⟨signer, number, a, b⟩] = [] := by simp [votesOn, Ne.symm hc]
    rw [Function.update_of_ne hc, votesOn_append, hw, List.append_nil]
    exact h c

/-- every vote on `a` dropped, and its tally with them -/
theorem dropAddress (h : TallyOf tally votes) (a : Address) :
    TallyOf (Function.update tally a none) (votes.filter (·.address != a)) := by
  rw [tallyOf_iff] at h ⊢
  intro c
  by_cases hc : c = a
  · subst hc
    rw [Function.update_self]
    simp [EntryFor, votesOn]
  · rw [Function.update_of_ne hc]
    have hsame : votesOn c (votes.filter (·.address != a)) = votesOn c votes := by
      simp only [votesOn, List.filter_filter]
      congr 1
      funext v
      by_cases hv : v.address = c
      · simp [hv, hc]
      · simp [hv]
    rw [hsame]
    exact h c

end TallyOf

namespace Snapshot

variable (s : Snapshot)

@[simp] theorem uncast_signers (a : Address) (b : Bool) : (s.uncast a b).signers = s.signers := rfl
@[simp] theorem uncast_recents (a : Address) (b : Bool) : (s.uncast a b).recents = s.recents := rfl
@[simp] theorem uncast_votes (a : Address) (b : Bool) : (s.uncast a b).votes = s.votes := rfl
@[simp] theorem uncast_number (a : Address) (b : Bool) : (s.uncast a b).number = s.number := rfl

theorem uncast_tally_of_ne {a c : Address} (h : c ≠ a) (b : Bool) :
    (s.uncast a b).tally c = s.tally c := by
  unfold uncast
  split
  · rfl
  · dsimp only
    split
    · rfl
    · split <;> exact Function.update_of_ne h _ _

theorem uncast_tally_of_some {a : Address} {t : Tally} (ht : s.tally a = some t) :
    (s.uncast a t.authorize).tally a =
      if t.votes > 1 then some { t with votes := t.votes - 1 } else none := by
  simp only [uncast, ht, ne_eq, not_true_eq_false, if_false]
  split <;> simp

end Snapshot

namespace TallyOf

variable {votes : List Vote}

/-- the first vote of the list taken back -/
theorem uncast_cons {s : Snapshot} {v : Vote} (h : TallyOf s.tally (v :: votes)) :
    TallyOf (s.uncast v.address v.authorize).tally votes := by
  rw [tallyOf_iff] at h ⊢
  intro c
  by_cases hc : c = v.address
  · subst hc
    have hv := h v.address
    rw [votesOn_cons_self] at hv
    cases ht : s.tally v.address with
    | none =>
      rw [ht] at hv
      cases hv
    | some t =>
      rw [ht] at hv
      obtain ⟨hcount, -, hagree⟩ := hv
      have hway : v.authorize = t.authorize := hagree v List.mem_cons_self
      rw [hway, s.uncast_tally_of_some ht]
      simp only [List.length_cons] at hcount
      split
      · exact ⟨by simp; omega, by simp; omega, fun w hw => hagree w (List.mem_cons_of_mem _ hw)⟩
      · exact List.eq_nil_of_length_eq_zero (by omega)
  · rw [s.uncast_tally_of_ne hc, ← votesOn_cons_of_ne (Ne.symm hc)]
    exact h c

/-- a vote of the list taken back -/
theorem erase {s : Snapshot} {v : Vote} (h : TallyOf s.tally votes) (hv : v ∈ votes) :
    TallyOf (s.uncast v.address v.authorize).tally (votes.erase v) :=
  (h.perm (List.perm_cons_erase hv)).uncast_cons

/-- the votes of a prefix taken back one after the other -/
theorem uncastAll {s : Snapshot} {pre : List Vote} (h : TallyOf s.tally (pre ++ votes)) :
    TallyOf (s.uncastAll pre).tally votes := by
  induction pre generalizing s with
  | nil => exact h
  | cons v pre ih => exact ih h.uncast_cons

/-- every vote of one signer taken back -/
theorem dropVotesBy {s : Snapshot} (h : TallyOf s.tally s.votes) (who : Address) :
    TallyOf (Snapshot.dropVotesBy who s).tally (Snapshot.dropVotesBy who s).votes :=
  uncastAll (h.perm (List.filter_append_perm (·.signer == who) s.votes).symm)

end TallyOf

namespace Snapshot

variable (s : Snapshot)

@[simp] theorem uncastAll_signers (vs : List Vote) : (s.uncastAll vs).signers = s.signers := by
  induction vs generalizing s with
  | nil => rfl
  | cons v vs ih => exact ih _

@[simp] theorem uncastAll_recents (vs : List Vote) : (s.uncastAll vs).recents = s.recents := by
  induction vs generalizing s with
  | nil => rfl
  | cons v vs ih => exact ih _

@[simp] theorem uncastAll_number (vs : List Vote) : (s.uncastAll vs).number = s.number := by
  induction vs generalizing s with
  | nil => rfl
  | cons v vs ih => exact ih _

@[simp] theorem evict_signers (n : UInt64) : (evict n s).signers = s.signers := rfl
@[simp] theorem evict_votes (n : UInt64) : (evict n s).votes = s.votes := rfl
@[simp] theorem evict_tally (n : UInt64) : (evict n s).tally = s.tally := rfl
@[simp] theorem evict_number (n : UInt64) : (evict n s).number = s.number := rfl

theorem lookup_evict {n k : UInt64} {a : Address} (h : (evict n s).recents.lookup k = some a) :
    s.recents.lookup k = some a := by
  unfold evict at h
  split at h
  · by_cases hk : k = n - s.limit
    · subst hk
      rw [Finmap.lookup_erase] at h
      cases h
    · rwa [Finmap.lookup_erase_ne hk] at h
  · exact h

@[simp] theorem resetVotes_signers : s.resetVotes.signers = s.signers := rfl
@[simp] theorem resetVotes_recents : s.resetVotes.recents = s.recents := rfl
@[simp] theorem resetVotes_number : s.resetVotes.number = s.number := rfl

@[simp] theorem dropVotesBy_signers (who : Address) : (dropVotesBy who s).signers = s.signers := by
  simp [dropVotesBy]
@[simp] theorem dropVotesBy_recents (who : Address) : (dropVotesBy who s).recents = s.recents := by
  simp [dropVotesBy]
@[simp] theorem dropVotesBy_number (who : Address) : (dropVotesBy who s).number = s.number := by
  simp [dropVotesBy]
@[simp] theorem dropVotesBy_votes (who : Address) :
    (dropVotesBy who s).votes = s.votes.filter (·.signer != who) := rfl

/-- `discardVote` leaves the snapshot alone or takes back one vote -/
theorem discardVote_cases (signer address : Address) :
    discardVote signer address s = s ∧ (∀ v ∈ s.votes, sameVote signer address v = false) ∨
      ∃ vote ∈ s.votes, sameVote signer address vote = true ∧
        discardVote signer address s = { s.uncast vote.address vote.authorize with
          votes := s.votes.erase vote } := by
  unfold discardVote
  split
  · next hnone =>
    exact .inl ⟨rfl, fun v hv => by simpa using List.find?_eq_none.mp hnone v hv⟩
  · next vote hvote =>
    exact .inr ⟨vote, List.mem_of_find?_eq_some hvote, List.find?_some hvote, rfl⟩

@[simp] theorem discardVote_signers (signer address : Address) :
    (discardVote signer address s).signers = s.signers := by
  rcases discardVote_cases s signer address with ⟨h, -⟩ | ⟨vote, -, -, h⟩
  · rw [h]
  · rw [h]
    rfl

@[simp] theorem discardVote_recents (signer address : Address) :
    (discardVote signer address s).recents = s.recents := by
  rcases discardVote_cases s signer address with ⟨h, -⟩ | ⟨vote, -, -, h⟩
  · rw [h]
  · rw [h]
    rfl

theorem validVote_eq_true {a : Address} {b : Bool} :
    s.validVote a b = true ↔ (b = true ↔ a ∉ s.signers) := by
  unfold validVote
  by_cases ha : a ∈ s.signers <;> cases b <;> simp [ha]

/-- `castVote` leaves the snapshot alone or counts and appends a meaningful vote -/
theorem castVote_cases (signer : Address) (number : UInt64) (address : Address) (b : Bool) :
    castVote signer number address b s = s ∨
      s.validVote address b = true ∧ castVote signer number address b s = { s with
        votes := s.votes ++ [⟨signer, number, address, b⟩]
        tally := Function.update s.tally address (some (castEntry (s.tally address) b)) } := by
  unfold castVote cast
  by_cases hv : s.validVote address b = true
  · rw [if_pos hv]
    exact .inr ⟨hv, rfl⟩
  · rw [if_neg hv]
    exact .inl rfl

@[simp] theorem castVote_signers (signer : Address) (number : UInt64) (address : Address)
    (b : Bool) : (castVote signer number address b s).signers = s.signers := by
  rcases castVote_cases s signer number address b with h | ⟨-, h⟩ <;> rw [h]

@[simp] theorem castVote_recents (signer : Address) (number : UInt64) (address : Address)
    (b : Bool) : (castVote signer number address b s).recents = s.recents := by
  rcases castVote_cases s signer number address b with h | ⟨-, h⟩ <;> rw [h]

/-- `passVote` leaves the snapshot alone, adds the account, or removes it -/
theorem passVote_cases (number : UInt64) (a : Address) :
    passVote number a s = s ∨
      passVote number a s = { s with
        signers := insert a s.signers
        votes := s.votes.filter (·.address != a)
        tally := Function.update s.tally a none } ∨
      passVote number a s =
        let s' := dropVotesBy a (evict number { s with signers := s.signers.erase a })
        { s' with
          votes := s'.votes.filter (·.address != a)
          tally := Function.update s'.tally a none } := by
  unfold passVote
  dsimp only
  split
  · split
    · exact .inr (.inl rfl)
    · exact .inr (.inr rfl)
  · exact .inl rfl

end Snapshot

/-! ## The bookkeeping invariant -/

/-- (a) to (c) of the bookkeeping and the first half of (d): the tally counts the votes, no
signer votes twice on one account, every vote is by a signer and still meaningful, and no signer
is recent at two block numbers -/
structure Snapshot.Consistent (s : Snapshot) : Prop where
  tally : TallyOf s.tally s.votes
  unique : (s.votes.map fun v => (v.signer, v.address)).Nodup
  signer_mem : ∀ v ∈ s.votes, v.signer ∈ s.signers
  valid : ∀ v ∈ s.votes, (v.authorize = true ↔ v.address ∉ s.signers)
  recents_inj : ∀ k₁ k₂ a, s.recents.lookup k₁ = some a → s.recents.lookup k₂ = some a → k₁ = k₂

namespace Snapshot.Consistent

variable {s s' : Snapshot}

theorem newSnapshot (number : UInt64) (hash : Hash) (signers : List Address) :
    (Apos.newSnapshot number hash signers).Consistent where
  tally := TallyOf.nil
  unique := List.nodup_nil
  signer_mem _ h := by cases h
  valid _ h := by cases h
  recents_inj _ _ _ h := by simp [Apos.newSnapshot] at h

/-- what a step keeps that drops votes, shrinks the recents and changes the signer set only
away from the remaining votes' accounts -/
theorem of_sublist (hs : s.Consistent) (ht : TallyOf s'.tally s'.votes)
    (hsub : s'.votes.Sublist s.votes)
    (hsig : ∀ v ∈ s'.votes, v.signer ∈ s.signers → v.signer ∈ s'.signers)
    (hacc : ∀ v ∈ s'.votes, (v.address ∈ s'.signers ↔ v.address ∈ s.signers))
    (hrec : ∀ k a, s'.recents.lookup k = some a → s.recents.lookup k = some a) :
    s'.Consistent where
  tally := ht
  unique := hs.unique.sublist (hsub.map _)
  signer_mem v hv := hsig v hv (hs.signer_mem v (hsub.subset hv))
  valid v hv := by
    rw [hacc v hv]
    exact hs.valid v (hsub.subset hv)
  recents_inj k₁ k₂ a h₁ h₂ := hs.recents_inj k₁ k₂ a (hrec k₁ a h₁) (hrec k₂ a h₂)

theorem resetVotes (hs : s.Consistent) : s.resetVotes.Consistent :=
  hs.of_sublist TallyOf.nil (List.nil_sublist _) (fun _ h => by cases h) (fun _ h => by cases h)
    (fun _ _ h => h)

theorem evict (hs : s.Consistent) (n : UInt64) : (Snapshot.evict n s).Consistent :=
  hs.of_sublist hs.tally (List.Sublist.refl _) (fun _ _ h => h) (fun _ _ => Iff.rfl)
    (fun _ _ h => s.lookup_evict h)

theorem setRecent (hs : s.Consistent) {signer : Address} (hfresh : s.recentlySigned signer = false)
    (n : UInt64) : { s with recents := s.recents.insert n signer }.Consistent where
  tally := hs.tally
  unique := hs.unique
  signer_mem := hs.signer_mem
  valid := hs.valid
  recents_inj k₁ k₂ a h₁ h₂ := by
    have hold : ∀ k, s.recents.lookup k ≠ some signer := by
      intro k hk
      have : ∃ k ∈ s.recents.keys, s.recents.lookup k = some signer :=
        ⟨k, Finmap.mem_keys.mpr (Finmap.mem_of_lookup_eq_some hk), hk⟩
      simp [recentlySigned, this] at hfresh
    dsimp only at h₁ h₂
    by_cases hk₁ : k₁ = n <;> by_cases hk₂ : k₂ = n
    · rw [hk₁, hk₂]
    · rw [hk₁, Finmap.lookup_insert] at h₁
      rw [Finmap.lookup_insert_of_ne _ hk₂, ← h₁] at h₂
      exact absurd h₂ (hold k₂)
    · rw [hk₂, Finmap.lookup_insert] at h₂
      rw [Finmap.lookup_insert_of_ne _ hk₁, ← h₂] at h₁
      exact absurd h₁ (hold k₁)
    · rw [Finmap.lookup_insert_of_ne _ hk₁] at h₁
      rw [Finmap.lookup_insert_of_ne _ hk₂] at h₂
      exact hs.recents_inj k₁ k₂ a h₁ h₂

theorem discardVote (hs : s.Consistent) (signer address : Address) :
    (Snapshot.discardVote signer address s).Consistent := by
  rcases s.discardVote_cases signer address with ⟨h, -⟩ | ⟨vote, hvote, -, h⟩
  · rw [h]
    exact hs
  · rw [h]
    exact hs.of_sublist (hs.tally.erase hvote) List.erase_sublist (fun _ _ h => h)
      (fun _ _ => Iff.rfl) (fun _ _ h => h)

/-- after `discardVote` the signer has no vote on the account left -/
theorem discardVote_fresh (hs : s.Consistent) (signer address : Address) :
    ∀ v ∈ (Snapshot.discardVote signer address s).votes, sameVote signer address v = false := by
  rcases s.discardVote_cases signer address with ⟨h, hnone⟩ | ⟨vote, hvote, hsame, h⟩
  · rw [h]
    exact hnone
  · rw [h]
    intro v hv
    -- the erased vote carries the pair, and the pairs are distinct
    have hnd := (hs.unique.perm ((List.perm_cons_erase hvote).map _))
    rw [List.map_cons, List.nodup_cons] at hnd
    simp only [sameVote, Bool.and_eq_true, beq_iff_eq] at hsame ⊢
    by_contra hv'
    simp only [Bool.not_eq_false, Bool.and_eq_true, beq_iff_eq] at hv'
    apply hnd.1
    exact List.mem_map.mpr ⟨v, hv, by rw [hv'.1, hv'.2, hsame.1, hsame.2]⟩

theorem castVote (hs : s.Consistent) {signer address : Address} {number : UInt64} {b : Bool}
    (hsigner : signer ∈ s.signers)
    (hfresh : ∀ v ∈ s.votes, sameVote signer address v = false) :
    (Snapshot.castVote signer number address b s).Consistent := by
  rcases s.castVote_cases signer number address b with h | ⟨hvalid, h⟩
  · rw [h]
    exact hs
  · rw [h]
    rw [s.validVote_eq_true] at hvalid
    refine ⟨?_, ?_, ?_, ?_, hs.recents_inj⟩
    · -- an existing tally on the account goes the new vote's way: both are meaningful
      refine hs.tally.cast (fun t ht => ?_) signer number
      obtain ⟨v, hv, hva⟩ := (hs.tally.isSome_iff address).mp (by simp [ht])
      rw [← hs.tally.agree address t ht v hv hva, Bool.eq_iff_iff, hs.valid v hv, hva, hvalid]
    · rw [List.map_append, List.nodup_append]
      refine ⟨hs.unique, List.nodup_singleton _, ?_⟩
      intro p hp q hq
      obtain ⟨v, hv, rfl⟩ := List.mem_map.mp hp
      simp only [List.map_cons, List.map_nil, List.mem_singleton] at hq
      subst hq
      intro heq
      have := hfresh v hv
      simp only [sameVote, Prod.mk.injEq] at heq this
      simp [heq] at this
    · intro v hv
      rcases List.mem_append.mp hv with hv | hv
      · exact hs.signer_mem v hv
      · simp only [List.mem_singleton] at hv
        rw [hv]
        exact hsigner
    · intro v hv
      rcases List.mem_append.mp hv with hv | hv
      · exact hs.valid v hv
      · simp only [List.mem_singleton] at hv
        rw [hv]
        exact hvalid

theorem passVote (hs : s.Consistent) (number : UInt64) (a : Address) :
    (Snapshot.passVote number a s).Consistent := by
  rcases s.passVote_cases number a with h | h | h <;> rw [h]
  · exact hs
  · -- the account joins the signers: no remaining vote is on it
    refine hs.of_sublist (hs.tally.dropAddress a) (List.filter_sublist) ?_ ?_ (fun _ _ h => h)
    · exact fun _ _ h => Finset.mem_insert_of_mem h
    · intro v hv
      have hva : v.address ≠ a := by simpa using (List.mem_filter.mp hv).2
      simp [hva]
  · -- the account leaves the signers: no remaining vote is by it or on it
    have ht : TallyOf (Snapshot.evict number { s with signers := s.signers.erase a }).tally
        (Snapshot.evict number { s with signers := s.signers.erase a }).votes := hs.tally
    refine hs.of_sublist ((ht.dropVotesBy a).dropAddress a)
      (List.filter_sublist.trans List.filter_sublist) ?_ ?_ ?_
    · intro v hv hmem
      simp only [dropVotesBy_votes, evict_votes, List.mem_filter, bne_iff_ne, ne_eq] at hv
      simp [Finset.mem_erase, hv.1.2, hmem]
    · intro v hv
      simp only [dropVotesBy_votes, evict_votes, List.mem_filter, bne_iff_ne, ne_eq] at hv
      simp [Finset.mem_erase, hv.2]
    · intro k b hk
      simp only [dropVotesBy_recents] at hk
      exact Snapshot.lookup_evict { s with signers := s.signers.erase a } hk

end Snapshot.Consistent

/-! ## One header, and a run of them -/

namespace Snapshot

/-- the first two steps of an iteration of `apply`: the checkpoint reset and the eviction -/
def beginHeader (env : SnapEnv) (number : UInt64) (s : Snapshot) : Snapshot :=
  evict number (if number % env.epoch = 0 then s.resetVotes else s)

variable (s : Snapshot)

@[simp] theorem beginHeader_signers (env : SnapEnv) (n : UInt64) :
    (beginHeader env n s).signers = s.signers := by
  unfold beginHeader
  split <;> rfl

@[simp] theorem beginHeader_number (env : SnapEnv) (n : UInt64) :
    (beginHeader env n s).number = s.number := by
  unfold beginHeader
  split <;> rfl

theorem beginHeader_recents (env : SnapEnv) (n : UInt64) :
    (beginHeader env n s).recents = (evict n s).recents := by
  unfold beginHeader
  split <;> rfl

theorem Consistent.beginHeader {s : Snapshot} (hs : s.Consistent) (env : SnapEnv) (n : UInt64) :
    (Snapshot.beginHeader env n s).Consistent := by
  unfold Snapshot.beginHeader
  split
  · exact hs.resetVotes.evict n
  · exact hs.evict n

@[simp] theorem discardVote_number (signer address : Address) :
    (discardVote signer address s).number = s.number := by
  rcases discardVote_cases s signer address with ⟨h, -⟩ | ⟨vote, -, -, h⟩
  · rw [h]
  · rw [h]
    rfl

@[simp] theorem castVote_number (signer : Address) (number : UInt64) (address : Address)
    (b : Bool) : (castVote signer number address b s).number = s.number := by
  rcases castVote_cases s signer number address b with h | ⟨-, h⟩ <;> rw [h]

@[simp] theorem passVote_number (number : UInt64) (a : Address) :
    (passVote number a s).number = s.number := by
  rcases passVote_cases s number a with h | h | h
  · rw [h]
  · rw [h]
  · rw [h]
    simp

end Snapshot

open Snapshot

/-- everything a successful iteration does -/
theorem applyHeader_eq_ok {env : SnapEnv} {s s' : Snapshot} {header : Header} :
    applyHeader env s header = .ok s' ↔
      ∃ signer authorize, env.ecrecover header = .ok signer ∧ signer ∈ s.signers ∧
        (beginHeader env header.number64 s).recentlySigned signer = false ∧
        voteOf header.nonce = .ok authorize ∧
        s' = passVote header.number64 header.coinbase
          (castVote signer header.number64 header.coinbase authorize
            (discardVote signer header.coinbase
              { beginHeader env header.number64 s with
                recents := (beginHeader env header.number64 s).recents.insert header.number64
                  signer })) := by
  unfold applyHeader
  simp only [Except.bind_eq_ok_iff, Except.mapError_eq_ok_iff, Except.failIf_eq_ok_iff,
    Except.pure_eq_ok_iff]
  constructor
  · rintro ⟨signer, hrec, -, hmem, -, hfresh, authorize, hvote, rfl⟩
    refine ⟨signer, authorize, hrec, ?_, Bool.eq_false_iff.mpr hfresh, hvote, rfl⟩
    rw [← s.beginHeader_signers env header.number64]
    exact not_not.mp hmem
  · rintro ⟨signer, authorize, hrec, hmem, hfresh, hvote, rfl⟩
    have hmem' : signer ∈ (beginHeader env header.number64 s).signers := by
      rw [beginHeader_signers]
      exact hmem
    exact ⟨signer, hrec, (), not_not.mpr hmem', (), Bool.eq_false_iff.mp hfresh, authorize, hvote,
      rfl⟩

theorem applyHeader_number {env : SnapEnv} {s s' : Snapshot} {header : Header}
    (h : applyHeader env s header = .ok s') : s'.number = s.number := by
  obtain ⟨signer, authorize, -, -, -, -, rfl⟩ := applyHeader_eq_ok.mp h
  simp

theorem Snapshot.Consistent.applyHeader {env : SnapEnv} {s s' : Snapshot} {header : Header}
    (hs : s.Consistent) (h : applyHeader env s header = .ok s') : s'.Consistent := by
  obtain ⟨signer, authorize, -, hsigner, hfresh, -, rfl⟩ := applyHeader_eq_ok.mp h
  have hrec := (hs.beginHeader env header.number64).setRecent hfresh header.number64
  refine ((hrec.discardVote signer header.coinbase).castVote ?_
    (hrec.discardVote_fresh signer header.coinbase)).passVote _ _
  simpa using hsigner

theorem contiguous_cons (h : Header) (hs : List Header) :
    contiguous (h :: hs) = true ↔
      contiguous hs = true ∧ ∀ h' ∈ hs.head?, h'.number64 = h.number64 + 1 := by
  cases hs with
  | nil => simp [contiguous]
  | cons h' hs => simp [contiguous, and_comm]

/-- everything a successful `apply` does -/
theorem apply_eq_ok {env : SnapEnv} {s s' : Snapshot} {headers : List Header}
    (h : apply env s headers = .ok s') :
    headers = [] ∧ s' = s ∨
      ∃ first rest snap, headers = first :: rest ∧ contiguous (first :: rest) = true ∧
        first.number64 = s.number + 1 ∧ (first :: rest).foldlM (applyHeader env) s = .ok snap ∧
        s' = { snap with
          number := snap.number + UInt64.ofNat (rest.length + 1)
          hash := env.hash ((first :: rest).getLast (List.cons_ne_nil first rest)) } := by
  cases headers with
  | nil =>
    simp only [apply, Except.ok.injEq] at h
    exact .inl ⟨rfl, h.symm⟩
  | cons first rest =>
    simp only [apply] at h
    split at h
    · cases h
    · split at h
      · cases h
      · next hc hn =>
        simp only [Except.bind_eq_ok_iff, Except.pure_eq_ok_iff] at h
        obtain ⟨snap, hsnap, rfl⟩ := h
        exact .inr ⟨first, rest, snap, rfl, by simpa using hc, by simpa using hn, hsnap, rfl⟩

theorem Snapshot.Consistent.apply {env : SnapEnv} {s s' : Snapshot} {headers : List Header}
    (hs : s.Consistent) (h : apply env s headers = .ok s') : s'.Consistent := by
  rcases apply_eq_ok h with ⟨-, rfl⟩ | ⟨first, rest, snap, -, -, -, hrun, rfl⟩
  · exact hs
  · have hsnap : snap.Consistent :=
      Except.foldlM_inv (fun _ _ _ _ hs h => hs.applyHeader h) hrun hs
    exact ⟨hsnap.tally, hsnap.unique, hsnap.signer_mem, hsnap.valid, hsnap.recents_inj⟩

theorem consistent_of_reachable {env : SnapEnv} {s : Snapshot} (h : Reachable env s) :
    s.Consistent := by
  induction h with
  | newSnapshot number hash signers => exact .newSnapshot number hash signers
  | apply _ happly ih => exact ih.apply happly

/-! ## The signer count -/

theorem Snapshot.signers_card_le_passVote (s : Snapshot) (number : UInt64) (a : Address) :
    s.signers.card ≤ (passVote number a s).signers.card + 1 := by
  rcases s.passVote_cases number a with hp | hp | hp <;> rw [hp]
  · omega
  · have := Finset.card_le_card (Finset.subset_insert a s.signers)
    dsimp only
    omega
  · have := Finset.pred_card_le_card_erase (s := s.signers) (a := a)
    simp only [dropVotesBy_signers, evict_signers]
    omega

/-- a seal scheme under which every sample header recovers to the address in its mix digest -/
def sampleSnapEnv : SnapEnv where
  epoch := 30000
  epoch_pos := by decide
  ecrecover h := .ok (h.mixDigest.setWidth 160)
  hash h := h.root

/-- a header of block `number` sealed by `signer`, out of turn, voting to drop address 0 -/
def sealedBy (signer : Address) (number : Nat) : Header :=
  { parentHash := 0, root := 0, txHash := 0, difficulty := 1, number := BitVec.ofNat 256 number,
    signature := 0, mixDigest := signer.setWidth 256 }

/-- a lone signer seals block 1 with a vote to drop itself: the vote passes (`1 > 1/2`), the
signer set is empty, and `calcDifficulty` for block 2 divides by zero -/
theorem lone_signer_votes_itself_out :
    ((apply sampleSnapEnv (newSnapshot 0 0 [0xa1]) [{ sealedBy 0xa1 1 with coinbase := 0xa1 }]).map
      fun s => (s.signers, s.calcDifficulty 0xa1)) = .ok (∅, none) := by
  decide +kernel

end Apos

end N42
