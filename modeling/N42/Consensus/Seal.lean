import N42.Consensus.Snapshot

/-!
# (key: seal) The window of the recent signers and the seal check

`APos.verifySeal` (`internal/consensus/apos/apos.go`) rejects a signer found among the recents
unless the header shifts it out, computing `number - limit` in `uint64`; the replay of the header
evicts `Recents[number - limit]` only from block `limit` on and then rejects any signer left.

* `Snapshot.RecentWindow`   the recent signers lie within the last `len(Signers)/2 + 1` block
                        numbers; `recentWindow_of_reachableInRange` keeps it along every run of
                        `apply` below `2^64`;
* `snapshot_bookkeeping`   both invariants of the snapshot;
* `verifySeal_recent_iff_apply`   from the window's length on, the seal check rejects a recent
                        signer exactly when the replay does.
-/

namespace N42

namespace Apos

open Snapshot

namespace Snapshot

/-- the loop of `verifySeal` over `snap.Recents`: the signer sealed a block the header does not
shift out of the window, compared in `uint64` -/
def sealedRecently (s : Snapshot) (number : UInt64) (signer : Address) : Bool :=
  decide (∃ seen ∈ s.recents.keys, s.recents.lookup seen = some signer ∧ seen > number - s.limit)

end Snapshot

/-- the end of `verifySeal`: the difficulty must say whether the signer is in turn -/
def checkDifficulty (fakeDiff : Bool) (snap : Snapshot) (header : Header) (signer : Address) :
    Except SnapError Unit := do
  if !fakeDiff then
    match snap.inturn header.number64 signer with
    | none => throw .panic
    | some inturn =>
      if inturn && header.difficulty != diffInTurn then throw .errWrongDifficulty
      if !inturn && header.difficulty != diffNoTurn then throw .errWrongDifficulty

/-- `APos.verifySeal(snap, header)` -/
def verifySeal (env : SnapEnv) (fakeDiff : Bool) (snap : Snapshot) (header : Header) :
    Except SnapError Unit := do
  let number := header.number64
  Except.failIf (number = 0) .errUnknownBlock
  let signer ← (env.ecrecover header).mapError .ecrecover
  Except.failIf (signer ∉ snap.signers) .errUnauthorizedSigner
  Except.failIf (snap.sealedRecently number signer = true) .errRecentlySigned
  checkDifficulty fakeDiff snap header signer

/-- the snapshots `apply` builds from `newSnapshot` without a block number passing `2^64 - 1` -/
inductive ReachableInRange (env : SnapEnv) : Snapshot → Prop
  | newSnapshot (number : UInt64) (hash : Hash) (signers : List Address) :
      ReachableInRange env (newSnapshot number hash signers)
  | apply {s s' : Snapshot} {headers : List Header} :
      ReachableInRange env s → s.number.toNat + headers.length < 2 ^ 64 →
      apply env s headers = .ok s' → ReachableInRange env s'

/-! ## The window of the recent signers -/

/-- the block numbers of `r` lie within the last `L` numbers up to `n` -/
def Within (n L : Nat) (r : Recents) : Prop := ∀ k ∈ r.keys, k.toNat ≤ n ∧ n < k.toNat + L

instance (n L : Nat) (r : Recents) : Decidable (Within n L r) :=
  inferInstanceAs (Decidable (∀ k ∈ r.keys, k.toNat ≤ n ∧ n < k.toNat + L))

/-- the second half of (d): every key of `Recents` within the last `len(Signers)/2 + 1` block
numbers up to the snapshot's -/
def Snapshot.RecentWindow (s : Snapshot) : Prop :=
  Within s.number.toNat (s.signers.card / 2 + 1) s.recents

instance (s : Snapshot) : Decidable s.RecentWindow :=
  inferInstanceAs (Decidable (Within _ _ _))

namespace Within

variable {n L : Nat} {r : Recents}

theorem empty : Within n L ∅ := by
  intro k hk
  simp at hk

theorem mono {L' : Nat} (h : Within n L r) (hL : L ≤ L') : Within n L' r := by
  intro k hk
  have := h k hk
  omega

theorem succ (h : Within n L r) : Within (n + 1) (L + 1) r := by
  intro k hk
  have := h k hk
  omega

theorem insert (h : Within n L r) (hL : 0 < L) {k : UInt64} (hk : k.toNat = n) (a : Address) :
    Within n L (r.insert k a) := by
  intro j hj
  rw [Finmap.mem_keys, Finmap.mem_insert] at hj
  rcases hj with rfl | hj
  · omega
  · exact h j (Finmap.mem_keys.mpr hj)

/-- the eviction of `apply` moves the window up by one: the only number that falls out of it is
the one `number - limit` deletes -/
theorem evict {m : UInt64} (h : Within m.toNat (L + 1) r) :
    Within m.toNat L (if m ≥ UInt64.ofNat L then r.erase (m - UInt64.ofNat L) else r) := by
  intro k hk
  have hkr : k ∈ r.keys ∧ (m ≥ UInt64.ofNat L → k ≠ m - UInt64.ofNat L) := by
    split at hk
    · rw [Finmap.keys_erase, Finset.mem_erase] at hk
      exact ⟨hk.2, fun _ => hk.1⟩
    · exact ⟨hk, fun h' => absurd h' ‹_›⟩
  obtain ⟨hle, hlt⟩ := h k hkr.1
  refine ⟨hle, ?_⟩
  by_contra hge
  -- then `k` is exactly `m - L`, which the eviction deletes
  have hm : m.toNat = k.toNat + L := by omega
  have hL : (UInt64.ofNat L).toNat = L := by
    rw [UInt64.toNat_ofNat']
    exact Nat.mod_eq_of_lt (by have := m.toNat_lt; omega)
  have hge' : m ≥ UInt64.ofNat L := by
    rw [ge_iff_le, UInt64.le_iff_toNat_le, hL]
    omega
  apply hkr.2 hge'
  apply UInt64.toNat_inj.mp
  rw [UInt64.toNat_sub_of_le _ _ hge', hL]
  omega

end Within

/-- a vote that passes moves the window with the signer count: a new signer widens it, a removed
one narrows it by one block, and the eviction after the removal deletes that block -/
theorem Within.passVote {m : UInt64} {s : Snapshot} (a : Address)
    (h : Within m.toNat (s.signers.card / 2 + 1) s.recents) :
    Within m.toNat ((passVote m a s).signers.card / 2 + 1) (passVote m a s).recents := by
  rcases s.passVote_cases m a with hp | hp | hp <;> rw [hp]
  · exact h
  · dsimp only
    exact h.mono (by have := Finset.card_le_card (Finset.subset_insert a s.signers); omega)
  · dsimp only
    simp only [dropVotesBy_signers, dropVotesBy_recents, evict_signers]
    have hcard := Finset.pred_card_le_card_erase (s := s.signers) (a := a)
    exact (h.mono (by omega)).evict

theorem Within.applyHeader {env : SnapEnv} {s s' : Snapshot} {header : Header} {n : UInt64}
    (hw : Within n.toNat (s.signers.card / 2 + 1) s.recents)
    (hnum : header.number64.toNat = n.toNat + 1) (h : applyHeader env s header = .ok s') :
    Within header.number64.toNat (s'.signers.card / 2 + 1) s'.recents := by
  obtain ⟨signer, authorize, -, -, -, -, rfl⟩ := applyHeader_eq_ok.mp h
  apply Within.passVote
  simp only [castVote_signers, castVote_recents, discardVote_signers, discardVote_recents,
    beginHeader_signers]
  refine Within.insert ?_ (Nat.succ_pos _) rfl signer
  rw [beginHeader_recents]
  exact (hnum ▸ hw.succ).evict

theorem foldlM_applyHeader_number {env : SnapEnv} {hs : List Header} {s s' : Snapshot}
    (h : hs.foldlM (applyHeader env) s = .ok s') : s'.number = s.number :=
  Except.foldlM_inv (P := fun t => t.number = s.number)
    (fun _ _ _ _ ht h => (applyHeader_number h).trans ht) h rfl

/-- the window along a contiguous run of headers numbered from `n + 1` on, below `2^64` -/
theorem Within.foldlM {env : SnapEnv} {hs : List Header} {s s' : Snapshot} {n : UInt64}
    (hc : contiguous hs = true) (hfirst : ∀ h ∈ hs.head?, h.number64 = n + 1)
    (hrange : n.toNat + hs.length < 2 ^ 64)
    (hw : Within n.toNat (s.signers.card / 2 + 1) s.recents)
    (hrun : hs.foldlM (Apos.applyHeader env) s = .ok s') :
    Within (n.toNat + hs.length) (s'.signers.card / 2 + 1) s'.recents := by
  induction hs generalizing s n with
  | nil =>
    simp only [List.foldlM_nil, Except.pure_eq_ok_iff] at hrun
    subst hrun
    exact hw
  | cons h hs ih =>
    rw [contiguous_cons] at hc
    simp only [List.foldlM_cons, Except.bind_eq_ok_iff] at hrun
    obtain ⟨t, ht, hrest⟩ := hrun
    simp only [List.length_cons] at hrange
    have hnum : h.number64.toNat = n.toNat + 1 := by
      rw [hfirst h rfl, UInt64.toNat_add, UInt64.toNat_one]
      exact Nat.mod_eq_of_lt (by omega)
    have hall := ih hc.1 hc.2 (by omega) (hw.applyHeader hnum ht) hrest
    rw [hnum] at hall
    rwa [List.length_cons, ← Nat.add_assoc, Nat.add_right_comm]

theorem recentWindow_of_reachableInRange {env : SnapEnv} {s : Snapshot}
    (h : ReachableInRange env s) : s.RecentWindow := by
  induction h with
  | newSnapshot number hash signers => exact Within.empty
  | @apply s s' headers _ hrange happly ih =>
    rcases apply_eq_ok happly with ⟨-, rfl⟩ | ⟨first, rest, snap, rfl, hc, hn, hrun, rfl⟩
    · exact ih
    · have hw := Within.foldlM hc (fun h hh => by cases hh; exact hn) hrange ih hrun
      have hnum : (snap.number + UInt64.ofNat (rest.length + 1)).toNat =
          s.number.toNat + (first :: rest).length := by
        rw [foldlM_applyHeader_number hrun, UInt64.toNat_add, UInt64.toNat_ofNat', List.length_cons]
        simp only [List.length_cons] at hrange
        rw [Nat.mod_eq_of_lt (by omega : rest.length + 1 < 2 ^ 64)]
        exact Nat.mod_eq_of_lt hrange
      unfold Snapshot.RecentWindow
      rw [hnum]
      exact hw

/-- **The bookkeeping of the votes.**  Every snapshot `apply` builds from `newSnapshot` keeps (a)
to (c) and one block per recent signer; the recent signers lie in the window as long as the
block numbers stay below `2^64`. -/
theorem snapshot_bookkeeping (env : SnapEnv) :
    (∀ s, Reachable env s → s.Consistent) ∧ (∀ s, ReachableInRange env s → s.RecentWindow) :=
  ⟨fun _ h => consistent_of_reachable h, fun _ h => recentWindow_of_reachableInRange h⟩

/-- three signers: `0xa1` and `0xa2` vote `0xb1` in, which passes, and `0xa3` votes to drop
`0xa1`, which stays pending -/
def voteHeaders : List Header :=
  [{ sealedBy 0xa1 1 with coinbase := 0xb1, nonce := nonceAuthVote },
   { sealedBy 0xa2 2 with coinbase := 0xb1, nonce := nonceAuthVote },
   { sealedBy 0xa3 3 with coinbase := 0xa1, nonce := nonceDropVote }]

theorem snapshot_bookkeeping_after_votes :
    ∃ s, apply sampleSnapEnv (newSnapshot 0 0 [0xa1, 0xa2, 0xa3]) voteHeaders = .ok s ∧
      (0xb1 : Address) ∈ s.signers ∧ s.votes.length = 1 ∧ s.Consistent ∧ s.RecentWindow := by
  have hrun : (apply sampleSnapEnv (newSnapshot 0 0 [0xa1, 0xa2, 0xa3]) voteHeaders).map
      (fun s => (decide ((0xb1 : Address) ∈ s.signers), s.votes.length)) = .ok (true, 1) := by
    decide +kernel
  obtain ⟨s, h, hs⟩ := Except.map_eq_ok_iff.mp hrun
  simp only [Prod.mk.injEq, decide_eq_true_eq] at hs
  exact ⟨s, h, hs.1, hs.2,
    (snapshot_bookkeeping sampleSnapEnv).1 s (.apply (.newSnapshot _ _ _) h),
    (snapshot_bookkeeping sampleSnapEnv).2 s (.apply (.newSnapshot _ _ _) (by decide) h)⟩

/-! ## The seal check against the replay -/

theorem voteOf_eq_error {nonce : BlockNonce} {e : SnapError} (h : voteOf nonce = .error e) :
    e = .errInvalidVote := by
  unfold voteOf at h
  split at h
  · cases h
  · split at h
    · cases h
    · cases h
      rfl

/-- the replay of one header fails on the recents exactly where the evicted recents hold its
signer -/
theorem applyHeader_eq_errRecentlySigned {env : SnapEnv} {s : Snapshot} {header : Header}
    {signer : Address} (hsig : env.ecrecover header = .ok signer) (hmem : signer ∈ s.signers) :
    applyHeader env s header = .error .errRecentlySigned ↔
      (beginHeader env header.number64 s).recentlySigned signer = true := by
  unfold applyHeader
  change (do
      let signer ← (env.ecrecover header).mapError SnapError.ecrecover
      Except.failIf (signer ∉ (beginHeader env header.number64 s).signers) .errUnauthorizedSigner
      Except.failIf ((beginHeader env header.number64 s).recentlySigned signer = true)
        .errRecentlySigned
      let authorize ← voteOf header.nonce
      pure (passVote header.number64 header.coinbase
        (castVote signer header.number64 header.coinbase authorize
          (discardVote signer header.coinbase { beginHeader env header.number64 s with
            recents := (beginHeader env header.number64 s).recents.insert header.number64
              signer })))) = _ ↔ _
  simp only [hsig, Except.mapError_ok, beginHeader_signers, Except.bind_eq_error_iff,
    Except.failIf_eq_error_iff, reduceCtorEq, false_or, Except.failIf_eq_ok_iff,
    Except.pure_ne_error, and_false, exists_false, or_false]
  constructor
  · rintro ⟨a, ha, -, -, hr | ⟨-, -, hv⟩⟩
    · cases ha
      exact hr.1
    · cases voteOf_eq_error hv
  · intro hr
    exact ⟨signer, rfl, (), not_not.mpr hmem, .inl ⟨hr, trivial⟩⟩

theorem Snapshot.limit_toNat {s : Snapshot} (h : s.signers.card / 2 + 1 < 2 ^ 64) :
    s.limit.toNat = s.signers.card / 2 + 1 := by
  rw [Snapshot.limit, UInt64.toNat_ofNat']
  exact Nat.mod_eq_of_lt h

/-- from the window's length on, the seal check's `seen > number - limit` keeps exactly the
recent signers the replay's eviction keeps -/
theorem sealedRecently_eq_recentlySigned {env : SnapEnv} {s : Snapshot} {number : UInt64}
    (hw : s.RecentWindow) (hnum : number.toNat = s.number.toNat + 1)
    (hL : s.signers.card / 2 + 1 ≤ number.toNat) (signer : Address) :
    s.sealedRecently number signer = (beginHeader env number s).recentlySigned signer := by
  have hlim := Snapshot.limit_toNat (s := s) (by have := number.toNat_lt; omega)
  have hge : s.limit ≤ number := by
    rw [UInt64.le_iff_toNat_le, hlim]
    exact hL
  have hsub : (number - s.limit).toNat = number.toNat - (s.signers.card / 2 + 1) := by
    rw [UInt64.toNat_sub_of_le _ _ hge, hlim]
  have hrec : (beginHeader env number s).recents = s.recents.erase (number - s.limit) := by
    rw [beginHeader_recents]
    simp [Snapshot.evict, hge]
  unfold Snapshot.sealedRecently Snapshot.recentlySigned
  rw [hrec]
  apply decide_eq_decide.mpr
  constructor
  · rintro ⟨seen, hseen, hlook, hgt⟩
    have hne : seen ≠ number - s.limit := fun h => by rw [h] at hgt; exact UInt64.lt_irrefl _ hgt
    refine ⟨seen, ?_, ?_⟩
    · rw [Finmap.keys_erase, Finset.mem_erase]
      exact ⟨hne, hseen⟩
    · rwa [Finmap.lookup_erase_ne hne]
  · rintro ⟨k, hk, hlook⟩
    rw [Finmap.keys_erase, Finset.mem_erase] at hk
    obtain ⟨hne, hk⟩ := hk
    rw [Finmap.lookup_erase_ne hne] at hlook
    refine ⟨k, hk, hlook, ?_⟩
    -- the window puts `k` at `number - limit` or above, and `k` is not the evicted number
    obtain ⟨-, hlt⟩ := hw k hk
    have hkne : k.toNat ≠ number.toNat - (s.signers.card / 2 + 1) := by
      intro h
      exact hne (UInt64.toNat_inj.mp (by rw [hsub, h]))
    show number - s.limit < k
    rw [UInt64.lt_iff_toNat_lt, hsub]
    omega

theorem checkDifficulty_ne_errRecentlySigned (fakeDiff : Bool) (s : Snapshot) (header : Header)
    (signer : Address) : checkDifficulty fakeDiff s header signer ≠ .error .errRecentlySigned := by
  have hne : diffInTurn ≠ diffNoTurn := by decide
  unfold checkDifficulty
  cases fakeDiff
  · cases s.inturn header.number64 signer with
    | none => simp [throw, throwThe, MonadExceptOf.throw]
    | some b =>
      cases b <;> by_cases h₁ : header.difficulty = diffInTurn <;>
        by_cases h₂ : header.difficulty = diffNoTurn <;>
        simp [h₁, h₂, hne, hne.symm, throw, throwThe, MonadExceptOf.throw, pure, Except.pure, bind,
          Except.bind]
  · simp [pure, Except.pure]

/-- the seal check of a header above block 0 sealed by a signer fails on the recents exactly
where `sealedRecently` holds -/
theorem verifySeal_eq_errRecentlySigned {env : SnapEnv} {s : Snapshot} {header : Header}
    {signer : Address} (hn : header.number64 ≠ 0) (hsig : env.ecrecover header = .ok signer)
    (hmem : signer ∈ s.signers) (fakeDiff : Bool) :
    verifySeal env fakeDiff s header = .error .errRecentlySigned ↔
      s.sealedRecently header.number64 signer = true := by
  unfold verifySeal
  simp only [hsig, Except.mapError_ok, Except.bind_eq_error_iff, Except.failIf_eq_error_iff,
    Except.failIf_eq_ok_iff, hn, reduceCtorEq, false_or, and_false, exists_false, or_false,
    checkDifficulty_ne_errRecentlySigned]
  constructor
  · rintro ⟨-, -, a, ha, -, -, hr, -⟩
    cases ha
    exact hr
  · intro hr
    exact ⟨(), not_false, signer, rfl, (), not_not.mpr hmem, hr, trivial⟩

/-- a single header numbered one above the snapshot fails to replay exactly where its
iteration fails -/
theorem apply_singleton_eq_error {env : SnapEnv} {s : Snapshot} {header : Header} {e : SnapError}
    (hn : header.number64 = s.number + 1) :
    apply env s [header] = .error e ↔ applyHeader env s header = .error e := by
  simp only [apply, contiguous, Bool.not_true, Bool.false_eq_true, if_false, hn, ne_eq,
    not_true_eq_false, List.foldlM_cons, List.foldlM_nil]
  cases applyHeader env s header <;> simp [bind, Except.bind, pure, Except.pure]

/-- **The seal check agrees with the replay from the window's length on.**  For a snapshot whose
recent signers lie in its window and a header one above it, numbered at least
`len(Signers)/2 + 1`, sealed by a signer: `verifySeal` rejects it as recently signed exactly when
`apply` does. -/
theorem verifySeal_recent_iff_apply {env : SnapEnv} {s : Snapshot} {header : Header}
    {signer : Address} (hw : s.RecentWindow) (hnum : header.number64.toNat = s.number.toNat + 1)
    (hL : s.signers.card / 2 + 1 ≤ header.number64.toNat)
    (hsig : env.ecrecover header = .ok signer) (hmem : signer ∈ s.signers) (fakeDiff : Bool) :
    verifySeal env fakeDiff s header = .error .errRecentlySigned ↔
      apply env s [header] = .error .errRecentlySigned := by
  have hn : header.number64 ≠ 0 := by
    intro h
    rw [h] at hnum
    simp at hnum
  have hsucc : header.number64 = s.number + 1 := by
    apply UInt64.toNat_inj.mp
    rw [hnum, UInt64.toNat_add, UInt64.toNat_one]
    exact (Nat.mod_eq_of_lt (by rw [← hnum]; exact header.number64.toNat_lt)).symm
  rw [verifySeal_eq_errRecentlySigned hn hsig hmem, sealedRecently_eq_recentlySigned hw hnum hL,
    apply_singleton_eq_error hsucc, applyHeader_eq_errRecentlySigned hsig hmem]

/-- `0xa1` and `0xa2` of three signers seal blocks 1 and 2; both checks then reject `0xa2`
sealing block 3, where the window of two blocks has not shifted it out -/
theorem verifySeal_recent_iff_apply_block3 :
    ∃ s, apply sampleSnapEnv (newSnapshot 0 0 [0xa1, 0xa2, 0xa3])
        [sealedBy 0xa1 1, sealedBy 0xa2 2] = .ok s ∧
      verifySeal sampleSnapEnv false s (sealedBy 0xa2 3) = .error .errRecentlySigned ∧
      (verifySeal sampleSnapEnv false s (sealedBy 0xa2 3) = .error .errRecentlySigned ↔
        apply sampleSnapEnv s [sealedBy 0xa2 3] = .error .errRecentlySigned) := by
  have hrun : (apply sampleSnapEnv (newSnapshot 0 0 [0xa1, 0xa2, 0xa3])
      [sealedBy 0xa1 1, sealedBy 0xa2 2]).map (fun s => (s.number, s.signers.card,
        decide ((0xa2 : Address) ∈ s.signers), verifySeal sampleSnapEnv false s (sealedBy 0xa2 3))) =
      .ok (2, 3, true, .error .errRecentlySigned) := by
    decide +kernel
  obtain ⟨s, h, hs⟩ := Except.map_eq_ok_iff.mp hrun
  simp only [Prod.mk.injEq, decide_eq_true_eq] at hs
  obtain ⟨hnum, hcard, hmem, hseal⟩ := hs
  have hw : s.RecentWindow :=
    recentWindow_of_reachableInRange (.apply (.newSnapshot _ _ _) (by decide) h)
  refine ⟨s, h, hseal, @verifySeal_recent_iff_apply sampleSnapEnv s (sealedBy 0xa2 3) 0xa2 hw
    (by rw [hnum]; rfl) (by rw [hcard]; decide) (by decide) hmem false⟩

/-! ## Samples -/

/-- three signers from block `2^64 - 4` on, each sealing in turn up to block `2^64`, whose
`Uint64()` is 0 -/
def wrapStart : Snapshot := newSnapshot (2 ^ 64 - 4) 0 [0xa1, 0xa2, 0xa3]

def wrapHeaders : List Header :=
  [sealedBy 0xa1 (2 ^ 64 - 3), sealedBy 0xa2 (2 ^ 64 - 2), sealedBy 0xa3 (2 ^ 64 - 1),
    sealedBy 0xa1 (2 ^ 64)]

/-- the recent signers of the snapshot after block `2^64` are those of blocks `2^64 - 2`,
`2^64 - 1` and `2^64`: block 0 does not evict, and the snapshot's number is 0 -/
theorem recentWindow_fails_after_wrap : ∃ s, Reachable sampleSnapEnv s ∧ ¬ s.RecentWindow := by
  have hrun : (apply sampleSnapEnv wrapStart wrapHeaders).map
      (fun s => (s.number, s.recents.lookup (2 ^ 64 - 2))) = .ok (0, some 0xa2) := by
    decide +kernel
  cases h : apply sampleSnapEnv wrapStart wrapHeaders with
  | error e =>
    rw [h] at hrun
    cases hrun
  | ok s =>
    rw [h] at hrun
    simp only [Except.map, Except.ok.injEq, Prod.mk.injEq] at hrun
    refine ⟨s, .apply (.newSnapshot _ _ _) h, fun hw => ?_⟩
    -- block `2^64 - 2` is still recent at the snapshot's number 0
    have hk : (2 ^ 64 - 2 : UInt64) ∈ s.recents.keys :=
      Finmap.mem_keys.mpr (Finmap.mem_of_lookup_eq_some hrun.2)
    have := (hw _ hk).1
    rw [hrun.1] at this
    exact absurd this (by decide +kernel)

/-- four signers, so a window of three blocks; `0xa1` seals block 1 and then block 2.  The
replay rejects block 2 as recently signed, while `verifySeal`'s `seen > number - limit` compares
1 with `2 - 3`, which wraps to `2^64 - 1`, and accepts it -/
theorem early_recent_signer_passes_seal :
    (do
      let s ← apply sampleSnapEnv (newSnapshot 0 0 [0xa1, 0xa2, 0xa3, 0xa4]) [sealedBy 0xa1 1]
      pure (verifySeal sampleSnapEnv false s (sealedBy 0xa1 2),
        (apply sampleSnapEnv s [sealedBy 0xa1 2]).map fun _ => ())) =
      (.ok (.ok (), .error .errRecentlySigned) : Except SnapError _) := by
  decide +kernel

end Apos

end N42
