import Mathlib.Data.List.Basic
import Mathlib.Data.List.Pairwise

/-!
# (key: journal) An undo journal with nested snapshots

A state `σ` is changed by operations that each append to a journal the entries that undo
them.  `snapshot` records the journal length under a fresh id; `revertToSnapshot id` finds
that revision, undoes every later entry, newest first, truncates the journal and forgets the
revisions from that one on.  Nothing here names a particular state: `undo` is a parameter, and
what "restored" means is a relation `R` on states that `undo` respects.

* `undoAll_append`     undoing a journal is undoing its suffix, then its prefix;
* `Extends j j'`       `j'` only appended entries to `j`, and undoing them gives back `j`'s state
                       up to `R`; it is reflexive and transitive;
* `revertToSnapshot_eq`   what a successful revert leaves, and `revertToSnapshot_snapshot`
                       that reverting the last snapshot always succeeds;
* `Restorable P j`     every valid revision restores to a state satisfying `P`; it holds with
                       no revisions (`restorable_nil`), is monotone in `P`, and is kept by
                       `Extends` steps into `P`, by `snapshot` and by `revertToSnapshot`, which
                       moreover lands in `P`.
-/

set_option linter.unusedSectionVars false

namespace Journal

variable {σ ε : Type}

/-- a snapshot: its id and the journal length when it was taken -/
structure Revision where
  id : Nat
  journalIndex : Nat
deriving DecidableEq, Repr

/-- a state with its journal, its valid revisions (oldest first) and the next revision id -/
structure Journaled (σ ε : Type) where
  state : σ
  entries : List ε
  validRevisions : List Revision
  nextRevisionId : Nat

/-- undo the entries `es`, newest first -/
def undoAll (undo : ε → σ → σ) (es : List ε) (s : σ) : σ := es.foldr undo s

@[simp] theorem undoAll_nil (undo : ε → σ → σ) (s : σ) : undoAll undo [] s = s := rfl

theorem undoAll_append (undo : ε → σ → σ) (es₁ es₂ : List ε) (s : σ) :
    undoAll undo (es₁ ++ es₂) s = undoAll undo es₁ (undoAll undo es₂ s) := by
  simp only [undoAll, List.foldr_append]

namespace Journaled

/-- an operation's effect: the new state, and the entries that undo it appended -/
def record (j : Journaled σ ε) (s : σ) (es : List ε) : Journaled σ ε :=
  { j with state := s, entries := j.entries ++ es }

@[simp] theorem record_state (j : Journaled σ ε) (s : σ) (es : List ε) :
    (j.record s es).state = s := rfl
@[simp] theorem record_entries (j : Journaled σ ε) (s : σ) (es : List ε) :
    (j.record s es).entries = j.entries ++ es := rfl
@[simp] theorem record_validRevisions (j : Journaled σ ε) (s : σ) (es : List ε) :
    (j.record s es).validRevisions = j.validRevisions := rfl
@[simp] theorem record_nextRevisionId (j : Journaled σ ε) (s : σ) (es : List ε) :
    (j.record s es).nextRevisionId = j.nextRevisionId := rfl

/-- `Snapshot()`: the new id, and the journal with the revision recorded -/
def snapshot (j : Journaled σ ε) : Nat × Journaled σ ε :=
  (j.nextRevisionId,
    { j with nextRevisionId := j.nextRevisionId + 1,
             validRevisions := j.validRevisions ++ [⟨j.nextRevisionId, j.entries.length⟩] })

@[simp] theorem snapshot_state (j : Journaled σ ε) : j.snapshot.2.state = j.state := rfl
@[simp] theorem snapshot_entries (j : Journaled σ ε) : j.snapshot.2.entries = j.entries := rfl

/-- the state a revert to journal length `k` reaches -/
def restore (undo : ε → σ → σ) (j : Journaled σ ε) (k : Nat) : σ :=
  undoAll undo (j.entries.drop k) j.state

/-- a revert to the snapshot taken just before one operation undoes that operation's entries -/
theorem restore_record_snapshot (undo : ε → σ → σ) (j : Journaled σ ε) (s : σ) (es : List ε) :
    (j.snapshot.2.record s es).restore undo j.entries.length = undoAll undo es s := by
  rw [restore, record_entries, snapshot_entries, List.drop_left, record_state]

/-- `RevertToSnapshot(revid)`: the first revision whose id is at least `revid` (the binary
search over the ascending ids) must be `revid` itself, else it is a panic -/
def revertToSnapshot (undo : ε → σ → σ) (revid : Nat) (j : Journaled σ ε) :
    Option (Journaled σ ε) :=
  let idx := j.validRevisions.findIdx fun r => decide (revid ≤ r.id)
  match j.validRevisions[idx]? with
  | some r =>
    if r.id = revid then
      some { state := j.restore undo r.journalIndex, entries := j.entries.take r.journalIndex,
             validRevisions := j.validRevisions.take idx, nextRevisionId := j.nextRevisionId }
    else none
  | none => none

/-- **What a revert leaves.**  A successful revert restores to the length recorded by a valid
revision, keeps exactly the revisions before it and truncates the journal there. -/
theorem revertToSnapshot_eq {undo : ε → σ → σ} {revid : Nat} {j j' : Journaled σ ε}
    (h : j.revertToSnapshot undo revid = some j') :
    ∃ idx r, j.validRevisions[idx]? = some r ∧ r.id = revid ∧
      j'.state = j.restore undo r.journalIndex ∧ j'.entries = j.entries.take r.journalIndex ∧
      j'.validRevisions = j.validRevisions.take idx ∧ j'.nextRevisionId = j.nextRevisionId := by
  unfold revertToSnapshot at h
  dsimp only at h
  split at h
  · rename_i r hr
    by_cases hid : r.id = revid
    · rw [if_pos hid, Option.some.injEq] at h
      rw [← h]
      exact ⟨_, r, hr, hid, rfl, rfl, rfl, rfl⟩
    · rw [if_neg hid] at h
      exact absurd h (by simp)
  · exact absurd h (by simp)

/-- **Reverting the last snapshot.**  When every earlier revision has a smaller id and the
revisions are still those the snapshot left, the revert finds the snapshot and undoes every entry
appended since. -/
theorem revertToSnapshot_snapshot {undo : ε → σ → σ} {j j' : Journaled σ ε}
    (hids : ∀ r ∈ j.validRevisions, r.id < j.nextRevisionId)
    (hv : j'.validRevisions = j.snapshot.2.validRevisions) :
    j'.revertToSnapshot undo j.nextRevisionId =
      some { state := j'.restore undo j.entries.length,
             entries := j'.entries.take j.entries.length,
             validRevisions := j.validRevisions, nextRevisionId := j'.nextRevisionId } := by
  have hfalse : j.validRevisions.findIdx (fun r => decide (j.nextRevisionId ≤ r.id)) =
      j.validRevisions.length := by
    apply List.findIdx_eq_length_of_false
    intro r hr
    have := hids r hr
    simp only [decide_eq_false_iff_not, Nat.not_le]
    exact this
  have hidx : j'.validRevisions.findIdx (fun r => decide (j.nextRevisionId ≤ r.id)) =
      j.validRevisions.length := by
    rw [hv, snapshot, List.findIdx_append, hfalse, if_neg (Nat.lt_irrefl _)]
    simp
  have hget : j'.validRevisions[j.validRevisions.length]? =
      some ⟨j.nextRevisionId, j.entries.length⟩ := by
    rw [hv, snapshot, List.getElem?_append_right (Nat.le_refl _), Nat.sub_self]
    rfl
  have htake : j'.validRevisions.take j.validRevisions.length = j.validRevisions := by
    rw [hv, snapshot, List.take_left']
    rfl
  unfold revertToSnapshot
  dsimp only
  rw [hidx, hget]
  dsimp only
  rw [if_pos rfl, htake]

end Journaled

section Restore

variable (undo : ε → σ → σ) (R : σ → σ → Prop)

/-- `undo` respects `R`: undoing one entry from related states gives related states -/
def UndoRespects : Prop := ∀ e s t, R s t → R (undo e s) (undo e t)

/-- `j'` was reached from `j` by appending entries whose undoing gives back `j`'s state up to
`R`; the revisions are those of `j` -/
def Extends (j j' : Journaled σ ε) : Prop :=
  ∃ es, j'.entries = j.entries ++ es ∧ j'.validRevisions = j.validRevisions ∧
    j'.nextRevisionId = j.nextRevisionId ∧ R (undoAll undo es j'.state) j.state

/-- every valid revision lies within the journal, the lengths they record are ascending, and
reverting to any of them reaches a state satisfying `P` -/
def Restorable (P : σ → Prop) (j : Journaled σ ε) : Prop :=
  j.validRevisions.Pairwise (fun a b => a.journalIndex ≤ b.journalIndex) ∧
    ∀ r ∈ j.validRevisions, r.journalIndex ≤ j.entries.length ∧ P (j.restore undo r.journalIndex)

variable {undo R}

theorem UndoRespects.undoAll (hu : UndoRespects undo R) (es : List ε) {s t : σ} (h : R s t) :
    R (Journal.undoAll undo es s) (Journal.undoAll undo es t) := by
  induction es with
  | nil => exact h
  | cons e es ih => exact hu e _ _ ih

theorem Extends.refl (hR : ∀ s, R s s) (j : Journaled σ ε) : Extends undo R j j :=
  ⟨[], by simp, rfl, rfl, hR j.state⟩

theorem Extends.trans (hu : UndoRespects undo R) (hT : ∀ s t u, R s t → R t u → R s u)
    {j₁ j₂ j₃ : Journaled σ ε} (h₁ : Extends undo R j₁ j₂) (h₂ : Extends undo R j₂ j₃) :
    Extends undo R j₁ j₃ := by
  obtain ⟨es₁, he₁, hv₁, hn₁, hr₁⟩ := h₁
  obtain ⟨es₂, he₂, hv₂, hn₂, hr₂⟩ := h₂
  refine ⟨es₁ ++ es₂, by rw [he₂, he₁, List.append_assoc], hv₂.trans hv₁, hn₂.trans hn₁, ?_⟩
  rw [undoAll_append]
  exact hT _ _ _ (hu.undoAll es₁ hr₂) hr₁

/-- one recorded operation extends its journal when its entries undo it -/
theorem Extends.record (j : Journaled σ ε) {s : σ} {es : List ε}
    (h : R (undoAll undo es s) j.state) : Extends undo R j (j.record s es) :=
  ⟨es, rfl, rfl, rfl, h⟩

variable {P : σ → Prop}

theorem Restorable.mono {Q : σ → Prop} (hPQ : ∀ s, P s → Q s) {j : Journaled σ ε}
    (hj : Restorable undo P j) : Restorable undo Q j :=
  ⟨hj.1, fun r hr => ⟨(hj.2 r hr).1, hPQ _ (hj.2 r hr).2⟩⟩

/-- a journal with no revisions is restorable, for any `P` -/
theorem restorable_nil {j : Journaled σ ε} (hj : j.validRevisions = []) : Restorable undo P j := by
  refine ⟨by rw [hj]; exact List.Pairwise.nil, fun r hr => ?_⟩
  rw [hj] at hr
  exact absurd hr (List.not_mem_nil)

/-- **Journaled steps keep every revision restorable.** -/
theorem Restorable.extend (hu : UndoRespects undo R) (hP : ∀ s t, R s t → P t → P s)
    {j j' : Journaled σ ε} (hj : Restorable undo P j) (h : Extends undo R j j') :
    Restorable undo P j' := by
  obtain ⟨es, he, hv, -, hr⟩ := h
  obtain ⟨hsorted, hrev⟩ := hj
  refine ⟨hv ▸ hsorted, fun r hr' => ?_⟩
  rw [hv] at hr'
  obtain ⟨hle, hPr⟩ := hrev r hr'
  have hdrop : j'.entries.drop r.journalIndex = j.entries.drop r.journalIndex ++ es := by
    rw [he, List.drop_append_of_le_length hle]
  refine ⟨by rw [he, List.length_append]; omega, ?_⟩
  have hrel : R (j'.restore undo r.journalIndex) (j.restore undo r.journalIndex) := by
    unfold Journaled.restore
    rw [hdrop, undoAll_append]
    exact hu.undoAll _ hr
  exact hP _ _ hrel hPr

/-- a snapshot of a state satisfying `P` is restorable -/
theorem Restorable.snapshot {j : Journaled σ ε} (hj : Restorable undo P j) (hs : P j.state) :
    Restorable undo P j.snapshot.2 := by
  obtain ⟨hsorted, hrev⟩ := hj
  refine ⟨?_, fun r hr => ?_⟩
  · refine List.pairwise_append.mpr ⟨hsorted, List.pairwise_singleton _ _, ?_⟩
    intro a ha b hb
    rw [List.mem_singleton] at hb
    rw [hb]
    exact (hrev a ha).1
  · simp only [Journaled.snapshot, List.mem_append, List.mem_singleton] at hr
    rcases hr with hr | rfl
    · exact hrev r hr
    · refine ⟨Nat.le_refl _, ?_⟩
      simp only [Journaled.restore, Journaled.snapshot, List.drop_length, undoAll_nil]
      exact hs

/-- undoing past `k` after a revert to `m ≥ k` is undoing past `k` from the start -/
theorem restore_take (j : Journaled σ ε) {k m : Nat} (hkm : k ≤ m) (hm : m ≤ j.entries.length) :
    undoAll undo ((j.entries.take m).drop k) (j.restore undo m) = j.restore undo k := by
  unfold Journaled.restore
  rw [← undoAll_append]
  congr 1
  conv_rhs => rw [← List.take_append_drop m j.entries]
  rw [List.drop_append_of_le_length (by rw [List.length_take]; omega)]

/-- **A revert lands in `P` and stays restorable.** -/
theorem Restorable.revert {j j' : Journaled σ ε} {revid : Nat} (hj : Restorable undo P j)
    (h : j.revertToSnapshot undo revid = some j') :
    P j'.state ∧ Restorable undo P j' := by
  obtain ⟨idx, r, hr, -, hst, hent, hval, -⟩ := Journaled.revertToSnapshot_eq h
  obtain ⟨hsorted, hrev⟩ := hj
  have hmem : r ∈ j.validRevisions := List.mem_of_getElem? hr
  obtain ⟨hle, hPr⟩ := hrev r hmem
  refine ⟨hst ▸ hPr, ?_, fun r' hr' => ?_⟩
  · rw [hval]
    exact hsorted.sublist (List.take_sublist _ _)
  · rw [hval] at hr'
    have hr'mem : r' ∈ j.validRevisions := List.mem_of_mem_take hr'
    have hidx : r'.journalIndex ≤ r.journalIndex := by
      have hsplit := hsorted
      rw [← List.take_append_drop idx j.validRevisions, List.pairwise_append] at hsplit
      have hrdrop : r ∈ j.validRevisions.drop idx :=
        List.mem_iff_getElem?.mpr ⟨0, by rw [List.getElem?_drop, Nat.add_zero]; exact hr⟩
      exact hsplit.2.2 r' hr' r hrdrop
    refine ⟨by rw [hent, List.length_take]; omega, ?_⟩
    have hres : j'.restore undo r'.journalIndex = j.restore undo r'.journalIndex := by
      unfold Journaled.restore
      rw [hent, hst]
      exact restore_take j hidx hle
    rw [hres]
    exact (hrev r' hr'mem).2

end Restore

end Journal
