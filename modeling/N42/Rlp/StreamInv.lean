import N42.Rlp.StreamDecode

/-!
# (key: rlpstream) What every call on a `Stream` keeps

Whether they return or fail, the calls of the package leave a stream where `Inv` holds: the open
lists are nested, each within what the list around it had left when it was opened and none read
past its size, and their sizes fit the `uint64` of the source; a kind `Kind` keeps has passed its
checks; and a limited stream's limit lies within its input.  So on a stream over a byte slice, as
`DecodeBytes` and `NewStream` make it, no read runs past the end of the input: no call returns
`io.ErrUnexpectedEOF`, and the `uint64` subtraction `tos.size-tos.pos` of the source never wraps.
`NewList` with a size of the caller's choosing is left out; `List` opens only lists that fit.

* `Inv`, `Short`        the invariant, and the error it rules out;
* `safe_willRead` … `safe_listEnd`   each method keeps it;
* `Call`, `Step`, `inv_of_reachable`   the calls as the steps of a state machine, and the
                        invariant of every state reached from `ofBytes`;
* `call_not_short`, `decodeBytes_ne_unexpectedEOF`   no call from such a state, and no run of
                        `DecodeBytes`, returns `io.ErrUnexpectedEOF`.
-/

namespace N42

namespace Rlp

namespace Stream

open EStateM

/-- the open lists are nested: none has read past its size, and each fits in what the list around
it had left when it was opened -/
def Nested : List ListPos → Prop
  | [] => True
  | [tos] => tos.pos ≤ tos.size
  | tos :: parent :: more =>
    tos.pos ≤ tos.size ∧ tos.size ≤ parent.size - parent.pos ∧ Nested (parent :: more)

theorem nested_readIn : ∀ {st : List ListPos} {n : ℕ}, Nested st →
    (∀ tos ∈ st.head?, n ≤ tos.size - tos.pos) → Nested (readIn st n)
  | [], _, _, _ => trivial
  | [tos], n, h, hr => by
    have := hr tos rfl
    simp only [readIn, Nested] at h ⊢
    omega
  | tos :: parent :: more, n, ⟨_, h₂, h₃⟩, hr => by
    have := hr tos rfl
    exact ⟨by dsimp only; omega, h₂, h₃⟩

/-- `List` pushes a list that fits the innermost one -/
theorem nested_push : ∀ {st : List ListPos} {size : ℕ}, Nested st →
    (∀ tos ∈ st.head?, size ≤ tos.size - tos.pos) → Nested (⟨0, size⟩ :: st)
  | [], _, _, _ => Nat.zero_le _
  | tos :: _, _, h, hr => ⟨Nat.zero_le _, hr tos rfl, h⟩

/-- `ListEnd` counts a closed list in the list around it, which it fitted -/
theorem nested_pop : ∀ {tos : ListPos} {outer : List ListPos}, Nested (tos :: outer) →
    Nested (readIn outer tos.size)
  | _, [], _ => trivial
  | _, [parent], ⟨_, h₂, h₃⟩ => by
    simp only [readIn, Nested] at h₃ ⊢
    omega
  | _, parent :: gp :: more, ⟨_, h₂, h₃, h₄, h₅⟩ => ⟨by dsimp only; omega, h₄, h₅⟩

theorem size_of_mem_readIn : ∀ {st : List ListPos} {n : ℕ} {tos : ListPos}, tos ∈ readIn st n →
    ∃ tos' ∈ st, tos.size = tos'.size
  | [], _, _, h => by simp [readIn] at h
  | t :: outer, n, tos, h => by
    simp only [readIn, List.mem_cons] at h
    rcases h with rfl | h
    · exact ⟨t, List.mem_cons_self, rfl⟩
    · exact ⟨tos, List.mem_cons_of_mem _ h, rfl⟩

/-- **What holds of a stream between the calls on it**, for the limit `l` it was made with -/
structure Inv (l : Bool) (s : Stream) : Prop where
  limited : s.limited = l
  nested : Nested s.stack
  sizes : ∀ tos ∈ s.stack, tos.size < 2 ^ 64
  cached : s.kind ≠ none → s.kinderr = none → KindFits s s.size ∧ s.size < 2 ^ 64
  bounded : s.limited = true → s.remaining ≤ s.input.length
  kinderr : s.limited = true → s.kinderr ≠ some .unexpectedEOF

/-- the error a stream of limit `l` cannot throw: on a limited stream no read runs past the end of
the input -/
def Short (l : Bool) (e : RlpError) : Prop := l = true ∧ e = .unexpectedEOF

/-- a program of the stream keeps `Inv` and throws no short read -/
abbrev Keeps (l : Bool) {α : Type} (x : StreamM α) : Prop :=
  Safe (Inv l) (fun _ => True) (Short l) x

variable {l : Bool}

theorem not_short_of_ne {e : RlpError} (h : e ≠ .unexpectedEOF) : ¬ Short l e :=
  fun hs => h hs.2

/-! ## the changes the methods make -/

theorem Inv.rearm {s : Stream} (h : Inv l s) : Inv l { s with kind := none } :=
  ⟨h.limited, h.nested, h.sizes, fun hk => absurd rfl hk, h.bounded, h.kinderr⟩

theorem Inv.byteval {s : Stream} (h : Inv l s) (x : UInt8) : Inv l { s with byteval := x } :=
  ⟨h.limited, h.nested, h.sizes, h.cached, h.bounded, h.kinderr⟩

/-- the list counts of a read of `n` bytes, which fit the innermost list -/
theorem Inv.readIn {s : Stream} {n : ℕ} (h : Inv l s) (hr : Room s n) :
    Inv l { s with kind := none, stack := readIn s.stack n } := by
  refine ⟨h.limited, nested_readIn h.nested hr, fun tos htos => ?_, fun hk => absurd rfl hk,
    h.bounded, h.kinderr⟩
  obtain ⟨tos', htos', heq⟩ := size_of_mem_readIn htos
  rw [heq]
  exact h.sizes tos' htos'

theorem Inv.account {s : Stream} {n : ℕ} (h : Inv l s) (hr : Room s n) : Inv l (s.account n) := by
  have h' := h.readIn hr
  refine ⟨h'.limited, h'.nested, h'.sizes, fun hk => absurd rfl hk, fun hl => ?_, h'.kinderr⟩
  have hl' : s.limited = true := hl
  have := h.bounded hl'
  simp only [Stream.account, hl', if_true]
  omega

theorem Inv.advance {s : Stream} {n : ℕ} (h : Inv l s) (hr : Room s n) : Inv l (s.advance n) := by
  have h' := h.account hr
  refine ⟨h'.limited, h'.nested, h'.sizes, fun hk => absurd rfl hk, fun hl => ?_, h'.kinderr⟩
  have hl' : s.limited = true := hl
  have := h.bounded hl'
  simp only [Stream.advance, Stream.account, hl', if_true, List.length_drop]
  omega

/-- on a limited stream, `n` bytes the limit allows are in the input -/
theorem Inv.le_length {s : Stream} {n : ℕ} (h : Inv l s) (hf : Fits s n) (hl : l = true) :
    n ≤ s.input.length :=
  have hl' : s.limited = true := h.limited.trans hl
  (hf.2 hl').trans (h.bounded hl')

/-! ## the byte readers -/

theorem safe_willRead (n : ℕ) : Keeps l (willRead n) := by
  intro s hs
  have h := run_willRead n s
  by_cases hr : Room s n
  · by_cases hl : s.limited = true ∧ s.remaining < n
    · rw [if_pos hr, if_pos hl] at h
      rw [safeAt_of_run_error h]
      exact ⟨hs.readIn hr, not_short_of_ne (by simp)⟩
    · rw [if_pos hr, if_neg hl] at h
      rw [safeAt_of_run_ok h]
      exact ⟨hs.account hr, trivial⟩
  · rw [if_neg hr] at h
    rw [safeAt_of_run_error h]
    exact ⟨hs.rearm, not_short_of_ne (by simp)⟩

theorem safe_readByte : Keeps l readByte := by
  intro s hs
  have hw := safe_willRead 1 s hs
  cases h : (willRead 1).run s with
  | error e t =>
    have h' : readByte.run s = .error e t := by rw [run_readByte, h]
    rw [safeAt_of_run_error h']
    exact (safeAt_of_run_error h).mp hw
  | ok u t =>
    obtain ⟨hf, rfl⟩ := run_willRead_eq_ok.mp h
    cases hi : s.input with
    | nil =>
      -- a short read, which the limit rules out
      have h' : readByte.run s = .error .unexpectedEOF (s.account 1) := by
        simp only [run_readByte, h, account_input, hi]
      rw [safeAt_of_run_error h']
      refine ⟨hs.account hf.1, fun hshort => ?_⟩
      have := hs.le_length hf hshort.1
      simp [hi] at this
    | cons b rest =>
      have h' := (@run_readByte_eq_ok s (s.advance 1) b).mpr ⟨hf, by simp [hi], rfl⟩
      rw [safeAt_of_run_ok h']
      exact ⟨hs.advance hf.1, trivial⟩

theorem safe_readFull (n : ℕ) : Keeps l (readFull n) := by
  intro s hs
  have hw := safe_willRead n s hs
  cases h : (willRead n).run s with
  | error e t =>
    have h' : (readFull n).run s = .error e t := by rw [run_readFull, h]
    rw [safeAt_of_run_error h']
    exact (safeAt_of_run_error h).mp hw
  | ok u t =>
    obtain ⟨hf, rfl⟩ := run_willRead_eq_ok.mp h
    by_cases hl : s.input.length < n
    · -- a short read, which the limit rules out
      have h' : (readFull n).run s = .error .unexpectedEOF (s.advance n) := by
        simp only [run_readFull, h, account_input, hl, ↓reduceIte]
        rfl
      rw [safeAt_of_run_error h']
      refine ⟨hs.advance hf.1, fun hshort => ?_⟩
      have := hs.le_length hf hshort.1
      omega
    · have h' := run_readFull_eq_ok.mpr ⟨hf, Nat.le_of_not_lt hl, rfl, rfl⟩
      rw [safeAt_of_run_ok h']
      exact ⟨hs.advance hf.1, trivial⟩

theorem safe_readUint (m : ℕ) : Keeps l (readUint m) := by
  intro s hs
  unfold readUint
  split_ifs with h0 h1
  · exact ⟨hs.rearm, trivial⟩
  · refine (Safe.bind safe_readByte fun b t ht _ => ?_) s hs
    exact ⟨ht, trivial⟩
  · refine (Safe.bind (safe_readFull m) fun buf t ht _ => ?_) s hs
    split_ifs
    · exact ⟨ht, not_short_of_ne (by simp)⟩
    · exact ⟨ht, trivial⟩

/-! ## `Kind` -/

theorem size_lt_of_isHeader {k : Kind} {size : ℕ} {hd : List UInt8} (hh : IsHeader k size hd) :
    size < 2 ^ 64 := by
  cases k with
  | byte => rw [hh.1]; exact Nat.two_pow_pos 64
  | string => exact hh.1
  | list => exact hh.1

theorem safe_readKind :
    Safe (Inv l) (fun r => ∀ e, r.2.2 = some e → ¬ Short l e) (fun _ => True) readKind :=
  readKind_safe safe_readByte safe_readUint (fun _ x h => h.byteval x) (not_short_of_ne (by simp))
    (not_short_of_ne (by simp))

/-- after a header read without an error, `checkSize` passes its size or keeps an error -/
theorem safeAt_checkSize {t : Stream} (h : Inv l t) (k : Kind) {size : ℕ} (hsz : size < 2 ^ 64) :
    SafeAt (Inv l) (fun _ => True) (Short l) checkSize
      { t with kind := some k, size := size, kinderr := none } := by
  by_cases hf : KindFits { t with kind := some k, size := size, kinderr := none } size
  · rw [safeAt_of_run_ok (run_checkSize_of_fits hf)]
    exact ⟨⟨h.limited, h.nested, h.sizes, fun _ _ => ⟨hf, hsz⟩, h.bounded, fun _ => by simp⟩,
      trivial⟩
  · obtain ⟨e, he, hr⟩ := run_checkSize_of_not_fits hf
    rw [safeAt_of_run_ok hr]
    exact ⟨⟨h.limited, h.nested, h.sizes, fun _ hk => absurd hk (by simp), h.bounded,
      fun _ => by simpa using he⟩, trivial⟩

theorem safe_storeKind : Keeps l storeKind := by
  intro s hs
  have hk := safe_readKind s hs
  rw [storeKind, safeAt_bind]
  cases hr : readKind.run s with
  | error e t => exact absurd trivial ((safeAt_of_run_error hr).mp hk).2
  | ok r t =>
    obtain ⟨k, size, err⟩ := r
    obtain ⟨ht, herr⟩ := (safeAt_of_run_ok hr).mp hk
    dsimp only
    rw [safeAt_modify_bind]
    cases err with
    | none =>
      -- a header read without an error has a size that fits eight bytes
      obtain ⟨hd, hh, -⟩ := readKind_eq_ok hr
      exact safeAt_checkSize ht k (size_lt_of_isHeader hh)
    | some e =>
      -- the error is kept, and on a limited stream it is no short read
      rw [if_neg (by simp)]
      refine ⟨⟨ht.limited, ht.nested, ht.sizes, fun _ hk => absurd hk (by simp), ht.bounded,
        fun hl he => herr e rfl ⟨ht.limited ▸ hl, ?_⟩⟩, trivial⟩
      simpa using he

theorem Inv.clear {s : Stream} (h : Inv l s) (hk : s.kind = none) :
    Inv l { s with kinderr := none } :=
  ⟨h.limited, h.nested, h.sizes, fun h' => absurd hk h', h.bounded, fun _ => by simp⟩

/-- a kind kept is returned, or its error thrown, and on a limited stream that error is no
short read -/
theorem safeAt_nextKind_cached {s : Stream} {k : Kind} (hs : Inv l s) (hk : s.kind = some k) :
    SafeAt (Inv l) (fun _ => True) (Short l) nextKind s := by
  cases he : s.kinderr with
  | none =>
    rw [safeAt_of_run_ok (run_nextKind_cached hk he)]
    exact ⟨hs, trivial⟩
  | some e =>
    rw [safeAt_of_run_error (run_nextKind_cached_error hk he)]
    exact ⟨hs, fun hsh => hs.kinderr (hs.limited.trans hsh.1) (by rw [he, hsh.2])⟩

theorem safe_nextKind : Keeps l nextKind := by
  intro s hs
  cases hk : s.kind with
  | some k => exact safeAt_nextKind_cached hs hk
  | none =>
    by_cases heol : ∃ tos ∈ s.stack.head?, tos.pos = tos.size
    · rw [safeAt_of_run_error (run_nextKind_at_eol hk heol)]
      exact ⟨hs.clear hk, not_short_of_ne (by simp)⟩
    · -- the header is read and kept, and `Kind` answers as on the stream it leaves
      obtain ⟨t, ht⟩ := storeKind_ok { s with kinderr := none }
      obtain ⟨k, hkt⟩ := kind_of_storeKind ht
      have hst := (safeAt_of_run_ok ht).mp (safe_storeKind _ (hs.clear hk))
      rw [safeAt_congr (run_nextKind_of_storeKind hk heol ht)]
      exact safeAt_nextKind_cached hst.1 hkt

/-- what `Kind` returns is kept: a kind with the size it checked -/
theorem nextKind_eq_ok_cached {s t : Stream} {k : Kind} {size : ℕ}
    (h : nextKind.run s = .ok (k, size) t) : t.kind = some k ∧ t.size = size ∧ t.kinderr = none := by
  cases hk : s.kind with
  | none =>
    obtain ⟨hd, -, -, -, -, rfl⟩ := (run_nextKind_eq_ok hk).mp h
    exact ⟨rfl, rfl, rfl⟩
  | some k' =>
    cases he : s.kinderr with
    | some e =>
      rw [run_nextKind_cached_error hk he] at h
      cases h
    | none =>
      rw [run_nextKind_cached hk he, EStateM.Result.ok.injEq, Prod.mk.injEq] at h
      obtain ⟨⟨rfl, rfl⟩, rfl⟩ := h
      exact ⟨hk, rfl, he⟩

/-! ## the methods -/

theorem safe_bytes : Keeps l bytes := by
  refine Safe.bind safe_nextKind ?_
  rintro ⟨k, size⟩ t ht -
  cases k with
  | byte => exact ⟨ht.rearm, trivial⟩
  | string =>
    refine (Safe.bind (safe_readFull size) fun b u hu _ => ?_) t ht
    dsimp only
    split_ifs
    · exact ⟨hu, not_short_of_ne (by simp)⟩
    · exact ⟨hu, trivial⟩
  | list => exact ⟨ht, not_short_of_ne (by simp)⟩

theorem safe_raw : Keeps l raw := by
  refine Safe.bind safe_nextKind ?_
  rintro ⟨k, size⟩ t ht -
  dsimp only
  split_ifs
  · exact ⟨ht.rearm, trivial⟩
  · refine (Safe.bind (safe_readFull size) fun b u hu _ => ?_) t ht
    exact ⟨hu, trivial⟩
  · refine (Safe.bind (safe_readFull size) fun b u hu _ => ?_) t ht
    exact ⟨hu, trivial⟩

theorem safe_uint (maxbits : ℕ) : Keeps l (uint maxbits) := by
  refine Safe.bind safe_nextKind ?_
  rintro ⟨k, size⟩ t ht -
  cases k with
  | byte =>
    dsimp only
    rw [safeAt_get_bind]
    split_ifs
    · exact ⟨ht, not_short_of_ne (by simp)⟩
    · exact ⟨ht.rearm, trivial⟩
  | string =>
    dsimp only
    split_ifs
    · exact ⟨ht, not_short_of_ne (by simp)⟩
    · -- the error of `readUint` is passed on, a leading zero as one of the integer
      rw [safeAt_attempt_bind]
      have hr := safe_readUint size t ht
      cases h : (readUint size).run t with
      | error e u =>
        obtain ⟨hu, he⟩ := (safeAt_of_run_error h).mp hr
        dsimp only
        split
        · exact ⟨hu, not_short_of_ne (by simp)⟩
        · rename_i heq
          obtain rfl := Except.error.inj heq
          exact ⟨hu, he⟩
        · rename_i heq
          cases heq
      | ok v u =>
        have hu := ((safeAt_of_run_ok h).mp hr).1
        dsimp only
        split_ifs
        · exact ⟨hu, not_short_of_ne (by simp)⟩
        · exact ⟨hu, trivial⟩
  | list => exact ⟨ht, not_short_of_ne (by simp)⟩

theorem safe_bool : Keeps l bool := by
  refine Safe.bind (safe_uint 8) fun num t ht _ => ?_
  split_ifs
  · exact ⟨ht, trivial⟩
  · exact ⟨ht, trivial⟩
  · exact ⟨ht, not_short_of_ne (by simp)⟩

theorem safe_bigIntBytes : Keeps l bigIntBytes := by
  refine Safe.bind safe_nextKind ?_
  rintro ⟨k, size⟩ t ht -
  -- the bytes of the integer, then the check of a leading zero
  refine SafeAt.bind_trivial ?_ fun buffer u _ hu => ?_
  · cases k with
    | list => exact ⟨ht, not_short_of_ne (by simp)⟩
    | byte => exact ⟨ht.rearm, trivial⟩
    | string =>
      dsimp only
      split_ifs
      · exact ⟨ht.rearm, trivial⟩
      · refine (Safe.bind (safe_readFull size) fun b u hu _ => ?_) t ht
        split_ifs
        · exact ⟨hu, not_short_of_ne (by simp)⟩
        · exact ⟨hu, trivial⟩
      · exact (safe_readFull size t ht).mono fun _ _ => trivial
  · split_ifs
    · exact ⟨hu, not_short_of_ne (by simp)⟩
    · exact ⟨hu, trivial⟩

theorem safe_uint256Bytes : Keeps l uint256Bytes := by
  refine Safe.bind safe_bigIntBytes fun b t ht _ => ?_
  dsimp only
  split_ifs
  · exact ⟨ht, not_short_of_ne (by simp)⟩
  · exact ⟨ht, trivial⟩

theorem safe_list : Keeps l list := by
  intro s hs
  refine (safe_nextKind s hs).bind fun ⟨k, size⟩ t hr ht _ => ?_
  obtain ⟨hk, rfl, he⟩ := nextKind_eq_ok_cached hr
  dsimp only
  split_ifs
  · exact ⟨ht, not_short_of_ne (by simp)⟩
  · -- `NewList` pushes the size `Kind` checked against the innermost list
    obtain ⟨⟨hroom, -⟩, hsz⟩ := ht.cached (by simp [hk]) he
    refine ⟨⟨ht.limited, nested_push ht.nested hroom, fun tos htos => ?_, fun h' => absurd rfl h',
      ht.bounded, ht.kinderr⟩, trivial⟩
    rcases List.mem_cons.mp htos with rfl | htos
    · exact hsz
    · exact ht.sizes tos htos

theorem listEnd_error {s t : Stream} {e : RlpError} (h : listEnd.run s = .error e t) :
    t = s ∧ (e = .notInList ∨ e = .notAtEOL) := by
  cases hs : s.stack with
  | nil =>
    simp only [listEnd, EStateM.run_bind, EStateM.run_get, hs] at h
    cases h
    exact ⟨rfl, Or.inl rfl⟩
  | cons tos outer =>
    by_cases hp : tos.pos = tos.size
    · cases outer <;> simp [listEnd, hs, hp] at h
    · simp only [listEnd, EStateM.run_bind, EStateM.run_get, hs, ne_eq, hp, not_false_eq_true,
        if_true] at h
      cases h
      exact ⟨rfl, Or.inr rfl⟩

theorem safe_listEnd : Keeps l listEnd := by
  intro s hs
  cases h : listEnd.run s with
  | ok u t =>
    -- the closed list is counted in the one around it
    obtain ⟨tos, outer, hst, -, rfl⟩ := run_listEnd_eq_ok.mp h
    rw [safeAt_of_run_ok h]
    have hn := hst ▸ hs.nested
    refine ⟨⟨hs.limited, nested_pop hn, fun tos' htos' => ?_, fun hk => absurd rfl hk, hs.bounded,
      hs.kinderr⟩, trivial⟩
    obtain ⟨tos'', htos'', heq⟩ := size_of_mem_readIn htos'
    rw [heq]
    exact hs.sizes tos'' (by rw [hst]; exact List.mem_cons_of_mem _ htos'')
  | error e t =>
    obtain ⟨rfl, he⟩ := listEnd_error h
    rw [safeAt_of_run_error h]
    exact ⟨hs, not_short_of_ne (by rcases he with rfl | rfl <;> simp)⟩

/-! ## the calls, as the steps of a state machine -/

/-- the calls the package makes on a stream: the methods of `Stream`, `NewList` apart -/
inductive Call where
  | kind
  | bytes
  | raw
  | uint (maxbits : ℕ)
  | bool
  | bigIntBytes
  | uint256Bytes
  | list
  | listEnd
  deriving DecidableEq, Repr

/-- a call, what it returns dropped -/
def Call.prog : Call → StreamM Unit
  | .kind => nextKind >>= fun _ => pure ()
  | .bytes => Stream.bytes >>= fun _ => pure ()
  | .raw => Stream.raw >>= fun _ => pure ()
  | .uint maxbits => Stream.uint maxbits >>= fun _ => pure ()
  | .bool => Stream.bool >>= fun _ => pure ()
  | .bigIntBytes => Stream.bigIntBytes >>= fun _ => pure ()
  | .uint256Bytes => Stream.uint256Bytes >>= fun _ => pure ()
  | .list => Stream.list >>= fun _ => pure ()
  | .listEnd => Stream.listEnd

theorem Keeps.discard {α : Type} {x : StreamM α} (h : Keeps l x) :
    Keeps l (x >>= fun _ => pure ()) :=
  Safe.bind h fun _ _ ht _ => ⟨ht, trivial⟩

theorem Call.keeps : ∀ c : Call, Keeps l c.prog
  | .kind => safe_nextKind.discard
  | .bytes => safe_bytes.discard
  | .raw => safe_raw.discard
  | .uint maxbits => (safe_uint maxbits).discard
  | .bool => safe_bool.discard
  | .bigIntBytes => safe_bigIntBytes.discard
  | .uint256Bytes => safe_uint256Bytes.discard
  | .list => safe_list.discard
  | .listEnd => safe_listEnd

/-- one call, from a stream to the state it leaves, whether it returns or fails: a caller may go
on after an error -/
def Step (s t : Stream) : Prop := ∃ c : Call, (c.prog.run s).state = t

theorem Inv.step {s t : Stream} (h : Inv l s) (hst : Step s t) : Inv l t := by
  obtain ⟨c, rfl⟩ := hst
  exact (c.keeps s h).state

/-- **`Inv` holds along every run of calls** -/
theorem Inv.reachable {s t : Stream} (h : Inv l s) (hst : Relation.ReflTransGen Step s t) :
    Inv l t := by
  induction hst with
  | refl => exact h
  | tail _ hstep ih => exact ih.step hstep

theorem inv_ofBytes (b : List UInt8) : Inv true (ofBytes b) :=
  ⟨rfl, trivial, (fun _ h => by cases h), (fun h => absurd rfl h), (fun _ => le_refl _),
    (fun _ => by simp [ofBytes])⟩

theorem inv_of_reachable {b : List UInt8} {s : Stream}
    (h : Relation.ReflTransGen Step (ofBytes b) s) : Inv true s :=
  (inv_ofBytes b).reachable h

/-- a run inside a nested list: `List` twice, `Uint` of the inner list's first byte, and a
`ListEnd` that fails there, before the inner list's end -/
theorem reach_nested : Relation.ReflTransGen Step (ofBytes [0xC4, 0xC2, 0x05, 0x06, 0x07])
    ⟨[0x06, 0x07], 2, true, none, 0, 0x05, none, [⟨1, 2⟩, ⟨1, 4⟩]⟩ :=
  .tail (.tail (.tail (.single ⟨.list, rfl⟩) ⟨.list, rfl⟩) ⟨.uint 64, rfl⟩) ⟨.listEnd, rfl⟩

theorem inv_of_reachable_nested :
    Inv true ⟨[0x06, 0x07], 2, true, none, 0, 0x05, none, [⟨1, 2⟩, ⟨1, 4⟩]⟩ :=
  inv_of_reachable reach_nested

/-- **No call on a stream over a byte slice returns `io.ErrUnexpectedEOF`**, in any state a run
of calls reaches: every read is checked against the limit, which the input meets. -/
theorem call_not_short {b : List UInt8} {s t : Stream} (h : Relation.ReflTransGen Step (ofBytes b) s)
    (c : Call) : c.prog.run s ≠ .error .unexpectedEOF t := by
  intro hc
  exact ((safeAt_of_run_error hc).mp (c.keeps s ((inv_ofBytes b).reachable h))).2 ⟨rfl, rfl⟩

theorem call_not_short_nested :
    Call.bytes.prog.run ⟨[0x06, 0x07], 2, true, none, 0, 0x05, none, [⟨1, 2⟩, ⟨1, 4⟩]⟩ ≠
      .error .unexpectedEOF ⟨[0x07], 1, true, none, 0, 0x06, none, [⟨2, 2⟩, ⟨1, 4⟩]⟩ :=
  call_not_short reach_nested .bytes

theorem Nested.pos_le_of_mem : ∀ {st : List ListPos}, Nested st → ∀ tos ∈ st, tos.pos ≤ tos.size
  | [], _, _, h => by cases h
  | [t], h, tos, htos => by
    rw [List.mem_singleton] at htos
    exact htos ▸ h
  | t :: parent :: more, ⟨h₁, _, h₃⟩, tos, htos => by
    rcases List.mem_cons.mp htos with rfl | htos
    · exact h₁
    · exact Nested.pos_le_of_mem h₃ tos htos

/-- **The room of an open list never wraps**: in every state a run of calls reaches on a stream
over a byte slice, the `uint64` subtraction `tos.size-tos.pos` of `willRead` and `Kind` is the one
of the model. -/
theorem room_toUInt64 {b : List UInt8} {s : Stream} (h : Relation.ReflTransGen Step (ofBytes b) s)
    {tos : ListPos} (htos : tos ∈ s.stack) :
    (UInt64.ofNat tos.size - UInt64.ofNat tos.pos).toNat = tos.size - tos.pos := by
  have hinv := (inv_ofBytes b).reachable h
  have hle := hinv.nested.pos_le_of_mem tos htos
  have hsz : tos.size < UInt64.size := hinv.sizes tos htos
  have hpos : tos.pos < UInt64.size := lt_of_le_of_lt hle hsz
  have hle' : UInt64.ofNat tos.pos ≤ UInt64.ofNat tos.size := by
    rw [UInt64.le_iff_toNat_le, UInt64.toNat_ofNat_of_lt' hpos, UInt64.toNat_ofNat_of_lt' hsz]
    exact hle
  rw [UInt64.toNat_sub_of_le _ _ hle', UInt64.toNat_ofNat_of_lt' hsz,
    UInt64.toNat_ofNat_of_lt' hpos]

theorem room_toUInt64_nested : (UInt64.ofNat 4 - UInt64.ofNat 1).toNat = 4 - 1 :=
  @room_toUInt64 _ _ reach_nested ⟨1, 4⟩ (by simp)

end Stream

open N42.Rlp.Stream EStateM

/-! ## the decoders -/

section

variable {α : Type} {P : Stream → Prop} {bad : RlpError → Prop}

/-- the outcome of a decoder, where it has one, is safe -/
def DecodedSafe (P : Stream → Prop) (bad : RlpError → Prop) (d : Decoded α) : Prop :=
  ∀ r, d = some r → r.Safe P (fun _ => True) bad

theorem decodeSliceElems_safe {elemdec : Stream → Decoded α}
    (helem : ∀ s, P s → DecodedSafe P bad (elemdec s))
    (hctx : ∀ e c, ¬ bad e → ¬ bad (addErrorContext e c)) :
    ∀ (g i : ℕ) (s : Stream), P s → DecodedSafe P bad (decodeSliceElems elemdec g i s)
  | 0, _, _, _ => fun r h => by simp [decodeSliceElems] at h
  | g + 1, i, s, hs => by
    intro r h
    rcases hd : elemdec s with _ | ⟨v, t⟩ | ⟨e, t⟩
    · simp [decodeSliceElems, hd] at h
    · simp only [decodeSliceElems, hd, Option.map_eq_some_iff] at h
      obtain ⟨r', hr', rfl⟩ := h
      have ht := (helem s hs _ hd).1
      exact (decodeSliceElems_safe helem hctx g (i + 1) t ht r' hr').map fun _ _ => trivial
    · -- `EOL` ends the slice; any other error gets the index of its element
      have he := helem s hs _ hd
      by_cases heol : e = .eol
      · simp only [decodeSliceElems, hd, heol, if_true, Option.some.injEq] at h
        subst h
        exact ⟨he.1, trivial⟩
      · simp only [decodeSliceElems, hd, heol, if_false, Option.some.injEq] at h
        subst h
        exact ⟨he.1, hctx _ _ he.2⟩

theorem decodeListSlice_safe {elemdec : Stream → Decoded α} (fuel : ℕ)
    (helem : ∀ s, P s → DecodedSafe P bad (elemdec s))
    (hctx : ∀ e c, ¬ bad e → ¬ bad (addErrorContext e c))
    (hwrap : ∀ e, ¬ bad e → ¬ bad (wrapStreamError e))
    (hlist : Safe P (fun _ => True) bad list) (hend : Safe P (fun _ => True) bad listEnd)
    {s : Stream} (hs : P s) : DecodedSafe P bad (decodeListSlice elemdec fuel s) := by
  intro r h
  have hl := hlist s hs
  unfold decodeListSlice at h
  cases hr : list.run s with
  | error e t =>
    rw [hr] at h
    cases h
    obtain ⟨ht, he⟩ := (safeAt_of_run_error hr).mp hl
    exact ⟨ht, hwrap e he⟩
  | ok size t =>
    rw [hr] at h
    have ht := ((safeAt_of_run_ok hr).mp hl).1
    dsimp only at h
    split_ifs at h
    · cases h
      exact Result.Safe.map (hend t ht) fun _ _ => trivial
    · split at h
      · rename_i vs u hdse
        cases h
        have hu := (decodeSliceElems_safe helem hctx fuel 0 t ht _ hdse).1
        exact Result.Safe.map (hend u hu) fun _ _ => trivial
      · exact decodeSliceElems_safe helem hctx fuel 0 t ht r h

/-- **`decodeInterface` keeps what the methods keep**, and throws none of the errors they do not
throw, given that the error contexts and the wrapping of stream errors add none. -/
theorem decodeInterface_safe (hnk : Safe P (fun _ => True) bad nextKind)
    (hbytes : Safe P (fun _ => True) bad bytes) (hlist : Safe P (fun _ => True) bad list)
    (hend : Safe P (fun _ => True) bad listEnd)
    (hctx : ∀ e c, ¬ bad e → ¬ bad (addErrorContext e c))
    (hwrap : ∀ e, ¬ bad e → ¬ bad (wrapStreamError e)) :
    ∀ (fuel : ℕ) (s : Stream), P s → DecodedSafe P bad (decodeInterface fuel s)
  | 0, _, _ => fun r h => by simp [decodeInterface] at h
  | f + 1, s, hs => by
    intro r h
    have hn := hnk s hs
    simp only [decodeInterface] at h
    cases hr : nextKind.run s with
    | error e t =>
      rw [hr] at h
      cases h
      exact (safeAt_of_run_error hr).mp hn
    | ok ks t =>
      rw [hr] at h
      have ht := ((safeAt_of_run_ok hr).mp hn).1
      dsimp only at h
      split_ifs at h
      · obtain ⟨r', hr', rfl⟩ := Option.map_eq_some_iff.mp h
        have hi := decodeInterface_safe hnk hbytes hlist hend hctx hwrap f
        exact (decodeListSlice_safe f hi hctx hwrap hlist hend ht r' hr').map fun _ _ => trivial
      · cases h
        exact Result.Safe.map (hbytes t ht) fun _ _ => trivial

end

theorem wrapStreamError_eq_unexpectedEOF {e : RlpError} :
    wrapStreamError e = .unexpectedEOF ↔ e = .unexpectedEOF := by
  cases e <;> simp [wrapStreamError]

theorem addErrorContext_eq_unexpectedEOF {e : RlpError} {ctx : String} :
    addErrorContext e ctx = .unexpectedEOF ↔ e = .unexpectedEOF := by
  cases e <;> simp [addErrorContext]

theorem addDecodeTarget_eq_unexpectedEOF {e : RlpError} {typ : String} :
    addDecodeTarget typ e = .unexpectedEOF ↔ e = .unexpectedEOF := by
  cases e with
  | decodeError msg ctx => by_cases h : ctx = [] <;> simp [addDecodeTarget, h]
  | _ => simp [addDecodeTarget]

theorem decodeInterface_keeps {l : Bool} (fuel : ℕ) {s : Stream} (hs : Inv l s) :
    DecodedSafe (Inv l) (Short l) (decodeInterface fuel s) :=
  decodeInterface_safe safe_nextKind safe_bytes safe_list safe_listEnd
    (fun _ _ h hs => h ⟨hs.1, addErrorContext_eq_unexpectedEOF.mp hs.2⟩)
    (fun _ h hs => h ⟨hs.1, wrapStreamError_eq_unexpectedEOF.mp hs.2⟩) fuel s hs

/-- **`DecodeBytes` never returns `io.ErrUnexpectedEOF`**: a value cut short by the end of the
slice is caught by the checks against the limit, as `ErrValueTooLarge` or, at the top level,
`EOF`. -/
theorem decodeBytes_ne_unexpectedEOF (b : List UInt8) :
    decodeBytes b ≠ some (.error .unexpectedEOF) := by
  intro h
  simp only [decodeBytes, Option.map_eq_some_iff] at h
  obtain ⟨r, hr, hre⟩ := h
  have hsafe := decodeInterface_keeps (2 * b.length + 1) (inv_ofBytes b) r hr
  cases r with
  | error e t =>
    exact hsafe.2 ⟨rfl, addDecodeTarget_eq_unexpectedEOF.mp (Except.error.inj hre)⟩
  | ok it t =>
    dsimp only at hre
    split_ifs at hre
    cases hre

example : decodeBytes [] = some (.error .eof) := by rfl

example : decodeBytes [0xB8, 0x38] = some (.error .valueTooLarge) := by rfl

end Rlp

end N42
