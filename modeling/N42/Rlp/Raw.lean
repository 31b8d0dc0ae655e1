import N42.Lib.BigEndian
import N42.Lib.Monad

/-!
# (key: rlpraw) RLP headers and the raw splitting of `raw.go`

`internal/avm/rlp`: a byte below `0x80` is its own encoding; a string of fewer than 56 bytes has
the header `0x80 + len`, a longer one `0xB7 + n` and the `n` big-endian bytes of its length; a
list the same over its content with `0xC0` and `0xF7`.  `readKind` reads a header and rejects
every one that is not the shortest (`ErrCanonSize`), `Split` cuts a value off its input.  A length
is a `ℕ`: a Go slice is shorter than `2^63` bytes, and on such lengths the `uint64` conversions
of the source are exact.

* `putint`, `puthead`, `encodeString`, `encodeUint`   the byte-level writers of `encode.go`;
* `header`, `Canonical`   the header of a value of each kind, and the contents it may have;
* `split_eq_ok_iff`     `Split` accepts exactly a canonical header, its content and any rest;
* `splitUint64_eq_ok_iff`   `SplitUint64` accepts exactly the encoding of a `uint64`, which is
                        what `AppendUint64` writes (`appendUint64_eq`);
* `countValues_eq_ok_iff`   `CountValues` counts a concatenation of canonical values;
* `bytesSize_eq`, `listSize_eq`, `intSize_eq`   the size functions give the encoded lengths.
-/

namespace N42

namespace Rlp

/-- `Kind` -/
inductive Kind
  | byte | string | list
  deriving DecidableEq, Repr

/-- the errors of the package: those of `raw.go` and of the `Stream`, and the one of the encoder -/
inductive RlpError
  /-- `io.ErrUnexpectedEOF` -/
  | unexpectedEOF
  /-- `ErrCanonSize`: `rlp: non-canonical size information` -/
  | canonSize
  /-- `ErrCanonInt`: `rlp: non-canonical integer format` -/
  | canonInt
  /-- `ErrValueTooLarge`: `rlp: value size exceeds available input length` -/
  | valueTooLarge
  /-- `ErrExpectedString`: `rlp: expected String or Byte` -/
  | expectedString
  /-- `ErrExpectedList`: `rlp: expected List` -/
  | expectedList
  /-- `errUintOverflow`: `rlp: uint overflow` -/
  | uintOverflow
  /-- `writeBigInt`: `rlp: cannot encode negative *big.Int` -/
  | negativeBigInt
  /-- `EOL`: `rlp: end of list` -/
  | eol
  /-- `ErrElemTooLarge`: `rlp: element is larger than containing list` -/
  | elemTooLarge
  /-- `ErrMoreThanOneValue`: `rlp: input contains more than one value` -/
  | moreThanOneValue
  /-- `errNotInList`: `rlp: call of ListEnd outside of any list` -/
  | notInList
  /-- `errNotAtEOL`: `rlp: call of ListEnd not positioned at EOL` -/
  | notAtEOL
  /-- `io.EOF`, the end of the input at the top level -/
  | eof
  /-- `Bool`: `rlp: invalid boolean value: %d` -/
  | invalidBool (num : UInt64)
  /-- `decodeError`: `rlp: <msg> for <type>` and the context, innermost first (the Go type is
  not modelled) -/
  | decodeError (msg : String) (ctx : List String)
  deriving DecidableEq, Repr

/-- `EmptyStringCode` -/
def emptyStringCode : UInt8 := 0x80

/-- `EmptyListCode` -/
def emptyListCode : UInt8 := 0xC0

/-! ## the writers of headers and numbers -/

/-- `intsize`: `(bits.Len64(i) + 7) / 8` -/
def intsize (i : ℕ) : ℕ := (Nat.size i + 7) / 8

/-- `putint`: the bytes of `i`, the highest first; each case of the switch writes as many as `i`
needs, and the first one byte for every `i` below `1 << 8`, `0` included -/
def putint (i : ℕ) : List UInt8 := BigEndian.ofNat (max (intsize i) 1) i

/-- `headsize` -/
def headsize (size : ℕ) : ℕ := if size < 56 then 1 else 1 + intsize size

/-- `puthead` -/
def puthead (smalltag largetag : UInt8) (size : ℕ) : List UInt8 :=
  if size < 56 then [smalltag + UInt8.ofNat size]
  else
    let sizesize := putint size
    (largetag + UInt8.ofNat sizesize.length) :: sizesize

/-- `encbuf.encodeStringHeader` -/
def encodeStringHeader (size : ℕ) : List UInt8 := puthead emptyStringCode 0xB7 size

/-- `encbuf.encodeString`: what it appends to `str` -/
def encodeString (b : List UInt8) : List UInt8 :=
  if b.length = 1 ∧ b.headD 0 ≤ 0x7F then b else encodeStringHeader b.length ++ b

/-- `encbuf.encodeUint`: what it appends to `str` -/
def encodeUint (i : UInt64) : List UInt8 :=
  if i = 0 then [0x80]
  else if i < 128 then [i.toUInt8]
  else
    let s := putint i.toNat
    (0x80 + UInt8.ofNat s.length) :: s

/-- `AppendUint64`: from `128` on, each case of the switch appends the tag `0x80 + n` and the `n`
bytes of `i`, for `n` from one to eight -/
def appendUint64 (b : List UInt8) (i : UInt64) : List UInt8 :=
  if i = 0 then b ++ [0x80]
  else if i < 128 then b ++ [i.toUInt8]
  else b ++ (0x80 + UInt8.ofNat (intsize i.toNat)) :: BigEndian.ofNat (intsize i.toNat) i.toNat

/-- `BytesSize`, and `StringSize` over the bytes of the string -/
def bytesSize (b : List UInt8) : ℕ :=
  match b with
  | [] => 1
  | [x] => if x ≤ 0x7f then 1 else 2
  | _ => headsize b.length + b.length

/-- `ListSize` -/
def listSize (contentSize : ℕ) : ℕ := headsize contentSize + contentSize

/-- `IntSize` -/
def intSize (x : UInt64) : ℕ := if x < 0x80 then 1 else 1 + intsize x.toNat

/-! ## the readers -/

/-- `readSize`: the `slen` bytes, big-endian (the eight cases of the switch), rejected below
`56` and with a leading zero -/
def readSize (b : List UInt8) (slen : UInt8) : Except RlpError ℕ :=
  if slen.toNat > b.length then .error .unexpectedEOF
  else
    let s := if 1 ≤ slen.toNat ∧ slen.toNat ≤ 8 then BigEndian.toNat (b.take slen.toNat) else 0
    if s < 56 ∨ b.head? = some 0 then .error .canonSize else .ok s

/-- the switch of `readKind` on the first byte `b`, followed by `rest`: the kind, the tag size
and the content size -/
def readTag (b : UInt8) (rest : List UInt8) : Except RlpError (Kind × ℕ × ℕ) :=
  if b < 0x80 then .ok (.byte, 0, 1)
  else if b < 0xB8 then
    -- a string of one byte below `128` had to be that byte alone
    if (b - 0x80).toNat = 1 ∧ rest.length > 0 ∧ rest.headD 0 < 128 then .error .canonSize
    else .ok (.string, 1, (b - 0x80).toNat)
  else if b < 0xC0 then do
    let s ← readSize rest (b - 0xB7)
    pure (.string, (b - 0xB7).toNat + 1, s)
  else if b < 0xF8 then .ok (.list, 1, (b - 0xC0).toNat)
  else do
    let s ← readSize rest (b - 0xF7)
    pure (.list, (b - 0xF7).toNat + 1, s)

/-- `readKind` -/
def readKind : List UInt8 → Except RlpError (Kind × ℕ × ℕ)
  | [] => .error .unexpectedEOF
  | b :: rest => do
    let (k, tagsize, contentsize) ← readTag b rest
    if contentsize > (b :: rest).length - tagsize then throw .valueTooLarge
    pure (k, tagsize, contentsize)

/-- `Split`: the kind, the content and the rest -/
def split (b : List UInt8) : Except RlpError (Kind × List UInt8 × List UInt8) := do
  let (k, ts, cs) ← readKind b
  pure (k, (b.drop ts).take cs, b.drop (ts + cs))

/-- `SplitString` -/
def splitString (b : List UInt8) : Except RlpError (List UInt8 × List UInt8) := do
  let (k, content, rest) ← split b
  if k = .list then throw .expectedString
  pure (content, rest)

/-- `SplitUint64` -/
def splitUint64 (b : List UInt8) : Except RlpError (UInt64 × List UInt8) := do
  let (content, rest) ← splitString b
  match content with
  | [] => pure (0, rest)
  | [c] => if c = 0 then throw .canonInt else pure (c.toUInt64, rest)
  | _ =>
    if content.length > 8 then throw .uintOverflow
    else
      match readSize content (UInt8.ofNat content.length) with
      | .ok x => pure (UInt64.ofNat x, rest)
      | .error _ => throw .canonInt

/-- `SplitList` -/
def splitList (b : List UInt8) : Except RlpError (List UInt8 × List UInt8) := do
  let (k, content, rest) ← split b
  if k ≠ .list then throw .expectedList
  pure (content, rest)

/-- the loop of `CountValues`, on fuel: each round takes at least one byte, so the length of
the input is enough and the last case is never reached -/
def countValuesLoop : ℕ → List UInt8 → Except RlpError ℕ
  | _, [] => .ok 0
  | 0, _ :: _ => .error .unexpectedEOF
  | fuel + 1, b => do
    let (_, tagsize, size) ← readKind b
    let i ← countValuesLoop fuel (b.drop (tagsize + size))
    pure (i + 1)

/-- `CountValues` -/
def countValues (b : List UInt8) : Except RlpError ℕ := countValuesLoop b.length b

/-! ## `putint` and `readSize` -/

theorem intsize_pos {i : ℕ} (hi : 0 < i) : 0 < intsize i :=
  BigEndian.lt_size_iff.mpr (by rwa [pow_zero])

theorem intsize_le_eight {i : ℕ} (hi : i < 2 ^ 64) : intsize i ≤ 8 :=
  BigEndian.size_le_iff.mpr (by norm_num at hi ⊢; omega)

theorem putint_of_pos {i : ℕ} (hi : 0 < i) : putint i = BigEndian.ofNat (intsize i) i := by
  rw [putint, max_eq_left (intsize_pos hi)]

@[simp] theorem length_putint (i : ℕ) : (putint i).length = max (intsize i) 1 := by
  simp [putint]

theorem toNat_putint {i : ℕ} (hi : 0 < i) : BigEndian.toNat (putint i) = i := by
  rw [putint_of_pos hi, BigEndian.toNat_ofNat]
  exact Nat.mod_eq_of_lt (BigEndian.size_le_iff.mp le_rfl)

theorem head_putint {i : ℕ} (hi : 0 < i) : (putint i).head? ≠ some 0 := by
  rw [putint_of_pos hi]
  exact BigEndian.head_ofNat_size i

/-- a list without a leading zero is the `putint` of its value -/
theorem putint_toNat {bs : List UInt8} (hne : bs ≠ []) (hbs : bs.head? ≠ some 0) :
    putint (BigEndian.toNat bs) = bs := by
  obtain ⟨b, t, rfl⟩ := List.exists_cons_of_ne_nil hne
  have hb : b ≠ 0 := fun h => hbs (by rw [h]; rfl)
  have hsize := BigEndian.size_toNat_cons hb t
  rw [putint, show intsize (BigEndian.toNat (b :: t)) = t.length + 1 from hsize,
    max_eq_left (Nat.succ_pos _), ← List.length_cons, BigEndian.ofNat_toNat]

/-- the long header of a size is read back -/
theorem readSize_putint {s : ℕ} (h56 : 56 ≤ s) (hs : s < 2 ^ 64) (rest : List UInt8) :
    readSize (putint s ++ rest) (UInt8.ofNat (putint s).length) = .ok s := by
  have hpos : 0 < s := by omega
  have hlen : (UInt8.ofNat (putint s).length).toNat = intsize s := by
    rw [length_putint, max_eq_left (intsize_pos hpos)]
    exact UInt8.toNat_ofNat_of_lt' (by have := intsize_le_eight hs; change _ < 256; omega)
  have hbounds : 1 ≤ intsize s ∧ intsize s ≤ 8 := ⟨intsize_pos hpos, intsize_le_eight hs⟩
  have hfits : ¬ intsize s > (putint s ++ rest).length := by
    rw [List.length_append, length_putint]
    omega
  have htake : (putint s ++ rest).take (intsize s) = putint s := by
    rw [List.take_append_of_le_length (by simp), List.take_of_length_le (by simp; omega)]
  have hhead : (putint s ++ rest).head? ≠ some 0 := by
    rw [List.head?_append_of_ne_nil _ (List.ne_nil_of_length_pos (by simp))]
    exact head_putint hpos
  unfold readSize
  rw [hlen, if_neg hfits, if_pos hbounds, htake, toNat_putint hpos,
    if_neg (by rw [not_or]; exact ⟨by omega, hhead⟩)]

/-- what `readSize` accepts: a size of at least `56`, whose `putint` it read -/
theorem readSize_eq_ok {b : List UInt8} {slen : UInt8} {s : ℕ} (h : readSize b slen = .ok s) :
    56 ≤ s ∧ slen.toNat ≤ 8 ∧ (putint s).length = slen.toNat ∧
      b = putint s ++ b.drop slen.toNat := by
  unfold readSize at h
  split at h
  · cases h
  rename_i hle
  by_cases hbounds : 1 ≤ slen.toNat ∧ slen.toNat ≤ 8
  · rw [if_pos hbounds] at h
    dsimp only at h
    split at h
    · cases h
    rename_i hcanon
    cases h
    rw [not_or] at hcanon
    have htake_len : (b.take slen.toNat).length = slen.toNat := by
      rw [List.length_take]; omega
    have hne : b.take slen.toNat ≠ [] := List.ne_nil_of_length_pos (by omega)
    have hhead : (b.take slen.toNat).head? ≠ some 0 := by
      rw [List.head?_take, if_neg (by omega)]
      exact hcanon.2
    have hput := putint_toNat hne hhead
    refine ⟨by omega, hbounds.2, by rw [hput, htake_len], ?_⟩
    rw [hput, List.take_append_drop]
  · -- outside one to eight bytes the size is `0`, which is below `56`
    rw [if_neg hbounds, if_pos (Or.inl (by decide))] at h
    cases h

/-! ## the canonical headers -/

/-- the header of a value of kind `k` with the content `c` -/
def header : Kind → List UInt8 → List UInt8
  | .byte, _ => []
  | .string, c => encodeStringHeader c.length
  | .list, c => puthead emptyListCode 0xF7 c.length

/-- the contents a value of kind `k` may have: a byte is one below `0x80`, a string of one byte
is not, and the length of a string or a list fits the eight bytes of a long header -/
def Canonical : Kind → List UInt8 → Prop
  | .byte, c => ∃ x, c = [x] ∧ x < 0x80
  | .string, c => c.length < 2 ^ 64 ∧ ∀ x, c = [x] → 0x80 ≤ x
  | .list, c => c.length < 2 ^ 64

theorem tag_toNat (base : UInt8) {n : ℕ} (h : base.toNat + n < 256) :
    (base + UInt8.ofNat n).toNat = base.toNat + n := by
  rw [UInt8.toNat_add, UInt8.toNat_ofNat_of_lt' (by change n < 256; omega)]
  exact Nat.mod_eq_of_lt h

theorem tag_sub_toNat (base : UInt8) {n : ℕ} (h : base.toNat + n < 256) :
    ((base + UInt8.ofNat n) - base).toNat = n := by
  rw [add_sub_cancel_left, UInt8.toNat_ofNat_of_lt' (by change n < 256; omega)]

theorem add_ofNat_sub_toNat {base b : UInt8} : base + UInt8.ofNat (b - base).toNat = b := by
  rw [UInt8.ofNat_toNat, add_sub_cancel]

/-- the header `puthead` writes for a size of at least `56` -/
theorem puthead_long {smalltag largetag : UInt8} {size : ℕ} (h : ¬ size < 56) :
    puthead smalltag largetag size =
      (largetag + UInt8.ofNat (putint size).length) :: putint size := by
  rw [puthead, if_neg h]

theorem length_putint_long {size : ℕ} (h56 : 56 ≤ size) (h : size < 2 ^ 64) :
    1 ≤ (putint size).length ∧ (putint size).length ≤ 8 := by
  rw [length_putint, max_eq_left (intsize_pos (by omega))]
  exact ⟨intsize_pos (by omega), intsize_le_eight h⟩

/-- eight bytes of `putint` hold no more than `2 ^ 64` -/
theorem lt_of_length_putint {s : ℕ} (h : (putint s).length ≤ 8) : s < 2 ^ 64 := by
  rw [length_putint] at h
  have hsize : intsize s ≤ 8 := le_of_max_le_left h
  have := BigEndian.size_le_iff.mp hsize
  norm_num at this ⊢
  exact this

/-- a first byte of a known value settles every comparison of `readTag` -/
theorem lt_iff_of_toNat {b : UInt8} {v : ℕ} (hb : b.toNat = v) (m : UInt8) :
    b < m ↔ v < m.toNat := by
  rw [UInt8.lt_iff_toNat_lt, hb]

theorem readKind_cons {b : UInt8} {rest : List UInt8} {k : Kind} {ts cs : ℕ}
    (htag : readTag b rest = .ok (k, ts, cs)) (hfit : cs ≤ rest.length + 1 - ts) :
    readKind (b :: rest) = .ok (k, ts, cs) := by
  simp only [readKind, htag, List.length_cons, bind, Except.bind]
  rw [if_neg (by omega)]
  rfl

/-- **A canonical header is read back**, with its content and whatever follows. -/
theorem readKind_header {k : Kind} {c : List UInt8} (hc : Canonical k c) (r : List UInt8) :
    readKind (header k c ++ c ++ r) = .ok (k, (header k c).length, c.length) := by
  cases k with
  | byte =>
    obtain ⟨x, rfl, hx⟩ := hc
    simp only [header, List.nil_append, List.singleton_append, List.length_nil, List.length_singleton]
    exact readKind_cons (by rw [readTag, if_pos hx]) (by omega)
  | string =>
    obtain ⟨hlen, hone⟩ := hc
    by_cases hshort : c.length < 56
    · -- `0x80 + len`: the one-byte check passes, since a one-byte string is at least `0x80`
      have hb : (0x80 + UInt8.ofNat c.length : UInt8).toNat = 128 + c.length :=
        tag_toNat 0x80 (by change 128 + _ < 256; omega)
      have hsub : ((0x80 + UInt8.ofNat c.length : UInt8) - 0x80).toNat = c.length :=
        tag_sub_toNat 0x80 (by change 128 + _ < 256; omega)
      have hcanon : ¬ (c.length = 1 ∧ (c ++ r).length > 0 ∧ (c ++ r).headD 0 < 128) := by
        rintro ⟨h1, -, h3⟩
        obtain ⟨x, rfl⟩ := List.length_eq_one_iff.mp h1
        have hx := UInt8.le_iff_toNat_le.mp (hone x rfl)
        simp only [List.singleton_append, List.headD_cons] at h3
        have hx' := UInt8.lt_iff_toNat_lt.mp h3
        simp only [UInt8.toNat_ofNat] at hx hx'
        omega
      have htag : readTag (0x80 + UInt8.ofNat c.length) (c ++ r) = .ok (.string, 1, c.length) := by
        rw [readTag, if_neg (by rw [lt_iff_of_toNat hb]; simp only [UInt8.reduceToNat]; omega), if_pos (by rw [lt_iff_of_toNat hb]; simp only [UInt8.reduceToNat]; omega),
          hsub, if_neg hcanon]
      simp only [header, encodeStringHeader, puthead, emptyStringCode, if_pos hshort,
        List.cons_append, List.length_singleton]
      exact readKind_cons htag (by simp)
    · -- `0xB7 + n` and the `n` bytes of the length
      have hn := length_putint_long (Nat.le_of_not_lt hshort) hlen
      have hb : (0xB7 + UInt8.ofNat (putint c.length).length : UInt8).toNat =
          183 + (putint c.length).length := tag_toNat 0xB7 (by change 183 + _ < 256; omega)
      have hsub : (0xB7 + UInt8.ofNat (putint c.length).length : UInt8) - 0xB7 =
          UInt8.ofNat (putint c.length).length := add_sub_cancel_left _ _
      have hsize := readSize_putint (Nat.le_of_not_lt hshort) hlen (c ++ r)
      have htag : readTag (0xB7 + UInt8.ofNat (putint c.length).length) (putint c.length ++ (c ++ r)) =
          .ok (.string, (putint c.length).length + 1, c.length) := by
        rw [readTag, if_neg (by rw [lt_iff_of_toNat hb]; simp only [UInt8.reduceToNat]; omega), if_neg (by rw [lt_iff_of_toNat hb]; simp only [UInt8.reduceToNat]; omega),
          if_pos (by rw [lt_iff_of_toNat hb]; simp only [UInt8.reduceToNat]; omega), hsub, hsize]
        simp only [bind, Except.bind, pure, Except.pure,
          UInt8.toNat_ofNat_of_lt' (show (putint c.length).length < UInt8.size by change _ < 256; omega)]
      simp only [header, encodeStringHeader, puthead_long hshort, List.cons_append, List.append_assoc,
        List.length_cons]
      exact readKind_cons htag (by simp)
  | list =>
    have hlen : c.length < 2 ^ 64 := hc
    by_cases hshort : c.length < 56
    · have hb : (0xC0 + UInt8.ofNat c.length : UInt8).toNat = 192 + c.length :=
        tag_toNat 0xC0 (by change 192 + _ < 256; omega)
      have hsub : ((0xC0 + UInt8.ofNat c.length : UInt8) - 0xC0).toNat = c.length :=
        tag_sub_toNat 0xC0 (by change 192 + _ < 256; omega)
      have htag : readTag (0xC0 + UInt8.ofNat c.length) (c ++ r) = .ok (.list, 1, c.length) := by
        rw [readTag, if_neg (by rw [lt_iff_of_toNat hb]; simp only [UInt8.reduceToNat]; omega), if_neg (by rw [lt_iff_of_toNat hb]; simp only [UInt8.reduceToNat]; omega),
          if_neg (by rw [lt_iff_of_toNat hb]; simp only [UInt8.reduceToNat]; omega), if_pos (by rw [lt_iff_of_toNat hb]; simp only [UInt8.reduceToNat]; omega), hsub]
      simp only [header, puthead, emptyListCode, if_pos hshort, List.cons_append,
        List.length_singleton]
      exact readKind_cons htag (by simp)
    · have hn := length_putint_long (Nat.le_of_not_lt hshort) hlen
      have hb : (0xF7 + UInt8.ofNat (putint c.length).length : UInt8).toNat =
          247 + (putint c.length).length := tag_toNat 0xF7 (by change 247 + _ < 256; omega)
      have hsub : (0xF7 + UInt8.ofNat (putint c.length).length : UInt8) - 0xF7 =
          UInt8.ofNat (putint c.length).length := add_sub_cancel_left _ _
      have hsize := readSize_putint (Nat.le_of_not_lt hshort) hlen (c ++ r)
      have htag : readTag (0xF7 + UInt8.ofNat (putint c.length).length) (putint c.length ++ (c ++ r)) =
          .ok (.list, (putint c.length).length + 1, c.length) := by
        rw [readTag, if_neg (by rw [lt_iff_of_toNat hb]; simp only [UInt8.reduceToNat]; omega), if_neg (by rw [lt_iff_of_toNat hb]; simp only [UInt8.reduceToNat]; omega),
          if_neg (by rw [lt_iff_of_toNat hb]; simp only [UInt8.reduceToNat]; omega), if_neg (by rw [lt_iff_of_toNat hb]; simp only [UInt8.reduceToNat]; omega), hsub,
          hsize]
        simp only [bind, Except.bind, pure, Except.pure,
          UInt8.toNat_ofNat_of_lt' (show (putint c.length).length < UInt8.size by change _ < 256; omega)]
      simp only [header, puthead_long hshort, List.cons_append, List.append_assoc, List.length_cons]
      exact readKind_cons htag (by simp)

theorem header_string_short {c : List UInt8} (hc : c.length < 56) :
    header .string c = [0x80 + UInt8.ofNat c.length] := by
  rw [header, encodeStringHeader, puthead, if_pos hc]
  rfl

theorem header_list_short {c : List UInt8} (hc : c.length < 56) :
    header .list c = [0xC0 + UInt8.ofNat c.length] := by
  rw [header, puthead, if_pos hc]
  rfl

theorem header_string_long {c : List UInt8} (hc : ¬ c.length < 56) :
    header .string c = (0xB7 + UInt8.ofNat (putint c.length).length) :: putint c.length :=
  puthead_long hc

theorem header_list_long {c : List UInt8} (hc : ¬ c.length < 56) :
    header .list c = (0xF7 + UInt8.ofNat (putint c.length).length) :: putint c.length :=
  puthead_long hc

/-- a short header that `readTag` read: the first byte is the tag of the length -/
theorem eq_of_short {b base : UInt8} {rest : List UInt8} {n : ℕ} (hb : (b - base).toNat = n)
    (hfit : n ≤ rest.length) :
    (rest.take n).length = n ∧ b :: rest = [base + UInt8.ofNat n] ++ rest.take n ++ rest.drop n := by
  refine ⟨by rw [List.length_take]; omega, ?_⟩
  rw [← hb, add_ofNat_sub_toNat, List.append_assoc, List.take_append_drop, List.singleton_append]

/-- a long header that `readTag` read: the tag of the length of the size, and the size -/
theorem eq_of_long {b base : UInt8} {rest : List UInt8} {s : ℕ}
    (hsize : readSize rest (b - base) = .ok s) (hfit : s ≤ rest.length - (b - base).toNat) :
    56 ≤ s ∧ s < 2 ^ 64 ∧ ((rest.drop (b - base).toNat).take s).length = s ∧
      b :: rest = ((base + UInt8.ofNat (putint s).length) :: putint s) ++
        (rest.drop (b - base).toNat).take s ++ (rest.drop (b - base).toNat).drop s := by
  obtain ⟨h56, h8, hlen, hrest⟩ := readSize_eq_ok hsize
  refine ⟨h56, lt_of_length_putint (by omega), by rw [List.length_take, List.length_drop]; omega, ?_⟩
  rw [hlen, add_ofNat_sub_toNat, List.append_assoc, List.take_append_drop, List.cons_append,
    ← hrest]

theorem toNat_sub_lt {b base : UInt8} {m : ℕ} (h₁ : ¬ b < base) (h₂ : b < base + UInt8.ofNat m)
    (hm : base.toNat + m < 256) : (b - base).toNat < m := by
  have hle := UInt8.not_lt.mp h₁
  rw [UInt8.toNat_sub_of_le _ _ hle]
  have hlt := UInt8.lt_iff_toNat_lt.mp h₂
  have hle' := UInt8.le_iff_toNat_le.mp hle
  rw [tag_toNat base hm] at hlt
  omega

/-- **What `readKind` accepts is a canonical header**, followed by the content of the size it
reports and a rest. -/
theorem readKind_eq_ok {buf : List UInt8} {k : Kind} {ts cs : ℕ}
    (h : readKind buf = .ok (k, ts, cs)) :
    ∃ c r, Canonical k c ∧ buf = header k c ++ c ++ r ∧ ts = (header k c).length ∧
      cs = c.length := by
  cases buf with
  | nil => cases h
  | cons b rest =>
    simp only [readKind, Except.bind_eq_ok_iff] at h
    obtain ⟨⟨k', ts', cs'⟩, htag, hfit⟩ := h
    simp only [List.length_cons] at hfit
    split at hfit
    · cases hfit
    rename_i hle
    simp only [Except.pure_eq_ok_iff, Prod.mk.injEq] at hfit
    obtain ⟨rfl, rfl, rfl⟩ := hfit
    unfold readTag at htag
    split at htag
    · -- a byte below `0x80` is its own value
      rename_i hb
      simp only [Except.ok.injEq, Prod.mk.injEq] at htag
      obtain ⟨rfl, rfl, rfl⟩ := htag
      exact ⟨[b], rest, ⟨b, rfl, hb⟩, rfl, rfl, rfl⟩
    split at htag
    · -- `0x80 + len`, and the one-byte check
      rename_i hb₁ hb₂
      split at htag
      · cases htag
      rename_i hcanon
      simp only [Except.ok.injEq, Prod.mk.injEq] at htag
      obtain ⟨rfl, rfl, rfl⟩ := htag
      have hn : (b - 0x80).toNat < 56 := @toNat_sub_lt _ _ 56 hb₁ hb₂ (by decide)
      obtain ⟨hclen, heq⟩ := @eq_of_short _ _ rest _ (rfl : (b - 0x80).toNat = _) (by omega)
      refine ⟨rest.take (b - 0x80).toNat, rest.drop (b - 0x80).toNat, ⟨by omega, fun x hx => ?_⟩,
        ?_, ?_, hclen.symm⟩
      · -- a one-byte string: the check saw that byte, and it is at least `0x80`
        have h1 : (b - 0x80).toNat = 1 := by rw [← hclen, hx, List.length_singleton]
        cases rest with
        | nil => simp at hx
        | cons y ys =>
          rw [h1, List.take_succ_cons, List.take_zero, List.cons.injEq] at hx
          rw [← hx.1]
          exact UInt8.not_lt.mp fun hy => hcanon ⟨h1, by simp, hy⟩
      · rw [header_string_short (by omega), hclen]
        exact heq
      · rw [header_string_short (by omega), List.length_singleton]
    split at htag
    · -- `0xB7 + n` and the length
      simp only [Except.bind_eq_ok_iff, Except.pure_eq_ok_iff, Prod.mk.injEq] at htag
      obtain ⟨s, hsize, rfl, rfl, rfl⟩ := htag
      obtain ⟨h56, hlt, hclen, heq⟩ := eq_of_long hsize (by omega)
      refine ⟨(rest.drop (b - 0xB7).toNat).take s, (rest.drop (b - 0xB7).toNat).drop s,
        ⟨by omega, fun x hx => ?_⟩, ?_, ?_, hclen.symm⟩
      · rw [hx, List.length_singleton] at hclen
        omega
      · rw [header_string_long (by omega), hclen]
        exact heq
      · rw [header_string_long (by omega), hclen, List.length_cons, (readSize_eq_ok hsize).2.2.1]
    split at htag
    · -- `0xC0 + len`
      rename_i hb₁ hb₂ hb₃ hb₄
      simp only [Except.ok.injEq, Prod.mk.injEq] at htag
      obtain ⟨rfl, rfl, rfl⟩ := htag
      have hn : (b - 0xC0).toNat < 56 := @toNat_sub_lt _ _ 56 hb₃ hb₄ (by decide)
      obtain ⟨hclen, heq⟩ := @eq_of_short _ _ rest _ (rfl : (b - 0xC0).toNat = _) (by omega)
      refine ⟨rest.take (b - 0xC0).toNat, rest.drop (b - 0xC0).toNat, show _ < 2 ^ 64 by omega, ?_,
        ?_, hclen.symm⟩
      · rw [header_list_short (by omega), hclen]
        exact heq
      · rw [header_list_short (by omega), List.length_singleton]
    · -- `0xF7 + n` and the length
      simp only [Except.bind_eq_ok_iff, Except.pure_eq_ok_iff, Prod.mk.injEq] at htag
      obtain ⟨s, hsize, rfl, rfl, rfl⟩ := htag
      obtain ⟨h56, hlt, hclen, heq⟩ := eq_of_long hsize (by omega)
      refine ⟨(rest.drop (b - 0xF7).toNat).take s, (rest.drop (b - 0xF7).toNat).drop s,
        show _ < 2 ^ 64 by omega, ?_, ?_, hclen.symm⟩
      · rw [header_list_long (by omega), hclen]
        exact heq
      · rw [header_list_long (by omega), hclen, List.length_cons, (readSize_eq_ok hsize).2.2.1]

theorem cut_header (h c r : List UInt8) :
    ((h ++ c ++ r).drop h.length).take c.length = c ∧ (h ++ c ++ r).drop (h.length + c.length) = r := by
  rw [List.append_assoc, List.drop_left, List.take_left, ← List.length_append, ← List.append_assoc,
    List.drop_left]
  exact ⟨rfl, rfl⟩

/-! ## `Split` and the functions over it -/

/-- **`Split` accepts exactly a canonical value**: the header of its kind, a content it may have,
and a rest, each returned as it is. -/
theorem split_eq_ok_iff {buf : List UInt8} {k : Kind} {c r : List UInt8} :
    split buf = .ok (k, c, r) ↔ Canonical k c ∧ buf = header k c ++ c ++ r := by
  constructor
  · intro h
    simp only [split, Except.bind_eq_ok_iff] at h
    obtain ⟨⟨k', ts, cs⟩, hkind, hres⟩ := h
    simp only [Except.pure_eq_ok_iff, Prod.mk.injEq] at hres
    obtain ⟨rfl, rfl, rfl⟩ := hres
    obtain ⟨c', r', hc, rfl, rfl, rfl⟩ := readKind_eq_ok hkind
    obtain ⟨hcut, hrest⟩ := cut_header (header k' c') c' r'
    rw [hcut, hrest]
    exact ⟨hc, rfl⟩
  · rintro ⟨hc, rfl⟩
    obtain ⟨hcut, hrest⟩ := cut_header (header k c) c r
    simp only [split, readKind_header hc r, bind, Except.bind, pure, Except.pure, hcut, hrest]

/-- a byte below `0x80` written as a one-byte string, and a length below `56` written long, are
not canonical -/
example : split [0x81, 0x05] = .error .canonSize ∧ split [0xB8, 0x05] = .error .canonSize := by
  decide

/-- `SplitString` is `Split` of a byte or a string -/
theorem splitString_eq_ok_iff {buf c r : List UInt8} :
    splitString buf = .ok (c, r) ↔ ∃ k, k ≠ .list ∧ split buf = .ok (k, c, r) := by
  simp only [splitString, Except.bind_eq_ok_iff]
  constructor
  · rintro ⟨⟨k, c', r'⟩, hsplit, hres⟩
    split at hres
    · cases hres
    rename_i hk
    simp only [Except.pure_eq_ok_iff, Prod.mk.injEq] at hres
    obtain ⟨rfl, rfl⟩ := hres
    exact ⟨k, hk, hsplit⟩
  · rintro ⟨k, hk, hsplit⟩
    exact ⟨(k, c, r), hsplit, by rw [if_neg hk]; rfl⟩

/-! ## strings and numbers -/

/-- the kind `encodeString` gives a string: a byte when it is one below `0x80` -/
def strKind (b : List UInt8) : Kind :=
  if b.length = 1 ∧ b.headD 0 ≤ 0x7F then .byte else .string

theorem encodeString_eq (b : List UInt8) : encodeString b = header (strKind b) b ++ b := by
  unfold encodeString strKind
  split <;> rfl

theorem canonical_strKind {b : List UInt8} (hb : b.length < 2 ^ 64) : Canonical (strKind b) b := by
  unfold strKind
  split
  · rename_i h
    obtain ⟨x, rfl⟩ := List.length_eq_one_iff.mp h.1
    exact ⟨x, rfl, UInt8.lt_iff_toNat_lt.mpr (by have := UInt8.le_iff_toNat_le.mp h.2; simp at this ⊢; omega)⟩
  · rename_i h
    refine ⟨hb, fun x hx => ?_⟩
    subst hx
    refine UInt8.le_iff_toNat_le.mpr ?_
    have : ¬ x ≤ 0x7F := fun hx => h ⟨rfl, hx⟩
    rw [UInt8.not_le, UInt8.lt_iff_toNat_lt] at this
    simp at this ⊢
    omega

/-- a byte or a string that `Split` accepts is what `encodeString` writes of its content -/
theorem header_eq_encodeString {k : Kind} {c : List UInt8} (hk : k ≠ .list) (hc : Canonical k c) :
    header k c ++ c = encodeString c := by
  rw [encodeString_eq]
  cases k with
  | byte =>
    obtain ⟨x, rfl, hx⟩ := hc
    have : strKind [x] = .byte := if_pos ⟨rfl, UInt8.le_iff_toNat_le.mpr (by
      have := UInt8.lt_iff_toNat_lt.mp hx; simp at this ⊢; omega)⟩
    rw [this]
  | string =>
    have : strKind c = .string := if_neg fun h => by
      obtain ⟨x, hx⟩ := List.length_eq_one_iff.mp h.1
      have h80 := UInt8.le_iff_toNat_le.mp (hc.2 x hx)
      have h7f := UInt8.le_iff_toNat_le.mp (show x ≤ 0x7F by simpa [hx] using h.2)
      simp at h80 h7f
      omega
    rw [this]
  | list => exact absurd rfl hk

theorem split_encodeString {b : List UInt8} (hb : b.length < 2 ^ 64) (r : List UInt8) :
    split (encodeString b ++ r) = .ok (strKind b, b, r) :=
  split_eq_ok_iff.mpr ⟨canonical_strKind hb, by rw [encodeString_eq]⟩

/-- the content of the encoding of a `uint64`: nothing for `0`, else its bytes -/
def uintBytes (x : UInt64) : List UInt8 := if x = 0 then [] else putint x.toNat

theorem putint_of_lt_256 {n : ℕ} (h₀ : 0 < n) (h : n < 256) : putint n = [UInt8.ofNat n] := by
  have hsize : intsize n = 1 :=
    Nat.le_antisymm (BigEndian.size_le_iff.mpr (by simpa using h)) (intsize_pos h₀)
  rw [putint, hsize]
  simp [BigEndian.ofNat, Nat.mod_eq_of_lt h, Nat.digitsAppend, Nat.digits_of_lt 256 n (by omega) h]

theorem length_putint_pos (n : ℕ) : 0 < (putint n).length := by
  rw [length_putint]
  omega

theorem encodeString_uintBytes (x : UInt64) : encodeString (uintBytes x) = encodeUint x := by
  unfold uintBytes encodeUint
  by_cases h0 : x = 0
  · rw [if_pos h0, if_pos h0]
    rfl
  rw [if_neg h0, if_neg h0]
  have hpos : 0 < x.toNat := by
    rcases Nat.eq_zero_or_pos x.toNat with h | h
    · exact absurd (UInt64.toNat_inj.mp (by rw [h]; rfl)) h0
    · exact h
  have hlen : (putint x.toNat).length < 56 := by
    have := intsize_le_eight x.toNat_lt; rw [length_putint]; omega
  by_cases hsmall : x < 128
  · rw [if_pos hsmall]
    have hlt : x.toNat < 128 := UInt64.lt_iff_toNat_lt.mp hsmall
    rw [putint_of_lt_256 hpos (by omega), encodeString, if_pos ⟨rfl, UInt8.le_iff_toNat_le.mpr (by
      simp; omega)⟩]
    congr 1
  · rw [if_neg hsmall, encodeString, if_neg, encodeStringHeader, puthead, if_pos hlen]
    · rfl
    · rintro ⟨h1, h2⟩
      have hge : 128 ≤ x.toNat := by have := UInt64.lt_iff_toNat_lt.not.mp hsmall; simp at this; omega
      have h256 : x.toNat < 256 := by
        by_contra hge'
        have : 1 < intsize x.toNat := BigEndian.lt_size_iff.mpr (by simp; omega)
        rw [length_putint] at h1
        omega
      rw [putint_of_lt_256 hpos h256] at h2
      have := UInt8.le_iff_toNat_le.mp h2
      simp at this
      omega

theorem toNat_pos_of_ne {x : UInt64} (h0 : x ≠ 0) : 0 < x.toNat := by
  rcases Nat.eq_zero_or_pos x.toNat with h | h
  · exact absurd (UInt64.toNat_inj.mp (by rw [h]; rfl)) h0
  · exact h

/-- what `SplitUint64` makes of the content `SplitString` gives it: the content of the number -/
theorem uintBytes_of_splitUint64 {b c r r' : List UInt8} {x : UInt64}
    (hstr : splitString b = .ok (c, r)) (h : splitUint64 b = .ok (x, r')) :
    c = uintBytes x ∧ r' = r := by
  simp only [splitUint64, hstr, bind, Except.bind] at h
  rcases c with _ | ⟨y, _ | ⟨z, t⟩⟩
  · -- no content: zero
    simp only [Except.pure_eq_ok_iff, Prod.mk.injEq] at h
    obtain ⟨rfl, rfl⟩ := h
    exact ⟨rfl, rfl⟩
  · -- one byte, not zero
    simp only at h
    split at h
    · cases h
    rename_i hy
    simp only [Except.pure_eq_ok_iff, Prod.mk.injEq] at h
    obtain ⟨rfl, rfl⟩ := h
    have hpos : 0 < y.toNat := by
      rcases Nat.eq_zero_or_pos y.toNat with h | h
      · exact absurd (UInt8.toNat_inj.mp (by rw [h]; rfl)) hy
      · exact h
    have hne : y.toUInt64 ≠ 0 := fun h => by
      have := congrArg UInt64.toNat h; simp at this; omega
    refine ⟨?_, rfl⟩
    rw [uintBytes, if_neg hne, UInt8.toNat_toUInt64, putint_of_lt_256 hpos y.toNat_lt,
      UInt8.ofNat_toNat]
  · -- two to eight bytes, read by `readSize`
    simp only at h
    split at h
    · cases h
    rename_i h8
    split at h
    · rename_i s hsize
      simp only [Except.pure_eq_ok_iff, Prod.mk.injEq] at h
      obtain ⟨rfl, rfl⟩ := h
      obtain ⟨h56, -, hlen, hc⟩ := readSize_eq_ok hsize
      have hslen : (UInt8.ofNat (y :: z :: t).length).toNat = (y :: z :: t).length :=
        UInt8.toNat_ofNat_of_lt' (by change _ < 256; omega)
      have hlt : s < 2 ^ 64 := lt_of_length_putint (by rw [hlen, hslen]; omega)
      have hx : (UInt64.ofNat s).toNat = s := UInt64.toNat_ofNat_of_lt' hlt
      have hne : UInt64.ofNat s ≠ 0 := fun h => by rw [h] at hx; simp at hx; omega
      refine ⟨?_, rfl⟩
      rw [uintBytes, if_neg hne, hx]
      rw [hslen, List.drop_length, List.append_nil] at hc
      exact hc
    · cases h

/-- **`SplitUint64` accepts exactly the encoding of a `uint64`**, followed by any rest. -/
theorem splitUint64_eq_ok_iff {b r : List UInt8} {x : UInt64} :
    splitUint64 b = .ok (x, r) ↔ b = encodeUint x ++ r := by
  constructor
  · intro h
    have hsplit64 := h
    simp only [splitUint64, Except.bind_eq_ok_iff] at h
    obtain ⟨⟨c, r'⟩, hstr, -⟩ := h
    obtain ⟨hc, rfl⟩ := uintBytes_of_splitUint64 hstr hsplit64
    obtain ⟨k, hk, hsplit⟩ := splitString_eq_ok_iff.mp hstr
    obtain ⟨hcanon, rfl⟩ := split_eq_ok_iff.mp hsplit
    rw [header_eq_encodeString hk hcanon, hc, encodeString_uintBytes]
  · rintro rfl
    have hlen : (uintBytes x).length < 2 ^ 64 := by
      unfold uintBytes
      split
      · simp
      · rw [length_putint]; have := intsize_le_eight x.toNat_lt; omega
    have hk : strKind (uintBytes x) ≠ .list := by unfold strKind; split <;> simp
    have hstr : splitString (encodeUint x ++ r) = .ok (uintBytes x, r) :=
      splitString_eq_ok_iff.mpr ⟨_, hk, by rw [← encodeString_uintBytes]; exact split_encodeString hlen r⟩
    simp only [splitUint64, hstr, bind, Except.bind]
    unfold uintBytes
    by_cases h0 : x = 0
    · rw [if_pos h0, h0]
      rfl
    rw [if_neg h0]
    have hpos := toNat_pos_of_ne h0
    by_cases h256 : x.toNat < 256
    · rw [putint_of_lt_256 hpos h256]
      simp only
      rw [if_neg fun h => by have := congrArg UInt8.toNat h; simp at this; omega]
      congr
      apply UInt64.toNat_inj.mp
      simp [Nat.mod_eq_of_lt h256]
    · -- two bytes or more: `readSize` reads the number back
      have hsize := intsize_le_eight x.toNat_lt
      have htwo : 2 ≤ intsize x.toNat := BigEndian.lt_size_iff.mpr (by simp; omega)
      obtain ⟨a, b, t, hab⟩ : ∃ a b t, putint x.toNat = a :: b :: t := by
        have hl : (putint x.toNat).length = intsize x.toNat := by rw [length_putint]; omega
        rcases hp : putint x.toNat with _ | ⟨a, _ | ⟨b, t⟩⟩
        · rw [hp] at hl; simp at hl; omega
        · rw [hp] at hl; simp at hl; omega
        · exact ⟨a, b, t, rfl⟩
      have hread := @readSize_putint x.toNat (by omega) x.toNat_lt []
      rw [List.append_nil] at hread
      rw [hab] at hread ⊢
      simp only
      rw [if_neg (by rw [← hab, length_putint]; omega), hread]
      simp only [pure, Except.pure, UInt64.ofNat_toNat]

example : splitUint64 [0x82, 0x04, 0x00, 0x07] = .ok (1024, [0x07]) := by decide

/-- `AppendUint64` writes what `encodeUint` writes -/
theorem appendUint64_eq (b : List UInt8) (i : UInt64) : appendUint64 b i = b ++ encodeUint i := by
  unfold appendUint64 encodeUint
  split
  · rfl
  split
  · rfl
  rename_i h0 _
  rw [putint_of_pos (toNat_pos_of_ne h0)]
  dsimp only
  rw [BigEndian.length_ofNat]

/-! ## `CountValues` and the sizes -/

@[simp] theorem length_puthead (smalltag largetag : UInt8) (size : ℕ) :
    (puthead smalltag largetag size).length = headsize size := by
  unfold puthead headsize
  split
  · rfl
  · rw [List.length_cons, length_putint, max_eq_left (intsize_pos (by omega))]
    omega

theorem headsize_le {size : ℕ} (h : size < 2 ^ 64) : headsize size ≤ 9 := by
  unfold headsize
  have := intsize_le_eight h
  split <;> omega

theorem header_append_ne_nil {k : Kind} {c : List UInt8} (hc : Canonical k c) :
    header k c ++ c ≠ [] := by
  cases k with
  | byte => obtain ⟨x, rfl, -⟩ := hc; simp
  | string => simp [header, encodeStringHeader, puthead]; split <;> simp
  | list => simp [header, puthead]; split <;> simp

theorem countValuesLoop_nil (fuel : ℕ) : countValuesLoop fuel [] = .ok 0 := by
  cases fuel <;> rfl

theorem countValuesLoop_eq_ok_iff :
    ∀ (fuel : ℕ) (b : List UInt8) (n : ℕ), b.length ≤ fuel →
      (countValuesLoop fuel b = .ok n ↔ ∃ vs : List (Kind × List UInt8), vs.length = n ∧
        (∀ v ∈ vs, Canonical v.1 v.2) ∧ b = vs.flatMap fun v => header v.1 v.2 ++ v.2)
  | fuel, [], n, _ => by
    rw [countValuesLoop_nil]
    constructor
    · intro h
      cases h
      exact ⟨[], rfl, by simp, rfl⟩
    · rintro ⟨vs, rfl, hvs, hb⟩
      -- every value takes at least one byte, so none fits in nothing
      cases vs with
      | nil => rfl
      | cons v vs =>
        rw [List.flatMap_cons] at hb
        exact absurd (List.append_eq_nil_iff.mp hb.symm).1 (header_append_ne_nil (hvs v (by simp)))
  | 0, _ :: _, _, hlen => absurd hlen (by simp)
  | fuel + 1, x :: t, n, hlen => by
    constructor
    · intro h
      simp only [countValuesLoop, Except.bind_eq_ok_iff] at h
      obtain ⟨⟨k, ts, cs⟩, hkind, i, hloop, hn⟩ := h
      obtain ⟨c, r, hc, hb, rfl, rfl⟩ := readKind_eq_ok hkind
      have hdrop : (x :: t).drop ((header k c).length + c.length) = r := by
        rw [hb]; exact (cut_header _ _ _).2
      have hr : r.length ≤ fuel := by
        have hlen' : (x :: t).length = (header k c ++ c).length + r.length := by
          rw [hb, List.length_append]
        have := List.length_pos_of_ne_nil (header_append_ne_nil hc)
        simp only [List.length_cons] at hlen hlen'
        omega
      rw [hdrop] at hloop
      obtain ⟨vs, hvlen, hvs, hr'⟩ := (countValuesLoop_eq_ok_iff fuel r i hr).mp hloop
      simp only [Except.pure_eq_ok_iff] at hn
      refine ⟨(k, c) :: vs, by simp [hvlen, hn], ?_, ?_⟩
      · intro v hv
        rcases List.mem_cons.mp hv with rfl | hv
        · exact hc
        · exact hvs v hv
      · rw [List.flatMap_cons, hb, ← hr', List.append_assoc]
    · rintro ⟨vs, hvlen, hvs, hb⟩
      cases vs with
      | nil => simp at hb
      | cons v vs =>
        rw [List.flatMap_cons, List.append_assoc] at hb
        have hc := hvs v (by simp)
        have hkind := readKind_header hc (vs.flatMap fun v => header v.1 v.2 ++ v.2)
        rw [List.append_assoc, ← hb] at hkind
        have hdrop := (cut_header (header v.1 v.2) v.2 (vs.flatMap fun v => header v.1 v.2 ++ v.2)).2
        rw [List.append_assoc, ← hb] at hdrop
        have hr : (vs.flatMap fun v => header v.1 v.2 ++ v.2).length ≤ fuel := by
          have hlen' := congrArg List.length hb
          have := List.length_pos_of_ne_nil (header_append_ne_nil hc)
          simp only [List.length_cons, List.length_append] at hlen hlen' this
          omega
        have hloop := (countValuesLoop_eq_ok_iff fuel _ vs.length hr).mpr
          ⟨vs, rfl, fun w hw => hvs w (List.mem_cons_of_mem _ hw), rfl⟩
        simp only [List.length_cons] at hvlen
        simp only [countValuesLoop, hkind, bind, Except.bind, hdrop, hloop, pure, Except.pure, ← hvlen]

/-- **`CountValues` counts the values of a concatenation of canonical values**, and fails on
anything else. -/
theorem countValues_eq_ok_iff {b : List UInt8} {n : ℕ} :
    countValues b = .ok n ↔ ∃ vs : List (Kind × List UInt8), vs.length = n ∧
      (∀ v ∈ vs, Canonical v.1 v.2) ∧ b = vs.flatMap fun v => header v.1 v.2 ++ v.2 :=
  countValuesLoop_eq_ok_iff b.length b n le_rfl

theorem bytesSize_eq (b : List UInt8) : bytesSize b = (encodeString b).length := by
  match b with
  | [] => rfl
  | [x] =>
    simp only [bytesSize, encodeString, List.length_singleton, List.headD_cons, true_and]
    split <;> rfl
  | x :: y :: t =>
    simp only [bytesSize, encodeString, encodeStringHeader, List.length_cons]
    rw [if_neg (by omega), List.length_append, length_puthead, List.length_cons, List.length_cons]

theorem listSize_eq (c : List UInt8) : listSize c.length = (header .list c ++ c).length := by
  simp [listSize, header]

theorem intSize_eq (x : UInt64) : intSize x = (encodeUint x).length := by
  unfold intSize encodeUint
  by_cases h0 : x = 0
  · subst h0; rfl
  rw [if_neg h0]
  by_cases hsmall : x < 128
  · rw [if_pos hsmall, if_pos hsmall]; rfl
  · rw [if_neg hsmall, if_neg hsmall]
    dsimp only
    rw [List.length_cons, length_putint, max_eq_left (intsize_pos (toNat_pos_of_ne h0))]
    omega

end Rlp

end N42
