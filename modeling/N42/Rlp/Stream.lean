import N42.Rlp.Decode
import N42.Lib.EState

/-!
# (key: rlpstream) The decoding `Stream` of `decode.go`

A `Stream` reads values off a reader one at a time.  `Kind` reads the header of the value ahead
once and keeps it, with its error, until a read rearms it; a list that `List` opens is pushed on
a stack with the count of its bytes read so far, and every read checks that it fits the innermost
list (`ErrElemTooLarge`) and the input limit (`ErrValueTooLarge`).  At the end of a list every
operation returns `EOL`, until `ListEnd` closes it.

The methods change the stream also when they fail, and a caller may go on after an error: the
element loop of a slice stops at `EOL`.  They are modelled in `EStateM RlpError Stream`, whose
errors carry the state.  The decoders recurse into lists; they run on fuel, `none` when it is
spent, and `decodeBytes_isSome` shows that the fuel `DecodeBytes` gives is never spent.

The reader is modelled by the bytes it has not yet given, as a `bytes.Reader` or a `bufio` reader
over a finite input gives them; the auxiliary buffer `uintbuf` holds no state between calls and
is left out.
-/

namespace N42

namespace Rlp

/-- `listpos`: how many bytes of an open list have been read, and its size -/
structure ListPos where
  pos : ℕ
  size : ℕ
  deriving DecidableEq, Repr

/-- `Stream` -/
structure Stream where
  /-- the bytes the reader `r` has not yet given -/
  input : List UInt8
  /-- the number of bytes remaining to be read, where `limited` -/
  remaining : ℕ
  limited : Bool
  /-- the kind of the value ahead, `none` for the `-1` that rearms `Kind` -/
  kind : Option Kind
  size : ℕ
  byteval : UInt8
  kinderr : Option RlpError
  /-- the open lists, the innermost first -/
  stack : List ListPos
  deriving DecidableEq, Repr

/-- the methods of a `Stream` -/
abbrev StreamM := EStateM RlpError Stream

namespace Stream

/-! ## reading bytes -/

/-- `willRead`: rearm `Kind`, check that `n` more bytes fit the innermost list and the input
limit, and count them in both -/
def willRead (n : ℕ) : StreamM Unit := do
  modify fun s => { s with kind := none }
  let s ← get
  if let tos :: outer := s.stack then
    if n > tos.size - tos.pos then throw .elemTooLarge
    set { s with stack := { tos with pos := tos.pos + n } :: outer }
  let s ← get
  if s.limited then
    if n > s.remaining then throw .valueTooLarge
    set { s with remaining := s.remaining - n }

/-- `readByte`: the reader's end is `io.ErrUnexpectedEOF` -/
def readByte : StreamM UInt8 := do
  willRead 1
  let s ← get
  match s.input with
  | [] => throw .unexpectedEOF
  | b :: rest =>
    set { s with input := rest }
    return b

/-- `readFull` of `n` bytes: the reader gives what it has, and a short read is
`io.ErrUnexpectedEOF` -/
def readFull (n : ℕ) : StreamM (List UInt8) := do
  willRead n
  let s ← get
  set { s with input := s.input.drop n }
  if s.input.length < n then throw .unexpectedEOF
  return s.input.take n

/-- `readUint` of the `size` bytes its callers pass, at most eight: big-endian, and a leading zero
rejected as a size error -/
def readUint (size : ℕ) : StreamM ℕ := do
  if size = 0 then
    modify fun s => { s with kind := none }
    return 0
  if size = 1 then
    let b ← readByte
    return b.toNat
  let buf ← readFull size
  if buf.head? = some 0 then throw .canonSize
  return BigEndian.toNat buf

/-- `readKind`: the kind and size of the value ahead from its tag byte and, for a long header,
the bytes of the size; the error is the third part, as the source returns it -/
def readKind : StreamM (Kind × ℕ × Option RlpError) := do
  match ← EStateM.attempt readByte with
  | .error err =>
    let s ← get
    -- at the top level the end of the input is `io.EOF`, by which callers stop decoding
    let err := if s.stack = [] ∧ (err = .unexpectedEOF ∨ err = .valueTooLarge) then .eof else err
    return (.byte, 0, some err)
  | .ok b =>
    modify fun s => { s with byteval := 0 }
    if b < 0x80 then
      modify fun s => { s with byteval := b }
      return (.byte, 0, none)
    else if b < 0xB8 then
      return (.string, (b - 0x80).toNat, none)
    else if b < 0xC0 then
      match ← EStateM.attempt (readUint (b - 0xB7).toNat) with
      | .error err => return (.string, 0, some err)
      | .ok size => return (.string, size, if size < 56 then some .canonSize else none)
    else if b < 0xF8 then
      return (.list, (b - 0xC0).toNat, none)
    else
      match ← EStateM.attempt (readUint (b - 0xF7).toNat) with
      | .error err => return (.list, 0, some err)
      | .ok size => return (.list, size, if size < 56 then some .canonSize else none)

/-! ## the methods -/

/-- the checks of `Kind` on a header read without an error: at the top level the value fits the
input limit, inside a list the room the list has left -/
def checkSize : StreamM Unit := do
  let s ← get
  match s.stack with
  | [] => if s.limited ∧ s.size > s.remaining then set { s with kinderr := some .valueTooLarge }
  | tos :: _ => if s.size > tos.size - tos.pos then set { s with kinderr := some .elemTooLarge }

/-- `s.kind, s.size, s.kinderr = s.readKind()`, and the checks on a header read without an
error -/
def storeKind : StreamM Unit := do
  let (kind, size, err) ← readKind
  modify fun s => { s with kind := some kind, size := size, kinderr := err }
  if err = none then checkSize

/-- the body of `Kind` when it is rearmed: the header read, and its error kept in `kinderr` -/
def readAhead : StreamM Unit := do
  modify fun s => { s with kinderr := none }
  -- at the end of the innermost list nothing is read
  if let tos :: _ := (← get).stack then
    if tos.pos = tos.size then throw .eol
  storeKind

/-- `Kind`: the kind and size of the value ahead, read once and then kept, with the error of that
reading, until a read rearms it -/
def nextKind : StreamM (Kind × ℕ) := do
  if (← get).kind = none then readAhead
  let s ← get
  match s.kinderr with
  | some err => throw err
  | none => return (s.kind.getD .byte, s.size)

/-- `Bytes` -/
def bytes : StreamM (List UInt8) := do
  let (kind, size) ← nextKind
  match kind with
  | .byte =>
    modify fun s => { s with kind := none }
    return [(← get).byteval]
  | .string =>
    let b ← readFull size
    if size = 1 ∧ b.headD 0 < 128 then throw .canonSize
    return b
  | .list => throw .expectedString

/-- `Raw`: the value ahead, with a header written anew before its content -/
def raw : StreamM (List UInt8) := do
  let (kind, size) ← nextKind
  if kind = .byte then
    modify fun s => { s with kind := none }
    return [(← get).byteval]
  let content ← readFull size
  if kind = .string then return puthead 0x80 0xB7 size ++ content
  return puthead 0xC0 0xF7 size ++ content

/-- `uint` of at most `maxbits` bits; `Uint` is `uint 64` -/
def uint (maxbits : ℕ) : StreamM UInt64 := do
  let (kind, size) ← nextKind
  match kind with
  | .byte =>
    let s ← get
    if s.byteval = 0 then throw .canonInt
    set { s with kind := none }
    return s.byteval.toUInt64
  | .string =>
    if size > maxbits / 8 then throw .uintOverflow
    match ← EStateM.attempt (readUint size) with
    -- a leading zero, which `readUint` reports as a size error, is here one of the integer
    | .error .canonSize => throw .canonInt
    | .error err => throw err
    | .ok v => if size > 0 ∧ v < 128 then throw .canonSize else return UInt64.ofNat v
  | .list => throw .expectedString

/-- `Bool` -/
def bool : StreamM Bool := do
  let num ← uint 8
  if num = 0 then return false
  if num = 1 then return true
  throw (.invalidBool num)

/-- `bigIntBytes`: the bytes of an integer, without a leading zero -/
def bigIntBytes : StreamM (List UInt8) := do
  let (kind, size) ← nextKind
  let buffer ← (do
    match kind with
    | .list => throw .expectedString
    | .byte =>
      modify fun s => { s with kind := none }
      return [(← get).byteval]
    | .string =>
      if size = 0 then
        modify fun s => { s with kind := none }
        return []
      else if size ≤ 32 then
        let b ← readFull size
        -- one byte below `128` had to be written alone
        if size = 1 ∧ b.headD 0 < 128 then throw .canonSize
        return b
      else readFull size : StreamM (List UInt8))
  if buffer.head? = some 0 then throw .canonInt
  return buffer

/-- `Uint256Bytes` -/
def uint256Bytes : StreamM (List UInt8) := do
  let b ← bigIntBytes
  if b.length > 32 then throw .uintOverflow
  return b

/-- `NewList`: open a list of `size` bytes without reading its header -/
def newList (size : ℕ) : StreamM Unit :=
  modify fun s => { s with stack := ⟨0, size⟩ :: s.stack, kind := none, size := 0 }

/-- `List` -/
def list : StreamM ℕ := do
  let (kind, size) ← nextKind
  if kind ≠ .list then throw .expectedList
  newList size
  return size

/-- `ListEnd`: close the innermost list, read to its end, and count it in the enclosing one -/
def listEnd : StreamM Unit := do
  let s ← get
  match s.stack with
  | [] => throw .notInList
  | tos :: outer =>
    if tos.pos ≠ tos.size then throw .notAtEOL
    let outer := match outer with
      | parent :: more => { parent with pos := parent.pos + tos.size } :: more
      | [] => []
    set { s with stack := outer, kind := none, size := 0 }

/-- `NewStream` on the bytes `b`, or `Reset` to them: a `bytes.Reader` sets the input limit to
its length -/
def ofBytes (b : List UInt8) : Stream := ⟨b, b.length, true, none, 0, 0, none, []⟩

end Stream

/-! ## the decoders -/

/-- the `Stream` result of a decoder, `none` where its fuel is spent -/
abbrev Decoded (α : Type) := Option (EStateM.Result RlpError Stream α)

/-- `wrapStreamError`: the stream errors a typed decoder reports as `decodeError` -/
def wrapStreamError (err : RlpError) : RlpError :=
  match err with
  | .canonInt => .decodeError "non-canonical integer (leading zero bytes)" []
  | .canonSize => .decodeError "non-canonical size information" []
  | .expectedList => .decodeError "expected input list" []
  | .expectedString => .decodeError "expected input string or byte" []
  | .uintOverflow => .decodeError "input string too long" []
  | .notAtEOL => .decodeError "input list has too many elements" []
  | err => err

/-- `addErrorContext` -/
def addErrorContext (err : RlpError) (ctx : String) : RlpError :=
  match err with
  | .decodeError msg ctxs => .decodeError msg (ctxs ++ [ctx])
  | err => err

/-- `decodeSliceElems`: elements until `EOL`, an error with the index of its element, on fuel for
the rounds -/
def decodeSliceElems {α : Type} (elemdec : Stream → Decoded α) : ℕ → ℕ → Stream → Decoded (List α)
  | 0, _, _ => none
  | fuel + 1, i, s =>
    match elemdec s with
    | none => none
    | some (.error err s) =>
      if err = .eol then some (.ok [] s)
      else some (.error (addErrorContext err ("[" ++ toString i ++ "]")) s)
    | some (.ok v s) => (decodeSliceElems elemdec fuel (i + 1) s).map (·.map (v :: ·))

/-- `decodeListSlice`: the list's header, its elements and its end -/
def decodeListSlice {α : Type} (elemdec : Stream → Decoded α) (fuel : ℕ) (s : Stream) :
    Decoded (List α) :=
  match Stream.list.run s with
  | .error err s => some (.error (wrapStreamError err) s)
  | .ok size s =>
    if size = 0 then some ((Stream.listEnd.run s).map fun _ => [])
    else
      match decodeSliceElems elemdec fuel 0 s with
      | some (.ok vs s) => some ((Stream.listEnd.run s).map fun _ => vs)
      | r => r

/-- `decodeInterface`: a list as the slice of its elements, anything else as its bytes -/
def decodeInterface : ℕ → Stream → Decoded Item
  | 0, _ => none
  | fuel + 1, s =>
    match Stream.nextKind.run s with
    | .error err s => some (.error err s)
    | .ok (kind, _) s =>
      if kind = .list then (decodeListSlice (decodeInterface fuel) fuel s).map (·.map .list)
      else some ((Stream.bytes.run s).map .str)

/-- `Stream.Decode`: a `decodeError` with a context names the type decoded into last -/
def addDecodeTarget (typ : String) (err : RlpError) : RlpError :=
  match err with
  | .decodeError msg ctx => if ctx = [] then err else .decodeError msg (ctx ++ ["(" ++ typ ++ ")"])
  | err => err

/-- `DecodeBytes` into an `interface{}`: one value, and no trailing data -/
def decodeBytes (b : List UInt8) : Option (Except RlpError Item) :=
  (decodeInterface (2 * b.length + 1) (Stream.ofBytes b)).map fun
    | .error err _ => .error (addDecodeTarget "interface \x7b\x7d" err)
    | .ok it s => if s.input.length > 0 then .error .moreThanOneValue else .ok it

example : decodeBytes [0xC2, 0x05, 0xC0] = some (.ok (.list [.str [0x05], .list []])) := by rfl

example : decodeBytes [0xC2, 0x05] = some (.error .valueTooLarge) := by rfl

example : decodeBytes [0xC2, 0x82, 0x05, 0x06] = some (.error .elemTooLarge) := by rfl

example : decodeBytes [0xC0, 0x05] = some (.error .moreThanOneValue) := by rfl

example : decodeBytes [0x81, 0x05] = some (.error .canonSize) := by rfl

end Rlp

end N42
