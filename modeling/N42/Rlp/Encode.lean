import N42.Rlp.Raw
import N42.Common.Types

/-!
# (key: rlpencode) The RLP encoder and its buffer

`encode.go` writes a value into an `encbuf` in one pass: every string goes into `str`, and a
list writes no header there, only a `listhead` with the offset of its content, whose size
`listEnd` fills in once the content is written (counting, in `lhsize`, the headers of the lists
inside).  `toBytes` and `toWriter` then interleave the string data with the encoded headers.  The
writers follow the Go type of each value (`makeWriter`); `Value` is that type, for the kinds
the node encodes.

The reference is `Item.encode`, the recursive encoding of a tree of strings and lists, each
list's header written before its content.

* `Value.toItem`        the item each Go value stands for: an integer by its big-endian bytes,
                        a pointer by its element, a struct or a slice by the list of its fields;
* `Value.frag`, `writeValue_eq`   what a writer appends to any buffer: string data, and headers
                        at offsets in it, the same whatever was written before;
* `toBytesLoop_append`   the output of a buffer extended by a fragment is the old output followed
                        by the fragment's;
* `encodeToBytes_eq`    `EncodeToBytes` is `Item.encode` of the item, and `encode_flatten` says the
                        same of the pieces `Encode` writes to a stream.
-/

namespace N42

namespace Rlp

/-! ## the reference encoding -/

/-- an RLP item: a string of bytes, or a list of items -/
inductive Item where
  | str (b : List UInt8)
  | list (items : List Item)
  deriving Repr

mutual
/-- the encoding of an item: a string as `encodeString` writes it, a list as the header of its
content and the content -/
def Item.encode : Item → List UInt8
  | .str b => encodeString b
  | .list items => puthead emptyListCode 0xF7 (Item.encodeAll items).length ++ Item.encodeAll items

/-- the items, encoded one after the other -/
def Item.encodeAll : List Item → List UInt8
  | [] => []
  | it :: its => it.encode ++ Item.encodeAll its
end

@[simp] theorem Item.encode_str (b : List UInt8) : (Item.str b).encode = encodeString b := by
  rw [Item.encode]

@[simp] theorem Item.encode_list (items : List Item) :
    (Item.list items).encode =
      puthead emptyListCode 0xF7 (Item.encodeAll items).length ++ Item.encodeAll items := by
  rw [Item.encode]

@[simp] theorem Item.encodeAll_nil : Item.encodeAll [] = [] := by rw [Item.encodeAll]

@[simp] theorem Item.encodeAll_cons (it : Item) (its : List Item) :
    Item.encodeAll (it :: its) = it.encode ++ Item.encodeAll its := by
  rw [Item.encodeAll]

/-- the fewest big-endian bytes of `n`: none for `0` -/
def natBytes (n : ℕ) : List UInt8 := BigEndian.ofNat (BigEndian.size n) n

/-! ## the values and their writers -/

/-- the Go values the modelled code hands to the encoder, by the writer `makeWriter` picks -/
inductive Value where
  /-- an unsigned integer of any width, `writeUint` -/
  | uint (x : UInt64)
  /-- `writeBool` -/
  | bool (b : Bool)
  /-- a `[]byte` or a `string`, `writeBytes` and `writeString` -/
  | bytes (b : List UInt8)
  /-- a byte array `[n]byte`, such as `types.Hash`, `makeByteArrayWriter` -/
  | byteArray (b : List UInt8)
  /-- a `uint256.Int` or a non-nil `*uint256.Int`, `writeUint256` -/
  | uint256 (x : U256)
  /-- a `big.Int` or a non-nil `*big.Int`, `writeBigInt` -/
  | bigInt (x : ℤ)
  /-- a nil `*uint256.Int`, `*big.Int`, or pointer to a value that encodes as a string -/
  | nilString
  /-- a nil pointer to a value that encodes as a list, `makePtrWriter` -/
  | nilList
  /-- a nil interface, `writeInterface` -/
  | nilInterface
  /-- a slice or an array of values, or a struct without optional fields; a non-nil interface
  is its element -/
  | list (vs : List Value)
  deriving Repr

/-- the bytes `makeByteArrayWriter` writes, by the length of the array -/
def writeByteArray (b : List UInt8) : List UInt8 :=
  match b with
  | [] => [0x80]
  | [x] => if x ≤ 0x7f then [x] else [0x81, x]
  | _ => encodeStringHeader b.length ++ b

/-- the bytes `writeUint256` writes: `WriteToSlice` puts the `ByteLen` bytes big-endian -/
def writeUint256 (i : U256) : List UInt8 :=
  if i = 0 then [emptyStringCode]
  else if i.toNat < 0x80 then [UInt8.ofNat i.toNat]
  else
    let n := BigEndian.size i.toNat
    (emptyStringCode + UInt8.ofNat n) :: BigEndian.ofNat n i.toNat

/-- the bytes `writeBigInt` writes: up to 64 bits as `encodeUint`, beyond as a string of
`(bitlen + 7) / 8` bytes, which the loop over the words fills from the end -/
def writeBigInt (i : ℤ) : Except RlpError (List UInt8) :=
  if i < 0 then .error .negativeBigInt
  else
    let bitlen := Nat.size i.toNat
    if bitlen ≤ 64 then .ok (encodeUint (UInt64.ofNat i.toNat))
    else
      let length := (bitlen + 7) / 8
      .ok (encodeStringHeader length ++ BigEndian.ofNat length i.toNat)

/-- `listhead` -/
structure ListHead where
  offset : ℕ
  size : ℕ
  deriving DecidableEq, Repr

/-- `encbuf` -/
structure Encbuf where
  str : List UInt8
  lheads : List ListHead
  lhsize : ℕ
  deriving DecidableEq, Repr

namespace Encbuf

/-- a buffer after `reset` -/
def empty : Encbuf := ⟨[], [], 0⟩

/-- `size` -/
def size (w : Encbuf) : ℕ := w.str.length + w.lhsize

/-- `w.str = append(w.str, b...)` -/
def write (w : Encbuf) (b : List UInt8) : Encbuf := { w with str := w.str ++ b }

/-- `list`: a header at the end of the string data, holding `lhsize` until `listEnd` -/
def list (w : Encbuf) : ℕ × Encbuf :=
  (w.lheads.length, { w with lheads := w.lheads ++ [⟨w.str.length, w.lhsize⟩] })

/-- `listEnd`: the size of the content, and the header's own bytes into `lhsize` (an index that
`list` returned is always in range) -/
def listEnd (w : Encbuf) (index : ℕ) : Encbuf :=
  match w.lheads[index]? with
  | some lh =>
    let size := w.size - lh.offset - lh.size
    { w with lheads := w.lheads.set index ⟨lh.offset, size⟩,
             lhsize := if size < 56 then w.lhsize + 1 else w.lhsize + 1 + intsize size }
  | none => w

end Encbuf

mutual
/-- the writer of a value -/
def writeValue : Value → Encbuf → Except RlpError Encbuf
  | .uint x, w => .ok (w.write (encodeUint x))
  | .bool b, w => .ok (w.write (if b then [0x01] else [emptyStringCode]))
  | .bytes b, w => .ok (w.write (encodeString b))
  | .byteArray b, w => .ok (w.write (writeByteArray b))
  | .uint256 x, w => .ok (w.write (writeUint256 x))
  | .bigInt x, w => (writeBigInt x).map w.write
  | .nilString, w => .ok (w.write [emptyStringCode])
  | .nilList, w => .ok (w.list.2.listEnd w.list.1)
  | .nilInterface, w => .ok (w.write [emptyListCode])
  | .list vs, w => do
    let w' ← writeValues vs w.list.2
    pure (w'.listEnd w.list.1)

/-- the elements of a slice, or the fields of a struct, one after the other -/
def writeValues : List Value → Encbuf → Except RlpError Encbuf
  | [], w => .ok w
  | v :: vs, w => do
    let w' ← writeValue v w
    writeValues vs w'
end

/-- the loop of `toBytes` from the string position `strpos`: the string data up to each header,
the header, and the data after the last -/
def toBytesLoop (str : List UInt8) : ℕ → List ListHead → List UInt8
  | strpos, [] => str.drop strpos
  | strpos, head :: heads =>
    (str.drop strpos).take (head.offset - strpos) ++ puthead emptyListCode 0xF7 head.size ++
      toBytesLoop str head.offset heads

/-- `toBytes` -/
def Encbuf.toBytes (w : Encbuf) : List UInt8 := toBytesLoop w.str 0 w.lheads

/-- the loop of `toWriter`: the pieces it writes, a piece of string data only when it is not
empty (a `Write` to a hash never fails) -/
def toWriterLoop (str : List UInt8) : ℕ → List ListHead → List (List UInt8)
  | strpos, [] => if strpos < str.length then [str.drop strpos] else []
  | strpos, head :: heads =>
    if head.offset - strpos > 0 then
      [(str.drop strpos).take (head.offset - strpos), puthead emptyListCode 0xF7 head.size] ++
        toWriterLoop str (strpos + (head.offset - strpos)) heads
    else [puthead emptyListCode 0xF7 head.size] ++ toWriterLoop str strpos heads

/-- `toWriter` -/
def Encbuf.toWriter (w : Encbuf) : List (List UInt8) := toWriterLoop w.str 0 w.lheads

/-- `EncodeToBytes` -/
def encodeToBytes (v : Value) : Except RlpError (List UInt8) :=
  (writeValue v Encbuf.empty).map Encbuf.toBytes

/-- `Encode` to a stream that is not an `encbuf`: the pieces written to it -/
def encode (v : Value) : Except RlpError (List (List UInt8)) :=
  (writeValue v Encbuf.empty).map Encbuf.toWriter

/-! ## the item of a value -/

mutual
/-- the item a value stands for; a negative `big.Int` has none -/
def Value.toItem : Value → Except RlpError Item
  | .uint x => .ok (.str (uintBytes x))
  | .bool b => .ok (.str (if b then [1] else []))
  | .bytes b => .ok (.str b)
  | .byteArray b => .ok (.str b)
  | .uint256 x => .ok (.str (natBytes x.toNat))
  | .bigInt x => if x < 0 then .error .negativeBigInt else .ok (.str (natBytes x.toNat))
  | .nilString => .ok (.str [])
  | .nilList => .ok (.list [])
  | .nilInterface => .ok (.list [])
  | .list vs => (Value.toItems vs).map .list

/-- the items of the elements of a list, up to the first that has none -/
def Value.toItems : List Value → Except RlpError (List Item)
  | [] => .ok []
  | v :: vs => do
    let it ← v.toItem
    let its ← Value.toItems vs
    pure (it :: its)
end

/-! ## what a writer appends -/

/-- what writing a value appends to a buffer: string data, the headers of its lists at offsets
from the start of that data, and the bytes those headers take -/
structure Frag where
  str : List UInt8
  heads : List ListHead
  hsize : ℕ

/-- a header moved `n` bytes on -/
def ListHead.shift (n : ℕ) (h : ListHead) : ListHead := ⟨n + h.offset, h.size⟩

namespace Frag

/-- nothing -/
def nil : Frag := ⟨[], [], 0⟩

/-- string data alone -/
def ofStr (b : List UInt8) : Frag := ⟨b, [], 0⟩

/-- one fragment after another -/
def append (f g : Frag) : Frag :=
  ⟨f.str ++ g.str, f.heads ++ g.heads.map (ListHead.shift f.str.length), f.hsize + g.hsize⟩

/-- a list around a fragment: a header at its start, the size of the fragment's output -/
def wrap (f : Frag) : Frag :=
  ⟨f.str, ⟨0, f.str.length + f.hsize⟩ :: f.heads, f.hsize + headsize (f.str.length + f.hsize)⟩

/-- the output of a fragment on its own -/
def render (f : Frag) : List UInt8 := toBytesLoop f.str 0 f.heads

end Frag

mutual
/-- the fragment a value's writer appends -/
def Value.frag : Value → Frag
  | .uint x => .ofStr (encodeUint x)
  | .bool b => .ofStr (if b then [0x01] else [emptyStringCode])
  | .bytes b => .ofStr (encodeString b)
  | .byteArray b => .ofStr (writeByteArray b)
  | .uint256 x => .ofStr (writeUint256 x)
  | .bigInt x =>
    match writeBigInt x with
    | .ok b => .ofStr b
    | .error _ => .nil
  | .nilString => .ofStr [emptyStringCode]
  | .nilList => Frag.nil.wrap
  | .nilInterface => .ofStr [emptyListCode]
  | .list vs => (Value.fragAll vs).wrap

/-- the fragments of the elements, one after the other -/
def Value.fragAll : List Value → Frag
  | [] => .nil
  | v :: vs => v.frag.append (Value.fragAll vs)
end

/-- a buffer with a fragment appended -/
def Encbuf.extend (w : Encbuf) (f : Frag) : Encbuf :=
  ⟨w.str ++ f.str, w.lheads ++ f.heads.map (ListHead.shift w.str.length), w.lhsize + f.hsize⟩

theorem ListHead.shift_shift (m n : ℕ) (h : ListHead) :
    ListHead.shift m (ListHead.shift n h) = ListHead.shift (m + n) h := by
  simp only [ListHead.shift, Nat.add_assoc]

@[simp] theorem ListHead.shift_zero : ListHead.shift 0 = id := by
  funext h
  simp [ListHead.shift]

theorem ListHead.shift_comp (m n : ℕ) :
    ListHead.shift m ∘ ListHead.shift n = ListHead.shift (m + n) :=
  funext (ListHead.shift_shift m n)

theorem Encbuf.extend_nil (w : Encbuf) : w.extend .nil = w := by
  simp [Encbuf.extend, Frag.nil]

theorem Encbuf.extend_append (w : Encbuf) (f g : Frag) :
    (w.extend f).extend g = w.extend (f.append g) := by
  simp only [Encbuf.extend, Frag.append, List.append_assoc, List.map_append, List.map_map,
    List.length_append, Nat.add_assoc, ListHead.shift_comp]

theorem Encbuf.write_eq_extend (w : Encbuf) (b : List UInt8) : w.write b = w.extend (.ofStr b) := by
  simp [Encbuf.write, Encbuf.extend, Frag.ofStr]

/-- `list`, the writes of the content, and `listEnd` append the content wrapped in its header -/
theorem Encbuf.listEnd_extend (w : Encbuf) (f : Frag) :
    (w.list.2.extend f).listEnd w.list.1 = w.extend f.wrap := by
  have hget : (w.list.2.extend f).lheads[w.lheads.length]? = some ⟨w.str.length, w.lhsize⟩ := by
    simp [Encbuf.list, Encbuf.extend]
  have hsize : (w.list.2.extend f).size - w.str.length - w.lhsize = f.str.length + f.hsize := by
    simp only [Encbuf.size, Encbuf.extend, Encbuf.list, List.length_append]
    omega
  unfold Encbuf.listEnd
  rw [show w.list.1 = w.lheads.length from rfl, hget]
  dsimp only
  rw [hsize]
  simp only [Encbuf.extend, Encbuf.list, Frag.wrap, Encbuf.mk.injEq, headsize, true_and]
  constructor
  · rw [List.append_assoc, List.set_append_right _ _ (le_refl _), Nat.sub_self]
    simp [ListHead.shift]
  · split <;> omega

mutual
/-- **Each writer appends its value's fragment**, to whatever buffer it is given, and fails
exactly where the value has no item. -/
theorem writeValue_eq : ∀ (v : Value) (w : Encbuf),
    writeValue v w = v.toItem.map fun _ => w.extend v.frag
  | .uint x, w => by simp [writeValue, Value.toItem, Value.frag, Except.map, Encbuf.write_eq_extend]
  | .bool b, w => by simp [writeValue, Value.toItem, Value.frag, Except.map, Encbuf.write_eq_extend]
  | .bytes b, w => by simp [writeValue, Value.toItem, Value.frag, Except.map, Encbuf.write_eq_extend]
  | .byteArray b, w => by
    simp [writeValue, Value.toItem, Value.frag, Except.map, Encbuf.write_eq_extend]
  | .uint256 x, w => by
    simp [writeValue, Value.toItem, Value.frag, Except.map, Encbuf.write_eq_extend]
  | .bigInt x, w => by
    simp only [writeValue, Value.toItem, Value.frag, writeBigInt]
    by_cases hneg : x < 0
    · simp [hneg, Except.map]
    · by_cases hb : x.toNat.size ≤ 64 <;> simp [hneg, hb, Except.map, Encbuf.write_eq_extend]
  | .nilString, w => by
    simp [writeValue, Value.toItem, Value.frag, Except.map, Encbuf.write_eq_extend]
  | .nilList, w => by
    simp only [writeValue, Value.toItem, Value.frag, Except.map]
    rw [← Encbuf.listEnd_extend, Encbuf.extend_nil]
  | .nilInterface, w => by
    simp [writeValue, Value.toItem, Value.frag, Except.map, Encbuf.write_eq_extend]
  | .list vs, w => by
    simp only [writeValue, Value.toItem, Value.frag, writeValues_eq vs w.list.2]
    cases Value.toItems vs with
    | error e => rfl
    | ok its => simp only [Except.map, bind, Except.bind, pure, Except.pure, Encbuf.listEnd_extend]

theorem writeValues_eq : ∀ (vs : List Value) (w : Encbuf),
    writeValues vs w = (Value.toItems vs).map fun _ => w.extend (Value.fragAll vs)
  | [], w => by simp [writeValues, Value.toItems, Value.fragAll, Except.map, Encbuf.extend_nil]
  | v :: vs, w => by
    simp only [writeValues, Value.toItems, Value.fragAll, writeValue_eq v w]
    cases v.toItem with
    | error e => rfl
    | ok it =>
      simp only [Except.map, bind, Except.bind, writeValues_eq vs, Encbuf.extend_append]
      cases Value.toItems vs <;> rfl
end

/-! ## the output of a buffer -/

/-- the headers lie at nondecreasing offsets from `p` on, within `n` bytes of string data -/
def HeadsFrom (n : ℕ) : ℕ → List ListHead → Prop
  | _, [] => True
  | p, h :: hs => p ≤ h.offset ∧ h.offset ≤ n ∧ HeadsFrom n h.offset hs

theorem HeadsFrom.mono_start {n p q : ℕ} {hs : List ListHead} (h : HeadsFrom n q hs) (hpq : p ≤ q) :
    HeadsFrom n p hs := by
  cases hs with
  | nil => trivial
  | cons h' hs => exact ⟨le_trans hpq h.1, h.2.1, h.2.2⟩

theorem HeadsFrom.shift (n : ℕ) {m : ℕ} : ∀ {q : ℕ} {hs : List ListHead}, HeadsFrom m q hs →
    HeadsFrom (n + m) (n + q) (hs.map (ListHead.shift n))
  | _, [], _ => trivial
  | _, h :: hs, ⟨hq, hm, hrest⟩ =>
    ⟨by simp [ListHead.shift]; omega, by simp [ListHead.shift]; omega, HeadsFrom.shift n hrest⟩

theorem HeadsFrom.append {n m : ℕ} {h₂ : List ListHead} (hh₂ : HeadsFrom m 0 h₂) :
    ∀ {p : ℕ} {h₁ : List ListHead}, HeadsFrom n p h₁ → p ≤ n →
      HeadsFrom (n + m) p (h₁ ++ h₂.map (ListHead.shift n))
  | _, [], _, hp => (HeadsFrom.shift n hh₂).mono_start (by omega)
  | _, h :: hs, ⟨hq, hn, hrest⟩, _ => ⟨hq, by omega, HeadsFrom.append hh₂ hrest hn⟩

/-- the headers of a fragment past some string data are read from past it -/
theorem toBytesLoop_shift (s₁ s₂ : List UInt8) :
    ∀ (q : ℕ) (hs : List ListHead),
      toBytesLoop (s₁ ++ s₂) (s₁.length + q) (hs.map (ListHead.shift s₁.length)) =
        toBytesLoop s₂ q hs
  | q, [] => by simp [toBytesLoop, List.drop_append]
  | q, h :: hs => by
    simp only [List.map_cons, toBytesLoop, ListHead.shift]
    rw [toBytesLoop_shift s₁ s₂ h.offset hs, List.drop_append, List.drop_eq_nil_of_le (by omega),
      List.nil_append, Nat.add_sub_cancel_left, Nat.add_sub_add_left]

/-- **Output of an extended buffer.**  String data with its headers, followed by a fragment, give
the output of the first followed by the fragment's. -/
theorem toBytesLoop_append (s₁ s₂ : List UInt8) (h₂ : List ListHead) :
    ∀ {p : ℕ} {h₁ : List ListHead}, HeadsFrom s₁.length p h₁ → p ≤ s₁.length →
      toBytesLoop (s₁ ++ s₂) p (h₁ ++ h₂.map (ListHead.shift s₁.length)) =
        toBytesLoop s₁ p h₁ ++ toBytesLoop s₂ 0 h₂
  | p, [], _, hp => by
    cases h₂ with
    | nil => simp [toBytesLoop, List.drop_append_of_le_length hp]
    | cons h hs =>
      -- the first header of the fragment closes the data left of the first part
      have hshift := toBytesLoop_shift s₁ s₂ h.offset hs
      simp only [List.nil_append, List.map_cons, toBytesLoop, ListHead.shift] at hshift ⊢
      rw [hshift, List.drop_append_of_le_length hp, List.take_append, List.take_of_length_le
        (by simp; omega), List.length_drop, List.drop_zero, Nat.sub_zero,
        show s₁.length + h.offset - p - (s₁.length - p) = h.offset by omega]
      simp only [List.append_assoc]
  | p, h :: hs, ⟨hp, hn, hrest⟩, _ => by
    simp only [List.cons_append, toBytesLoop]
    rw [toBytesLoop_append s₁ s₂ h₂ hrest hn, List.drop_append_of_le_length (by omega),
      List.take_append_of_le_length (by simp; omega)]
    simp only [List.append_assoc]

/-- a fragment whose headers are in order, and whose output has the length its data and header
bytes give -/
def Frag.WF (f : Frag) : Prop :=
  HeadsFrom f.str.length 0 f.heads ∧ f.render.length = f.str.length + f.hsize

theorem Frag.wf_ofStr (b : List UInt8) : (Frag.ofStr b).WF :=
  ⟨trivial, by simp [Frag.ofStr, Frag.render, toBytesLoop]⟩

theorem Frag.render_append {f g : Frag} (hf : f.WF) :
    (f.append g).render = f.render ++ g.render :=
  toBytesLoop_append f.str g.str g.heads hf.1 (Nat.zero_le _)

theorem Frag.WF.append {f g : Frag} (hf : f.WF) (hg : g.WF) : (f.append g).WF := by
  refine ⟨by simpa only [Frag.append, List.length_append] using
    HeadsFrom.append hg.1 hf.1 (Nat.zero_le _), ?_⟩
  rw [Frag.render_append hf, List.length_append, hf.2, hg.2]
  simp only [Frag.append, List.length_append]
  omega

theorem Frag.render_wrap (f : Frag) :
    f.wrap.render = puthead emptyListCode 0xF7 (f.str.length + f.hsize) ++ f.render := by
  simp [Frag.wrap, Frag.render, toBytesLoop]

theorem Frag.WF.wrap {f : Frag} (hf : f.WF) : f.wrap.WF := by
  refine ⟨⟨le_rfl, Nat.zero_le _, hf.1⟩, ?_⟩
  rw [Frag.render_wrap, List.length_append, length_puthead, hf.2]
  simp only [Frag.wrap]
  omega

theorem Frag.wf_nil : Frag.nil.WF := ⟨trivial, rfl⟩

theorem Encbuf.toBytes_extend_empty (f : Frag) : (Encbuf.empty.extend f).toBytes = f.render := by
  simp [Encbuf.toBytes, Encbuf.extend, Encbuf.empty, Frag.render]

/-! ## every writer writes the encoding of its item -/

theorem natBytes_zero : natBytes 0 = [] := rfl

theorem length_natBytes (n : ℕ) : (natBytes n).length = BigEndian.size n := by
  simp [natBytes]

theorem natBytes_of_lt_256 {n : ℕ} (h₀ : 0 < n) (h : n < 256) : natBytes n = [UInt8.ofNat n] := by
  have := putint_of_lt_256 h₀ h
  rwa [putint_of_pos h₀] at this

theorem uintBytes_eq_natBytes (x : UInt64) : uintBytes x = natBytes x.toNat := by
  unfold uintBytes
  split
  · rename_i h
    subst h
    rfl
  · rename_i h
    rw [putint_of_pos (toNat_pos_of_ne h)]
    rfl

/-- the bytes of a number of at least `128` are no single byte below `0x80` -/
theorem natBytes_not_small {n : ℕ} (h : 128 ≤ n) :
    ¬ ((natBytes n).length = 1 ∧ (natBytes n).headD 0 ≤ 0x7F) := by
  rintro ⟨h1, h2⟩
  rw [length_natBytes] at h1
  have h256 : n < 256 := by simpa using BigEndian.size_le_iff.mp h1.le
  rw [natBytes_of_lt_256 (by omega) h256] at h2
  have := UInt8.le_iff_toNat_le.mp h2
  simp [UInt8.toNat_ofNat_of_lt' (show n < UInt8.size from h256)] at this
  omega

theorem writeByteArray_eq (b : List UInt8) : writeByteArray b = encodeString b := by
  match b with
  | [] => rfl
  | [x] =>
    simp only [writeByteArray, encodeString, List.length_singleton, List.headD_cons, true_and]
    split
    · rfl
    · rfl
  | x :: y :: t =>
    simp only [writeByteArray, encodeString, List.length_cons]
    rw [if_neg (by omega)]

theorem writeUint256_eq (x : U256) : writeUint256 x = encodeString (natBytes x.toNat) := by
  unfold writeUint256
  by_cases h0 : x = 0
  · subst h0
    rfl
  rw [if_neg h0]
  have hpos : 0 < x.toNat := by
    rcases Nat.eq_zero_or_pos x.toNat with h | h
    · exact absurd (BitVec.eq_of_toNat_eq (by rw [h]; rfl)) h0
    · exact h
  by_cases hsmall : x.toNat < 0x80
  · rw [if_pos hsmall, natBytes_of_lt_256 hpos (by omega), encodeString, if_pos ⟨rfl, by
      simp only [List.headD_cons]; exact UInt8.le_iff_toNat_le.mpr (by
        rw [UInt8.toNat_ofNat_of_lt' (show x.toNat < UInt8.size by change _ < 256; omega)]
        simp only [UInt8.reduceToNat]; omega)⟩]
  · have hsize : BigEndian.size x.toNat < 56 := by
      have : BigEndian.size x.toNat ≤ 32 := BigEndian.size_le_iff.mpr (by
        have := x.isLt; norm_num at this ⊢; omega)
      omega
    rw [if_neg hsmall, encodeString, if_neg (natBytes_not_small (by omega)), encodeStringHeader,
      puthead, length_natBytes, if_pos hsize]
    rfl

theorem writeBigInt_eq {x : ℤ} (h : ¬ x < 0) : writeBigInt x = .ok (encodeString (natBytes x.toNat)) := by
  unfold writeBigInt
  rw [if_neg h]
  dsimp only
  split
  · rename_i hbits
    have hlt : x.toNat < 2 ^ 64 := Nat.size_le.mp hbits
    rw [← encodeString_uintBytes, uintBytes_eq_natBytes, UInt64.toNat_ofNat_of_lt' hlt]
  · rename_i hbits
    have hsize : BigEndian.size x.toNat = (x.toNat.size + 7) / 8 := rfl
    have h128 : 128 ≤ x.toNat := by
      by_contra hlt
      have : x.toNat.size ≤ 64 := Nat.size_le.mpr (by omega)
      exact hbits this
    rw [encodeString, if_neg (natBytes_not_small h128), length_natBytes, hsize]
    rfl

theorem encodeString_bool (b : Bool) :
    encodeString (if b then [1] else []) = if b then [0x01] else [emptyStringCode] := by
  cases b <;> rfl

mutual
/-- **The fragment of a value renders as the encoding of its item**, and is well formed. -/
theorem Value.frag_of_toItem : ∀ (v : Value) (it : Item), v.toItem = .ok it →
    v.frag.WF ∧ v.frag.render = it.encode
  | .uint x, it, h => by
    simp only [Value.toItem, Except.ok.injEq] at h
    subst h
    exact ⟨Frag.wf_ofStr _, by simp [Value.frag, Frag.ofStr, Frag.render, toBytesLoop,
      encodeString_uintBytes]⟩
  | .bool b, it, h => by
    simp only [Value.toItem, Except.ok.injEq] at h
    subst h
    exact ⟨Frag.wf_ofStr _, by simp only [Value.frag, Frag.ofStr, Frag.render, toBytesLoop,
      List.drop_zero, Item.encode_str, encodeString_bool]⟩
  | .bytes b, it, h => by
    simp only [Value.toItem, Except.ok.injEq] at h
    subst h
    exact ⟨Frag.wf_ofStr _, by simp [Value.frag, Frag.ofStr, Frag.render, toBytesLoop]⟩
  | .byteArray b, it, h => by
    simp only [Value.toItem, Except.ok.injEq] at h
    subst h
    exact ⟨Frag.wf_ofStr _, by simp [Value.frag, Frag.ofStr, Frag.render, toBytesLoop,
      writeByteArray_eq]⟩
  | .uint256 x, it, h => by
    simp only [Value.toItem, Except.ok.injEq] at h
    subst h
    exact ⟨Frag.wf_ofStr _, by simp [Value.frag, Frag.ofStr, Frag.render, toBytesLoop,
      writeUint256_eq]⟩
  | .bigInt x, it, h => by
    simp only [Value.toItem] at h
    split at h
    · cases h
    rename_i hneg
    simp only [Except.ok.injEq] at h
    subst h
    simp only [Value.frag, writeBigInt_eq hneg]
    exact ⟨Frag.wf_ofStr _, by simp [Frag.ofStr, Frag.render, toBytesLoop]⟩
  | .nilString, it, h => by
    simp only [Value.toItem, Except.ok.injEq] at h
    subst h
    exact ⟨Frag.wf_ofStr _, rfl⟩
  | .nilList, it, h => by
    simp only [Value.toItem, Except.ok.injEq] at h
    subst h
    exact ⟨Frag.wf_nil.wrap, rfl⟩
  | .nilInterface, it, h => by
    simp only [Value.toItem, Except.ok.injEq] at h
    subst h
    exact ⟨Frag.wf_ofStr _, rfl⟩
  | .list vs, it, h => by
    simp only [Value.toItem] at h
    cases hvs : Value.toItems vs with
    | error e => rw [hvs] at h; cases h
    | ok its =>
      rw [hvs] at h
      simp only [Except.map, Except.ok.injEq] at h
      subst h
      obtain ⟨hwf, hrender⟩ := Value.fragAll_of_toItems vs its hvs
      refine ⟨hwf.wrap, ?_⟩
      -- the header's size is the output length of the content
      rw [Value.frag, Frag.render_wrap, ← hwf.2, hrender, Item.encode_list]

theorem Value.fragAll_of_toItems : ∀ (vs : List Value) (its : List Item), Value.toItems vs = .ok its →
    (Value.fragAll vs).WF ∧ (Value.fragAll vs).render = Item.encodeAll its
  | [], its, h => by
    simp only [Value.toItems, Except.ok.injEq] at h
    subst h
    exact ⟨Frag.wf_nil, rfl⟩
  | v :: vs, its, h => by
    simp only [Value.toItems, Except.bind_eq_ok_iff, Except.pure_eq_ok_iff] at h
    obtain ⟨it, hv, its', hvs, rfl⟩ := h
    obtain ⟨hwf, hrender⟩ := Value.frag_of_toItem v it hv
    obtain ⟨hwf', hrender'⟩ := Value.fragAll_of_toItems vs its' hvs
    refine ⟨hwf.append hwf', ?_⟩
    rw [Value.fragAll, Frag.render_append hwf, hrender, hrender', Item.encodeAll_cons]
end

/-- **`EncodeToBytes` is the encoding of the value's item.**  The buffer that writes the headers of
lists only after their content gives the bytes of the recursive encoding, and fails exactly on a
value with no item. -/
theorem encodeToBytes_eq (v : Value) : encodeToBytes v = v.toItem.map Item.encode := by
  rw [encodeToBytes, writeValue_eq]
  cases h : v.toItem with
  | error e => rfl
  | ok it =>
    simp only [Except.map, Encbuf.toBytes_extend_empty, (Value.frag_of_toItem v it h).2]

example : encodeToBytes (.list [.uint 1024, .bool true, .bytes [0xab]]) =
    .ok [0xC6, 0x82, 0x04, 0x00, 0x01, 0x81, 0xAB] := by
  decide

theorem toWriterLoop_flatten (str : List UInt8) :
    ∀ (p : ℕ) (hs : List ListHead), HeadsFrom str.length p hs → p ≤ str.length →
      (toWriterLoop str p hs).flatten = toBytesLoop str p hs
  | p, [], _, hp => by
    unfold toWriterLoop toBytesLoop
    split
    · simp
    · simp [List.drop_eq_nil_of_le (show str.length ≤ p by omega)]
  | p, h :: hs, ⟨hph, hn, hrest⟩, _ => by
    unfold toWriterLoop
    split
    · rw [List.flatten_append, toWriterLoop_flatten str _ hs (by rwa [Nat.add_sub_cancel' hph]) (by omega),
        Nat.add_sub_cancel' hph, toBytesLoop]
      simp
    · -- the header sits where the last piece ended: nothing in between
      have heq : h.offset = p := by omega
      rw [List.flatten_append, toWriterLoop_flatten str _ hs (heq ▸ hrest) (by omega), toBytesLoop, heq,
        Nat.sub_self, List.take_zero]
      simp

/-- **`Encode` writes the same bytes to a stream**, in pieces. -/
theorem encode_flatten (v : Value) : (encode v).map List.flatten = encodeToBytes v := by
  rw [encode, encodeToBytes, writeValue_eq]
  cases h : v.toItem with
  | error e => rfl
  | ok it =>
    have hwf := (Value.frag_of_toItem v it h).1
    simp only [Except.map, Except.ok.injEq, Encbuf.toWriter, Encbuf.toBytes, Encbuf.extend,
      Encbuf.empty, List.nil_append, List.length_nil, ListHead.shift_zero, List.map_id]
    exact toWriterLoop_flatten _ 0 _ hwf.1 (Nat.zero_le _)

end Rlp

end N42
