import N42.Rlp.Encode

/-!
# (key: rlpdecode) Reading an encoding back with `Split`

An encoding shorter than `2^64` bytes, the bound eight bytes of a length put on it, is read back
by `Split`: the kind of the item, its payload and whatever follows.  Since `Split` accepts
nothing but canonical headers, no two items encode alike, nor is one encoding a prefix of
another's.

* `Item.encode_eq_header`   an encoding is the header of its kind, then its payload;
* `split_encode`        `Split` of an encoding and any rest;
* `countValues_encodeAll`   `CountValues` of a list's payload counts its items;
* `Item.encode_append_inj`, `Item.encodeAll_inj`   the encoding is injective and prefix-free;
* `encodeToBytes_append_inj`   so is `EncodeToBytes` on the items of values.
-/

namespace N42

namespace Rlp

/-- the kind `Split` reads off an item's encoding -/
def Item.kind : Item → Kind
  | .str b => strKind b
  | .list _ => .list

/-- the content `Split` returns: the bytes of a string, the encoded items of a list -/
def Item.payload : Item → List UInt8
  | .str b => b
  | .list its => Item.encodeAll its

theorem Item.encode_eq_header (it : Item) : it.encode = header it.kind it.payload ++ it.payload := by
  cases it with
  | str b => rw [Item.encode_str, encodeString_eq]; rfl
  | list its => rw [Item.encode_list]; rfl

theorem Item.length_payload_le (it : Item) : it.payload.length ≤ it.encode.length := by
  rw [it.encode_eq_header, List.length_append]
  exact Nat.le_add_left _ _

theorem Item.canonical {it : Item} (h : it.encode.length < 2 ^ 64) : Canonical it.kind it.payload := by
  have hp := lt_of_le_of_lt it.length_payload_le h
  cases it with
  | str b => exact canonical_strKind hp
  | list its => exact hp

theorem Item.encode_ne_nil (it : Item) : it.encode ≠ [] := by
  cases it with
  | str b =>
    rw [Item.encode_str, encodeString]
    split
    · rename_i h
      exact List.ne_nil_of_length_pos (by omega)
    · simp [encodeStringHeader, puthead]; split <;> simp
  | list its => simp [puthead]; split <;> simp

/-- **An encoding is read back by `Split`**, with its kind, its payload and any rest. -/
theorem split_encode {it : Item} (h : it.encode.length < 2 ^ 64) (r : List UInt8) :
    split (it.encode ++ r) = .ok (it.kind, it.payload, r) :=
  split_eq_ok_iff.mpr ⟨it.canonical h, by rw [← it.encode_eq_header]⟩

theorem length_encode_le_encodeAll {it : Item} {its : List Item} (h : it ∈ its) :
    it.encode.length ≤ (Item.encodeAll its).length := by
  induction its with
  | nil => cases h
  | cons a as ih =>
    rw [Item.encodeAll_cons, List.length_append]
    rcases List.mem_cons.mp h with rfl | h
    · exact Nat.le_add_right _ _
    · exact (ih h).trans (Nat.le_add_left _ _)

/-- `CountValues` of a list's payload is the number of its items -/
theorem countValues_encodeAll {its : List Item} (h : (Item.encodeAll its).length < 2 ^ 64) :
    countValues (Item.encodeAll its) = .ok its.length := by
  refine countValues_eq_ok_iff.mpr ⟨its.map fun it => (it.kind, it.payload), by simp, ?_, ?_⟩
  · intro v hv
    obtain ⟨it, hit, rfl⟩ := List.mem_map.mp hv
    exact it.canonical (lt_of_le_of_lt (length_encode_le_encodeAll hit) h)
  · clear h
    induction its with
    | nil => rfl
    | cons it its ih =>
      rw [Item.encodeAll_cons, ih, it.encode_eq_header]
      rfl

theorem countValues_encodeAll_pair :
    (Item.encodeAll [.str [0x05], .list []]).length < 2 ^ 64 ∧
      countValues (Item.encodeAll [.str [0x05], .list []]) = .ok 2 :=
  ⟨by decide, countValues_encodeAll (by decide)⟩

mutual
/-- **No two items encode alike**, and no encoding is a prefix of another: an encoding followed
by a rest gives back both. -/
theorem Item.encode_append_inj : ∀ (a b : Item) {r r' : List UInt8},
    a.encode.length < 2 ^ 64 → b.encode.length < 2 ^ 64 →
      a.encode ++ r = b.encode ++ r' → a = b ∧ r = r'
  | a, b, r, r', ha, hb, h => by
    have hsplit := split_encode hb r'
    rw [← h, split_encode ha r, Except.ok.injEq, Prod.mk.injEq, Prod.mk.injEq] at hsplit
    obtain ⟨hkind, hpayload, hrest⟩ := hsplit
    refine ⟨?_, hrest⟩
    cases a with
    | str x =>
      cases b with
      | str y => exact congrArg Item.str hpayload
      | list ys => simp [Item.kind, strKind] at hkind; split at hkind <;> cases hkind
    | list xs =>
      cases b with
      | str y => simp [Item.kind, strKind] at hkind; split at hkind <;> cases hkind
      | list ys =>
        have hxs := lt_of_le_of_lt (Item.list xs).length_payload_le ha
        have hys := lt_of_le_of_lt (Item.list ys).length_payload_le hb
        exact congrArg Item.list (Item.encodeAll_inj xs ys hxs hys hpayload)

/-- the items of a list's payload are those it was written from -/
theorem Item.encodeAll_inj : ∀ (as bs : List Item),
    (Item.encodeAll as).length < 2 ^ 64 → (Item.encodeAll bs).length < 2 ^ 64 →
      Item.encodeAll as = Item.encodeAll bs → as = bs
  | [], [], _, _, _ => rfl
  | [], b :: bs, _, _, h => by
    rw [Item.encodeAll_cons, Item.encodeAll_nil] at h
    exact absurd (List.append_eq_nil_iff.mp h.symm).1 b.encode_ne_nil
  | a :: as, [], _, _, h => by
    rw [Item.encodeAll_cons, Item.encodeAll_nil] at h
    exact absurd (List.append_eq_nil_iff.mp h).1 a.encode_ne_nil
  | a :: as, b :: bs, ha, hb, h => by
    simp only [Item.encodeAll_cons, List.length_append] at h ha hb
    obtain ⟨rfl, hrest⟩ := Item.encode_append_inj a b (by omega) (by omega) h
    rw [Item.encodeAll_inj as bs (by omega) (by omega) hrest]
end

/-- **`EncodeToBytes` binds the items of the values**: two encodings, each followed by a rest,
agree only for values of one item and the same rest. -/
theorem encodeToBytes_append_inj {v v' : Value} {bs bs' r r' : List UInt8}
    (hv : encodeToBytes v = .ok bs) (hv' : encodeToBytes v' = .ok bs')
    (hlen : bs.length < 2 ^ 64) (hlen' : bs'.length < 2 ^ 64) (h : bs ++ r = bs' ++ r') :
    v.toItem = v'.toItem ∧ r = r' := by
  rw [encodeToBytes_eq] at hv hv'
  cases hi : v.toItem with
  | error e => rw [hi] at hv; cases hv
  | ok it =>
    cases hi' : v'.toItem with
    | error e => rw [hi'] at hv'; cases hv'
    | ok it' =>
      rw [hi] at hv
      rw [hi'] at hv'
      simp only [Except.map, Except.ok.injEq] at hv hv'
      subst hv hv'
      obtain ⟨rfl, hr⟩ := Item.encode_append_inj it it' hlen hlen' h
      exact ⟨rfl, hr⟩

/-- an integer and a byte string with one item: `5` and `[5]` both encode as the byte `0x05` -/
theorem encodeToBytes_append_inj_uint_bytes :
    encodeToBytes (.uint 5) = .ok [0x05] ∧ encodeToBytes (.bytes [0x05]) = .ok [0x05] ∧
      ((Value.uint 5).toItem = (Value.bytes [0x05]).toItem ∧ ([0x06] : List UInt8) = [0x06]) :=
  have h : encodeToBytes (.uint 5) = .ok [0x05] := by decide
  have h' : encodeToBytes (.bytes [0x05]) = .ok [0x05] := by decide
  ⟨h, h', encodeToBytes_append_inj h h' (by decide) (by decide) rfl⟩

end Rlp

end N42
