import N42.Rlp.StreamSpec

/-!
# (key: rlpstream) `decodeInterface` reads back what the encoder writes

`decodeInterface` decodes into an `interface{}` with the methods of `Stream`: `Kind`, then a
list as `List`, its elements until `EOL`, and `ListEnd`, anything else as `Bytes`.  This file
relates it to the reference encoding `Item.encode`.  Once `Kind` is rearmed, what the next method
reads of a stream is its `view`: the input, the limit and the open lists; the state a decoder
leaves is stated by it.

* `decodeInterface_encode`   an encoding of fewer than `2^64` bytes that fits the open list and
                             the limit is decoded to its item, with exactly its bytes read;
* `decodeInterface_eq_ok`    what `decodeInterface` returns is an item whose encoding was read;
* `decodeInterface_eq_eol`   `EOL` comes only at the end of a list, and nothing is read;
* `decodeInterface_isSome`   fuel above twice the input is enough;
* `decodeBytes_eq_ok_iff`    `DecodeBytes` accepts exactly the encodings, each as its item, and
                             `decodeBytes_append` rejects one followed by more data;
* `run_raw_encode`           `Raw` returns the encoding of the value ahead and reads it;
* `run_uint_encodeUint`      `Uint` reads back the integer `encodeUint` wrote, and
                             `run_bool_writeBool` `Bool` the boolean `writeBool` wrote.
-/

namespace N42

namespace Rlp

namespace Stream

/-- what the methods read of a stream whose `Kind` is rearmed: the input, the limit and the
open lists -/
def view (s : Stream) : List UInt8 × ℕ × Bool × List ListPos :=
  (s.input, s.remaining, s.limited, s.stack)

theorem view_eq_iff {s t : Stream} :
    s.view = t.view ↔
      s.input = t.input ∧ s.remaining = t.remaining ∧ s.limited = t.limited ∧ s.stack = t.stack := by
  simp [view]

theorem view_advance_congr {s t : Stream} (h : s.view = t.view) (n : ℕ) :
    (s.advance n).view = (t.advance n).view := by
  obtain ⟨h₁, h₂, h₃, h₄⟩ := view_eq_iff.mp h
  simp [view, advance, account, h₁, h₂, h₃, h₄]

@[simp] theorem view_advance_zero (s : Stream) : (s.advance 0).view = s.view := by
  simp [view, advance, account]

@[simp] theorem view_afterHeader (s : Stream) (k : Kind) (size : ℕ) (hd : List UInt8) :
    (afterHeader s k size hd).view = (s.advance hd.length).view := rfl

theorem fits_congr {s t : Stream} (h : s.view = t.view) {n : ℕ} : Fits s n ↔ Fits t n := by
  obtain ⟨-, h₂, h₃, h₄⟩ := view_eq_iff.mp h
  simp [Fits, Room, h₂, h₃, h₄]

/-- the innermost list of `s` ends after exactly `n` more bytes, and the input limit has room for
them -/
def EndsAfter (s : Stream) (n : ℕ) : Prop :=
  (∃ tos ∈ s.stack.head?, tos.pos + n = tos.size) ∧ (s.limited = true → n ≤ s.remaining)

theorem EndsAfter.fits {s : Stream} {n : ℕ} (h : EndsAfter s n) : Fits s n := by
  obtain ⟨⟨tos, htos, hend⟩, hlim⟩ := h
  refine ⟨fun tos' htos' => ?_, hlim⟩
  obtain rfl : tos' = tos := Option.mem_unique htos' htos
  omega

theorem EndsAfter.eol {s : Stream} (h : EndsAfter s 0) : ∃ tos ∈ s.stack.head?, tos.pos = tos.size :=
  h.1

theorem EndsAfter.advance {s : Stream} {a b : ℕ} (h : EndsAfter s (a + b)) :
    EndsAfter (s.advance a) b := by
  obtain ⟨⟨tos, htos, hend⟩, hlim⟩ := h
  refine ⟨⟨{ tos with pos := tos.pos + a }, ?_, by dsimp only; omega⟩, fun hl => ?_⟩
  · cases hs : s.stack with
    | nil => rw [hs] at htos; cases htos
    | cons tos' outer =>
      rw [hs] at htos
      cases htos
      simp [hs, readIn]
  · rw [advance_limited] at hl
    rw [advance_remaining, if_pos hl]
    have := hlim hl
    omega

theorem EndsAfter.congr {s t : Stream} (hv : s.view = t.view) {n : ℕ} (h : EndsAfter s n) :
    EndsAfter t n := by
  obtain ⟨-, h₂, h₃, h₄⟩ := view_eq_iff.mp hv
  obtain ⟨hend, hlim⟩ := h
  exact ⟨h₄ ▸ hend, h₂ ▸ h₃ ▸ hlim⟩

end Stream

open N42.Rlp.Stream

/-! ## the steps of `decodeInterface` -/

/-- `Kind` on a rearmed stream that starts with the header of a value, the value fitting the open
list and the limit -/
theorem run_nextKind_header {s : Stream} {k : Kind} {size : ℕ} {hd rest : List UInt8}
    (hk : s.kind = none) (hh : IsHeader k size hd) (hin : s.input = hd ++ rest)
    (hf : Fits s (hd.length + size)) :
    nextKind.run s = .ok (k, size) (afterHeader s k size hd) := by
  obtain ⟨hf₁, hf₂⟩ := fits_add.mp hf
  exact (run_nextKind_eq_ok hk).mpr ⟨hd, hh, ⟨rest, hin.symm⟩, hf₁, ⟨hf₂.1, fun _ => hf₂.2⟩, rfl⟩

theorem decodeInterface_at_eol {fuel : ℕ} {s : Stream} (hk : s.kind = none) (hfuel : 0 < fuel)
    (heol : ∃ tos ∈ s.stack.head?, tos.pos = tos.size) :
    decodeInterface fuel s = some (.error .eol { s with kinderr := none }) := by
  cases fuel with
  | zero => omega
  | succ f => simp only [decodeInterface, run_nextKind_at_eol hk heol]

/-- **`ListEnd` after the whole content of a list** counts the list's bytes in the list around
it: the stream is as if its parent had read them. -/
theorem run_listEnd_after {u t : Stream} {n : ℕ}
    (h : t.view = ({ u with stack := ⟨0, n⟩ :: u.stack }.advance n).view) :
    ∃ t', listEnd.run t = .ok () t' ∧ t'.kind = none ∧ t'.view = (u.advance n).view := by
  obtain ⟨h₁, h₂, h₃, h₄⟩ := view_eq_iff.mp h
  simp only [advance_stack, readIn, Nat.zero_add] at h₄
  refine ⟨_, run_listEnd_eq_ok.mpr ⟨⟨n, n⟩, u.stack, h₄, rfl, rfl⟩, rfl, ?_⟩
  refine view_eq_iff.mpr ⟨?_, ?_, ?_, rfl⟩
  · rw [h₁]; rfl
  · rw [h₂]; rfl
  · rw [h₃]; rfl

/-! ## every encoding is decoded -/

/-- a single byte up to `0x7F` is its own encoding, and the header of a byte -/
theorem encodeString_single {x : UInt8} (hx : x ≤ 0x7F) :
    encodeString [x] = [x] ∧ IsHeader .byte 0 [x] := by
  refine ⟨by rw [encodeString, if_pos ⟨rfl, hx⟩], rfl, x, rfl, ?_⟩
  exact UInt8.lt_iff_toNat_lt.mpr (by have := UInt8.le_iff_toNat_le.mp hx; simp at this ⊢; omega)

/-- a string's encoding: a single byte below `0x80` by itself, anything else after the header of
its length -/
theorem decodeInterface_str {fuel : ℕ} {s : Stream} {c rest : List UInt8}
    (hc : c.length < 2 ^ 64) (hk : s.kind = none) (hin : s.input = encodeString c ++ rest)
    (hf : Fits s (encodeString c).length) (hfuel : 0 < fuel) :
    ∃ t, decodeInterface fuel s = some (.ok (.str c) t) ∧ t.kind = none ∧
      t.view = (s.advance (encodeString c).length).view := by
  cases fuel with
  | zero => omega
  | succ f =>
  by_cases hb : c.length = 1 ∧ c.headD 0 ≤ 0x7F
  · -- `Kind` keeps the byte in `byteval`, and `Bytes` returns it
    obtain ⟨x, rfl⟩ := List.length_eq_one_iff.mp hb.1
    obtain ⟨he, hh⟩ := @encodeString_single x hb.2
    rw [he] at hin hf ⊢
    have hn := run_nextKind_header hk hh hin hf
    refine ⟨{ afterHeader s .byte 0 [x] with kind := none }, ?_, rfl, rfl⟩
    simp only [decodeInterface, hn, reduceCtorEq, if_false, run_bytes_byte (afterHeader_kind _ _ _ _)
      (afterHeader_kinderr _ _ _ _), afterHeader_byteval]
    rfl
  · -- the header of the length, then `Bytes` reads the content
    have he : encodeString c = encodeStringHeader c.length ++ c := by rw [encodeString, if_neg hb]
    rw [he, List.length_append] at hf ⊢
    rw [he, List.append_assoc] at hin
    have hh : IsHeader .string c.length (encodeStringHeader c.length) := ⟨hc, rfl⟩
    have hn := run_nextKind_header hk hh hin hf
    set s₁ := afterHeader s .string c.length (encodeStringHeader c.length)
    have hfc : Fits s₁ c.length := (fits_congr (view_afterHeader _ _ _ _).symm).mp (fits_add.mp hf).2
    have hin₁ : s₁.input = c ++ rest := by simp [s₁, hin]
    have hc₁ : ¬ (c.length = 1 ∧ c.headD 0 < 128) := fun h => hb ⟨h.1, by
      have := UInt8.lt_iff_toNat_lt.mp h.2
      exact UInt8.le_iff_toNat_le.mpr (by simp at this ⊢; omega)⟩
    have hbytes : bytes.run s₁ = .ok c (s₁.advance c.length) :=
      (run_bytes_string (afterHeader_kind _ _ _ _) (afterHeader_kinderr _ _ _ _)).mpr
        ⟨hfc, by rw [hin₁]; simp, by rw [hin₁]; simp, hc₁, rfl⟩
    refine ⟨s₁.advance c.length, ?_, rfl, ?_⟩
    · simp only [decodeInterface, hn, reduceCtorEq, if_false, hbytes]
      rfl
    · rw [view_advance_congr (view_afterHeader _ _ _ _), advance_advance]

/-- a list's encoding: the header of its content, then the elements, here taken as decoded -/
theorem decodeInterface_list {fuel : ℕ} {s : Stream} {its : List Item} {rest : List UInt8}
    (hlen : (Item.encodeAll its).length < 2 ^ 64) (hk : s.kind = none)
    (hin : s.input = (Item.list its).encode ++ rest) (hf : Fits s (Item.list its).encode.length)
    (hfuel : 0 < fuel)
    (helems : ∀ u : Stream, u.kind = none → u.input = Item.encodeAll its ++ rest →
      EndsAfter u (Item.encodeAll its).length → (Item.encodeAll its).length ≠ 0 →
      ∃ t, decodeSliceElems (decodeInterface (fuel - 1)) (fuel - 1) 0 u = some (.ok its t) ∧
        t.kind = none ∧ t.view = (u.advance (Item.encodeAll its).length).view) :
    ∃ t, decodeInterface fuel s = some (.ok (.list its) t) ∧ t.kind = none ∧
      t.view = (s.advance (Item.list its).encode.length).view := by
  cases fuel with
  | zero => omega
  | succ f =>
  rw [Item.encode_list, List.length_append] at hf ⊢
  rw [Item.encode_list, List.append_assoc] at hin
  set n := (Item.encodeAll its).length with hn
  set hd := puthead emptyListCode 0xF7 n
  have hh : IsHeader .list n hd := ⟨hlen, rfl⟩
  have hnk := run_nextKind_header hk hh hin hf
  set s₁ := afterHeader s .list n hd
  -- `List` pushes the list of the cached size
  set u := { s₁ with stack := ⟨0, n⟩ :: s₁.stack, kind := none, size := 0 }
  have hl : list.run s₁ = .ok n u := run_list_cached (afterHeader_kind _ _ _ _) (afterHeader_kinderr _ _ _ _)
  have hsub : ∀ t : Stream, t.view = (u.advance n).view →
      ∃ t', listEnd.run t = .ok () t' ∧ t'.kind = none ∧
        t'.view = (s.advance (hd.length + n)).view := by
    intro t ht
    obtain ⟨t', h₁, h₂, h₃⟩ := run_listEnd_after (u := s₁) ht
    exact ⟨t', h₁, h₂, by rw [h₃, view_advance_congr (view_afterHeader _ _ _ _), advance_advance]⟩
  simp only [decodeInterface, hnk, if_true, decodeListSlice, hl]
  by_cases h0 : n = 0
  · -- the empty list: `ListEnd` right after `List`
    rw [if_pos h0]
    obtain ⟨t', h₁, h₂, h₃⟩ := hsub u (by rw [h0, view_advance_zero])
    obtain rfl : its = [] := by
      cases its with
      | nil => rfl
      | cons it its =>
        simp only [hn, Item.encodeAll_cons, List.length_append] at h0
        exact absurd (List.length_eq_zero_iff.mp (by omega)) it.encode_ne_nil
    refine ⟨t', ?_, h₂, h₃⟩
    simp [h₁]
  · rw [if_neg h0]
    have hend : EndsAfter u n :=
      ⟨⟨⟨0, n⟩, rfl, by simp⟩, fun hl' => (fits_add.mp hf).2.2 hl'⟩
    obtain ⟨t, hdse, -, htv⟩ := helems u rfl (by simp [u, s₁, hin]) hend h0
    obtain ⟨t', h₁, h₂, h₃⟩ := hsub t htv
    refine ⟨t', ?_, h₂, h₃⟩
    simp only [Nat.add_sub_cancel] at hdse
    simp [hdse, h₁]

theorem headsize_pos (size : ℕ) : 0 < headsize size := by
  unfold headsize
  split <;> omega

theorem length_le_length_encodeAll (its : List Item) : its.length ≤ (Item.encodeAll its).length := by
  induction its with
  | nil => simp
  | cons it its ih =>
    have := List.length_pos_of_ne_nil it.encode_ne_nil
    simp only [Item.encodeAll_cons, List.length_append, List.length_cons]
    omega

mutual
/-- **`decodeInterface` decodes every encoding**: on a rearmed stream that starts with the encoding
of an item, the item fitting the open list and the limit, it returns the item and reads exactly
its encoding, given fuel above twice its length. -/
theorem decodeInterface_encode : ∀ (it : Item) {fuel : ℕ} {s : Stream} {rest : List UInt8},
    it.encode.length < 2 ^ 64 → s.kind = none → s.input = it.encode ++ rest →
    Fits s it.encode.length → 2 * it.encode.length < fuel →
    ∃ t, decodeInterface fuel s = some (.ok it t) ∧ t.kind = none ∧
      t.view = (s.advance it.encode.length).view
  | .str c, fuel, s, rest, hlen, hk, hin, hf, hfuel => by
    rw [Item.encode_str] at hlen hin hf hfuel ⊢
    have hc : c.length < 2 ^ 64 :=
      lt_of_le_of_lt ((Item.str c).length_payload_le.trans (by rw [Item.encode_str])) hlen
    exact decodeInterface_str hc hk hin hf (by omega)
  | .list its, fuel, s, rest, hlen, hk, hin, hf, hfuel => by
    have hp := lt_of_le_of_lt (Item.list its).length_payload_le hlen
    have hhd : (Item.encodeAll its).length < (Item.list its).encode.length := by
      rw [Item.encode_list, List.length_append, length_puthead]
      have := headsize_pos (Item.encodeAll its).length
      omega
    refine decodeInterface_list hp hk hin hf (by omega) fun u hku hinu hend _ => ?_
    exact decodeSliceElems_encodeAll its hp hku hinu hend (by omega)
      (by have := length_le_length_encodeAll its; omega)

/-- the elements of a list, read to its end: the items come back in order and `EOL` ends them -/
theorem decodeSliceElems_encodeAll : ∀ (its : List Item) {fuel g i : ℕ} {s : Stream}
    {rest : List UInt8},
    (Item.encodeAll its).length < 2 ^ 64 → s.kind = none → s.input = Item.encodeAll its ++ rest →
    EndsAfter s (Item.encodeAll its).length → 2 * (Item.encodeAll its).length < fuel →
    its.length < g →
    ∃ t, decodeSliceElems (decodeInterface fuel) g i s = some (.ok its t) ∧ t.kind = none ∧
      t.view = (s.advance (Item.encodeAll its).length).view
  | [], fuel, g, i, s, rest, _, hk, _, hend, hfuel, hg => by
    cases g with
    | zero => simp at hg
    | succ g =>
      simp only [Item.encodeAll_nil, List.length_nil] at hend hfuel ⊢
      refine ⟨{ s with kinderr := none }, ?_, hk, by rw [view_advance_zero]; rfl⟩
      simp [decodeSliceElems, decodeInterface_at_eol hk (by omega) hend.eol]
  | it :: its, fuel, g, i, s, rest, hlen, hk, hin, hend, hfuel, hg => by
    cases g with
    | zero => simp at hg
    | succ g =>
      simp only [Item.encodeAll_cons, List.length_append] at hlen hin hend hfuel ⊢
      rw [List.append_assoc] at hin
      obtain ⟨t₁, h₁, hk₁, hv₁⟩ :=
        @decodeInterface_encode it fuel s _ (by omega) hk hin (hend.fits.mono (by omega)) (by omega)
      have hin₁ : t₁.input = Item.encodeAll its ++ rest := by
        rw [(view_eq_iff.mp hv₁).1, advance_input, hin, List.drop_left]
      obtain ⟨t₂, h₂, hk₂, hv₂⟩ :=
        @decodeSliceElems_encodeAll its fuel g (i + 1) t₁ rest (by omega) hk₁ hin₁
          (hend.advance.congr hv₁.symm) (by omega) (by simp at hg; omega)
      refine ⟨t₂, ?_, hk₂, ?_⟩
      · simp [decodeSliceElems, h₁, h₂]
      · rw [hv₂, view_advance_congr hv₁, advance_advance]
end

/-! ## what the decoders return -/

theorem Item.encodeAll_eq_flatMap (its : List Item) : Item.encodeAll its = its.flatMap Item.encode := by
  induction its with
  | nil => rfl
  | cons it its ih => rw [Item.encodeAll_cons, ih, List.flatMap_cons]

theorem addErrorContext_ne_eol {err : RlpError} (h : err ≠ .eol) (ctx : String) :
    addErrorContext err ctx ≠ .eol := by
  cases err <;> simp_all [addErrorContext]

theorem listEnd_error_ne_eol {s t : Stream} {e : RlpError} (h : listEnd.run s = .error e t) :
    e ≠ .eol := by
  rintro rfl
  cases hs : s.stack with
  | nil => simp [listEnd, hs] at h
  | cons tos outer =>
    by_cases hp : tos.pos = tos.size
    · cases outer <;> simp [listEnd, hs, hp] at h
    · simp [listEnd, hs, hp] at h

section

variable {α : Type} (elemdec : Stream → Decoded α)

/-- one round of `decodeSliceElems`: `EOL` ends the slice, an element is followed by the rest -/
theorem decodeSliceElems_succ_eq_ok {g i : ℕ} {s t : Stream} {vs : List α} :
    decodeSliceElems elemdec (g + 1) i s = some (.ok vs t) ↔
      (elemdec s = some (.error .eol t) ∧ vs = []) ∨
        ∃ v u vs', elemdec s = some (.ok v u) ∧
          decodeSliceElems elemdec g (i + 1) u = some (.ok vs' t) ∧ vs = v :: vs' := by
  rcases h : elemdec s with _ | ⟨v, u⟩ | ⟨err, u⟩
  · simp [decodeSliceElems, h]
  · simp [decodeSliceElems, h]
  · by_cases he : err = .eol
    · subst he
      simp [decodeSliceElems, h, and_comm]
    · simp [decodeSliceElems, h, he]

/-- `decodeSliceElems` takes an element's `EOL` for the end of the slice, so never returns it -/
theorem decodeSliceElems_error_ne_eol : ∀ {g i : ℕ} {s t : Stream} {e : RlpError},
    decodeSliceElems elemdec g i s = some (.error e t) → e ≠ .eol
  | 0, _, _, _, _, h => by simp [decodeSliceElems] at h
  | g + 1, i, s, t, e, h => by
    rcases hd : elemdec s with _ | ⟨v, u⟩ | ⟨err, u⟩
    · simp [decodeSliceElems, hd] at h
    · simp only [decodeSliceElems, hd, Option.map_eq_some_iff, EStateM.Result.map_eq_error] at h
      obtain ⟨r, hr, rfl⟩ := h
      exact decodeSliceElems_error_ne_eol hr
    · by_cases he : err = .eol
      · simp [decodeSliceElems, hd, he] at h
      · simp only [decodeSliceElems, hd, if_neg he, Option.some.injEq,
          EStateM.Result.error.injEq] at h
        rw [← h.1]
        exact addErrorContext_ne_eol he _

/-- a list slice after a cached `List` kind returns no `EOL`: its elements' is taken for the end
of the list, and `ListEnd` has none -/
theorem decodeListSlice_error_ne_eol {fuel : ℕ} {s t : Stream} {e : RlpError}
    (hk : s.kind = some .list) (he : s.kinderr = none)
    (h : decodeListSlice elemdec fuel s = some (.error e t)) : e ≠ .eol := by
  simp only [decodeListSlice, run_list_cached hk he] at h
  split_ifs at h
  · simp only [Option.some.injEq, EStateM.Result.map_eq_error] at h
    exact listEnd_error_ne_eol h
  · split at h
    · simp only [Option.some.injEq, EStateM.Result.map_eq_error] at h
      exact listEnd_error_ne_eol h
    · exact decodeSliceElems_error_ne_eol elemdec h

variable (enc : α → List UInt8)

/-- **What `decodeSliceElems` reads**: the encodings of the elements it returns, one after the
other, up to the end of the innermost list, given what each element's decoder reads. -/
theorem decodeSliceElems_eq_ok
    (hok : ∀ {s t : Stream} {v : α}, s.kind = none → elemdec s = some (.ok v t) →
      s.input = enc v ++ t.input ∧ t.kind = none ∧ t.view = (s.advance (enc v).length).view)
    (heol : ∀ {s t : Stream}, s.kind = none → elemdec s = some (.error .eol t) →
      (∃ tos ∈ s.stack.head?, tos.pos = tos.size) ∧ t.kind = none ∧ t.view = s.view) :
    ∀ {g i : ℕ} {s t : Stream} {vs : List α}, s.kind = none →
      decodeSliceElems elemdec g i s = some (.ok vs t) →
      s.input = vs.flatMap enc ++ t.input ∧ t.kind = none ∧
        t.view = (s.advance (vs.flatMap enc).length).view ∧
        ∃ tos ∈ t.stack.head?, tos.pos = tos.size
  | 0, _, _, _, _, _, h => by simp [decodeSliceElems] at h
  | g + 1, i, s, t, vs, hk, h => by
    rcases (decodeSliceElems_succ_eq_ok elemdec).mp h with ⟨he, rfl⟩ | ⟨v, u, vs', hv, hrest, rfl⟩
    · -- `EOL`: nothing read, and the innermost list is at its end
      obtain ⟨hend, htk, htv⟩ := heol hk he
      obtain ⟨h₁, -, -, h₄⟩ := view_eq_iff.mp htv
      exact ⟨by simp [h₁], htk, by simp [htv], h₄ ▸ hend⟩
    · obtain ⟨hin₁, hk₁, hv₁⟩ := hok hk hv
      obtain ⟨hin₂, hk₂, hv₂, hend⟩ := decodeSliceElems_eq_ok hok heol hk₁ hrest
      refine ⟨by rw [hin₁, hin₂, List.flatMap_cons, List.append_assoc], hk₂, ?_, hend⟩
      rw [hv₂, view_advance_congr hv₁, advance_advance, List.flatMap_cons, List.length_append]

end

/-- **`decodeInterface` returns `EOL` only at the end of a list**, and then reads nothing. -/
theorem decodeInterface_eq_eol {fuel : ℕ} {s t : Stream} (hk : s.kind = none)
    (h : decodeInterface fuel s = some (.error .eol t)) :
    (∃ tos ∈ s.stack.head?, tos.pos = tos.size) ∧ { s with kinderr := none } = t := by
  cases fuel with
  | zero => simp [decodeInterface] at h
  | succ f =>
    simp only [decodeInterface] at h
    cases hn : nextKind.run s with
    | error e u =>
      rw [hn] at h
      cases h
      exact run_nextKind_eq_eol hk hn
    | ok r u =>
      obtain ⟨k, size⟩ := r
      rw [hn] at h
      obtain ⟨hd, -, -, -, -, rfl⟩ := (run_nextKind_eq_ok hk).mp hn
      dsimp only at h
      split_ifs at h with hl
      · subst hl
        simp only [Option.map_eq_some_iff, EStateM.Result.map_eq_error] at h
        obtain ⟨r, hr, rfl⟩ := h
        exact absurd rfl (decodeListSlice_error_ne_eol _ (afterHeader_kind _ _ _ _)
          (afterHeader_kinderr _ _ _ _) hr)
      · simp only [Option.some.injEq, EStateM.Result.map_eq_error] at h
        exact absurd rfl (bytes_error_ne_eol (by simp) (afterHeader_kinderr _ _ _ _) h)

theorem decodeInterface_eol_view {fuel : ℕ} {s t : Stream} (hk : s.kind = none)
    (h : decodeInterface fuel s = some (.error .eol t)) :
    (∃ tos ∈ s.stack.head?, tos.pos = tos.size) ∧ t.kind = none ∧ t.view = s.view := by
  obtain ⟨hend, rfl⟩ := decodeInterface_eq_eol hk h
  exact ⟨hend, hk, rfl⟩

/-- `Bytes` after `Kind` read the header of a byte or of a string: the string's encoding was
read -/
theorem bytes_afterHeader_eq_ok {s t : Stream} {k : Kind} {size : ℕ} {hd rest c : List UInt8}
    (hl : k ≠ .list) (hh : IsHeader k size hd) (hin : s.input = hd ++ rest)
    (h : bytes.run (afterHeader s k size hd) = .ok c t) :
    s.input = encodeString c ++ t.input ∧ t.kind = none ∧
      t.view = (s.advance (encodeString c).length).view := by
  cases k with
  | list => exact absurd rfl hl
  | byte =>
    -- the byte is its own header, kept in `byteval`
    obtain ⟨-, b, rfl, hb⟩ := hh
    rw [run_bytes_byte (afterHeader_kind _ _ _ _) (afterHeader_kinderr _ _ _ _),
      EStateM.Result.ok.injEq] at h
    obtain ⟨rfl, rfl⟩ := h
    have hb' : b ≤ 0x7F := UInt8.le_iff_toNat_le.mpr (by
      have := UInt8.lt_iff_toNat_lt.mp hb; simp at this ⊢; omega)
    have he : encodeString [b] = [b] := by rw [encodeString, if_pos ⟨rfl, hb'⟩]
    have hv : (afterHeader s .byte size [b]).byteval = b := rfl
    rw [hv, he]
    exact ⟨by simp [hin], rfl, rfl⟩
  | string =>
    obtain ⟨-, rfl⟩ := hh
    obtain ⟨-, hlen, htake, hc, rfl⟩ :=
      (run_bytes_string (afterHeader_kind _ _ _ _) (afterHeader_kinderr _ _ _ _)).mp h
    have hin₁ : (afterHeader s .string size (puthead 0x80 0xB7 size)).input = rest := by simp [hin]
    simp only [afterHeader_size, hin₁] at hlen htake hc
    obtain rfl : c.length = size := by rw [← htake, List.length_take]; omega
    have hc' : ¬ (c.length = 1 ∧ c.headD 0 ≤ 0x7F) := fun h' => hc ⟨h'.1, by
      have := UInt8.le_iff_toNat_le.mp h'.2
      exact UInt8.lt_iff_toNat_lt.mpr (by simp at this ⊢; omega)⟩
    have he : encodeString c = puthead 0x80 0xB7 c.length ++ c := by
      rw [encodeString, if_neg hc']; rfl
    have hrest : c ++ rest.drop c.length = rest := by
      conv_rhs => rw [← List.take_append_drop c.length rest]
      rw [htake]
    rw [he]
    refine ⟨?_, rfl, ?_⟩
    · rw [afterHeader_size, advance_input, hin₁, hin, List.append_assoc, hrest]
    · rw [afterHeader_size, view_advance_congr (view_afterHeader _ _ _ _), advance_advance,
        List.length_append]

/-- a list slice after `Kind` read a list header: the list's encoding was read, given what its
elements' decoder reads -/
theorem decodeListSlice_afterHeader_eq_ok {fuel : ℕ} {s t : Stream} {size : ℕ}
    {hd rest : List UInt8} {its : List Item} (hh : IsHeader .list size hd)
    (hin : s.input = hd ++ rest)
    (hok : ∀ {s t : Stream} {it : Item}, s.kind = none → decodeInterface fuel s = some (.ok it t) →
      s.input = it.encode ++ t.input ∧ t.kind = none ∧ t.view = (s.advance it.encode.length).view)
    (h : decodeListSlice (decodeInterface fuel) fuel (afterHeader s .list size hd) =
      some (.ok its t)) :
    s.input = (Item.list its).encode ++ t.input ∧ t.kind = none ∧
      t.view = (s.advance (Item.list its).encode.length).view := by
  obtain ⟨-, rfl⟩ := hh
  set s₁ := afterHeader s .list size (puthead 0xC0 0xF7 size)
  set u := { s₁ with stack := ⟨0, size⟩ :: s₁.stack, kind := none, size := 0 }
  have hl : list.run s₁ = .ok size u :=
    run_list_cached (afterHeader_kind _ _ _ _) (afterHeader_kinderr _ _ _ _)
  have hin₁ : s₁.input = rest := by simp [s₁, hin]
  -- both branches end in `ListEnd` after exactly the content of the list
  have hfin : ∀ t' : Stream, t'.view = (u.advance size).view → listEnd.run t' = .ok () t →
      rest = Item.encodeAll its ++ t'.input → (Item.encodeAll its).length = size →
      s.input = (Item.list its).encode ++ t.input ∧ t.kind = none ∧
        t.view = (s.advance (Item.list its).encode.length).view := by
    intro t' hv' hle hrest hn
    obtain ⟨t'', h₁, h₂, h₃⟩ := run_listEnd_after (u := s₁) hv'
    obtain rfl : t'' = t := by rw [hle, EStateM.Result.ok.injEq] at h₁; exact h₁.2.symm
    have htin : t''.input = t'.input := by
      rw [(view_eq_iff.mp h₃).1, advance_input, hin₁, hrest, ← hn, List.drop_left]
    rw [Item.encode_list, List.length_append, hn, htin]
    refine ⟨by rw [hin, hrest, List.append_assoc]; rfl, h₂, ?_⟩
    rw [h₃, view_advance_congr (view_afterHeader _ _ _ _), advance_advance]
    rfl
  simp only [decodeListSlice, hl] at h
  split_ifs at h with h0
  · -- the empty list
    simp only [Option.some.injEq, EStateM.Result.map_eq_ok] at h
    obtain ⟨⟨⟩, hle, rfl⟩ := h
    exact hfin u (by rw [h0, view_advance_zero]) hle (by simp [u, hin₁]) (by simp [h0])
  · split at h
    · rename_i vs t₂ hdse
      simp only [Option.some.injEq, EStateM.Result.map_eq_ok] at h
      obtain ⟨⟨⟩, hle, rfl⟩ := h
      obtain ⟨hin₂, -, hv₂, hend⟩ := decodeSliceElems_eq_ok (decodeInterface fuel) Item.encode
        hok decodeInterface_eol_view rfl hdse
      rw [← Item.encodeAll_eq_flatMap] at hin₂ hv₂
      -- `EOL` of the list's elements: its position is its size
      have hn : (Item.encodeAll its).length = size := by
        obtain ⟨tos, htos, heq⟩ := hend
        rw [(view_eq_iff.mp hv₂).2.2.2] at htos
        simp only [u, advance_stack, readIn, List.head?_cons, Option.mem_def,
          Option.some.injEq] at htos
        rw [← htos] at heq
        simpa using heq
      exact hfin t₂ (by rw [hv₂, hn]) hle (by rw [← hin₁]; exact hin₂) hn
    · rename_i hne
      exact absurd h (hne _ _)

/-- **What `decodeInterface` returns was read**: on a rearmed stream, the item it returns is one
whose encoding the input started with, and exactly that encoding was read. -/
theorem decodeInterface_eq_ok : ∀ {fuel : ℕ} {s t : Stream} {it : Item}, s.kind = none →
    decodeInterface fuel s = some (.ok it t) →
    s.input = it.encode ++ t.input ∧ t.kind = none ∧ t.view = (s.advance it.encode.length).view
  | 0, _, _, _, _, h => by simp [decodeInterface] at h
  | f + 1, s, t, it, hk, h => by
    simp only [decodeInterface] at h
    cases hn : nextKind.run s with
    | error e u => rw [hn] at h; cases h
    | ok r u =>
      obtain ⟨k, size⟩ := r
      rw [hn] at h
      obtain ⟨hd, hh, ⟨rest, hin⟩, -, -, rfl⟩ := (run_nextKind_eq_ok hk).mp hn
      dsimp only at h
      split_ifs at h with hl
      · subst hl
        simp only [Option.map_eq_some_iff, EStateM.Result.map_eq_ok] at h
        obtain ⟨r, hr, its, rfl, rfl⟩ := h
        exact decodeListSlice_afterHeader_eq_ok hh hin.symm decodeInterface_eq_ok hr
      · simp only [Option.some.injEq, EStateM.Result.map_eq_ok] at h
        obtain ⟨c, hb, rfl⟩ := h
        rw [Item.encode_str]
        exact bytes_afterHeader_eq_ok hl hh hin.symm hb

/-! ## fuel, and `DecodeBytes` -/

section

variable {α : Type} (elemdec : Stream → Decoded α)

/-- `decodeSliceElems` returns when every element it reads shortens the input, given more rounds
than the input has bytes -/
theorem decodeSliceElems_isSome {N : ℕ}
    (hsome : ∀ {s : Stream}, s.kind = none → s.input.length ≤ N → (elemdec s).isSome)
    (hok : ∀ {s t : Stream} {v : α}, s.kind = none → elemdec s = some (.ok v t) →
      t.kind = none ∧ t.input.length < s.input.length) :
    ∀ {g i : ℕ} {s : Stream}, s.kind = none → s.input.length < g → s.input.length ≤ N →
      (decodeSliceElems elemdec g i s).isSome
  | 0, _, _, _, hg, _ => absurd hg (Nat.not_lt_zero _)
  | g + 1, i, s, hk, hg, hN => by
    have hs := hsome hk hN
    rcases hd : elemdec s with _ | ⟨v, u⟩ | ⟨err, u⟩
    · rw [hd] at hs; cases hs
    · obtain ⟨hku, hlt⟩ := hok hk hd
      simp only [decodeSliceElems, hd, Option.isSome_map]
      exact decodeSliceElems_isSome hsome hok hku (by omega) (by omega)
    · simp only [decodeSliceElems, hd]
      split_ifs <;> rfl

end

theorem length_lt_of_decodeInterface {fuel : ℕ} {s t : Stream} {it : Item} (hk : s.kind = none)
    (h : decodeInterface fuel s = some (.ok it t)) :
    t.kind = none ∧ t.input.length < s.input.length := by
  obtain ⟨hin, htk, -⟩ := decodeInterface_eq_ok hk h
  have := List.length_pos_of_ne_nil it.encode_ne_nil
  rw [hin, List.length_append]
  exact ⟨htk, by omega⟩

/-- **`decodeInterface` returns on fuel above twice its input**: `Kind` reads a header of at
least one byte before the elements of a list are read, and each element read shortens the
input. -/
theorem decodeInterface_isSome : ∀ {fuel : ℕ} {s : Stream}, s.kind = none →
    2 * s.input.length < fuel → (decodeInterface fuel s).isSome
  | 0, _, _, h => absurd h (Nat.not_lt_zero _)
  | f + 1, s, hk, hfuel => by
    simp only [decodeInterface]
    cases hn : nextKind.run s with
    | error e u => rfl
    | ok r u =>
      obtain ⟨k, size⟩ := r
      obtain ⟨hd, hh, ⟨rest, hin⟩, -, -, rfl⟩ := (run_nextKind_eq_ok hk).mp hn
      have hhd := length_pos_of_isHeader hh
      have hlen : (afterHeader s k size hd).input.length + hd.length = s.input.length := by
        rw [afterHeader_input, List.length_drop, ← hin, List.length_append]
        omega
      dsimp only
      split_ifs with hl
      · subst hl
        rw [Option.isSome_map]
        simp only [decodeListSlice,
          run_list_cached (afterHeader_kind _ _ _ _) (afterHeader_kinderr _ _ _ _)]
        split_ifs
        · rfl
        · -- the elements, each on the fuel left, for the rounds the bytes after the header allow
          have hs := @decodeSliceElems_isSome Item (decodeInterface f) (s.input.length - 1)
            (fun hk' hN => decodeInterface_isSome hk' (by omega))
            (fun hk' h => length_lt_of_decodeInterface hk' h) f 0
            { afterHeader s .list size hd with
              stack := ⟨0, size⟩ :: (afterHeader s .list size hd).stack, kind := none, size := 0 }
            rfl (by dsimp only; omega) (by dsimp only; omega)
          simp only [afterHeader_size] at hs ⊢
          obtain ⟨r, hr⟩ := Option.isSome_iff_exists.mp hs
          rw [hr]
          cases r <;> rfl
      · rfl

theorem decodeBytes_isSome (b : List UInt8) : (decodeBytes b).isSome := by
  rw [decodeBytes, Option.isSome_map]
  exact decodeInterface_isSome rfl (by simp [ofBytes])

/-- `decodeInterface` on a stream over an encoding and a rest: the item, with the rest left -/
theorem decodeInterface_ofBytes {it : Item} {r : List UInt8}
    (hb : (it.encode ++ r).length < 2 ^ 64) :
    ∃ t, decodeInterface (2 * (it.encode ++ r).length + 1) (ofBytes (it.encode ++ r)) =
      some (.ok it t) ∧ t.input = r := by
  have hlen : it.encode.length < 2 ^ 64 := by rw [List.length_append] at hb; omega
  obtain ⟨t, ht, -, hv⟩ := @decodeInterface_encode it (2 * (it.encode ++ r).length + 1)
    (ofBytes (it.encode ++ r)) r hlen rfl rfl
    ⟨room_nil rfl, fun _ => by simp [ofBytes]⟩ (by rw [List.length_append]; omega)
  exact ⟨t, ht, by rw [(view_eq_iff.mp hv).1]; simp [ofBytes]⟩

theorem decodeBytes_encode_of_lt {it : Item} (hb : it.encode.length < 2 ^ 64) :
    decodeBytes it.encode = some (.ok it) := by
  obtain ⟨t, ht, hin⟩ := @decodeInterface_ofBytes it [] (by rwa [List.append_nil])
  rw [List.append_nil] at ht
  rw [decodeBytes, ht]
  simp [hin]

theorem encode_of_decodeBytes {b : List UInt8} {it : Item} (h : decodeBytes b = some (.ok it)) :
    b = it.encode := by
  simp only [decodeBytes, Option.map_eq_some_iff] at h
  obtain ⟨r, hr, hit⟩ := h
  cases r with
  | error e t => cases hit
  | ok it' t =>
    dsimp only at hit
    split_ifs at hit with ht
    cases hit
    obtain ⟨hin, -, -⟩ := decodeInterface_eq_ok rfl hr
    have ht' : t.input = [] := List.eq_nil_of_length_eq_zero (by omega)
    simpa [ht', ofBytes] using hin

/-- **`DecodeBytes` accepts exactly the encodings**: into an `interface{}` it returns an item iff
the bytes are that item's encoding, for inputs below the `2^64` bytes a header can count. -/
theorem decodeBytes_eq_ok_iff {b : List UInt8} {it : Item} (hb : b.length < 2 ^ 64) :
    decodeBytes b = some (.ok it) ↔ b = it.encode :=
  ⟨encode_of_decodeBytes, fun h => h ▸ decodeBytes_encode_of_lt (h ▸ hb)⟩

theorem decodeBytes_eq_ok_iff_nested :
    ([0xC2, 0x05, 0xC0] : List UInt8).length < 2 ^ 64 ∧
      (decodeBytes [0xC2, 0x05, 0xC0] = some (.ok (.list [.str [0x05], .list []])) ↔
        [0xC2, 0x05, 0xC0] = (Item.list [.str [0x05], .list []]).encode) :=
  ⟨by decide, decodeBytes_eq_ok_iff (by decide)⟩

/-- **What `EncodeToBytes` writes, `DecodeBytes` reads back**: the bytes of a value decode, into an
`interface{}`, to the value's item. -/
theorem decodeBytes_encodeToBytes {v : Value} {bs : List UInt8} (hv : encodeToBytes v = .ok bs)
    (hlen : bs.length < 2 ^ 64) : ∃ it, v.toItem = .ok it ∧ decodeBytes bs = some (.ok it) := by
  rw [encodeToBytes_eq] at hv
  cases hi : v.toItem with
  | error e => rw [hi] at hv; cases hv
  | ok it =>
    rw [hi] at hv
    obtain rfl : it.encode = bs := Except.ok.inj hv
    exact ⟨it, rfl, decodeBytes_encode_of_lt hlen⟩

theorem decodeBytes_encodeToBytes_list :
    encodeToBytes (.list [.uint 1024, .bool true]) = .ok [0xC4, 0x82, 0x04, 0x00, 0x01] ∧
      ([0xC4, 0x82, 0x04, 0x00, 0x01] : List UInt8).length < 2 ^ 64 ∧
      ∃ it, (Value.list [.uint 1024, .bool true]).toItem = .ok it ∧
        decodeBytes [0xC4, 0x82, 0x04, 0x00, 0x01] = some (.ok it) :=
  have hv : encodeToBytes (.list [.uint 1024, .bool true]) = .ok [0xC4, 0x82, 0x04, 0x00, 0x01] := by
    decide
  ⟨hv, by decide, decodeBytes_encodeToBytes hv (by decide)⟩

/-- an encoding followed by more data is one value too many for `DecodeBytes` -/
theorem decodeBytes_append {it : Item} {r : List UInt8} (hr : r ≠ [])
    (hb : (it.encode ++ r).length < 2 ^ 64) :
    decodeBytes (it.encode ++ r) = some (.error .moreThanOneValue) := by
  obtain ⟨t, ht, hin⟩ := decodeInterface_ofBytes hb
  rw [decodeBytes, ht]
  simp [hin, List.length_pos_of_ne_nil hr]

theorem decodeBytes_append_byte :
    ([0x06] : List UInt8) ≠ [] ∧ ((Item.str [0x05]).encode ++ [0x06]).length < 2 ^ 64 ∧
      decodeBytes ((Item.str [0x05]).encode ++ [0x06]) = some (.error .moreThanOneValue) :=
  ⟨by decide, by decide, decodeBytes_append (by decide) (by decide)⟩

/-! ## `Raw` -/

/-- `Raw` on a header: the header it writes anew is the one it read, and the content follows -/
theorem run_raw_header {s : Stream} {k : Kind} {size : ℕ} {hd c rest : List UInt8}
    (hk : s.kind = none) (hh : IsHeader k size hd) (hin : s.input = hd ++ (c ++ rest))
    (hc : c.length = size) (hf : Fits s (hd.length + size)) :
    ∃ t, raw.run s = .ok (hd ++ c) t ∧ t.kind = none ∧
      t.view = (s.advance (hd.length + size)).view := by
  have hn := run_nextKind_header hk hh hin hf
  cases k with
  | byte =>
    -- the byte is its own header, kept in `byteval`
    obtain ⟨rfl, b, rfl, -⟩ := hh
    obtain rfl : c = [] := List.eq_nil_of_length_eq_zero hc
    refine ⟨{ afterHeader s .byte 0 [b] with kind := none }, ?_, rfl, rfl⟩
    simp [raw, hn]
    rfl
  | string | list =>
    set s₁ := afterHeader s _ size hd
    have hfc : Fits s₁ size := (fits_congr (view_afterHeader _ _ _ _).symm).mp (fits_add.mp hf).2
    have hin₁ : s₁.input = c ++ rest := by simp [s₁, hin]
    have hread : (readFull size).run s₁ = .ok c (s₁.advance size) :=
      run_readFull_eq_ok.mpr ⟨hfc, by rw [hin₁]; simp [hc], by rw [hin₁, ← hc]; simp, rfl⟩
    obtain ⟨-, rfl⟩ := hh
    refine ⟨s₁.advance size, ?_, by simp, ?_⟩
    · simp [raw, hn, hread]
    · rw [view_advance_congr (view_afterHeader _ _ _ _), advance_advance]

/-- **`Raw` returns the encoding of the value ahead**: on a stream whose `Kind` is rearmed and
whose input begins with an item's encoding, which fits the open list and the input limit, `Raw`
returns exactly that encoding and reads it, at any depth of open lists. -/
theorem run_raw_encode {it : Item} {s : Stream} {rest : List UInt8}
    (hlen : it.encode.length < 2 ^ 64) (hk : s.kind = none) (hin : s.input = it.encode ++ rest)
    (hf : Fits s it.encode.length) :
    ∃ t, raw.run s = .ok it.encode t ∧ t.kind = none ∧
      t.view = (s.advance it.encode.length).view := by
  cases it with
  | str c =>
    rw [Item.encode_str] at hlen hin hf ⊢
    by_cases hb : c.length = 1 ∧ c.headD 0 ≤ 0x7F
    · -- a single byte below `0x80` is its own encoding
      obtain ⟨x, rfl⟩ := List.length_eq_one_iff.mp hb.1
      obtain ⟨he, hh⟩ := @encodeString_single x hb.2
      rw [he] at hin hf ⊢
      exact run_raw_header hk hh (by rw [hin, List.nil_append]) rfl hf
    · have he : encodeString c = encodeStringHeader c.length ++ c := by rw [encodeString, if_neg hb]
      rw [he, List.length_append] at hlen hf
      rw [he, List.length_append]
      have hh : IsHeader .string c.length (encodeStringHeader c.length) := ⟨by omega, rfl⟩
      exact run_raw_header hk hh (by rw [hin, he, List.append_assoc]) rfl hf
  | list its =>
    rw [Item.encode_list, List.length_append] at hlen hf
    rw [Item.encode_list, List.length_append]
    have hh : IsHeader .list (Item.encodeAll its).length
        (puthead emptyListCode 0xF7 (Item.encodeAll its).length) := ⟨by omega, rfl⟩
    exact run_raw_header hk hh (by rw [hin, Item.encode_list, List.append_assoc]) rfl hf

theorem run_raw_encode_nested :
    ∃ t, raw.run (ofBytes [0xC2, 0x05, 0xC0]) = .ok (Item.list [.str [0x05], .list []]).encode t ∧
      t.kind = none ∧
      t.view = ((ofBytes [0xC2, 0x05, 0xC0]).advance (Item.list [.str [0x05], .list []]).encode.length).view :=
  @run_raw_encode (.list [.str [0x05], .list []]) (ofBytes [0xC2, 0x05, 0xC0]) [] (by decide) rfl rfl
    ⟨room_nil rfl, fun _ => le_refl _⟩

/-! ## `Uint` -/

/-- the encoding of `0` is the empty string, which `uint` of any width reads as `0` -/
theorem run_uint_encodeUint_zero {maxbits : ℕ} {s : Stream} {rest : List UInt8}
    (hk : s.kind = none) (hin : s.input = encodeUint 0 ++ rest) (hf : Fits s (encodeUint 0).length) :
    ∃ t, (uint maxbits).run s = .ok 0 t ∧ t.kind = none ∧
      t.view = (s.advance (encodeUint 0).length).view := by
  have he : encodeUint 0 = puthead 0x80 0xB7 0 := by decide
  have hh : IsHeader .string 0 (puthead 0x80 0xB7 0) := ⟨by omega, rfl⟩
  rw [he] at hin hf ⊢
  have hn := run_nextKind_header hk hh hin hf
  refine ⟨{ afterHeader s .string 0 (puthead 0x80 0xB7 0) with kind := none }, ?_, rfl, rfl⟩
  simp [uint, hn, readUint]

/-- below `128` the integer is its own single byte, kept by `Kind` in `byteval` -/
theorem run_uint_encodeUint_byte {maxbits : ℕ} {x : UInt64} {s : Stream} {rest : List UInt8}
    (hk : s.kind = none) (h128 : x < 128) (h0 : x ≠ 0)
    (hin : s.input = encodeUint x ++ rest) (hf : Fits s (encodeUint x).length) :
    ∃ t, (uint maxbits).run s = .ok x t ∧ t.kind = none ∧
      t.view = (s.advance (encodeUint x).length).view := by
  have hx : x.toNat < 128 := UInt64.lt_iff_toNat_lt.mp h128
  have he : encodeUint x = [x.toUInt8] := by rw [encodeUint, if_neg h0, if_pos h128]
  have hb : x.toUInt8 < 0x80 := UInt8.lt_iff_toNat_lt.mpr (by simp; omega)
  have hb0 : x.toUInt8 ≠ 0 := fun h => h0 (UInt64.toNat_inj.mp (by
    have := congrArg UInt8.toNat h; simp at this ⊢; omega))
  have hh : IsHeader .byte 0 [x.toUInt8] := ⟨rfl, x.toUInt8, rfl, hb⟩
  rw [he] at hin hf ⊢
  have hn := run_nextKind_header hk hh hin hf
  refine ⟨{ afterHeader s .byte 0 [x.toUInt8] with kind := none }, ?_, rfl, rfl⟩
  have hxx : x.toUInt8.toUInt64 = x := UInt64.toNat_inj.mp (by simp; omega)
  simp [uint, hn, tagByte, hb0, hxx]

/-- from `128` on, a short header of the length and the big-endian bytes, which `readUint`
reads back -/
theorem run_uint_encodeUint_long {x : UInt64} {s : Stream} {rest : List UInt8}
    (hk : s.kind = none) (h128 : ¬ x < 128) (h0 : x ≠ 0)
    (hin : s.input = encodeUint x ++ rest) (hf : Fits s (encodeUint x).length) :
    ∃ t, (uint 64).run s = .ok x t ∧ t.kind = none ∧
      t.view = (s.advance (encodeUint x).length).view := by
  have hpos : 0 < x.toNat := toNat_pos_of_ne h0
  have hsize := intsize_le_eight x.toNat_lt
  set len := (putint x.toNat).length with hlen
  have hlen8 : len ≤ 8 := by rw [hlen, length_putint]; omega
  have hlen1 : 1 ≤ len := length_putint_pos _
  have he : encodeUint x = puthead 0x80 0xB7 len ++ putint x.toNat := by
    rw [encodeUint, if_neg h0, if_neg h128, puthead_of_short (by omega)]
    rfl
  have hh : IsHeader .string len (puthead 0x80 0xB7 len) := ⟨by omega, rfl⟩
  rw [he, List.append_assoc] at hin
  rw [he] at hf ⊢
  rw [List.length_append] at hf ⊢
  have hn := run_nextKind_header hk hh hin hf
  set s₁ := afterHeader s .string len (puthead 0x80 0xB7 len)
  have hfc : Fits s₁ len := (fits_congr (view_afterHeader _ _ _ _).symm).mp (fits_add.mp hf).2
  have hin₁ : s₁.input = putint x.toNat ++ rest := by simp [s₁, hin]
  have htake : s₁.input.take len = putint x.toNat := by rw [hin₁]; simp [hlen]
  have hread : (readUint len).run s₁ = .ok x.toNat (s₁.advance len) :=
    (run_readUint_eq_ok hlen1).mpr ⟨hfc, by rw [hin₁]; simp [hlen],
      Or.inr (by rw [htake]; exact head_putint hpos), by rw [htake]; exact toNat_putint hpos, rfl⟩
  have h128' : ¬ x.toNat < 128 := fun h => h128 (UInt64.lt_iff_toNat_lt.mpr (by simpa using h))
  refine ⟨s₁.advance len, ?_, by simp, ?_⟩
  · -- the length fits the eight bytes of a `uint64`, and from `128` on no byte stands alone
    simp only [uint, EStateM.run_bind, hn]
    rw [if_neg (by omega), EStateM.run_bind, EStateM.run_attempt, hread]
    simp [h128']
  · rw [view_advance_congr (view_afterHeader _ _ _ _), advance_advance]

/-- **`Uint` reads back what `encodeUint` writes**: on a stream whose `Kind` is rearmed and whose
input begins with the encoding of a `uint64`, which fits the open list and the input limit, `Uint`
returns the integer and reads exactly its encoding. -/
theorem run_uint_encodeUint {x : UInt64} {s : Stream} {rest : List UInt8} (hk : s.kind = none)
    (hin : s.input = encodeUint x ++ rest) (hf : Fits s (encodeUint x).length) :
    ∃ t, (uint 64).run s = .ok x t ∧ t.kind = none ∧
      t.view = (s.advance (encodeUint x).length).view := by
  by_cases h0 : x = 0
  · subst h0
    exact run_uint_encodeUint_zero hk hin hf
  by_cases h128 : x < 128
  · exact run_uint_encodeUint_byte hk h128 h0 hin hf
  · exact run_uint_encodeUint_long hk h128 h0 hin hf

theorem run_uint_encodeUint_1024 :
    ∃ t, (uint 64).run (ofBytes [0x82, 0x04, 0x00]) = .ok 1024 t ∧ t.kind = none ∧
      t.view = ((ofBytes [0x82, 0x04, 0x00]).advance (encodeUint 1024).length).view :=
  @run_uint_encodeUint 1024 (ofBytes [0x82, 0x04, 0x00]) [] rfl (by decide)
    ⟨room_nil rfl, fun _ => by decide⟩

/-! ## `Bool` -/

/-- **`Bool` reads back what `writeBool` writes**: `0x01` for `true` and the empty string for
`false`, as `uint 8` reads them, on a stream whose `Kind` is rearmed and where the byte fits. -/
theorem run_bool_writeBool {b : Bool} {s : Stream} {rest : List UInt8} (hk : s.kind = none)
    (hin : s.input = (if b then [0x01] else [emptyStringCode]) ++ rest) (hf : Fits s 1) :
    ∃ t, Stream.bool.run s = .ok b t ∧ t.kind = none ∧ t.view = (s.advance 1).view := by
  cases b with
  | false =>
    have he : encodeUint 0 = [emptyStringCode] := by decide
    obtain ⟨t, ht, htk, htv⟩ := @run_uint_encodeUint_zero 8 s rest hk (by rw [he]; exact hin)
      (by rw [he]; exact hf)
    refine ⟨t, ?_, htk, by rw [htv, he]; rfl⟩
    simp [Stream.bool, ht]
  | true =>
    have he : encodeUint 1 = [0x01] := by decide
    obtain ⟨t, ht, htk, htv⟩ := @run_uint_encodeUint_byte 8 1 s rest hk (by decide) (by decide)
      (by rw [he]; exact hin) (by rw [he]; exact hf)
    refine ⟨t, ?_, htk, by rw [htv, he]; rfl⟩
    simp [Stream.bool, ht]

theorem run_bool_writeBool_true :
    (ofBytes [0x01]).input = (if true then [0x01] else [emptyStringCode]) ++ [] ∧
      Fits (ofBytes [0x01]) 1 ∧
      ∃ t, Stream.bool.run (ofBytes [0x01]) = .ok true t ∧ t.kind = none ∧
        t.view = ((ofBytes [0x01]).advance 1).view :=
  have hin : (ofBytes [0x01]).input = (if true then [0x01] else [emptyStringCode]) ++ [] := rfl
  have hf : Fits (ofBytes [0x01]) 1 := ⟨room_nil rfl, fun _ => le_refl _⟩
  ⟨hin, hf, run_bool_writeBool rfl hin hf⟩

end Rlp

end N42
