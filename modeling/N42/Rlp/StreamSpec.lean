import N42.Rlp.Stream

/-!
# (key: rlpstreamspec) What each method of the `Stream` does

One lemma per method says what a run of it does: for the byte readers every outcome, for the
header readers the runs that return.  A read of `n` bytes is `advance n`: the input loses them,
the innermost list and the input limit count them, and `Kind` is rearmed; it returns iff the `n`
bytes `Fits` both.

* `run_willRead`, `run_readByte_eq_ok`, `run_readFull_eq_ok`   the byte readers;
* `IsHeader`, `readKind_eq_ok`, `run_readKind_header`   `readKind` returns without an error iff
                        the input begins with the shortest header of a value, which fits the
                        list and the limit; `readKind_safe` says what it returns otherwise;
* `run_nextKind_eq_ok`, `run_nextKind_cached`   `Kind` returns such a header's kind and size, when
                        the value fits too, or what it read before, and `run_nextKind_eq_eol`
                        returns `EOL` only at the end of a list;
* `run_nextKind_twice`  `Kind` reads the value ahead once: a second call returns what the first
                        returned and reads nothing;
* `run_bytes_string`, `run_list_cached`, `run_listEnd_eq_ok`   the methods the decoders call.
-/

namespace N42

namespace Rlp

namespace Stream

/-! ## the accounting of a read -/

/-- the open lists, `n` more bytes of the innermost read -/
def readIn : List ListPos → ℕ → List ListPos
  | tos :: outer, n => { tos with pos := tos.pos + n } :: outer
  | [], _ => []

/-- `n` more bytes fit the innermost list -/
def Room (s : Stream) (n : ℕ) : Prop := ∀ tos ∈ s.stack.head?, n ≤ tos.size - tos.pos

instance (s : Stream) (n : ℕ) : Decidable (Room s n) :=
  inferInstanceAs (Decidable (∀ tos ∈ s.stack.head?, n ≤ tos.size - tos.pos))

/-- `n` more bytes fit the innermost list and the input limit -/
def Fits (s : Stream) (n : ℕ) : Prop := Room s n ∧ (s.limited = true → n ≤ s.remaining)

/-- `s` with `n` more bytes counted in the innermost list and against the limit, and `Kind`
rearmed -/
def account (s : Stream) (n : ℕ) : Stream :=
  { s with kind := none, stack := readIn s.stack n,
           remaining := if s.limited then s.remaining - n else s.remaining }

/-- `s` after `n` bytes read -/
def advance (s : Stream) (n : ℕ) : Stream := { s.account n with input := s.input.drop n }

@[simp] theorem account_input (s : Stream) (n : ℕ) : (s.account n).input = s.input := rfl

@[simp] theorem readIn_readIn (st : List ListPos) (a b : ℕ) :
    readIn (readIn st a) b = readIn st (a + b) := by
  cases st with
  | nil => rfl
  | cons tos outer => simp [readIn, Nat.add_assoc]

@[simp] theorem readIn_zero (st : List ListPos) : readIn st 0 = st := by
  cases st <;> rfl

@[simp] theorem head?_readIn_size (st : List ListPos) (n : ℕ) :
    (readIn st n).head?.map ListPos.size = st.head?.map ListPos.size := by
  cases st <;> rfl

@[simp] theorem length_readIn (st : List ListPos) (n : ℕ) : (readIn st n).length = st.length := by
  cases st <;> rfl

@[simp] theorem advance_input (s : Stream) (n : ℕ) : (s.advance n).input = s.input.drop n := rfl

@[simp] theorem advance_limited (s : Stream) (n : ℕ) : (s.advance n).limited = s.limited := rfl

@[simp] theorem advance_kind (s : Stream) (n : ℕ) : (s.advance n).kind = none := rfl

@[simp] theorem advance_stack (s : Stream) (n : ℕ) : (s.advance n).stack = readIn s.stack n := rfl

@[simp] theorem advance_size (s : Stream) (n : ℕ) : (s.advance n).size = s.size := rfl

@[simp] theorem advance_kinderr (s : Stream) (n : ℕ) : (s.advance n).kinderr = s.kinderr := rfl

@[simp] theorem advance_byteval (s : Stream) (n : ℕ) : (s.advance n).byteval = s.byteval := rfl

theorem advance_remaining (s : Stream) (n : ℕ) :
    (s.advance n).remaining = if s.limited then s.remaining - n else s.remaining := rfl

theorem advance_advance (s : Stream) (a b : ℕ) : (s.advance a).advance b = s.advance (a + b) := by
  cases hl : s.limited <;>
    simp [advance, account, hl, List.drop_drop, Nat.sub_sub]

@[simp] theorem advance_zero_input (s : Stream) : (s.advance 0).input = s.input := by simp

theorem room_cons {s : Stream} {n : ℕ} {tos : ListPos} {outer : List ListPos}
    (h : s.stack = tos :: outer) : Room s n ↔ n ≤ tos.size - tos.pos := by
  simp [Room, h]

theorem room_nil {s : Stream} {n : ℕ} (h : s.stack = []) : Room s n := by
  simp [Room, h]

theorem room_add {s : Stream} {a b : ℕ} : Room s (a + b) ↔ Room s a ∧ Room (s.advance a) b := by
  cases h : s.stack with
  | nil => simp [Room, h, readIn]
  | cons tos outer =>
    rw [room_cons h, room_cons h, @room_cons (s.advance a) b { tos with pos := tos.pos + a } outer (by simp [h, readIn])]
    dsimp only
    omega

theorem fits_add {s : Stream} {a b : ℕ} : Fits s (a + b) ↔ Fits s a ∧ Fits (s.advance a) b := by
  unfold Fits
  rw [room_add, advance_limited, advance_remaining]
  cases hl : s.limited
  · simp
  · simp only [if_true, forall_const]
    constructor
    · rintro ⟨⟨ha, hb⟩, hr⟩
      exact ⟨⟨ha, by omega⟩, hb, by omega⟩
    · rintro ⟨⟨ha, hr⟩, hb, hr'⟩
      exact ⟨⟨ha, hb⟩, by omega⟩

theorem Fits.mono {s : Stream} {a b : ℕ} (h : Fits s b) (hab : a ≤ b) : Fits s a := by
  obtain ⟨k, rfl⟩ := Nat.exists_eq_add_of_le hab
  exact (fits_add.mp h).1

/-! ## the byte readers -/

theorem run_willRead (n : ℕ) (s : Stream) :
    (willRead n).run s =
      if Room s n then
        if s.limited = true ∧ s.remaining < n then
          .error .valueTooLarge { s with kind := none, stack := readIn s.stack n }
        else .ok () (s.account n)
      else .error .elemTooLarge { s with kind := none } := by
  rcases s with ⟨input, remaining, limited, kind, size, byteval, kinderr, stack⟩
  cases stack with
  | nil =>
    cases limited <;> by_cases hr : remaining < n <;> simp [willRead, Room, account, readIn, hr]
  | cons tos outer =>
    by_cases hl : tos.size - tos.pos < n
    · simp [willRead, Room, hl]
    · cases limited <;> by_cases hr : remaining < n <;>
        simp [willRead, Room, account, readIn, hl, hr]

theorem run_willRead_eq_ok {n : ℕ} {s s' : Stream} {u : Unit} :
    (willRead n).run s = .ok u s' ↔ Fits s n ∧ s.account n = s' := by
  rw [run_willRead]
  by_cases hr : Room s n
  · by_cases hl : s.limited = true ∧ s.remaining < n
    · simp only [if_pos hr, if_pos hl, reduceCtorEq, false_iff, not_and]
      intro h
      exact absurd (h.2 hl.1) (Nat.not_le.mpr hl.2)
    · simp only [if_pos hr, if_neg hl, EStateM.Result.ok.injEq, true_and, Fits]
      simp only [not_and, Nat.not_lt] at hl
      exact ⟨fun h => ⟨⟨hr, hl⟩, h⟩, fun h => h.2⟩
  · simp only [if_neg hr, reduceCtorEq, false_iff, Fits]
    exact fun h => hr h.1.1

theorem run_readByte (s : Stream) :
    readByte.run s =
      match (willRead 1).run s with
      | .ok _ t =>
        match t.input with
        | [] => .error .unexpectedEOF t
        | b :: rest => .ok b { t with input := rest }
      | .error e t => .error e t := by
  simp only [readByte, EStateM.run_bind]
  cases (willRead 1).run s with
  | ok u t =>
    cases h : t.input with
    | nil => simp [h]; rfl
    | cons b rest => simp [h]
  | error e t => rfl

theorem run_readByte_eq_ok {s s' : Stream} {b : UInt8} :
    readByte.run s = .ok b s' ↔ Fits s 1 ∧ s.input.head? = some b ∧ s.advance 1 = s' := by
  rw [run_readByte]
  by_cases hf : Fits s 1
  · rw [(@run_willRead_eq_ok 1 s (s.account 1) ()).mpr ⟨hf, rfl⟩]
    cases h : s.input with
    | nil => simp [account, h]
    | cons x rest =>
      simp only [account, h, List.head?_cons, Option.some.injEq, EStateM.Result.ok.injEq, hf,
        true_and, advance, List.drop_one, List.tail_cons]
  · have hw : ∀ u t, (willRead 1).run s ≠ .ok u t := fun u t h =>
      hf (run_willRead_eq_ok.mp h).1
    cases hr : (willRead 1).run s with
    | ok u t => exact absurd hr (hw u t)
    | error e t => simp [hf]

theorem run_readFull (n : ℕ) (s : Stream) :
    (readFull n).run s =
      match (willRead n).run s with
      | .ok _ t =>
        if t.input.length < n then .error .unexpectedEOF { t with input := t.input.drop n }
        else .ok (t.input.take n) { t with input := t.input.drop n }
      | .error e t => .error e t := by
  simp only [readFull, EStateM.run_bind]
  cases (willRead n).run s with
  | ok u t => by_cases h : t.input.length < n <;> simp [h]
  | error e t => rfl

theorem run_readFull_eq_ok {n : ℕ} {s s' : Stream} {bs : List UInt8} :
    (readFull n).run s = .ok bs s' ↔
      Fits s n ∧ n ≤ s.input.length ∧ s.input.take n = bs ∧ s.advance n = s' := by
  rw [run_readFull]
  by_cases hf : Fits s n
  · rw [(@run_willRead_eq_ok n s (s.account n) ()).mpr ⟨hf, rfl⟩]
    by_cases hl : s.input.length < n
    · simp [account, hl]
    · simp [account, advance, hl, hf, Nat.le_of_not_lt hl]
  · have hw : ∀ u t, (willRead n).run s ≠ .ok u t := fun u t h =>
      hf (run_willRead_eq_ok.mp h).1
    cases hr : (willRead n).run s with
    | ok u t => exact absurd hr (hw u t)
    | error e t => simp [hf]

theorem run_readUint_one {s t : Stream} {v : ℕ} :
    (readUint 1).run s = .ok v t ↔ ∃ b, readByte.run s = .ok b t ∧ b.toNat = v := by
  simp only [readUint, if_neg one_ne_zero, if_true, EStateM.run_bind_eq_ok]
  constructor
  · rintro ⟨b, t', hb, h⟩
    simp only [EStateM.run_pure, EStateM.Result.ok.injEq] at h
    obtain ⟨rfl, rfl⟩ := h
    exact ⟨b, hb, rfl⟩
  · rintro ⟨b, hb, rfl⟩
    exact ⟨b, t, hb, rfl⟩

theorem run_readUint_of_two_le {m : ℕ} (hm : 2 ≤ m) {s t : Stream} {v : ℕ} :
    (readUint m).run s = .ok v t ↔
      ∃ bs, (readFull m).run s = .ok bs t ∧ bs.head? ≠ some 0 ∧ BigEndian.toNat bs = v := by
  simp only [readUint, if_neg (show m ≠ 0 by omega), if_neg (show m ≠ 1 by omega),
    EStateM.run_bind_eq_ok]
  constructor
  · rintro ⟨bs, t', hbs, h⟩
    by_cases h0 : bs.head? = some 0
    · simp [h0] at h
    · simp only [h0, if_false, EStateM.run_pure, EStateM.Result.ok.injEq] at h
      obtain ⟨rfl, rfl⟩ := h
      exact ⟨bs, hbs, h0, rfl⟩
  · rintro ⟨bs, hbs, h0, rfl⟩
    refine ⟨bs, t, hbs, ?_⟩
    simp [h0]

/-- `readUint` of one to eight bytes: they fit, they are there, and a leading zero is rejected
but for one byte alone -/
theorem run_readUint_eq_ok {m : ℕ} (hm : 1 ≤ m) {s t : Stream} {v : ℕ} :
    (readUint m).run s = .ok v t ↔
      Fits s m ∧ m ≤ s.input.length ∧ (m = 1 ∨ (s.input.take m).head? ≠ some 0) ∧
        BigEndian.toNat (s.input.take m) = v ∧ s.advance m = t := by
  rcases Nat.lt_or_ge m 2 with h1 | h2
  · obtain rfl : m = 1 := by omega
    rw [run_readUint_one]
    constructor
    · rintro ⟨b, hb, rfl⟩
      obtain ⟨hf, hhead, rfl⟩ := run_readByte_eq_ok.mp hb
      obtain ⟨rest, hin⟩ : ∃ rest, s.input = b :: rest := by
        cases h : s.input with
        | nil => rw [h] at hhead; cases hhead
        | cons x rest => rw [h, List.head?_cons, Option.some.injEq] at hhead; exact ⟨rest, by rw [hhead]⟩
      refine ⟨hf, by rw [hin]; simp, Or.inl rfl, ?_, rfl⟩
      simp [hin, BigEndian.toNat_cons]
    · rintro ⟨hf, hlen, -, hv, rfl⟩
      obtain ⟨b, rest, hin⟩ : ∃ b rest, s.input = b :: rest := by
        cases h : s.input with
        | nil => rw [h] at hlen; simp at hlen
        | cons x rest => exact ⟨x, rest, rfl⟩
      refine ⟨b, run_readByte_eq_ok.mpr ⟨hf, by rw [hin]; rfl, rfl⟩, ?_⟩
      rw [← hv, hin]
      simp [BigEndian.toNat_cons]
  · rw [run_readUint_of_two_le h2]
    constructor
    · rintro ⟨bs, hbs, h0, rfl⟩
      obtain ⟨hf, hlen, rfl, rfl⟩ := run_readFull_eq_ok.mp hbs
      exact ⟨hf, hlen, Or.inr h0, rfl, rfl⟩
    · rintro ⟨hf, hlen, h0, rfl, rfl⟩
      refine ⟨s.input.take m, run_readFull_eq_ok.mpr ⟨hf, hlen, rfl, rfl⟩, ?_, rfl⟩
      exact h0.resolve_left (by omega)

/-! ## headers -/

/-- the shortest header of a value of kind `k` and size `size`, as `readKind` reads it: a byte
below `0x80` is its own header -/
def IsHeader : Kind → ℕ → List UInt8 → Prop
  | .byte, size, hd => size = 0 ∧ ∃ b, hd = [b] ∧ b < 0x80
  | .string, size, hd => size < 2 ^ 64 ∧ hd = puthead 0x80 0xB7 size
  | .list, size, hd => size < 2 ^ 64 ∧ hd = puthead 0xC0 0xF7 size

/-- the tag byte `readKind` keeps in `byteval`: a single byte's value, and `0` after a header -/
def tagByte : Kind → List UInt8 → UInt8
  | .byte, hd => hd.headD 0
  | _, _ => 0

theorem puthead_of_short {base large : UInt8} {size : ℕ} (h : size < 56) :
    puthead base large size = [base + UInt8.ofNat size] := by
  rw [puthead, if_pos h]

/-- a tag byte in the short range is the header of the size it spells -/
theorem puthead_sub_toNat {b base large : UInt8} (h : (b - base).toNat < 56) :
    puthead base large (b - base).toNat = [b] := by
  rw [puthead_of_short h, add_ofNat_sub_toNat]

/-- a tag byte in the long range and the size bytes after it, without a leading zero, are the
header of the size they spell -/
theorem puthead_toNat {b base large : UInt8} {bs : List UInt8} (hlen : bs.length = (b - large).toNat)
    (hne : bs ≠ []) (h0 : bs.head? ≠ some 0) (h56 : 56 ≤ BigEndian.toNat bs) :
    puthead base large (BigEndian.toNat bs) = b :: bs := by
  rw [puthead_long (by omega), putint_toNat hne h0, hlen, add_ofNat_sub_toNat]

theorem advance_byteval_eq (s : Stream) (n : ℕ) (x : UInt8) :
    ({ s with byteval := x } : Stream).advance n = { s.advance n with byteval := x } := rfl

theorem toNat_sub_of_not_lt {b base : UInt8} (h : ¬ b < base) :
    (b - base).toNat = b.toNat - base.toNat :=
  UInt8.toNat_sub_of_le _ _ (UInt8.not_lt.mp h)

/-- the input after a successful `readByte` of `b` -/
theorem input_eq_cons {s : Stream} {b : UInt8} (h : s.input.head? = some b) :
    s.input = b :: (s.advance 1).input := by
  cases hs : s.input with
  | nil => rw [hs] at h; cases h
  | cons x rest =>
    rw [hs, List.head?_cons, Option.some.injEq] at h
    simp [h, hs]

/-- a long header `readKind` read: the tag byte `b` and the size bytes after it -/
theorem readKind_long {s t : Stream} {b large : UInt8} {v : ℕ}
    (hhead : s.input.head? = some b) (hf1 : Fits s 1)
    (hm1 : 1 ≤ (b - large).toNat) (hm8 : (b - large).toNat ≤ 8)
    (hv : (readUint (b - large).toNat).run { s.advance 1 with byteval := 0 } = .ok v t)
    (h56 : 56 ≤ v) :
    v < 2 ^ 64 ∧ ∃ hd, (∀ base, puthead base large v = hd) ∧ hd <+: s.input ∧ Fits s hd.length ∧
      { s.advance hd.length with byteval := 0 } = t := by
  obtain ⟨hf, hlen, h0, rfl, rfl⟩ := (run_readUint_eq_ok hm1).mp hv
  set m := (b - large).toNat with hm
  set bs := (s.advance 1).input.take m with hbs
  have hbs_len : bs.length = m := by rw [hbs, List.length_take]; simp at hlen ⊢; omega
  have hne : bs ≠ [] := List.ne_nil_of_length_pos (by omega)
  have hlt : BigEndian.toNat bs < 2 ^ 64 :=
    lt_of_lt_of_le (BigEndian.toNat_lt bs)
      (by rw [hbs_len]; exact le_trans (Nat.pow_le_pow_right (by decide) hm8) (by norm_num))
  -- one size byte is never a leading zero, as the size is at least `56`
  have h0' : bs.head? ≠ some 0 := by
    rcases h0 with h1 | h0
    · obtain ⟨x, hx⟩ := List.length_eq_one_iff.mp (hbs_len.trans h1)
      rw [hx] at h56 ⊢
      intro hx0
      simp only [List.head?_cons, Option.some.injEq] at hx0
      simp [hx0, BigEndian.toNat_cons] at h56
    · exact h0
  refine ⟨hlt, b :: bs, fun base => puthead_toNat hbs_len hne h0' h56, ?_, ?_, ?_⟩
  · rw [input_eq_cons hhead]
    exact List.prefix_cons_inj b |>.mpr (List.take_prefix _ _)
  · rw [List.length_cons, hbs_len, Nat.add_comm]
    exact fits_add.mpr ⟨hf1, hf⟩
  · simp only [advance_byteval_eq, advance_advance, List.length_cons, hbs_len, Nat.add_comm]

/-- a tag byte in `[base, top)` is `base` and less than `top - base` -/
theorem sub_toNat_lt {b base top : UInt8} (h₁ : ¬ b < base) (h₂ : b < top) :
    (b - base).toNat < top.toNat - base.toNat := by
  rw [toNat_sub_of_not_lt h₁]
  have := UInt8.lt_iff_toNat_lt.mp h₂
  have := UInt8.le_iff_toNat_le.mp (UInt8.not_lt.mp h₁)
  omega

theorem toNat_le_of_not_lt {b c : UInt8} (h : ¬ b < c) : c.toNat ≤ b.toNat :=
  UInt8.le_iff_toNat_le.mp (UInt8.not_lt.mp h)

/-- the bytes of a long size after a tag byte `b` in `(large, large + 8]` -/
theorem sub_toNat_of_long {b large : UInt8} (hlo : large.toNat + 1 ≤ b.toNat)
    (hhi : b.toNat ≤ large.toNat + 8) : 1 ≤ (b - large).toNat ∧ (b - large).toNat ≤ 8 := by
  rw [UInt8.toNat_sub_of_le _ _ (UInt8.le_iff_toNat_le.mpr (by omega))]
  omega

theorem prefix_of_head {s : Stream} {b : UInt8} (h : s.input.head? = some b) : [b] <+: s.input := by
  rw [input_eq_cons h]
  exact List.prefix_append [b] _

/-- **What `readKind` reads without an error is the shortest header of a value**, which fits the
innermost list and the limit; a single byte keeps its value in `byteval`. -/
theorem readKind_eq_ok {s t : Stream} {k : Kind} {size : ℕ}
    (h : readKind.run s = .ok (k, size, none) t) :
    ∃ hd, IsHeader k size hd ∧ hd <+: s.input ∧ Fits s hd.length ∧
      { s.advance hd.length with byteval := tagByte k hd } = t := by
  simp only [readKind, EStateM.run_bind, EStateM.run_attempt] at h
  cases hb : readByte.run s with
  | error e u => simp [hb] at h
  | ok b u =>
    obtain ⟨hf1, hhead, rfl⟩ := run_readByte_eq_ok.mp hb
    rw [hb] at h
    simp only at h
    -- the switch on the tag byte: each range is one case
    by_cases h1 : b < 0x80
    · simp [h1] at h
      obtain ⟨⟨rfl, rfl⟩, rfl⟩ := h
      refine ⟨[b], ⟨rfl, b, rfl, h1⟩, prefix_of_head hhead, hf1, ?_⟩
      simp [advance, account, tagByte]
    by_cases h2 : b < 0xB8
    · simp [h1, h2] at h
      obtain ⟨⟨rfl, rfl⟩, rfl⟩ := h
      have hn := sub_toNat_lt h1 h2
      simp only [UInt8.reduceToNat, Nat.reduceSub] at hn
      refine ⟨[b], ⟨by omega, (puthead_sub_toNat hn).symm⟩, prefix_of_head hhead, hf1, ?_⟩
      simp [advance, account, tagByte]
    by_cases h3 : b < 0xC0
    · simp [h1, h2, h3] at h
      split at h
      · rename_i x s' hx
        split at hx
        · rename_i v s'' hv
          simp only [EStateM.Result.ok.injEq] at hx
          obtain ⟨rfl, rfl⟩ := hx
          simp only [EStateM.run_pure, EStateM.Result.ok.injEq, Prod.mk.injEq] at h
          obtain ⟨⟨rfl, rfl, h56⟩, rfl⟩ := h
          have h56' : 56 ≤ v := by by_contra hlt; simp [Nat.lt_of_not_le hlt] at h56
          have hlo := toNat_le_of_not_lt h2
          have hhi := UInt8.lt_iff_toNat_lt.mp h3
          simp only [UInt8.reduceToNat] at hlo hhi
          obtain ⟨hm1, hm8⟩ := @sub_toNat_of_long b 0xB7 (by simp only [UInt8.reduceToNat]; omega)
            (by simp only [UInt8.reduceToNat]; omega)
          obtain ⟨hlt, hd, hput, hpre, hfit, hst⟩ :=
            readKind_long hhead hf1 hm1 hm8 (by convert hv using 2; simp [advance, account]) h56'
          exact ⟨hd, ⟨hlt, (hput 0x80).symm⟩, hpre, hfit, hst⟩
        · obtain ⟨rfl, rfl⟩ := hx
          simp at h
      · cases h
    by_cases h4 : b < 0xF8
    · simp [h1, h2, h3, h4] at h
      obtain ⟨⟨rfl, rfl⟩, rfl⟩ := h
      have hn := sub_toNat_lt h3 h4
      simp only [UInt8.reduceToNat, Nat.reduceSub] at hn
      refine ⟨[b], ⟨by omega, (puthead_sub_toNat hn).symm⟩, prefix_of_head hhead, hf1, ?_⟩
      simp [advance, account, tagByte]
    · simp [h1, h2, h3, h4] at h
      split at h
      · rename_i x s' hx
        split at hx
        · rename_i v s'' hv
          simp only [EStateM.Result.ok.injEq] at hx
          obtain ⟨rfl, rfl⟩ := hx
          simp only [EStateM.run_pure, EStateM.Result.ok.injEq, Prod.mk.injEq] at h
          obtain ⟨⟨rfl, rfl, h56⟩, rfl⟩ := h
          have h56' : 56 ≤ v := by by_contra hlt; simp [Nat.lt_of_not_le hlt] at h56
          have hlo := toNat_le_of_not_lt h4
          have hhi := b.toNat_lt
          simp only [UInt8.reduceToNat] at hlo
          obtain ⟨hm1, hm8⟩ := @sub_toNat_of_long b 0xF7 (by simp only [UInt8.reduceToNat]; omega)
            (by simp only [UInt8.reduceToNat]; change _ < 256 at hhi; omega)
          obtain ⟨hlt, hd, hput, hpre, hfit, hst⟩ :=
            readKind_long hhead hf1 hm1 hm8 (by convert hv using 2; simp [advance, account]) h56'
          exact ⟨hd, ⟨hlt, (hput 0xC0).symm⟩, hpre, hfit, hst⟩
        · obtain ⟨rfl, rfl⟩ := hx
          simp at h
      · cases h

theorem readByte_of_input {s : Stream} {b : UInt8} {rest : List UInt8} (hin : s.input = b :: rest)
    (hf : Fits s 1) : readByte.run s = .ok b (s.advance 1) :=
  run_readByte_eq_ok.mpr ⟨hf, by rw [hin]; rfl, rfl⟩

/-- the long size bytes of a header are read back by `readUint` -/
theorem readUint_putint {s : Stream} {size : ℕ} {rest : List UInt8} (h56 : 56 ≤ size)
    (hsize : size < 2 ^ 64) (hin : s.input = putint size ++ rest) (hf : Fits s (putint size).length) :
    (readUint (putint size).length).run s = .ok size (s.advance (putint size).length) := by
  obtain ⟨h1, h8⟩ := length_putint_long h56 hsize
  have htake : s.input.take (putint size).length = putint size := by rw [hin]; simp
  refine (run_readUint_eq_ok h1).mpr ⟨hf, by rw [hin]; simp, Or.inr ?_, ?_, rfl⟩
  · rw [htake]; exact head_putint (by omega)
  · rw [htake]; exact toNat_putint (by omega)

/-- **`readKind` reads the shortest header of a value**, when it fits the list and the limit. -/
theorem run_readKind_header {s : Stream} {k : Kind} {size : ℕ} {hd rest : List UInt8}
    (hh : IsHeader k size hd) (hin : s.input = hd ++ rest) (hf : Fits s hd.length) :
    readKind.run s = .ok (k, size, none) { s.advance hd.length with byteval := tagByte k hd } := by
  cases k with
  | byte =>
    obtain ⟨rfl, b, rfl, hb⟩ := hh
    have hrb := readByte_of_input hin hf
    simp [readKind, hrb, hb, tagByte, advance, account]
  | string =>
    obtain ⟨hlt, rfl⟩ := hh
    by_cases hs : size < 56
    · rw [puthead_of_short hs] at hin hf ⊢
      have hb : (0x80 + UInt8.ofNat size : UInt8).toNat = 128 + size :=
        tag_toNat 0x80 (by change 128 + _ < 256; omega)
      have h1 : ¬ (0x80 + UInt8.ofNat size : UInt8) < 0x80 := by
        rw [lt_iff_of_toNat hb]; simp only [UInt8.reduceToNat]; omega
      have h2 : (0x80 + UInt8.ofNat size : UInt8) < 0xB8 := by
        rw [lt_iff_of_toNat hb]; simp only [UInt8.reduceToNat]; omega
      have hsub : ((0x80 + UInt8.ofNat size : UInt8) - 0x80).toNat = size :=
        tag_sub_toNat 0x80 (by change 128 + _ < 256; omega)
      simp [readKind, readByte_of_input hin hf, h1, h2, tagByte]
      omega
    · rw [puthead_long hs] at hin hf ⊢
      obtain ⟨hl1, hl8⟩ := length_putint_long (Nat.le_of_not_lt hs) hlt
      have hb : (0xB7 + UInt8.ofNat (putint size).length : UInt8).toNat = 183 + (putint size).length :=
        tag_toNat 0xB7 (by change 183 + _ < 256; omega)
      have h1 : ¬ (0xB7 + UInt8.ofNat (putint size).length : UInt8) < 0x80 := by
        rw [lt_iff_of_toNat hb]; simp only [UInt8.reduceToNat]; omega
      have h2 : ¬ (0xB7 + UInt8.ofNat (putint size).length : UInt8) < 0xB8 := by
        rw [lt_iff_of_toNat hb]; simp only [UInt8.reduceToNat]; omega
      have h3 : (0xB7 + UInt8.ofNat (putint size).length : UInt8) < 0xC0 := by
        rw [lt_iff_of_toNat hb]; simp only [UInt8.reduceToNat]; omega
      have hsub : ((0xB7 + UInt8.ofNat (putint size).length : UInt8) - 0xB7).toNat =
          (putint size).length := tag_sub_toNat 0xB7 (by change 183 + _ < 256; omega)
      rw [List.length_cons, Nat.add_comm] at hf
      obtain ⟨hf1, hf2⟩ := fits_add.mp hf
      have hru := @readUint_putint { s.advance 1 with byteval := 0 } size rest
        (Nat.le_of_not_lt hs) hlt (by simp [hin]) hf2
      simp only [readKind, EStateM.run_bind, EStateM.run_attempt, readByte_of_input hin hf1, h1, h2, h3,
        hsub, if_false, if_true, EStateM.run_modify]
      simp only at hru
      rw [hru]
      simp only [EStateM.run_pure, if_neg hs, advance_byteval_eq, advance_advance, tagByte,
        List.length_cons, Nat.add_comm 1]
  | list =>
    obtain ⟨hlt, rfl⟩ := hh
    by_cases hs : size < 56
    · rw [puthead_of_short hs] at hin hf ⊢
      have hb : (0xC0 + UInt8.ofNat size : UInt8).toNat = 192 + size :=
        tag_toNat 0xC0 (by change 192 + _ < 256; omega)
      have h1 : ¬ (0xC0 + UInt8.ofNat size : UInt8) < 0x80 := by
        rw [lt_iff_of_toNat hb]; simp only [UInt8.reduceToNat]; omega
      have h2 : ¬ (0xC0 + UInt8.ofNat size : UInt8) < 0xB8 := by
        rw [lt_iff_of_toNat hb]; simp only [UInt8.reduceToNat]; omega
      have h3 : ¬ (0xC0 + UInt8.ofNat size : UInt8) < 0xC0 := by
        rw [lt_iff_of_toNat hb]; simp only [UInt8.reduceToNat]; omega
      have h4 : (0xC0 + UInt8.ofNat size : UInt8) < 0xF8 := by
        rw [lt_iff_of_toNat hb]; simp only [UInt8.reduceToNat]; omega
      simp [readKind, readByte_of_input hin hf, h1, h2, h3, h4, tagByte]
      omega
    · rw [puthead_long hs] at hin hf ⊢
      obtain ⟨hl1, hl8⟩ := length_putint_long (Nat.le_of_not_lt hs) hlt
      have hb : (0xF7 + UInt8.ofNat (putint size).length : UInt8).toNat = 247 + (putint size).length :=
        tag_toNat 0xF7 (by change 247 + _ < 256; omega)
      have h1 : ¬ (0xF7 + UInt8.ofNat (putint size).length : UInt8) < 0x80 := by
        rw [lt_iff_of_toNat hb]; simp only [UInt8.reduceToNat]; omega
      have h2 : ¬ (0xF7 + UInt8.ofNat (putint size).length : UInt8) < 0xB8 := by
        rw [lt_iff_of_toNat hb]; simp only [UInt8.reduceToNat]; omega
      have h3 : ¬ (0xF7 + UInt8.ofNat (putint size).length : UInt8) < 0xC0 := by
        rw [lt_iff_of_toNat hb]; simp only [UInt8.reduceToNat]; omega
      have h4 : ¬ (0xF7 + UInt8.ofNat (putint size).length : UInt8) < 0xF8 := by
        rw [lt_iff_of_toNat hb]; simp only [UInt8.reduceToNat]; omega
      have hsub : ((0xF7 + UInt8.ofNat (putint size).length : UInt8) - 0xF7).toNat =
          (putint size).length := tag_sub_toNat 0xF7 (by change 247 + _ < 256; omega)
      rw [List.length_cons, Nat.add_comm] at hf
      obtain ⟨hf1, hf2⟩ := fits_add.mp hf
      have hru := @readUint_putint { s.advance 1 with byteval := 0 } size rest
        (Nat.le_of_not_lt hs) hlt (by simp [hin]) hf2
      simp only [readKind, EStateM.run_bind, EStateM.run_attempt, readByte_of_input hin hf1, h1, h2, h3,
        h4, hsub, if_false, EStateM.run_modify]
      simp only at hru
      rw [hru]
      simp only [EStateM.run_pure, if_neg hs, advance_byteval_eq, advance_advance, tagByte,
        List.length_cons, Nat.add_comm 1]

/-- the checks of `Kind` on the size of the value ahead, after its header: it fits the innermost
list, and at the top level the input limit -/
def KindFits (s : Stream) (size : ℕ) : Prop :=
  Room s size ∧ (s.stack = [] → s.limited = true → size ≤ s.remaining)

theorem run_nextKind_cached {s : Stream} {k : Kind} (hk : s.kind = some k) (he : s.kinderr = none) :
    nextKind.run s = .ok (k, s.size) s := by
  simp [nextKind, hk, he]

theorem run_nextKind_cached_error {s : Stream} {k : Kind} {e : RlpError} (hk : s.kind = some k)
    (he : s.kinderr = some e) : nextKind.run s = .error e s := by
  simp only [nextKind, EStateM.run_bind, EStateM.run_get, hk, he, reduceCtorEq, if_false]
  rfl

theorem run_checkSize_of_fits {s : Stream} (h : KindFits s s.size) : checkSize.run s = .ok () s := by
  obtain ⟨hroom, htop⟩ := h
  cases hs : s.stack with
  | nil =>
    have : ¬ (s.limited = true ∧ s.size > s.remaining) := fun h' => by
      have := htop hs h'.1; omega
    simp [checkSize, hs, this]
  | cons tos outer =>
    have := (room_cons hs).mp hroom
    simp [checkSize, hs, Nat.not_lt.mpr this]

theorem run_checkSize_of_not_fits {s : Stream} (h : ¬ KindFits s s.size) :
    ∃ e, e ≠ .unexpectedEOF ∧ checkSize.run s = .ok () { s with kinderr := some e } := by
  cases hs : s.stack with
  | nil =>
    have hc : s.limited = true ∧ s.size > s.remaining := by
      by_contra hc
      exact h ⟨room_nil hs, fun _ hl => by simp only [hl, true_and, gt_iff_lt, not_lt] at hc; exact hc⟩
    exact ⟨.valueTooLarge, by simp, by simp [checkSize, hs, hc]⟩
  | cons tos outer =>
    have hc : s.size > tos.size - tos.pos := by
      by_contra hc
      exact h ⟨(room_cons hs).mpr (by omega), fun h' => by rw [hs] at h'; cases h'⟩
    exact ⟨.elemTooLarge, by simp, by simp [checkSize, hs, hc]⟩

theorem kindFits_of_checkSize {s t : Stream} (h : checkSize.run s = .ok () t)
    (he : t.kinderr = none) : KindFits s s.size ∧ t = s := by
  cases hs : s.stack with
  | nil =>
    by_cases hc : s.limited = true ∧ s.size > s.remaining
    · simp [checkSize, hs, hc] at h; rw [← h] at he; cases he
    · simp [checkSize, hs, hc] at h
      refine ⟨⟨room_nil hs, fun _ hl => by simp [hl] at hc; omega⟩, h.symm⟩
  | cons tos outer =>
    by_cases hc : s.size > tos.size - tos.pos
    · simp [checkSize, hs, hc] at h; rw [← h] at he; cases he
    · simp [checkSize, hs, hc] at h
      exact ⟨⟨(room_cons hs).mpr (by omega), fun h' => by rw [hs] at h'; cases h'⟩, h.symm⟩

theorem length_pos_of_isHeader {k : Kind} {size : ℕ} {hd : List UInt8} (hh : IsHeader k size hd) :
    0 < hd.length := by
  cases k with
  | byte => obtain ⟨-, b, rfl, -⟩ := hh; simp
  | string => obtain ⟨-, rfl⟩ := hh; rw [length_puthead]; unfold headsize; split <;> omega
  | list => obtain ⟨-, rfl⟩ := hh; rw [length_puthead]; unfold headsize; split <;> omega

/-- a header that fits the innermost list is not read at its end -/
theorem not_eol_of_fits {s : Stream} {n : ℕ} (hn : 0 < n) (hf : Fits s n) :
    ∀ tos ∈ s.stack.head?, tos.pos ≠ tos.size := by
  intro tos htos heq
  have := hf.1 tos htos
  omega

/-- the state `Kind` leaves after reading the header `hd` of a value of kind `k` and size `size` -/
def afterHeader (s : Stream) (k : Kind) (size : ℕ) (hd : List UInt8) : Stream :=
  { s.advance hd.length with kind := some k, size := size, byteval := tagByte k hd, kinderr := none }

@[simp] theorem afterHeader_kind (s : Stream) (k : Kind) (size : ℕ) (hd : List UInt8) :
    (afterHeader s k size hd).kind = some k := rfl

@[simp] theorem afterHeader_size (s : Stream) (k : Kind) (size : ℕ) (hd : List UInt8) :
    (afterHeader s k size hd).size = size := rfl

@[simp] theorem afterHeader_kinderr (s : Stream) (k : Kind) (size : ℕ) (hd : List UInt8) :
    (afterHeader s k size hd).kinderr = none := rfl

@[simp] theorem afterHeader_byteval (s : Stream) (k : Kind) (size : ℕ) (hd : List UInt8) :
    (afterHeader s k size hd).byteval = tagByte k hd := rfl

@[simp] theorem afterHeader_input (s : Stream) (k : Kind) (size : ℕ) (hd : List UInt8) :
    (afterHeader s k size hd).input = s.input.drop hd.length := rfl

theorem run_storeKind_eq_ok {s t : Stream} (h : storeKind.run s = .ok () t) (he : t.kinderr = none) :
    ∃ k size hd, IsHeader k size hd ∧ hd <+: s.input ∧ Fits s hd.length ∧
      KindFits (s.advance hd.length) size ∧ afterHeader s k size hd = t := by
  simp only [storeKind, EStateM.run_bind] at h
  cases hr : readKind.run s with
  | error e u => rw [hr] at h; cases h
  | ok r u =>
    obtain ⟨k, size, err⟩ := r
    rw [hr] at h
    simp only [EStateM.run_modify] at h
    cases err with
    | some e =>
      simp only [reduceCtorEq, if_false, EStateM.run_pure, EStateM.Result.ok.injEq, true_and] at h
      rw [← h] at he; cases he
    | none =>
      simp only [if_true] at h
      obtain ⟨hkf, rfl⟩ := kindFits_of_checkSize h he
      obtain ⟨hd, hh, hpre, hf, rfl⟩ := readKind_eq_ok hr
      exact ⟨k, size, hd, hh, hpre, hf, hkf, rfl⟩

theorem run_storeKind_header {s : Stream} {k : Kind} {size : ℕ} {hd rest : List UInt8}
    (hh : IsHeader k size hd) (hin : s.input = hd ++ rest) (hf : Fits s hd.length)
    (hkf : KindFits (s.advance hd.length) size) :
    storeKind.run s = .ok () (afterHeader s k size hd) := by
  simp only [storeKind, EStateM.run_bind, run_readKind_header hh hin hf, EStateM.run_modify, if_true]
  exact run_checkSize_of_fits hkf

theorem run_readAhead (s : Stream) :
    readAhead.run s =
      if ∃ tos ∈ s.stack.head?, tos.pos = tos.size then .error .eol { s with kinderr := none }
      else storeKind.run { s with kinderr := none } := by
  cases hs : s.stack with
  | nil => simp [readAhead, hs]
  | cons tos outer =>
    by_cases he : tos.pos = tos.size
    · simp [readAhead, hs, he]
    · simp [readAhead, hs, he]

/-- **`Kind` on a rearmed stream returns iff it reads the shortest header of a value** that fits
the list and the limit, and a size that passes its checks. -/
theorem run_nextKind_eq_ok {s t : Stream} {k : Kind} {size : ℕ} (hk : s.kind = none) :
    nextKind.run s = .ok (k, size) t ↔
      ∃ hd, IsHeader k size hd ∧ hd <+: s.input ∧ Fits s hd.length ∧
        KindFits (s.advance hd.length) size ∧ afterHeader s k size hd = t := by
  constructor
  · intro h
    simp only [nextKind, EStateM.run_bind, EStateM.run_get, hk, if_true] at h
    cases hr : readAhead.run s with
    | error e u => rw [hr] at h; cases h
    | ok x u =>
      rw [hr] at h
      cases he : u.kinderr with
      | some e => simp only [he] at h; cases h
      | none =>
        simp only [he, EStateM.run_pure, EStateM.Result.ok.injEq,
          Prod.mk.injEq] at h
        obtain ⟨⟨hk', hsize⟩, rfl⟩ := h
        rw [run_readAhead] at hr
        split at hr
        · cases hr
        obtain ⟨k', size', hd, hh, hpre, hf, hkf, rfl⟩ := run_storeKind_eq_ok hr he
        obtain rfl : k' = k := by rw [← hk']; rfl
        obtain rfl : size' = size := by rw [← hsize]; rfl
        exact ⟨hd, hh, hpre, hf, hkf, rfl⟩
  · rintro ⟨hd, hh, hpre, hf, hkf, rfl⟩
    obtain ⟨rest, hin⟩ := hpre
    have hne : ¬ ∃ tos ∈ s.stack.head?, tos.pos = tos.size := fun ⟨tos, htos, heq⟩ =>
      not_eol_of_fits (length_pos_of_isHeader hh) hf tos htos heq
    have hst := @run_storeKind_header { s with kinderr := none } k size hd rest hh hin.symm hf hkf
    simp only [hk] at hst
    simp only [nextKind, EStateM.run_bind, EStateM.run_get, hk, if_true, run_readAhead, if_neg hne, hst]
    rfl

/-! ## the methods that never fail, and the errors that are not `EOL` -/

/-! ## `EOL` comes from `Kind` alone -/

theorem willRead_error_ne_eol {n : ℕ} {s t : Stream} {e : RlpError}
    (h : (willRead n).run s = .error e t) : e ≠ .eol := by
  rw [run_willRead] at h
  split_ifs at h <;> cases h <;> simp

theorem readByte_error_ne_eol {s t : Stream} {e : RlpError} (h : readByte.run s = .error e t) :
    e ≠ .eol := by
  rw [run_readByte] at h
  cases hw : (willRead 1).run s with
  | ok u t' =>
    rw [hw] at h
    cases hi : t'.input with
    | nil => simp only [hi] at h; cases h; simp
    | cons b rest => simp only [hi] at h; cases h
  | error e' t' =>
    rw [hw] at h
    cases h
    exact willRead_error_ne_eol hw

theorem readFull_error_ne_eol {n : ℕ} {s t : Stream} {e : RlpError}
    (h : (readFull n).run s = .error e t) : e ≠ .eol := by
  rw [run_readFull] at h
  cases hw : (willRead n).run s with
  | ok u t' =>
    rw [hw] at h
    simp only at h
    split_ifs at h
    · cases h; simp
  | error e' t' =>
    rw [hw] at h
    cases h
    exact willRead_error_ne_eol hw

theorem readUint_error_ne_eol {m : ℕ} {s t : Stream} {e : RlpError}
    (h : (readUint m).run s = .error e t) : e ≠ .eol := by
  simp only [readUint] at h
  split_ifs at h
  · cases h
  · simp only [EStateM.run_bind] at h
    cases hb : readByte.run s with
    | ok b u => rw [hb] at h; cases h
    | error e' u => rw [hb] at h; cases h; exact readByte_error_ne_eol hb
  · simp only [EStateM.run_bind] at h
    cases hb : (readFull m).run s with
    | ok bs u =>
      rw [hb] at h
      simp only at h
      split_ifs at h
      · cases h; simp
      · cases h
    | error e' u => rw [hb] at h; cases h; exact readFull_error_ne_eol hb

/-- **What `readKind` returns, and where it leaves the stream**: it throws nothing, and a
property of states and errors that its reads keep, that a change of `byteval` keeps, and that
`EOF` and the size error have, holds of the state it leaves and of the error it returns. -/
theorem readKind_safe {P : Stream → Prop} {bad : RlpError → Prop}
    (hbyte : EStateM.Safe P (fun _ => True) bad readByte)
    (huint : ∀ m, EStateM.Safe P (fun _ => True) bad (readUint m))
    (hval : ∀ s x, P s → P { s with byteval := x }) (heof : ¬ bad .eof)
    (hcanon : ¬ bad .canonSize) :
    EStateM.Safe P (fun r => ∀ e, r.2.2 = some e → ¬ bad e) (fun _ => True) readKind := by
  intro s hs
  -- a long header reads its size with `readUint`, whose error is returned
  have hlong : ∀ (m : ℕ) (u : Stream) (f : Except RlpError ℕ → StreamM (Kind × ℕ × Option RlpError)),
      P u →
      (∀ e t, P t → ¬ bad e →
        EStateM.SafeAt P (fun r => ∀ e, r.2.2 = some e → ¬ bad e) (fun _ => True) (f (.error e)) t) →
      (∀ v t, P t →
        EStateM.SafeAt P (fun r => ∀ e, r.2.2 = some e → ¬ bad e) (fun _ => True) (f (.ok v)) t) →
      EStateM.SafeAt P (fun r => ∀ e, r.2.2 = some e → ¬ bad e) (fun _ => True)
        (EStateM.attempt (readUint m) >>= f) u := by
    intro m u f hu herr hok
    rw [EStateM.safeAt_attempt_bind]
    have hr := huint m u hu
    cases h : (readUint m).run u with
    | error e u' =>
      obtain ⟨hu', he⟩ := (EStateM.safeAt_of_run_error h).mp hr
      exact herr e u' hu' he
    | ok v u' => exact hok v u' ((EStateM.safeAt_of_run_ok h).mp hr).1
  -- the size read is returned, a size error where a short header was due
  have hsize : ∀ (k : Kind) (v : ℕ),
      ∀ e, (k, v, if v < 56 then some RlpError.canonSize else none).2.2 = some e → ¬ bad e := by
    intro k v e he
    split_ifs at he
    cases he
    exact hcanon
  rw [readKind, EStateM.safeAt_attempt_bind]
  have hb := hbyte s hs
  cases hr : readByte.run s with
  | error e u =>
    -- the tag byte not read: at the top level the end of the input is `EOF`
    obtain ⟨hu, he⟩ := (EStateM.safeAt_of_run_error hr).mp hb
    refine ⟨hu, ?_⟩
    rintro e' ⟨⟩
    split_ifs
    · exact heof
    · exact he
  | ok b u =>
    have hu := hval u 0 ((EStateM.safeAt_of_run_ok hr).mp hb).1
    dsimp only
    rw [EStateM.safeAt_modify_bind]
    split_ifs
    · exact ⟨hval _ _ hu, by simp⟩
    · exact ⟨hu, by simp⟩
    · exact hlong _ _ _ hu (fun e t ht he => ⟨ht, by rintro e' ⟨⟩; exact he⟩)
        (fun v t ht => ⟨ht, hsize .string v⟩)
    · exact ⟨hu, by simp⟩
    · exact hlong _ _ _ hu (fun e t ht he => ⟨ht, by rintro e' ⟨⟩; exact he⟩)
        (fun v t ht => ⟨ht, hsize .list v⟩)

theorem readKind_ok (s : Stream) : ∃ r t, readKind.run s = .ok r t := by
  have h := readKind_safe (EStateM.safe_of_error fun _ _ _ _ => id)
    (fun _ => EStateM.safe_of_error fun _ _ _ _ => id) (fun _ _ _ => trivial) id id s trivial
  cases hr : readKind.run s with
  | ok r t => exact ⟨r, t, rfl⟩
  | error e t => exact absurd trivial ((EStateM.safeAt_of_run_error hr).mp h).2

theorem readKind_err_ne_eol {s t : Stream} {k : Kind} {size : ℕ} {e : RlpError}
    (h : readKind.run s = .ok (k, size, some e) t) : e ≠ .eol := by
  have hs := readKind_safe (EStateM.safe_of_error fun _ _ _ => readByte_error_ne_eol)
    (fun _ => EStateM.safe_of_error fun _ _ _ => readUint_error_ne_eol) (fun _ _ _ => trivial)
    (by simp) (by simp) s trivial
  exact ((EStateM.safeAt_of_run_ok h).mp hs).2 e rfl

theorem checkSize_ok (s : Stream) : ∃ t, checkSize.run s = .ok () t := by
  unfold checkSize
  cases hs : s.stack with
  | nil => by_cases h : s.limited = true ∧ s.size > s.remaining <;> simp [hs, h]
  | cons tos outer => by_cases h : s.size > tos.size - tos.pos <;> simp [hs, h]

theorem storeKind_ok (s : Stream) : ∃ t, storeKind.run s = .ok () t := by
  obtain ⟨⟨k, size, err⟩, u, hr⟩ := readKind_ok s
  simp only [storeKind, EStateM.run_bind, hr, EStateM.run_modify]
  split_ifs
  · exact checkSize_ok _
  · exact ⟨_, rfl⟩

theorem checkSize_kinderr {s t : Stream} (h : checkSize.run s = .ok () t) :
    t.kinderr = s.kinderr ∨ t.kinderr = some .valueTooLarge ∨ t.kinderr = some .elemTooLarge := by
  unfold checkSize at h
  cases hs : s.stack with
  | nil =>
    by_cases hc : s.limited = true ∧ s.size > s.remaining <;> simp [hs, hc] at h <;> simp [← h]
  | cons tos outer =>
    by_cases hc : s.size > tos.size - tos.pos <;> simp [hs, hc] at h <;> simp [← h]

theorem storeKind_kinderr_ne_eol {s t : Stream} (h : storeKind.run s = .ok () t) :
    t.kinderr ≠ some .eol := by
  simp only [storeKind, EStateM.run_bind] at h
  obtain ⟨⟨k, size, err⟩, u, hr⟩ := readKind_ok s
  rw [hr] at h
  simp only [EStateM.run_modify] at h
  split_ifs at h with herr
  · rcases checkSize_kinderr h with h' | h' | h' <;> rw [h'] <;> simp [herr]
  · simp only [EStateM.run_pure, EStateM.Result.ok.injEq, true_and] at h
    rw [← h]
    cases err with
    | none => exact absurd rfl herr
    | some e => simpa using readKind_err_ne_eol hr

theorem run_nextKind_eq_eol {s t : Stream} (hk : s.kind = none) (h : nextKind.run s = .error .eol t) :
    (∃ tos ∈ s.stack.head?, tos.pos = tos.size) ∧ { s with kinderr := none } = t := by
  simp only [nextKind, EStateM.run_bind, EStateM.run_get, hk, if_true] at h
  cases hr : readAhead.run s with
  | ok u t' =>
    rw [hr] at h
    rw [run_readAhead] at hr
    split_ifs at hr
    cases he : t'.kinderr with
    | none => simp [he] at h
    | some e =>
      simp only [he] at h
      cases h
      exact absurd he (storeKind_kinderr_ne_eol hr)
  | error e t' =>
    rw [hr] at h
    cases h
    rw [run_readAhead] at hr
    split_ifs at hr with heol
    · cases hr; exact ⟨heol, rfl⟩
    · obtain ⟨u, hu⟩ := storeKind_ok { s with kinderr := none }
      rw [hu] at hr; cases hr

theorem run_nextKind_at_eol {s : Stream} (hk : s.kind = none)
    (heol : ∃ tos ∈ s.stack.head?, tos.pos = tos.size) :
    nextKind.run s = .error .eol { s with kinderr := none } := by
  simp only [nextKind, EStateM.run_bind, EStateM.run_get, hk, if_true, run_readAhead, if_pos heol]

/-! ## `Kind` reads once -/

/-- the checks of `Kind` keep the kind -/
theorem kind_of_checkSize {s t : Stream} (h : checkSize.run s = .ok () t) : t.kind = s.kind := by
  unfold checkSize at h
  cases hs : s.stack with
  | nil =>
    by_cases hc : s.limited = true ∧ s.size > s.remaining <;> simp [hs, hc] at h <;> simp [← h]
  | cons tos outer =>
    by_cases hc : s.size > tos.size - tos.pos <;> simp [hs, hc] at h <;> simp [← h]

theorem kind_of_storeKind {s t : Stream} (h : storeKind.run s = .ok () t) : ∃ k, t.kind = some k := by
  obtain ⟨⟨k, size, err⟩, u, hr⟩ := readKind_ok s
  simp only [storeKind, EStateM.run_bind, hr, EStateM.run_modify] at h
  refine ⟨k, ?_⟩
  split_ifs at h
  · rw [kind_of_checkSize h]
  · simp only [EStateM.run_pure, EStateM.Result.ok.injEq, true_and] at h
    rw [← h]

/-- a kind kept is returned, or its error thrown, with the stream unchanged -/
theorem state_run_nextKind_cached {s : Stream} {k : Kind} (hk : s.kind = some k) :
    (nextKind.run s).state = s := by
  cases he : s.kinderr with
  | none => rw [run_nextKind_cached hk he]; rfl
  | some e => rw [run_nextKind_cached_error hk he]; rfl

/-- the first call of `Kind` on a header reads it and then answers as a call on the stream it
leaves -/
theorem run_nextKind_of_storeKind {s t : Stream} (hk : s.kind = none)
    (heol : ¬ ∃ tos ∈ s.stack.head?, tos.pos = tos.size)
    (ht : storeKind.run { s with kinderr := none } = .ok () t) : nextKind.run s = nextKind.run t := by
  obtain ⟨k, hkt⟩ := kind_of_storeKind ht
  simp only [nextKind, EStateM.run_bind, EStateM.run_get, if_pos hk, run_readAhead, if_neg heol, ht,
    hkt, reduceCtorEq, if_false]

/-- **`Kind` reads the value ahead once**: a second call returns what the first returned, and
reads nothing, whatever the stream and whatever the first call returned. -/
theorem run_nextKind_twice (s : Stream) : nextKind.run (nextKind.run s).state = nextKind.run s := by
  cases hk : s.kind with
  | some k => rw [state_run_nextKind_cached hk]
  | none =>
    by_cases heol : ∃ tos ∈ s.stack.head?, tos.pos = tos.size
    · -- at the end of a list nothing is read, and the second call stops there again
      rw [run_nextKind_at_eol hk heol]
      exact run_nextKind_at_eol hk heol
    · obtain ⟨t, ht⟩ := storeKind_ok { s with kinderr := none }
      obtain ⟨k, hkt⟩ := kind_of_storeKind ht
      rw [run_nextKind_of_storeKind hk heol ht, state_run_nextKind_cached hkt]

/-! ## the methods of the decoders -/

theorem run_bytes_byte {s : Stream} (hk : s.kind = some .byte) (he : s.kinderr = none) :
    bytes.run s = .ok [s.byteval] { s with kind := none } := by
  simp [bytes, run_nextKind_cached hk he]

theorem run_bytes_list {s : Stream} (hk : s.kind = some .list) (he : s.kinderr = none) :
    bytes.run s = .error .expectedString s := by
  simp [bytes, run_nextKind_cached hk he]
  rfl

theorem run_bytes_string {s t : Stream} {c : List UInt8} (hk : s.kind = some .string)
    (he : s.kinderr = none) :
    bytes.run s = .ok c t ↔
      Fits s s.size ∧ s.size ≤ s.input.length ∧ s.input.take s.size = c ∧
        ¬ (s.size = 1 ∧ c.headD 0 < 128) ∧ s.advance s.size = t := by
  simp only [bytes, EStateM.run_bind, run_nextKind_cached hk he]
  cases hr : (readFull s.size).run s with
  | error e u =>
    simp only
    constructor
    · intro h; cases h
    · rintro ⟨hf, hlen, rfl, -, rfl⟩
      rw [run_readFull_eq_ok.mpr ⟨hf, hlen, rfl, rfl⟩] at hr
      cases hr
  | ok b u =>
    obtain ⟨hf, hlen, rfl, rfl⟩ := run_readFull_eq_ok.mp hr
    simp only
    by_cases hc : s.size = 1 ∧ (s.input.take s.size).headD 0 < 128
    · rw [if_pos hc]
      constructor
      · intro h; cases h
      · rintro ⟨-, -, rfl, hc', -⟩; exact absurd hc hc'
    · rw [if_neg hc]
      constructor
      · intro h
        cases h
        exact ⟨hf, hlen, rfl, hc, rfl⟩
      · rintro ⟨-, -, rfl, -, rfl⟩; rfl

theorem bytes_error_ne_eol {s t : Stream} {e : RlpError} (hk : s.kind.isSome)
    (he : s.kinderr = none) (h : bytes.run s = .error e t) : e ≠ .eol := by
  obtain ⟨k, hk⟩ := Option.isSome_iff_exists.mp hk
  cases k with
  | byte => rw [run_bytes_byte hk he] at h; cases h
  | list => rw [run_bytes_list hk he] at h; cases h; simp
  | string =>
    simp only [bytes, EStateM.run_bind, run_nextKind_cached hk he] at h
    cases hr : (readFull s.size).run s with
    | error e' u => rw [hr] at h; cases h; exact readFull_error_ne_eol hr
    | ok b u =>
      rw [hr] at h
      simp only at h
      split_ifs at h
      · cases h; simp
      · cases h

theorem run_list_cached {s : Stream} (hk : s.kind = some .list) (he : s.kinderr = none) :
    list.run s = .ok s.size { s with stack := ⟨0, s.size⟩ :: s.stack, kind := none, size := 0 } := by
  simp [list, run_nextKind_cached hk he, newList]

theorem run_listEnd_eq_ok {s t : Stream} {u : Unit} :
    listEnd.run s = .ok u t ↔
      ∃ tos outer, s.stack = tos :: outer ∧ tos.pos = tos.size ∧
        { s with stack := readIn outer tos.size, kind := none, size := 0 } = t := by
  cases hs : s.stack with
  | nil => simp [listEnd, hs]
  | cons tos outer =>
    by_cases hp : tos.pos = tos.size
    · cases outer <;> simp [listEnd, hs, hp, readIn]
    · simp [listEnd, hs, hp]

end Stream

end Rlp

end N42
