import N42.Vm.JumpTable

/-!
# (key: analysis) The jump-destination analysis

`codeBitmap` of `internal/vm/analysis.go` and `Contract.validJumpdest` of `contract.go`.  The
bitmap has one bit per code position, set for the immediate bytes of a `PUSHn`, in words of 64
bits with four bytes of slack for a `PUSH32` at the end; the bits of a push that cross a word
boundary spill into the next word.  `isCode` memoizes `codeBitmap(c.Code)` per code hash; the
memo holds the bitmap of the same code, so it is computed here each time.

* `starts`                 the reference: the instruction starts of a sequential decoding from 0,
                           `PUSHn` taking `1 + n` bytes as `opPush1` and `makePush` advance `pc`;
* `markPush_spec`          one push marks exactly its `n` immediate positions, spill included;
* `codeBitmap_spec`        `codeBitmap` never indexes past its slice, and sets the bit of a
                           position exactly when it is immediate data of a decoded push;
* `mem_starts_iff`         below the code length, a position starts an instruction exactly when
                           it is no push's immediate data;
* `validJumpdest_spec`     hence `validJumpdest` accepts exactly the `JUMPDEST`s the decoding
                           starts an instruction at.
-/

namespace N42

namespace Vm

open OpCode

/-- `PUSH32` -/
def PUSH32 : OpCode := after PUSH1 31

/-- `op >= PUSH1 && op <= PUSH32` -/
def isPush (op : UInt8) : Bool := decide (PUSH1.val ≤ op.toNat ∧ op.toNat ≤ PUSH32.val)

/-- the bytes an instruction takes: `1 + n` for `PUSHn` (`opPush1` steps `*pc++`, `makePush`
`*pc += n`, and the interpreter its own `pc++`), one otherwise -/
def instrWidth (op : UInt8) : Nat := if isPush op then op.toNat - PUSH1.val + 2 else 1

/-- the instruction starts from `pc` on, decoding one instruction after the other -/
def starts (code : List UInt8) : Nat → Nat → List Nat
  | 0, _ => []
  | fuel + 1, pc =>
    match code[pc]? with
    | none => []
    | some op => pc :: starts code fuel (pc + instrWidth op)

/-- position `q` is an immediate byte of the instruction at `p`, a push -/
def PushData (code : List UInt8) (p q : Nat) : Prop :=
  ∃ op, code[p]? = some op ∧ isPush op = true ∧ p < q ∧ q < p + instrWidth op

/-! ## `codeBitmap` -/

/-- `bits[i] |= v`, a panic past the end of the slice -/
def orAt (bits : List UInt64) (i : Nat) (v : UInt64) : Option (List UInt64) :=
  match bits[i]? with
  | some w => some (bits.set i (w ||| v))
  | none => none

/-- `x := uint64(1) << k; x = x | (x - 1)` -/
def smear (k : Nat) : UInt64 := ((1 : UInt64) <<< k.toUInt64) ||| (((1 : UInt64) <<< k.toUInt64) - 1)

/-- the marks of one `PUSHn`, `k = n - 1`, with `pc` just past its opcode: `x << shift` in the
word of `pc`, and `x >> (64 - shift)` in the next one when `shift + shift > 64` -/
def markPush (k pc : Nat) (bits : List UInt64) : Option (List UInt64) :=
  let x := smear k
  let idx := pc / 64
  let shift := pc &&& 63
  (orAt bits idx (x <<< shift.toUInt64)).bind fun bits =>
    if shift + shift > 64 then orAt bits (idx + 1) (x >>> (64 - shift).toUInt64) else some bits

/-- the loop of `codeBitmap`, one round per instruction -/
def codeBitmapLoop (code : List UInt8) : Nat → Nat → List UInt64 → Option (List UInt64)
  | 0, _, bits => some bits
  | fuel + 1, pc, bits =>
    match code[pc]? with
    | none => some bits
    | some op =>
      if isPush op then
        (markPush (op.toNat - PUSH1.val) (pc + 1) bits).bind fun bits =>
          codeBitmapLoop code fuel (pc + 1 + (op.toNat - PUSH1.val + 1)) bits
      else codeBitmapLoop code fuel (pc + 1) bits

/-- `codeBitmap(code)` over `(len(code) + 32 + 63) / 64` zero words -/
def codeBitmap (code : List UInt8) : Option (List UInt64) :=
  codeBitmapLoop code code.length 0 (List.replicate ((code.length + 32 + 63) / 64) 0)

/-- bit `q` of a bitmap, `false` past its end -/
def bitAt (bits : List UInt64) (q : Nat) : Bool :=
  match bits[q / 64]? with
  | some w => w.toNat.testBit (q % 64)
  | none => false

/-! ## `validJumpdest` -/

/-- `Uint64WithOverflow()` -/
def uint64WithOverflow (x : U256) : UInt64 × Bool := (x.toNat.toUInt64, decide (2 ^ 64 ≤ x.toNat))

/-- `isCodeFromAnalysis(analysis, udest)`, a panic past the end of the bitmap -/
def isCodeFromAnalysis (analysis : List UInt64) (udest : UInt64) : Option Bool :=
  analysis[(udest / 64).toNat]?.map fun w => w &&& ((1 : UInt64) <<< (udest &&& 63)) == 0

/-- `validJumpdest(dest)`: whether `dest` is a valid destination, and whether the bitmap was
consulted -/
def validJumpdest (code : List UInt8) (skipAnalysis : Bool) (dest : U256) :
    Option (Bool × Bool) :=
  let r := uint64WithOverflow dest
  if r.2 || decide (r.1.toNat ≥ code.length) then some (false, false)
  else
    match code[r.1.toNat]? with
    | none => none
    | some op =>
      if op.toNat ≠ JUMPDEST.val then some (false, false)
      else if skipAnalysis then some (true, false)
      else (codeBitmap code).bind fun analysis =>
        (isCodeFromAnalysis analysis r.1).map fun b => (b, true)

/-! ## the marks of one push -/

theorem toNat_smear {k : Nat} (hk : k < 32) : (smear k).toNat = 2 ^ (k + 1) - 1 := by
  have h : ∀ j : Fin 32, (smear j.val).toNat = 2 ^ (j.val + 1) - 1 := by decide
  exact h ⟨k, hk⟩

theorem testBit_smear_shiftLeft {k s : Nat} (hk : k < 32) (hs : s < 64) (i : Nat) :
    ((smear k <<< s.toUInt64).toNat).testBit i = decide (i < 64 ∧ s ≤ i ∧ i < s + (k + 1)) := by
  have hst : s.toUInt64.toNat % 64 = s := by
    rw [Nat.toUInt64_eq, UInt64.toNat_ofNat']
    omega
  rw [UInt64.toNat_shiftLeft, hst, toNat_smear hk, Nat.testBit_mod_two_pow, Nat.testBit_shiftLeft,
    Nat.testBit_two_pow_sub_one]
  by_cases h₁ : i < 64 <;> by_cases h₂ : s ≤ i <;> simp [h₁, h₂]
  omega

theorem testBit_smear_shiftRight {k t : Nat} (hk : k < 32) (ht : t < 64) (i : Nat) :
    ((smear k >>> t.toUInt64).toNat).testBit i = decide (t + i < k + 1) := by
  have htt : t.toUInt64.toNat % 64 = t := by
    rw [Nat.toUInt64_eq, UInt64.toNat_ofNat']
    omega
  rw [UInt64.toNat_shiftRight, htt, toNat_smear hk, Nat.testBit_shiftRight,
    Nat.testBit_two_pow_sub_one]

theorem orAt_spec {bits : List UInt64} {i : Nat} (hi : i < bits.length) (v : UInt64) :
    ∃ bits', orAt bits i v = some bits' ∧ bits'.length = bits.length ∧
      ∀ q, bitAt bits' q = (bitAt bits q || (decide (q / 64 = i) && v.toNat.testBit (q % 64))) := by
  have hw : bits[i]? = some bits[i] := List.getElem?_eq_getElem hi
  refine ⟨_, by rw [orAt, hw], List.length_set, fun q => ?_⟩
  unfold bitAt
  rw [List.getElem?_set]
  by_cases hq : i = q / 64
  · rw [if_pos hq, if_pos hi, ← hq, hw]
    simp [UInt64.toNat_or, Nat.testBit_or]
  · rw [if_neg hq]
    have : decide (q / 64 = i) = false := decide_eq_false fun h => hq h.symm
    rw [this, Bool.false_and, Bool.or_false]

/-- the two `|=` of a `PUSHn` set exactly the `n` positions from `pc` on, as long as the words
they write are in the slice -/
theorem markPush_spec {k pc : Nat} {bits : List UInt64} (hk : k < 32)
    (hidx : pc / 64 < bits.length) (hspill : 32 < pc % 64 → pc / 64 + 1 < bits.length) :
    ∃ bits', markPush k pc bits = some bits' ∧ bits'.length = bits.length ∧
      ∀ q, bitAt bits' q = (bitAt bits q || decide (pc ≤ q ∧ q < pc + (k + 1))) := by
  have hshift : pc &&& 63 = pc % 64 := Nat.and_two_pow_sub_one_eq_mod pc 6
  obtain ⟨bits₁, h₁, hlen₁, hbit₁⟩ :=
    orAt_spec hidx (smear k <<< (pc &&& 63).toUInt64)
  rw [markPush]
  rw [h₁, Option.bind_some, hshift]
  simp only [hshift] at hbit₁
  split
  · -- past the middle of its word the push may spill into the next word
    rename_i hbig
    obtain ⟨bits₂, h₂, hlen₂, hbit₂⟩ := orAt_spec (hlen₁ ▸ hspill (by omega))
      (smear k >>> (64 - pc % 64).toUInt64)
    refine ⟨bits₂, h₂, hlen₂.trans hlen₁, fun q => ?_⟩
    rw [hbit₂, hbit₁, testBit_smear_shiftLeft hk (Nat.mod_lt _ (by omega)),
      testBit_smear_shiftRight hk (by omega), Bool.or_assoc]
    congr 1
    rw [Bool.eq_iff_iff]
    simp only [Bool.or_eq_true, Bool.and_eq_true, decide_eq_true_eq]
    omega
  · -- in the lower half of its word the push ends inside it
    rename_i hsmall
    refine ⟨bits₁, rfl, hlen₁, fun q => ?_⟩
    rw [hbit₁, testBit_smear_shiftLeft hk (Nat.mod_lt _ (by omega))]
    congr 1
    rw [Bool.eq_iff_iff]
    simp only [Bool.and_eq_true, decide_eq_true_eq]
    omega

/-! ## the loop against the decoding -/

theorem isPush_iff (op : UInt8) : isPush op = true ↔ 96 ≤ op.toNat ∧ op.toNat ≤ 127 := by
  simp only [isPush, decide_eq_true_eq]
  rfl

theorem instrWidth_pos (op : UInt8) : 0 < instrWidth op := by
  unfold instrWidth
  split <;> omega

theorem pushData_at {code : List UInt8} {p : Nat} {op : UInt8} (hop : code[p]? = some op) (q : Nat) :
    PushData code p q ↔ isPush op = true ∧ p < q ∧ q < p + instrWidth op := by
  simp [PushData, hop]

theorem le_of_mem_starts {code : List UInt8} {fuel pc p : Nat} (h : p ∈ starts code fuel pc) :
    pc ≤ p := by
  induction fuel generalizing pc with
  | zero => simp [starts] at h
  | succ fuel ih =>
    unfold starts at h
    split at h
    · simp at h
    · rcases List.mem_cons.mp h with rfl | h
      · exact Nat.le_refl p
      · have := ih h
        omega

theorem bitAt_replicate_zero (n q : Nat) : bitAt (List.replicate n 0) q = false := by
  unfold bitAt
  rw [List.getElem?_replicate]
  by_cases h : q / 64 < n <;> simp [h]

/-- one round per instruction start: the loop sets, over what is there, the bits of every push
the decoding from `pc` meets, as long as the slice is the one `codeBitmap` allocates -/
theorem codeBitmapLoop_spec (code : List UInt8) (fuel pc : Nat) (bits : List UInt64)
    (hlen : bits.length = (code.length + 32 + 63) / 64) :
    ∃ bits', codeBitmapLoop code fuel pc bits = some bits' ∧ bits'.length = bits.length ∧
      ∀ q, bitAt bits' q = true ↔
        (bitAt bits q = true ∨ ∃ p ∈ starts code fuel pc, PushData code p q) := by
  induction fuel generalizing pc bits with
  | zero => exact ⟨bits, rfl, rfl, fun q => by simp [starts]⟩
  | succ fuel ih =>
    cases hop : code[pc]? with
    | none => exact ⟨bits, by simp [codeBitmapLoop, hop], rfl, fun q => by simp [starts, hop]⟩
    | some op =>
      have hpc : pc < code.length := (List.getElem?_eq_some_iff.mp hop).1
      have hstarts : starts code (fuel + 1) pc = pc :: starts code fuel (pc + instrWidth op) := by
        simp [starts, hop]
      by_cases hpush : isPush op = true
      · -- a push: its marks, then the rest of the code after its immediate bytes
        have hk : op.toNat - PUSH1.val < 32 := by
          have := (isPush_iff op).mp hpush
          change op.toNat - 96 < 32
          omega
        obtain ⟨bits₁, h₁, hlen₁, hbit₁⟩ := markPush_spec hk
          (show (pc + 1) / 64 < bits.length by omega)
          (fun _ => show (pc + 1) / 64 + 1 < bits.length by omega)
        have hw : pc + 1 + (op.toNat - PUSH1.val + 1) = pc + instrWidth op := by
          simp only [instrWidth, hpush, if_true]
          omega
        obtain ⟨bits', h', hlen', hbit'⟩ := ih (pc + 1 + (op.toNat - PUSH1.val + 1)) bits₁
          (hlen₁.trans hlen)
        refine ⟨bits', ?_, hlen'.trans hlen₁, fun q => ?_⟩
        · simp only [codeBitmapLoop, hop, hpush, if_true, h₁, Option.bind_some, h']
        · have hhead : PushData code pc q ↔ pc + 1 ≤ q ∧ q < pc + 1 + (op.toNat - PUSH1.val + 1) := by
            rw [pushData_at hop, hw]
            simp only [hpush, true_and]
            omega
          rw [hbit', hbit₁, hstarts, ← hw, List.exists_mem_cons_iff, hhead]
          simp only [Bool.or_eq_true, decide_eq_true_eq, or_assoc]
      · -- any other opcode is one byte wide and marks nothing
        have hpush' : isPush op = false := by simpa using hpush
        have hw : instrWidth op = 1 := by simp [instrWidth, hpush']
        obtain ⟨bits', h', hlen', hbit'⟩ := ih (pc + 1) bits hlen
        refine ⟨bits', ?_, hlen', fun q => ?_⟩
        · simp only [codeBitmapLoop, hop, hpush', Bool.false_eq_true, if_false, h']
        · rw [hbit', hstarts, hw, List.exists_mem_cons_iff, pushData_at hop, hpush']
          simp

/-- `codeBitmap` never indexes past the slice it allocates, and sets the bit of a position
exactly when the decoding from 0 meets a push whose immediate data it is -/
theorem codeBitmap_spec (code : List UInt8) :
    ∃ bits, codeBitmap code = some bits ∧ bits.length = (code.length + 32 + 63) / 64 ∧
      ∀ q, bitAt bits q = true ↔ ∃ p ∈ starts code code.length 0, PushData code p q := by
  obtain ⟨bits, h, hlen, hbit⟩ := codeBitmapLoop_spec code code.length 0
    (List.replicate ((code.length + 32 + 63) / 64) 0) List.length_replicate
  refine ⟨bits, h, hlen.trans List.length_replicate, fun q => ?_⟩
  rw [hbit, bitAt_replicate_zero]
  simp

/-! ## instruction starts and immediate data tile the code -/

/-- with fuel to reach the end, a position from `pc` on starts an instruction of the decoding
exactly when it is no push's immediate data -/
theorem mem_starts_iff_of_le {code : List UInt8} {fuel pc d : Nat}
    (hfuel : code.length ≤ pc + fuel) (hpc : pc ≤ d) (hd : d < code.length) :
    d ∈ starts code fuel pc ↔ ¬∃ p ∈ starts code fuel pc, PushData code p d := by
  induction fuel generalizing pc with
  | zero => omega
  | succ fuel ih =>
    obtain ⟨op, hop⟩ : ∃ op, code[pc]? = some op :=
      ⟨code[pc], List.getElem?_eq_getElem (by omega)⟩
    have hstarts : starts code (fuel + 1) pc = pc :: starts code fuel (pc + instrWidth op) := by
      simp [starts, hop]
    have hwidth := instrWidth_pos op
    have hlater : ∀ p ∈ starts code fuel (pc + instrWidth op), pc + instrWidth op ≤ p :=
      fun _ hp => le_of_mem_starts hp
    rw [hstarts, List.mem_cons, List.exists_mem_cons_iff, pushData_at hop]
    rcases Nat.lt_or_ge d (pc + instrWidth op) with hin | hpast
    · -- inside the instruction at pc: its opcode, or one of its immediate bytes
      have hnot : d ∉ starts code fuel (pc + instrWidth op) := fun h => by
        have := hlater d h
        omega
      have hnone : ¬∃ p ∈ starts code fuel (pc + instrWidth op), PushData code p d := by
        rintro ⟨p, hp, _, _, _, hpd, _⟩
        have := hlater p hp
        omega
      by_cases hdp : d = pc
      · rw [hdp] at hnone ⊢
        simp only [true_or, true_iff, not_or]
        exact ⟨fun h => Nat.lt_irrefl pc h.2.1, hnone⟩
      · have hpush : isPush op = true := by
          by_contra h
          simp [instrWidth, h] at hin
          omega
        exact iff_of_false (by simp [hdp, hnot]) fun h => h (Or.inl ⟨hpush, by omega, hin⟩)
    · -- past it: the rest of the decoding decides
      rw [ih (by omega) hpast]
      have hdp : d ≠ pc := by omega
      simp only [hdp, false_or, not_or, not_and, not_lt]
      exact ⟨fun h => ⟨fun _ _ => hpast, h⟩, fun h => h.2⟩

theorem mem_starts_iff {code : List UInt8} {d : Nat} (hd : d < code.length) :
    d ∈ starts code code.length 0 ↔ ¬∃ p ∈ starts code code.length 0, PushData code p d :=
  mem_starts_iff_of_le (Nat.le_add_left _ _) (Nat.zero_le d) hd

/-! ## `validJumpdest` against the decoding -/

theorem isCodeFromAnalysis_eq {bits : List UInt64} {u : UInt64} (hu : u.toNat / 64 < bits.length) :
    isCodeFromAnalysis bits u = some (!bitAt bits u.toNat) := by
  have hidx : (u / 64).toNat = u.toNat / 64 := UInt64.toNat_div u 64
  have hw : bits[u.toNat / 64]? = some bits[u.toNat / 64] := List.getElem?_eq_getElem hu
  unfold isCodeFromAnalysis bitAt
  rw [hidx, hw, Option.map_some, Option.some.injEq]
  dsimp only
  have hj : (u &&& 63).toNat = u.toNat % 64 := by
    rw [UInt64.toNat_and]
    exact Nat.and_two_pow_sub_one_eq_mod u.toNat 6
  have hsh : ((1 : UInt64) <<< (u &&& 63)).toNat = 2 ^ (u.toNat % 64) := by
    rw [UInt64.toNat_shiftLeft, hj, Nat.mod_eq_of_lt (Nat.mod_lt _ (by omega)), UInt64.toNat_one,
      Nat.one_shiftLeft]
    exact Nat.mod_eq_of_lt (Nat.pow_lt_pow_right (by omega) (Nat.mod_lt _ (by omega)))
  have hand : (bits[u.toNat / 64] &&& (1 : UInt64) <<< (u &&& 63)).toNat =
      (bits[u.toNat / 64].toNat.testBit (u.toNat % 64)).toNat * 2 ^ (u.toNat % 64) := by
    rw [UInt64.toNat_and, hsh, Nat.and_two_pow]
  cases hb : bits[u.toNat / 64].toNat.testBit (u.toNat % 64)
  · -- a clear bit: the masked word is zero
    have : bits[u.toNat / 64] &&& (1 : UInt64) <<< (u &&& 63) = 0 :=
      UInt64.toNat_inj.mp (by rw [hand, hb, Bool.toNat_false, Nat.zero_mul, UInt64.toNat_zero])
    rw [this]
    rfl
  · have : bits[u.toNat / 64] &&& (1 : UInt64) <<< (u &&& 63) ≠ 0 := fun h => by
      have := congrArg UInt64.toNat h
      rw [hand, hb] at this
      simp at this
    rw [Bool.not_true, beq_eq_false_iff_ne]
    exact this

/-- with the analysis on, `validJumpdest` never panics and accepts a destination exactly when it
is a `JUMPDEST` below the code length at which the decoding from 0 starts an instruction; the
bitmap it consults is the one of `codeBitmap_spec`.  The code is a Go slice, its length an
`int`. -/
theorem validJumpdest_spec (code : List UInt8) (hcode : code.length < 2 ^ 64) (dest : U256) :
    (∃ bits, codeBitmap code = some bits ∧ bits.length = (code.length + 32 + 63) / 64 ∧
      ∀ q, bitAt bits q = true ↔ ∃ p ∈ starts code code.length 0, PushData code p q) ∧
    ∃ r, validJumpdest code false dest = some r ∧
      (r.1 = true ↔ dest.toNat < code.length ∧
        code[dest.toNat]?.map UInt8.toNat = some JUMPDEST.val ∧
        dest.toNat ∈ starts code code.length 0) := by
  obtain ⟨bits, hbm, hlen, hbit⟩ := codeBitmap_spec code
  refine ⟨⟨bits, hbm, hlen, hbit⟩, ?_⟩
  have hu : dest.toNat < 2 ^ 64 → dest.toNat.toUInt64.toNat = dest.toNat := fun h => by
    rw [Nat.toUInt64_eq, UInt64.toNat_ofNat', Nat.mod_eq_of_lt h]
  unfold validJumpdest uint64WithOverflow
  dsimp only
  by_cases hout : 2 ^ 64 ≤ dest.toNat ∨ code.length ≤ dest.toNat.toUInt64.toNat
  · -- overflow or past the code: rejected before any lookup
    have hfar : ¬dest.toNat < code.length := by
      intro hd
      have hu' := hu (by omega)
      omega
    rw [if_pos (by simpa [Bool.or_eq_true, decide_eq_true_eq, ge_iff_le] using hout)]
    exact ⟨_, rfl, by simp [hfar]⟩
  · have hcond := hout
    rw [not_or, not_le, not_le] at hout
    obtain ⟨hsmall, hin⟩ := hout
    have hd : dest.toNat < code.length := hu hsmall ▸ hin
    rw [if_neg (by simpa [Bool.or_eq_true, decide_eq_true_eq, ge_iff_le] using hcond), hu hsmall]
    have hop : code[dest.toNat]? = some code[dest.toNat] := List.getElem?_eq_getElem hd
    rw [hop]
    dsimp only
    by_cases hjd : code[dest.toNat].toNat = JUMPDEST.val
    · -- a JUMPDEST: the bitmap decides
      have hidx : dest.toNat.toUInt64.toNat / 64 < bits.length := by
        rw [hu hsmall, hlen]
        omega
      rw [if_neg (not_not.mpr hjd), if_neg Bool.false_ne_true, hbm, Option.bind_some,
        isCodeFromAnalysis_eq hidx, Option.map_some, hu hsmall]
      refine ⟨_, rfl, ?_⟩
      rw [Bool.not_eq_true', Bool.eq_false_iff, Ne, hbit, ← mem_starts_iff hd]
      simp [hd, hjd]
    · rw [if_pos hjd]
      exact ⟨_, rfl, by simp [hjd]⟩

/-- `PUSH1 0x5b; JUMPDEST`: a `JUMPDEST` byte as push data, and a real one after it -/
def pushedJumpdest : List UInt8 := [0x60, 0x5b, 0x5b]

example : validJumpdest pushedJumpdest false 1 = some (false, true) := by decide

example : validJumpdest pushedJumpdest false 2 = some (true, true) := by decide

theorem validJumpdest_spec_pushedJumpdest :
    pushedJumpdest.length < 2 ^ 64 ∧
    ((∃ bits, codeBitmap pushedJumpdest = some bits ∧
        bits.length = (pushedJumpdest.length + 32 + 63) / 64 ∧
        ∀ q, bitAt bits q = true ↔
          ∃ p ∈ starts pushedJumpdest pushedJumpdest.length 0, PushData pushedJumpdest p q) ∧
      ∃ r, validJumpdest pushedJumpdest false 1 = some r ∧
        (r.1 = true ↔ (1 : U256).toNat < pushedJumpdest.length ∧
          pushedJumpdest[(1 : U256).toNat]?.map UInt8.toNat = some JUMPDEST.val ∧
          (1 : U256).toNat ∈ starts pushedJumpdest pushedJumpdest.length 0)) :=
  ⟨by decide, validJumpdest_spec pushedJumpdest (by decide) 1⟩

end Vm

end N42
