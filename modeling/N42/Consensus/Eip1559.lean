import N42.Common.Block
import N42.Params.Config
import N42.Params.Protocol

/-!
# (key: eip1559) The base fee of a block

`internal/consensus/misc/eip1559.go` and `gaslimit.go`, and the header `prepareWork` of
`internal/miner/worker.go` (with `CalcGasLimit` of `gasLimit.go`) builds before the engine's
`Prepare`.  A `big.Int` is an `ℤ`; its `Div` is Euclidean division and panics on a zero divisor,
and the `ToBig` of a `nil` base fee is dereferenced by every branch that reads it, so both are
`none`.  `uint256.FromBig` keeps the value modulo `2^256` and its overflow flag is dropped.

* `calcBaseFee_at_target`, `calcBaseFee_above`, `calcBaseFee_below`   the three branches of
                        `CalcBaseFee` on a London parent, over `ℕ`;
* `calcBaseFee_bounds_below`, `calcBaseFee_bounds_above`   the step is at most `b / 8`, and
                        above the target at least one;
* `calcBaseFee_mono_gasUsed`, `calcBaseFee_mono_baseFee`   the new fee grows with the gas used
                        and with the old fee;
* `prepareHeader_baseFee`, `verifyBaseFee_fromBig`   the header `prepareWork` builds on a London
                        parent carries the fee the verifier expects, while the new number stays
                        London and the fee is below `2^256`;
* `calcBaseFee_law`     all of it for one London parent, with `prepareHeader_wrap_fails_baseFee`
                        for the parent numbered `2^64 - 1`, whose child's low word wraps to a
                        pre-London number.
-/

namespace N42

/-- the errors of `VerifyEip1559Header`, with the values their messages print -/
inductive Eip1559Error where
  /-- `invalid gas limit: have %d, want %d +-= %d` -/
  | gasLimitBound (headerGasLimit parentGasLimit bound : UInt64)
  /-- `invalid gas limit below 5000` -/
  | gasLimitBelowMin
  /-- `header is missing baseFee` -/
  | missingBaseFee
  /-- `invalid baseFee: have %s, want %s, parentBaseFee %s, parentGasUsed %d`, printed with the
  expected fee first and the header's second -/
  | invalidBaseFee (expected : ℤ) (baseFee : U256) (parentBaseFee : Option U256)
      (parentGasUsed : UInt64)
deriving DecidableEq, Repr

/-- `VerifyGaslimit`: the distance is taken in `int64` -/
def verifyGaslimit (parentGasLimit headerGasLimit : UInt64) : Except Eip1559Error Unit :=
  let diff : Int64 := parentGasLimit.toInt64 - headerGasLimit.toInt64
  let diff := if diff < 0 then diff * -1 else diff
  let limit := parentGasLimit / gasLimitBoundDivisor
  if diff.toUInt64 ≥ limit then .error (.gasLimitBound headerGasLimit parentGasLimit (limit - 1))
  else if headerGasLimit < minGasLimit then .error .gasLimitBelowMin
  else .ok ()

/-- `new(big.Int).Div(x, y)` -/
def bigDiv (x y : ℤ) : Option ℤ := if y = 0 then none else some (x / y)

/-- `parent.GasLimit / params.ElasticityMultiplier` -/
def parentGasTarget (parent : Header) : UInt64 := parent.gasLimit / elasticityMultiplier

/-- `CalcBaseFee(config, parent)` -/
def calcBaseFee (c : ChainConfig) (parent : Header) : Option ℤ :=
  if !c.isLondon parent.number64 then some (initialBaseFee.toNat : ℤ)
  else do
    let parentGasTargetBig : ℤ := (parentGasTarget parent).toNat
    let baseFeeChangeDenominator : ℤ := baseFeeChangeDenominator.toNat
    let baseFee ← parent.baseFee
    let b : ℤ := baseFee.toNat
    if parent.gasUsed = parentGasTarget parent then some b
    else if parent.gasUsed > parentGasTarget parent then
      let gasUsedDelta : ℤ := (parent.gasUsed - parentGasTarget parent).toNat
      let y ← bigDiv (b * gasUsedDelta) parentGasTargetBig
      let baseFeeDelta := max (y / baseFeeChangeDenominator) 1
      some (b + baseFeeDelta)
    else
      let gasUsedDelta : ℤ := (parentGasTarget parent - parent.gasUsed).toNat
      let y ← bigDiv (b * gasUsedDelta) parentGasTargetBig
      let baseFeeDelta := y / baseFeeChangeDenominator
      some (max (b - baseFeeDelta) 0)

/-- the base-fee check of `VerifyEip1559Header`, after the gas limit check -/
def verifyBaseFee (c : ChainConfig) (parent header : Header) :
    Option (Except Eip1559Error Unit) :=
  match header.baseFee with
  | none => some (.error .missingBaseFee)
  | some baseFee => (calcBaseFee c parent).map fun expected =>
    if (baseFee.toNat : ℤ) ≠ expected then
      .error (.invalidBaseFee expected baseFee parent.baseFee parent.gasUsed)
    else .ok ()

/-- `VerifyEip1559Header(config, parent, header)` -/
def verifyEip1559Header (c : ChainConfig) (parent header : Header) :
    Option (Except Eip1559Error Unit) :=
  let parentGasLimit :=
    if !c.isLondon parent.number64 then parent.gasLimit * elasticityMultiplier
    else parent.gasLimit
  match verifyGaslimit parentGasLimit header.gasLimit with
  | .error e => some (.error e)
  | .ok () => verifyBaseFee c parent header

/-- `uint256.FromBig(x)`, without its overflow flag -/
def fromBig (x : ℤ) : U256 := BitVec.ofInt 256 x

/-- `CalcGasLimit(parentGasLimit, desiredLimit)` -/
def calcGasLimit (parentGasLimit desiredLimit : UInt64) : UInt64 :=
  let delta := parentGasLimit / gasLimitBoundDivisor - 1
  let desiredLimit := if desiredLimit < minGasLimit then minGasLimit else desiredLimit
  if parentGasLimit < desiredLimit then
    let limit := parentGasLimit + delta
    if limit > desiredLimit then desiredLimit else limit
  else if parentGasLimit > desiredLimit then
    let limit := parentGasLimit - delta
    if limit < desiredLimit then desiredLimit else limit
  else parentGasLimit

/-- the fields of `generateParams` the header reads -/
structure GenerateParams where
  timestamp : UInt64
  coinbase : Address
deriving DecidableEq, Repr

/-- the header `prepareWork` builds on `parent` (whose hash is `parentHash`) before the engine's
`Prepare`, for the miner's `GasCeil`; `none` is a panic of `CalcBaseFee` -/
def prepareHeader (c : ChainConfig) (gasCeil : UInt64) (parentHash : Hash)
    (param : GenerateParams) (parent : Header) : Option Header :=
  let timestamp := if parent.time ≥ param.timestamp then parent.time + 1 else param.timestamp
  let header : Header :=
    { parentHash := parentHash, root := 0, txHash := 0, signature := 0,
      coinbase := param.coinbase, number := parent.number + 1,
      gasLimit := calcGasLimit parent.gasLimit gasCeil, time := timestamp, difficulty := 0,
      baseFee := some 0 }
  if c.isLondon header.number64 then do
    let fee ← calcBaseFee c parent
    let header := { header with baseFee := some (fromBig fee) }
    if !c.isLondon parent.number64 then
      some { header with gasLimit := calcGasLimit (parent.gasLimit * elasticityMultiplier) gasCeil }
    else some header
  else some header

/-! ## the three branches -/

/-- `baseFeeDelta` of `CalcBaseFee` over `ℕ`: `b * gasUsedDelta / parentGasTarget / 8`, before
the `max` with one above the target -/
def baseFeeDelta (b gasUsedDelta target : ℕ) : ℕ := b * gasUsedDelta / target / 8

/-- a step `b * k / t` with `k ≤ t` is at most `b` -/
theorem mul_div_le_of_le {B k t : ℕ} (hk : k ≤ t) : B * k / t ≤ B :=
  Nat.div_le_of_le_mul (by rw [Nat.mul_comm t]; exact Nat.mul_le_mul_left B hk)

theorem baseFeeDelta_le_div {B k t : ℕ} (hk : k ≤ t) : baseFeeDelta B k t ≤ B / 8 :=
  Nat.div_le_div_right (mul_div_le_of_le hk)

theorem baseFeeDelta_le {B k t : ℕ} (hk : k ≤ t) : baseFeeDelta B k t ≤ B :=
  (baseFeeDelta_le_div hk).trans (Nat.div_le_self B 8)

theorem baseFeeDelta_mono_delta {B k₁ k₂ t : ℕ} (hk : k₁ ≤ k₂) :
    baseFeeDelta B k₁ t ≤ baseFeeDelta B k₂ t :=
  Nat.div_le_div_right (Nat.div_le_div_right (Nat.mul_le_mul_left B hk))

theorem baseFeeDelta_mono_fee {B₁ B₂ k t : ℕ} (hB : B₁ ≤ B₂) :
    baseFeeDelta B₁ k t ≤ baseFeeDelta B₂ k t :=
  Nat.div_le_div_right (Nat.div_le_div_right (Nat.mul_le_mul_right k hB))

/-- with `k ≤ t`, raising the fee from `B₁` to `B₂` raises the step by at most
`B₂ - B₁` -/
theorem baseFeeDelta_le_add {B₁ B₂ k t : ℕ} (hk : k ≤ t) (ht : 0 < t) (hB : B₁ ≤ B₂) :
    baseFeeDelta B₂ k t ≤ baseFeeDelta B₁ k t + (B₂ - B₁) := by
  have hsplit : B₂ * k ≤ B₁ * k + (B₂ - B₁) * t := by
    have : B₂ * k = B₁ * k + (B₂ - B₁) * k := by
      rw [← Nat.add_mul, Nat.add_sub_cancel' hB]
    rw [this]
    exact Nat.add_le_add_left (Nat.mul_le_mul_left _ hk) _
  have hdiv : B₂ * k / t ≤ B₁ * k / t + (B₂ - B₁) :=
    calc B₂ * k / t ≤ (B₁ * k + (B₂ - B₁) * t) / t := Nat.div_le_div_right hsplit
      _ = B₁ * k / t + (B₂ - B₁) := Nat.add_mul_div_right _ _ ht
  unfold baseFeeDelta
  omega

section London

variable {c : ChainConfig} {p : Header} {b : U256}

@[simp] theorem toNat_parentGasTarget (p : Header) :
    (parentGasTarget p).toNat = p.gasLimit.toNat / 2 := by
  simp [parentGasTarget, elasticityMultiplier, UInt64.toNat_div]

theorem calcBaseFee_at_target (hl : c.isLondon p.number64) (hb : p.baseFee = some b)
    (h : p.gasUsed = parentGasTarget p) :
    calcBaseFee c p = some (b.toNat : ℤ) := by
  simp [calcBaseFee, hl, hb, h]

theorem calcBaseFee_above (hl : c.isLondon p.number64) (hb : p.baseFee = some b)
    (ht : 0 < (parentGasTarget p).toNat)
    (h : (parentGasTarget p).toNat < p.gasUsed.toNat) :
    calcBaseFee c p = some ((b.toNat + max (baseFeeDelta b.toNat (p.gasUsed.toNat -
      (parentGasTarget p).toNat) (parentGasTarget p).toNat) 1 : ℕ) : ℤ) := by
  have hgt : parentGasTarget p < p.gasUsed := UInt64.lt_iff_toNat_lt.mpr h
  have hne : p.gasUsed ≠ parentGasTarget p := fun e => by rw [e] at h; omega
  have hsub : (p.gasUsed - parentGasTarget p).toNat =
      p.gasUsed.toNat - (parentGasTarget p).toNat :=
    UInt64.toNat_sub_of_le _ _ (UInt64.le_iff_toNat_le.mpr h.le)
  simp only [calcBaseFee, hl, Bool.not_true, Bool.false_eq_true, if_false, hb, hne, hgt,
    if_true, hsub, bigDiv, Option.bind_eq_bind, Option.bind_some]
  rw [if_neg (by omega)]
  simp only [Option.bind_some, Option.some.injEq, baseFeeDelta]
  push_cast
  rfl

theorem calcBaseFee_below (hl : c.isLondon p.number64) (hb : p.baseFee = some b)
    (h : p.gasUsed.toNat < (parentGasTarget p).toNat) :
    calcBaseFee c p = some ((b.toNat - baseFeeDelta b.toNat ((parentGasTarget p).toNat -
      p.gasUsed.toNat) (parentGasTarget p).toNat : ℕ) : ℤ) := by
  have hlt : p.gasUsed < parentGasTarget p := UInt64.lt_iff_toNat_lt.mpr h
  have hne : p.gasUsed ≠ parentGasTarget p := fun e => by rw [e] at h; omega
  have hng : ¬ p.gasUsed > parentGasTarget p := fun e => by
    have := UInt64.lt_iff_toNat_lt.mp e
    omega
  have hsub : (parentGasTarget p - p.gasUsed).toNat =
      (parentGasTarget p).toNat - p.gasUsed.toNat :=
    UInt64.toNat_sub_of_le _ _ (UInt64.le_iff_toNat_le.mpr h.le)
  simp only [calcBaseFee, hl, Bool.not_true, Bool.false_eq_true, if_false, hb, hne, hng,
    hsub, bigDiv, Option.bind_eq_bind, Option.bind_some]
  rw [if_neg (by omega)]
  simp only [Option.bind_some, Option.some.injEq]
  have hcast : ((b.toNat : ℤ) *
      (((parentGasTarget p).toNat - p.gasUsed.toNat : ℕ) : ℤ) /
      ((parentGasTarget p).toNat : ℤ) / (baseFeeChangeDenominator.toNat : ℤ)) =
      (baseFeeDelta b.toNat ((parentGasTarget p).toNat - p.gasUsed.toNat)
        (parentGasTarget p).toNat : ℤ) := by
    simp only [baseFeeDelta]
    push_cast
    rfl
  have hδ := baseFeeDelta_le (B := b.toNat) (Nat.sub_le (parentGasTarget p).toNat
    p.gasUsed.toNat)
  rw [hcast, max_eq_left (by omega), Nat.cast_sub hδ]

theorem parentGasTarget_pos (hg : elasticityMultiplier ≤ p.gasLimit) :
    0 < (parentGasTarget p).toNat := by
  have : 2 ≤ p.gasLimit.toNat := UInt64.le_iff_toNat_le.mp hg
  rw [toNat_parentGasTarget]
  omega

/-- where the new fee lies against the old one: below, at or above it as the gas used is below,
at or above the target -/
theorem calcBaseFee_cmp (hl : c.isLondon p.number64) (hb : p.baseFee = some b)
    (ht : 0 < (parentGasTarget p).toNat) {r : ℤ} (hr : calcBaseFee c p = some r) :
    (p.gasUsed.toNat < (parentGasTarget p).toNat → r ≤ b.toNat) ∧
    (p.gasUsed = parentGasTarget p → r = b.toNat) ∧
    ((parentGasTarget p).toNat < p.gasUsed.toNat → (b.toNat : ℤ) < r) := by
  refine ⟨fun h => ?_, fun h => ?_, fun h => ?_⟩
  · rw [calcBaseFee_below hl hb h, Option.some.injEq] at hr
    omega
  · rw [calcBaseFee_at_target hl hb h, Option.some.injEq] at hr
    exact hr.symm
  · rw [calcBaseFee_above hl hb ht h, Option.some.injEq] at hr
    omega

theorem calcBaseFee_nonneg (hl : c.isLondon p.number64) (hb : p.baseFee = some b)
    (ht : 0 < (parentGasTarget p).toNat) {r : ℤ} (hr : calcBaseFee c p = some r) :
    0 ≤ r := by
  rcases lt_trichotomy p.gasUsed.toNat (parentGasTarget p).toNat with h | h | h
  · rw [calcBaseFee_below hl hb h, Option.some.injEq] at hr
    omega
  · rw [calcBaseFee_at_target hl hb (UInt64.toNat_inj.mp h), Option.some.injEq] at hr
    omega
  · have := (calcBaseFee_cmp hl hb ht hr).2.2 h
    omega

/-- a London parent with a base fee and a positive target has a next base fee -/
theorem calcBaseFee_isSome (hl : c.isLondon p.number64) (hb : p.baseFee = some b)
    (ht : 0 < (parentGasTarget p).toNat) : ∃ r, calcBaseFee c p = some r := by
  rcases lt_trichotomy p.gasUsed.toNat (parentGasTarget p).toNat with h | h | h
  · exact ⟨_, calcBaseFee_below hl hb h⟩
  · exact ⟨_, calcBaseFee_at_target hl hb (UInt64.toNat_inj.mp h)⟩
  · exact ⟨_, calcBaseFee_above hl hb ht h⟩

/-! ## the size of the step -/

/-- below the target the fee falls by at most `b / 8` -/
theorem calcBaseFee_bounds_below (hl : c.isLondon p.number64)
    (hb : p.baseFee = some b) (h : p.gasUsed.toNat < (parentGasTarget p).toNat)
    {r : ℤ} (hr : calcBaseFee c p = some r) :
    (b.toNat : ℤ) - (b.toNat : ℤ) / (baseFeeChangeDenominator.toNat : ℤ) ≤ r ∧
      r ≤ b.toNat := by
  rw [calcBaseFee_below hl hb h, Option.some.injEq] at hr
  have hδ := baseFeeDelta_le_div (B := b.toNat) (Nat.sub_le (parentGasTarget p).toNat
    p.gasUsed.toNat)
  have h8 : (baseFeeChangeDenominator.toNat : ℤ) = 8 := rfl
  rw [h8]
  omega

/-- above the target the fee rises by at least one, and by at most `max 1 (b / 8)` when the gas
used is at most twice the target -/
theorem calcBaseFee_bounds_above (hl : c.isLondon p.number64)
    (hb : p.baseFee = some b) (ht : 0 < (parentGasTarget p).toNat)
    (h : (parentGasTarget p).toNat < p.gasUsed.toNat)
    (h2 : p.gasUsed.toNat ≤ 2 * (parentGasTarget p).toNat)
    {r : ℤ} (hr : calcBaseFee c p = some r) :
    (b.toNat : ℤ) < r ∧
      r ≤ b.toNat + max 1 ((b.toNat : ℤ) / (baseFeeChangeDenominator.toNat : ℤ)) := by
  rw [calcBaseFee_above hl hb ht h, Option.some.injEq] at hr
  have hδ := baseFeeDelta_le_div (B := b.toNat) (k := p.gasUsed.toNat -
    (parentGasTarget p).toNat) (t := (parentGasTarget p).toNat) (by omega)
  have h8 : (baseFeeChangeDenominator.toNat : ℤ) = 8 := rfl
  rw [h8]
  omega

/-! ## monotonicity -/

/-- the new fee grows with the gas used, the parent otherwise the same -/
theorem calcBaseFee_mono_gasUsed (hl : c.isLondon p.number64)
    (hb : p.baseFee = some b) (ht : 0 < (parentGasTarget p).toNat)
    {u₁ u₂ : UInt64} {r₁ r₂ : ℤ} (hu : u₁ ≤ u₂)
    (h₁ : calcBaseFee c { p with gasUsed := u₁ } = some r₁)
    (h₂ : calcBaseFee c { p with gasUsed := u₂ } = some r₂) : r₁ ≤ r₂ := by
  have hu' : u₁.toNat ≤ u₂.toNat := UInt64.le_iff_toNat_le.mp hu
  -- both parents have the target, number and base fee of `p`
  have e₁ : parentGasTarget { p with gasUsed := u₁ } = parentGasTarget p := rfl
  have e₂ : parentGasTarget { p with gasUsed := u₂ } = parentGasTarget p := rfl
  have cmp₁ := calcBaseFee_cmp (p := { p with gasUsed := u₁ }) hl hb ht h₁
  have cmp₂ := calcBaseFee_cmp (p := { p with gasUsed := u₂ }) hl hb ht h₂
  rw [e₁] at cmp₁
  rw [e₂] at cmp₂
  dsimp only at cmp₁ cmp₂
  rcases lt_trichotomy u₂.toNat (parentGasTarget p).toNat with h | h | h
  · -- both below the target: the smaller gas used has the larger step down
    have hl₁ : u₁.toNat < (parentGasTarget p).toNat := lt_of_le_of_lt hu' h
    rw [calcBaseFee_below (p := { p with gasUsed := u₁ }) hl hb hl₁, e₁,
      Option.some.injEq] at h₁
    rw [calcBaseFee_below (p := { p with gasUsed := u₂ }) hl hb h, e₂,
      Option.some.injEq] at h₂
    dsimp only at h₁ h₂
    have hδ := baseFeeDelta_mono_delta (B := b.toNat) (t := (parentGasTarget p).toNat)
      (show (parentGasTarget p).toNat - u₂.toNat ≤ (parentGasTarget p).toNat -
        u₁.toNat by omega)
    have hδ₁ := baseFeeDelta_le (B := b.toNat)
      (Nat.sub_le (parentGasTarget p).toNat u₁.toNat)
    omega
  · have := cmp₂.2.1 (UInt64.toNat_inj.mp h)
    rcases lt_or_eq_of_le (h ▸ hu') with h1 | h1
    · have := cmp₁.1 h1
      omega
    · have := cmp₁.2.1 (UInt64.toNat_inj.mp h1)
      omega
  · rcases lt_or_ge (parentGasTarget p).toNat u₁.toNat with h1 | h1
    · -- both above the target: the larger gas used has the larger step up
      rw [calcBaseFee_above (p := { p with gasUsed := u₁ }) hl hb ht h1, e₁,
        Option.some.injEq] at h₁
      rw [calcBaseFee_above (p := { p with gasUsed := u₂ }) hl hb ht h, e₂,
        Option.some.injEq] at h₂
      dsimp only at h₁ h₂
      have hδ := baseFeeDelta_mono_delta (B := b.toNat) (t := (parentGasTarget p).toNat)
        (show u₁.toNat - (parentGasTarget p).toNat ≤ u₂.toNat -
          (parentGasTarget p).toNat by omega)
      omega
    · have := cmp₂.2.2 h
      rcases lt_or_eq_of_le h1 with h1 | h1
      · have := cmp₁.1 h1
        omega
      · have := cmp₁.2.1 (UInt64.toNat_inj.mp h1)
        omega

/-- the new fee grows with the old one, the parent otherwise the same -/
theorem calcBaseFee_mono_baseFee (hl : c.isLondon p.number64)
    (ht : 0 < (parentGasTarget p).toNat) {b₁ b₂ : U256} {r₁ r₂ : ℤ}
    (hb : b₁ ≤ b₂)
    (h₁ : calcBaseFee c { p with baseFee := some b₁ } = some r₁)
    (h₂ : calcBaseFee c { p with baseFee := some b₂ } = some r₂) : r₁ ≤ r₂ := by
  have hb' : b₁.toNat ≤ b₂.toNat := hb
  -- both parents have the target, number and gas used of `p`
  have e₁ : parentGasTarget { p with baseFee := some b₁ } = parentGasTarget p := rfl
  have e₂ : parentGasTarget { p with baseFee := some b₂ } = parentGasTarget p := rfl
  rcases lt_trichotomy p.gasUsed.toNat (parentGasTarget p).toNat with h | h | h
  · -- below the target the step down grows by at most the raise of the fee
    rw [calcBaseFee_below (p := { p with baseFee := some b₁ }) hl rfl h, e₁,
      Option.some.injEq] at h₁
    rw [calcBaseFee_below (p := { p with baseFee := some b₂ }) hl rfl h, e₂,
      Option.some.injEq] at h₂
    dsimp only at h₁ h₂
    have hk := Nat.sub_le (parentGasTarget p).toNat p.gasUsed.toNat
    have hstep := baseFeeDelta_le_add hk ht hb'
    have hδ₁ := baseFeeDelta_le (B := b₁.toNat) hk
    have hδ₂ := baseFeeDelta_le (B := b₂.toNat) hk
    omega
  · rw [calcBaseFee_at_target (p := { p with baseFee := some b₁ }) hl rfl
      (UInt64.toNat_inj.mp h), Option.some.injEq] at h₁
    rw [calcBaseFee_at_target (p := { p with baseFee := some b₂ }) hl rfl
      (UInt64.toNat_inj.mp h), Option.some.injEq] at h₂
    omega
  · rw [calcBaseFee_above (p := { p with baseFee := some b₁ }) hl rfl ht h, e₁,
      Option.some.injEq] at h₁
    rw [calcBaseFee_above (p := { p with baseFee := some b₂ }) hl rfl ht h, e₂,
      Option.some.injEq] at h₂
    dsimp only at h₁ h₂
    have hδ := baseFeeDelta_mono_fee (k := p.gasUsed.toNat -
      (parentGasTarget p).toNat) (t := (parentGasTarget p).toNat) hb'
    omega

/-! ## the header of `prepareWork` -/

theorem toNat_fromBig {r : ℤ} (h0 : 0 ≤ r) (h : r < 2 ^ 256) :
    ((fromBig r).toNat : ℤ) = r := by
  simp only [fromBig, BitVec.toNat_ofInt, Int.ofNat_toNat]
  omega

/-- a header that carries the fee `CalcBaseFee` returns, in range, passes the base-fee check -/
theorem verifyBaseFee_fromBig {header : Header} {r : ℤ} (hr : calcBaseFee c p = some r)
    (h0 : 0 ≤ r) (h256 : r < 2 ^ 256) (hh : header.baseFee = some (fromBig r)) :
    verifyBaseFee c p header = some (.ok ()) := by
  simp [verifyBaseFee, hh, hr, toNat_fromBig h0 h256]

/-- the low word of the next number is one more, unless it is `2^64 - 1` -/
theorem number64_le_succ {n : U256} (hw : UInt64.ofNat n.toNat ≠ maxUint64) :
    UInt64.ofNat n.toNat ≤ UInt64.ofNat (n + 1).toNat := by
  have hne : n.toNat % 2 ^ 64 ≠ 2 ^ 64 - 1 := fun h =>
    hw (UInt64.toNat_inj.mp (by rw [UInt64.toNat_ofNat', h]; rfl))
  have h1 : (1 : U256).toNat = 1 := rfl
  rw [UInt64.le_iff_toNat_le]
  simp only [UInt64.toNat_ofNat', BitVec.toNat_add, h1]
  omega

/-- on a London parent whose number does not wrap its low word, `prepareWork` sets the base fee
to `FromBig` of `CalcBaseFee` -/
theorem prepareHeader_baseFee (hl : c.isLondon p.number64) (hw : p.number64 ≠ maxUint64)
    {r : ℤ} (hr : calcBaseFee c p = some r) (gasCeil : UInt64) (parentHash : Hash)
    (param : GenerateParams) :
    ∃ header, prepareHeader c gasCeil parentHash param p = some header ∧
      header.baseFee = some (fromBig r) := by
  have hn : c.isLondon (UInt64.ofNat (p.number + 1).toNat) = true :=
    isForked_of_le hl (number64_le_succ hw)
  simp only [prepareHeader, Header.number64, hn, if_true, hr, Option.bind_eq_bind,
    Option.bind_some]
  simp only [Header.number64] at hl
  simp only [hl, Bool.not_true, Bool.false_eq_true, if_false]
  exact ⟨_, rfl, rfl⟩

end London

/-! ## the update law -/

/-- the base-fee law of a London parent: at the target the fee stays, above it rises by one to
`b / 8`, below it falls by at most `b / 8`; it grows with the gas used and with the old fee;
and the header `prepareWork` builds passes the verifier's base-fee check when the fee is below
`2^256` and the low word of the parent's number is not `2^64 - 1` -/
theorem calcBaseFee_law (c : ChainConfig) (parent : Header) (b : U256)
    (hl : c.isLondon parent.number64 = true) (hb : parent.baseFee = some b)
    (hg : elasticityMultiplier ≤ parent.gasLimit) (hu : parent.gasUsed ≤ parent.gasLimit) :
    ∃ r, calcBaseFee c parent = some r ∧
      (parent.gasUsed = parentGasTarget parent → r = b.toNat) ∧
      ((b.toNat : ℤ) < r ↔ parentGasTarget parent < parent.gasUsed) ∧
      (parent.gasUsed < parentGasTarget parent →
        (b.toNat : ℤ) - (b.toNat : ℤ) / (baseFeeChangeDenominator.toNat : ℤ) ≤ r ∧
          r ≤ b.toNat) ∧
      (parentGasTarget parent < parent.gasUsed → parent.gasLimit % elasticityMultiplier = 0 →
        (b.toNat : ℤ) < r ∧
          r ≤ b.toNat + max 1 ((b.toNat : ℤ) / (baseFeeChangeDenominator.toNat : ℤ))) ∧
      (∀ (u₁ u₂ : UInt64) (r₁ r₂ : ℤ), u₁ ≤ u₂ →
        calcBaseFee c { parent with gasUsed := u₁ } = some r₁ →
        calcBaseFee c { parent with gasUsed := u₂ } = some r₂ → r₁ ≤ r₂) ∧
      (∀ (b₁ b₂ : U256) (r₁ r₂ : ℤ), b₁ ≤ b₂ →
        calcBaseFee c { parent with baseFee := some b₁ } = some r₁ →
        calcBaseFee c { parent with baseFee := some b₂ } = some r₂ → r₁ ≤ r₂) ∧
      (r < 2 ^ 256 → parent.number64 ≠ maxUint64 →
        ∀ (gasCeil : UInt64) (parentHash : Hash) (param : GenerateParams), ∃ header,
          prepareHeader c gasCeil parentHash param parent = some header ∧
          verifyBaseFee c parent header = some (.ok ())) := by
  have ht := parentGasTarget_pos hg
  obtain ⟨r, hr⟩ := calcBaseFee_isSome hl hb ht
  have hcmp := calcBaseFee_cmp hl hb ht hr
  refine ⟨r, hr, hcmp.2.1, ⟨fun hlt => ?_, fun h => hcmp.2.2 (UInt64.lt_iff_toNat_lt.mp h)⟩,
    fun h => calcBaseFee_bounds_below hl hb (UInt64.lt_iff_toNat_lt.mp h) hr, fun h he => ?_,
    fun _ _ _ _ h => calcBaseFee_mono_gasUsed hl hb ht h,
    fun _ _ _ _ h => calcBaseFee_mono_baseFee hl ht h, fun h256 hw gasCeil parentHash param => ?_⟩
  · -- a fee that rose had its gas used above the target
    apply UInt64.lt_iff_toNat_lt.mpr
    rcases lt_trichotomy parent.gasUsed.toNat (parentGasTarget parent).toNat with h | h | h
    · have := hcmp.1 h
      omega
    · have := hcmp.2.1 (UInt64.toNat_inj.mp h)
      omega
    · exact h
  · -- an even gas limit is twice the target, and bounds the gas used
    have hu' := UInt64.le_iff_toNat_le.mp hu
    have he' : parent.gasLimit.toNat % 2 = 0 := by
      have := congrArg UInt64.toNat he
      rwa [UInt64.toNat_mod] at this
    refine calcBaseFee_bounds_above hl hb ht (UInt64.lt_iff_toNat_lt.mp h) ?_ hr
    rw [toNat_parentGasTarget]
    omega
  · obtain ⟨header, hp, hh⟩ := prepareHeader_baseFee hl hw hr gasCeil parentHash param
    exact ⟨header, hp, verifyBaseFee_fromBig hr (calcBaseFee_nonneg hl hb ht hr) h256 hh⟩

/-- London from block one -/
def londonAtOne : ChainConfig where
  chainID := 1
  homesteadBlock := some 0
  spuriousDragonBlock := some 0
  istanbulBlock := some 0
  berlinBlock := some 0
  londonBlock := some 1
  shanghaiBlock := some 0
  beijingBlock := none
  eip1559FeeCollector := none
  eip1559FeeCollectorTransition := none
  parlia := false
  rewardEpoch := 0
  rewardLimit := 0

/-- a London parent below its target: 10 of 30 gas used, base fee 800 -/
def lowParent : Header :=
  { parentHash := 0, root := 0, txHash := 0, difficulty := 0, number := 7, signature := 0,
    gasLimit := 30, gasUsed := 10, baseFee := some 800 }

theorem calcBaseFee_law_belowTarget :
    londonAtOne.isLondon lowParent.number64 = true ∧
    lowParent.baseFee = some 800 ∧
    elasticityMultiplier ≤ lowParent.gasLimit ∧
    lowParent.gasUsed ≤ lowParent.gasLimit ∧
    ∃ r, calcBaseFee londonAtOne lowParent = some r ∧
      (lowParent.gasUsed = parentGasTarget lowParent → r = (800 : U256).toNat) ∧
      (((800 : U256).toNat : ℤ) < r ↔ parentGasTarget lowParent < lowParent.gasUsed) ∧
      (lowParent.gasUsed < parentGasTarget lowParent →
        ((800 : U256).toNat : ℤ) - ((800 : U256).toNat : ℤ) /
            (baseFeeChangeDenominator.toNat : ℤ) ≤ r ∧
          r ≤ (800 : U256).toNat) ∧
      (parentGasTarget lowParent < lowParent.gasUsed →
        lowParent.gasLimit % elasticityMultiplier = 0 →
        ((800 : U256).toNat : ℤ) < r ∧
          r ≤ (800 : U256).toNat +
            max 1 (((800 : U256).toNat : ℤ) / (baseFeeChangeDenominator.toNat : ℤ))) ∧
      (∀ (u₁ u₂ : UInt64) (r₁ r₂ : ℤ), u₁ ≤ u₂ →
        calcBaseFee londonAtOne { lowParent with gasUsed := u₁ } = some r₁ →
        calcBaseFee londonAtOne { lowParent with gasUsed := u₂ } = some r₂ → r₁ ≤ r₂) ∧
      (∀ (b₁ b₂ : U256) (r₁ r₂ : ℤ), b₁ ≤ b₂ →
        calcBaseFee londonAtOne { lowParent with baseFee := some b₁ } = some r₁ →
        calcBaseFee londonAtOne { lowParent with baseFee := some b₂ } = some r₂ → r₁ ≤ r₂) ∧
      (r < 2 ^ 256 → lowParent.number64 ≠ maxUint64 →
        ∀ (gasCeil : UInt64) (parentHash : Hash) (param : GenerateParams), ∃ header,
          prepareHeader londonAtOne gasCeil parentHash param lowParent = some header ∧
          verifyBaseFee londonAtOne lowParent header = some (.ok ())) :=
  ⟨by decide, rfl, by decide, by decide,
    calcBaseFee_law londonAtOne lowParent 800 (by decide) rfl (by decide) (by decide)⟩

/-- a London parent at number `2^64 - 1`, at its target with base fee one -/
def wrapParent : Header :=
  { parentHash := 0, root := 0, txHash := 0, difficulty := 0, number := 0xffffffffffffffff,
    signature := 0, gasLimit := 2, gasUsed := 1, baseFee := some 1 }

/-- on the parent numbered `2^64 - 1` the new number's low word is zero, `prepareWork` takes the
pre-London branch and leaves the base fee at zero, and the verifier, which expects one,
rejects it -/
theorem prepareHeader_wrap_fails_baseFee :
    londonAtOne.isLondon wrapParent.number64 = true ∧ wrapParent.baseFee = some 1 ∧
      elasticityMultiplier ≤ wrapParent.gasLimit ∧
      wrapParent.gasUsed ≤ wrapParent.gasLimit ∧
      calcBaseFee londonAtOne wrapParent = some 1 ∧
      ∃ header, prepareHeader londonAtOne 0 0 ⟨0, 0⟩ wrapParent = some header ∧
        verifyBaseFee londonAtOne wrapParent header ≠ some (.ok ()) := by
  refine ⟨by decide, rfl, by decide, by decide, ?_, _, rfl, ?_⟩
  · decide
  · decide

end N42
