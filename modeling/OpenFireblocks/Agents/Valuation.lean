import OpenFireblocks.Lib.Binary64

/-!
# What a transfer is worth in rand

`valueInZar` of `travel-rule/travel-rule.ts`, and the ways its result goes through the database. The
gateway's numbers are doubles: every operation is the exact one, rounded. An amount in rand is a
`NUMERIC(24, 2)` in the database, that is, a number of cents.

`exactZar` is the worth at the same rates without rounding. Where it is a whole number of cents within
a limit of at most `maxLimit`, the code computes and stores it exactly (`valueInZar_le_limit`,
`cents_numberOfCents`).
-/

namespace OpenFireblocks.Agents

open Binary64

/-- What the platform charges for. A price is `zarPerUsd` if the token is pegged to the dollar. -/
structure TransferFacts where
  asset : String
  /-- In base units. -/
  amount : Nat
  decimals : Nat
  pegCurrency : Option String
deriving DecidableEq

structure TravelRuleConfig where
  /-- As configured; the code reads it as a double. -/
  zarPerUsd : Option ℚ
  zarPerUsd_pos : ∀ rate, zarPerUsd = some rate → 0 < rate

/-- Whole units and the rest, each as a double. -/
def units (amount decimals : Nat) : ℚ :=
  nearest (nearest (amount / 10 ^ decimals : Nat)
    + nearest (nearest (amount % 10 ^ decimals : Nat) / nearest (10 ^ decimals : Nat)))

/-- `Math.round(n * 100)`. -/
def roundedCents (n : ℚ) : ℤ := ⌊nearest (n * 100) + 1 / 2⌋

def round2 (n : ℚ) : ℚ := nearest (roundedCents n / 100)

def upperText (text : String) : String := String.ofList (text.toList.map Char.toUpper)

section

variable (cfg : TravelRuleConfig) (t : TransferFacts)

/-- The value before it is rounded to cents, if the platform has one. -/
def unroundedZar : Option ℚ :=
  let peg := upperText (t.pegCurrency.getD "")
  if peg = "ZAR" then some (units t.amount t.decimals)
  else if peg = "USD" then
    cfg.zarPerUsd.map fun rate => nearest (units t.amount t.decimals * nearest rate)
  else none

def valueInZar : Option ℚ :=
  (unroundedZar cfg t).map round2

def exactZar : Option ℚ :=
  let peg := upperText (t.pegCurrency.getD "")
  if peg = "ZAR" then some (t.amount / 10 ^ t.decimals)
  else if peg = "USD" then cfg.zarPerUsd.map fun rate => t.amount / 10 ^ t.decimals * rate
  else none

end

/-- `Number(...)` of a `NUMERIC(24, 2)`. -/
def numberOfCents (cents : ℤ) : ℚ := nearest (cents / 100)

/-- How the driver writes a number, and what the database reads. -/
structure NumberText where
  text : ℚ → String
  /-- The decimal number in the text of a double. -/
  decimal : ℚ → ℚ
  /-- The text of a number is not negative unless the number is, and reads back as the number. -/
  decimal_nonneg : ∀ x, 0 ≤ x → 0 ≤ decimal x
  decimal_nearest : ∀ x, 0 ≤ x → nearest x = x → nearest (decimal x) = x

/-- A number as it is stored in a column `NUMERIC(24, 2)`. -/
def NumberText.cents (js : NumberText) (x : ℚ) : ℤ := ⌊js.decimal x * 100 + 1 / 2⌋

/-! ## The error of a valuation -/

theorem close_units (amount decimals : Nat) :
    Close 4 (units amount decimals) (amount / 10 ^ decimals) := by
  have hbase : (0 : ℚ) < ((10 ^ decimals : Nat) : ℚ) := by positivity
  have hsplit : (amount / 10 ^ decimals : ℚ) = (amount / 10 ^ decimals : Nat)
      + (amount % 10 ^ decimals : Nat) / ((10 ^ decimals : Nat) : ℚ) := by
    have h : ((10 ^ decimals * (amount / 10 ^ decimals) + amount % 10 ^ decimals : Nat) : ℚ)
        = amount := by rw [Nat.div_add_mod]
    push_cast at h hbase ⊢
    field_simp
    linarith
  rw [hsplit]
  have hwhole : Close 3 (nearest (amount / 10 ^ decimals : Nat)) (amount / 10 ^ decimals : Nat) :=
    (close_nearest (Nat.cast_nonneg _)).mono (by decide)
  have hfrac := ((close_nearest (Nat.cast_nonneg (amount % 10 ^ decimals))).div
    (close_nearest hbase.le) ((close_nearest hbase.le).pos_left hbase) hbase).nearest
  exact (hwhole.add hfrac).nearest

variable {cfg : TravelRuleConfig} {t : TransferFacts} {cents l : ℤ}

theorem close_unroundedZar {n v : ℚ} (hn : unroundedZar cfg t = some n)
    (hv : exactZar cfg t = some v) : Close 6 n v := by
  unfold unroundedZar at hn
  unfold exactZar at hv
  dsimp only at hn hv
  split at hn
  · next hpeg =>
    rw [if_pos hpeg] at hv
    cases hn
    cases hv
    exact (close_units t.amount t.decimals).mono (by decide)
  · next hzar =>
    rw [if_neg hzar] at hv
    split at hn
    · next hpeg =>
      rw [if_pos hpeg] at hv
      obtain ⟨rate, hrate, rfl⟩ := Option.map_eq_some_iff.mp hn
      rw [hrate] at hv
      cases hv
      have hpos := (cfg.zarPerUsd_pos rate hrate).le
      exact ((close_units t.amount t.decimals).mul (close_nearest hpos)).nearest
    · cases hn

theorem exists_exactZar {x : ℚ} (h : valueInZar cfg t = some x) : ∃ v, exactZar cfg t = some v := by
  obtain ⟨n, hn, -⟩ := Option.map_eq_some_iff.mp h
  unfold unroundedZar at hn
  unfold exactZar
  dsimp only at hn ⊢
  split at hn
  · next hpeg => exact ⟨_, if_pos hpeg⟩
  next hzar =>
  rw [if_neg hzar]
  split at hn
  · next hpeg =>
    obtain ⟨rate, hrate, -⟩ := Option.map_eq_some_iff.mp hn
    exact ⟨_, by rw [if_pos hpeg, hrate]; rfl⟩
  · cases hn

/-! ## Whole cents -/

/-- A trillion rand. Below it a double tells cents apart. -/
def maxLimit : ℤ := 10 ^ 14

/-- The transfer is worth this number of cents, if the platform can say what it is worth. -/
def WholeCents (cfg : TravelRuleConfig) (t : TransferFacts) : Prop :=
  ∀ v, exactZar cfg t = some v → ∃ cents : ℤ, v = cents / 100

theorem close_numberOfCents (h : 0 ≤ cents) :
    Close 1 (numberOfCents cents) (cents * (1 / 100)) := by
  rw [mul_one_div]
  exact close_nearest (div_nonneg (by exact_mod_cast h) (by norm_num))

theorem cents_numberOfCents (js : NumberText) (h : 0 ≤ cents) (hle : cents ≤ maxLimit) :
    js.cents (numberOfCents cents) = cents := by
  have hnonneg : (0 : ℚ) ≤ cents / 100 := div_nonneg (by exact_mod_cast h) (by norm_num)
  have hclose := close_numberOfCents h
  have hdecimal : Close 1 (js.decimal (numberOfCents cents)) (numberOfCents cents) := by
    have hx := js.decimal_nonneg _ hclose.nonneg
    have := (close_nearest hx).symm
    rwa [js.decimal_nearest _ hclose.nonneg (roundTo_roundTo hnonneg)] at this
  have hmul : Close 2 (js.decimal (numberOfCents cents) * 100) cents := by
    have := (hdecimal.trans hclose).mul (Close.refl (x := 100) (by norm_num))
    rwa [mul_assoc, one_div_mul_cancel (by norm_num), mul_one] at this
  refine hmul.floor_eq ?_
  have hle' : (cents : ℚ) ≤ 10 ^ 14 := by exact_mod_cast hle
  linarith

theorem limit_error (hl : l ≤ maxLimit) {n : Nat} (hn : n ≤ 3) :
    (l : ℚ) * ((1 + 1 / 2 ^ 53) ^ n - 1) < 1 := by
  have hle : (l : ℚ) ≤ 10 ^ 14 := by exact_mod_cast hl
  have hf := Close.one_le_factor n
  have hpow : (1 + 1 / 2 ^ 53 : ℚ) ^ n ≤ (1 + 1 / 2 ^ 53) ^ 3 :=
    pow_le_pow_right₀ (by norm_num) hn
  calc (l : ℚ) * ((1 + 1 / 2 ^ 53) ^ n - 1) ≤ 10 ^ 14 * ((1 + 1 / 2 ^ 53) ^ n - 1) :=
        mul_le_mul_of_nonneg_right hle (by linarith)
    _ ≤ 10 ^ 14 * ((1 + 1 / 2 ^ 53) ^ 3 - 1) := by linarith
    _ < 1 := by norm_num

theorem le_of_numberOfCents_le {k : ℤ} (hk : 0 ≤ k) (hl : 0 ≤ l) (hmax : l ≤ maxLimit)
    (h : numberOfCents k ≤ numberOfCents l) : k ≤ l :=
  (close_numberOfCents hk).le_of_le (by norm_num) (close_numberOfCents hl) h
    (limit_error hmax (by decide))

theorem add_le_of_nearest_le {s k : ℤ} (hs : 0 ≤ s) (hk : 0 ≤ k) (hl : 0 ≤ l) (hmax : l ≤ maxLimit)
    (h : nearest (numberOfCents s + numberOfCents k) ≤ numberOfCents l) : s + k ≤ l := by
  have hsum : Close 2 (nearest (numberOfCents s + numberOfCents k)) ((s + k : ℤ) * (1 / 100)) := by
    push_cast
    rw [add_mul]
    exact ((close_numberOfCents hs).add (close_numberOfCents hk)).nearest
  exact hsum.le_of_le (by norm_num) (close_numberOfCents hl) h (limit_error hmax (by decide))

theorem valueInZar_le_limit {x v : ℚ} (hx : valueInZar cfg t = some x)
    (hv : exactZar cfg t = some v) (hcents : v = cents / 100) (hl : 0 ≤ l) (hmax : l ≤ maxLimit)
    (hle : x ≤ numberOfCents l) : 0 ≤ cents ∧ cents ≤ l ∧ x = numberOfCents cents := by
  obtain ⟨n, hn, rfl⟩ := Option.map_eq_some_iff.mp hx
  have hclose := close_unroundedZar hn hv
  have hmul : Close 7 (nearest (n * 100)) cents := by
    have := (hclose.mul (Close.refl (x := 100) (by norm_num))).nearest
    rwa [hcents, div_mul_cancel₀ _ (by norm_num)] at this
  have h0 : 0 ≤ cents := by exact_mod_cast hmul.nonneg_right
  have hround : round2 n = numberOfCents (roundedCents n) := rfl
  rw [hround] at hle ⊢
  by_cases hc : cents ≤ maxLimit
  · have hk : roundedCents n = cents := by
      refine hmul.floor_eq ?_
      have : (cents : ℚ) ≤ 10 ^ 14 := by exact_mod_cast hc
      linarith
    rw [hk] at hle ⊢
    exact ⟨h0, le_of_numberOfCents_le h0 hl hmax hle, rfl⟩
  · -- larger than any limit, and so is what it is rounded to
    have hk : maxLimit + 1 ≤ roundedCents n := by
      refine hmul.le_floor (by decide) (by exact_mod_cast not_le.mp hc) ?_
      norm_num [maxLimit]
    have hkl := le_of_numberOfCents_le (by omega) hl hmax hle
    omega

end OpenFireblocks.Agents
