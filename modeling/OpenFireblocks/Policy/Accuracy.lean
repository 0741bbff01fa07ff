import OpenFireblocks.Policy.Strictness

/-!
# How exact the limits are

Every limit is a float64 and the conversions keep the order, so what is at most a limit stays there.
What is above it by a cent is above it by 1/128, and the limit plus 1/128 is a float64 too.
-/

namespace OpenFireblocks.Policy

open Go Binary64 Outcome

variable {lib : PolicyLib} {addresses : List String} {req : PolicyRequest} {i : Input} {r : Rule}

/-! ## Rules with a limit -/

def Rule.weiLimit : Rule → Option ℕ
  | .globalWei => some globalLimitWei
  | .freeWei => some freeLimitWei
  | .proWei => some proLimitWei
  | .highWei => some highValueWei
  | _ => none

def Rule.pegLimit : Rule → Option (Ceilings → ℕ)
  | .globalPeg => some Ceilings.top
  | .freePeg => some Ceilings.free
  | .proPeg => some Ceilings.pro
  | .highPeg => some Ceilings.highValue
  | _ => none

def Rule.For (tier : String) : Rule → Prop
  | .freeWei | .freePeg => tier = "free"
  | .proWei | .proPeg => tier = "pro"
  | _ => True

theorem fires_iff_of_weiLimit {limit : ℕ} (h : r.weiLimit = some limit) :
    r.Fires lib addresses i ↔ r.For i.customerTier ∧ limit < i.valueWei := by
  cases r <;> cases h <;> simp [Rule.Fires, Rule.For]

theorem fires_iff_of_pegLimit {limit : Ceilings → ℕ} (h : r.pegLimit = some limit) :
    r.Fires lib addresses i ↔ r.For i.customerTier ∧ abovePeg i limit := by
  cases r <;> cases h <;> simp [Rule.Fires, Rule.For]

theorem nearest_weiLimit {limit : ℕ} (h : r.weiLimit = some limit) :
    0 < limit ∧ nearest limit = limit := by
  obtain ⟨n, e, hpos, hlt, rfl⟩ : ∃ n e : ℕ, 0 < n ∧ n < 2 ^ 53 ∧ limit = n * 2 ^ e := by
    cases r <;> cases h
    · exact ⟨5 ^ 20, 20, by decide, by decide, by decide⟩
    · exact ⟨5 ^ 19, 19, by decide, by decide, by decide⟩
    · exact ⟨5 ^ 20, 19, by decide, by decide, by decide⟩
    · exact ⟨5 ^ 19, 19, by decide, by decide, by decide⟩
  have hnearest := roundTo_mul_zpow hpos hlt e
  exact ⟨by positivity, by exact_mod_cast hnearest⟩

theorem pegLimit_range {limit : Ceilings → ℕ} {c : Ceilings} {currency : String}
    (h : r.pegLimit = some limit) (hc : limits currency = some c) :
    0 < limit c ∧ limit c < 2 ^ 25 := by
  unfold limits at hc
  split_ifs at hc <;> cases hc <;> cases r <;> cases h <;> decide

/-! ## Amounts in a currency -/

theorem nearest_round {n : ℕ} (h0 : 0 < n) (hn : n < 2 ^ 53) (k : ℕ) :
    nearest (lib.round (n / 2 ^ k)) = n / 2 ^ k := by
  have hnearest := roundTo_mul_zpow h0 hn (-k)
  rw [zpow_neg, zpow_natCast, ← div_eq_mul_inv] at hnearest
  rw [lib.round_exact n k (hn.le.trans (by norm_num)), nearest, hnearest]

theorem nearest_round_mono {x y : ℚ} (h0 : 0 ≤ x) (h : x ≤ y) :
    nearest (lib.round x) ≤ nearest (lib.round y) :=
  roundTo_mono (round_nonneg (h0.trans h)) (lib.round_mono h0 h)

section

variable {units : Int} {decimals limit : ℕ} (hdecimals : decimals ≤ 36) (hlimit : limit < 2 ^ 25)
include hdecimals

theorem round_ten_pow : lib.round (10 ^ decimals) = 10 ^ decimals := by
  have hpow : 10 ^ decimals ≤ 10 ^ 36 := Nat.pow_le_pow_right (by decide) hdecimals
  have hscale := lib.round_exact (10 ^ decimals) 0 (hpow.trans (by norm_num))
  rw [pow_zero, div_one] at hscale
  exact_mod_cast hscale

theorem inCurrency_of_le (h0 : 0 ≤ units) (hunits : units ≤ 2 ^ 256) :
    inCurrency lib units decimals = nearest (lib.round (units / 10 ^ decimals)) := by
  lift units to ℕ using h0
  have hround := lib.round_exact units 0 (by exact_mod_cast hunits)
  rw [pow_zero, div_one] at hround
  rw [inCurrency, round_ten_pow hdecimals, Int.cast_natCast, hround]

include hlimit

theorem inCurrency_le (h0 : 0 ≤ units) (hpos : 0 < limit) (h : (units : ℚ) / 10 ^ decimals ≤ limit) :
    inCurrency lib units decimals ≤ limit := by
  have hunits : units ≤ 2 ^ 256 := by
    rw [div_le_iff₀ (by positivity)] at h
    have hpow : 10 ^ decimals ≤ 10 ^ 36 := Nat.pow_le_pow_right (by decide) hdecimals
    calc units ≤ limit * 10 ^ decimals := by exact_mod_cast h
      _ ≤ 2 ^ 25 * 10 ^ 36 := by exact_mod_cast Nat.mul_le_mul hlimit.le hpow
      _ ≤ 2 ^ 256 := by norm_num
  have hlimit' : nearest (lib.round _) = _ := nearest_round hpos (hlimit.trans (by norm_num)) 0
  rw [pow_zero, div_one] at hlimit'
  rw [inCurrency_of_le hdecimals h0 hunits]
  exact (nearest_round_mono (div_nonneg (by exact_mod_cast h0) (by positivity)) h).trans_eq hlimit'

theorem lt_inCurrency (h0 : 0 ≤ units) (h : (limit : ℚ) + 1 / 100 ≤ units / 10 ^ decimals) :
    limit < inCurrency lib units decimals := by
  -- no more than `2 ^ 256` of the units are needed
  obtain ⟨m, hm, hle, hbig, hquot⟩ : ∃ m : Int, 0 ≤ m ∧ m ≤ units ∧ m ≤ 2 ^ 256 ∧
      ((128 * limit + 1 : ℕ) : ℚ) / 2 ^ 7 ≤ m / 10 ^ decimals := by
    rcases le_total units (2 ^ 256) with hsmall | hlarge
    · exact ⟨units, h0, le_rfl, hsmall, by push_cast; linarith⟩
    refine ⟨2 ^ 256, by norm_num, hlarge, le_rfl, ?_⟩
    have hscale : (10 : ℚ) ^ decimals ≤ 10 ^ 36 := pow_le_pow_right₀ (by norm_num) hdecimals
    have hcast : (limit : ℚ) ≤ 2 ^ 25 := by exact_mod_cast hlimit.le
    rw [le_div_iff₀ (by positivity)]
    push_cast
    nlinarith
  have hstep : nearest (lib.round _) ≤ _ := nearest_round_mono (by positivity) hquot
  rw [nearest_round (by omega) (by omega), ← inCurrency_of_le hdecimals hm hbig] at hstep
  refine lt_of_lt_of_le ?_ (hstep.trans (inCurrency_mono hm hle _))
  push_cast
  linarith

end

/-- **The limits are exact to a cent, and to the last bit of a native value**, in every request that is
evaluated. -/
theorem limits_accurate (hi : inputOf lib req = .ok i) :
    (∀ {limit : ℕ} {n : Int}, r.weiLimit = some limit → weiOf req.value = some n →
      ((n : ℚ) ≤ limit → ¬ r.Fires lib addresses i) ∧
      (r.For req.customerTier → limit * (1 + 1 / 2 ^ 52) ≤ (n : ℚ) → r.Fires lib addresses i)) ∧
    ∀ {limit : Ceilings → ℕ} {c : Ceilings} {n : Int}, r.pegLimit = some limit →
      limits req.pegCurrency = some c → bigSetString req.assetAmount.toList = some n →
      ((n : ℚ) / 10 ^ req.assetDecimals.toNat ≤ limit c → ¬ r.Fires lib addresses i) ∧
      (r.For req.customerTier → limit c + 1 / 100 ≤ (n : ℚ) / 10 ^ req.assetDecimals.toNat →
        r.Fires lib addresses i) := by
  obtain ⟨f, p, hf, hp, -, rfl⟩ := inputOf_eq_ok.mp hi
  refine ⟨fun {limit n} hlimit hn => ?_, fun {limit c n} hlimit hc hn => ?_⟩
  · obtain ⟨hpos, hnearest⟩ := nearest_weiLimit hlimit
    obtain ⟨m, hm, rfl⟩ := weiToFloat_eq_ok.mp hf
    obtain rfl := Option.mem_unique hn hm
    rw [fires_iff_of_weiLimit hlimit]
    refine ⟨fun hle hfires => hfires.2.not_ge ?_, fun hfor hge => ⟨hfor, lt_nearest ?_ hge⟩⟩
    · exact (roundTo_mono (Nat.cast_nonneg limit) hle).trans_eq hnearest
    · exact_mod_cast hpos
  · obtain ⟨hpos, hlt⟩ := pegLimit_range hlimit hc
    have hcurrency : req.pegCurrency ≠ "" := by
      rintro hempty
      rw [hempty] at hc
      cases hc
    obtain ⟨hdecimals, h0, -, rfl⟩ := (peggedAmount_eq_ok hcurrency hn).mp hp
    rw [fires_iff_of_pegLimit hlimit]
    refine ⟨fun hle hfires => ?_, fun hfor hge => ⟨hfor, rfl, c, hc, lt_inCurrency (by omega) hlt h0 hge⟩⟩
    obtain ⟨-, -, c', hc', habove⟩ := hfires
    obtain rfl := Option.mem_unique hc hc'
    exact habove.not_ge (inCurrency_le (by omega) hlt h0 hpos hle)

theorem two_pow_lt : (2 : ℚ) ^ 20 < 2 ^ 1024 := pow_lt_pow_right₀ (by norm_num) (by decide)

theorem limits_accurate_dollars : ∃ i, inputOf bigFloatLib (dollars "1000000000000") = .ok i ∧
    ¬ Rule.globalPeg.Fires bigFloatLib [] i := by
  have hunits : bigSetString (dollars "1000000000000").assetAmount.toList = some 1000000000000 := by decide
  have hle : inCurrency bigFloatLib 1000000000000 6 ≤ (1000000 : ℕ) :=
    inCurrency_le (by decide) (by decide) (by decide) (by decide) (by norm_num)
  have hinput : inputOf bigFloatLib (dollars "1000000000000") = .ok _ := inputOf_eq_ok.mpr
    ⟨0, _, rfl, (peggedAmount_eq_ok (by decide) hunits).mpr
      ⟨by decide, by decide, (hle.trans (by norm_num)).trans_lt two_pow_lt, rfl⟩,
      bigFloatLib.number_finite (by norm_num), rfl⟩
  refine ⟨_, hinput, ((limits_accurate hinput).2 rfl rfl hunits).1 ?_⟩
  change (1000000000000 : ℚ) / 10 ^ 6 ≤ (1000000 : ℕ)
  norm_num

/-- `10 ^ 309` dollars, in base units. -/
def hugeAmount : String := String.ofList ('1' :: List.replicate 315 '0')

/-- More than a million and a cent, and not a finite number of dollars. -/
theorem huge_amount_undecided : bigSetString (dollars hugeAmount).assetAmount.toList = some (10 ^ 315) ∧
    (1000000 + 1 / 100 : ℚ) ≤ (10 ^ 315 : ℤ) / 10 ^ 6 ∧
    ∀ d, evaluate bigFloatLib [] (dollars hugeAmount) ≠ .ok d := by
  have hunits : bigSetString (dollars hugeAmount).assetAmount.toList = some (10 ^ 315) := by
    change bigSetString (String.ofList _).toList = _
    rw [String.toList_ofList]
    decide +kernel
  have hle : (2 : ℚ) ^ 1044 ≤ (10 ^ 315 : ℤ) := by
    exact_mod_cast (by decide +kernel : 2 ^ 1044 ≤ 10 ^ 315)
  have hfactor (k : ℕ) : (2 : ℚ) ^ k * 10 ^ 6 ≤ 2 ^ (k + 20) := by
    rw [pow_add]
    exact mul_le_mul_of_nonneg_left (by norm_num) (by positivity)
  have hquot {x : ℚ} (hx : 2 ^ 1044 ≤ x) : (2 : ℚ) ^ 1024 ≤ x / 10 ^ 6 := by
    rw [le_div_iff₀ (by positivity)]
    exact (hfactor 1024).trans hx
  refine ⟨hunits, le_trans (le_trans (by norm_num) two_pow_lt.le) (hquot hle), fun d hd => ?_⟩
  obtain ⟨i, hi, -⟩ := bind_eq_ok.mp hd
  obtain ⟨_, p, -, hp, -⟩ := inputOf_eq_ok.mp hi
  obtain ⟨-, -, hfinite, -⟩ := (peggedAmount_eq_ok (by decide) hunits).mp hp
  refine hfinite.not_ge (two_pow_le_roundTo (two_pow_le_roundTo ?_))
  rw [round_ten_pow (by decide)]
  exact hquot (two_pow_le_roundTo hle)

end OpenFireblocks.Policy
