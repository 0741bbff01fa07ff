import OpenFireblocks.Policy.Evaluate

/-!
# A larger request is judged no less strictly

Every rule that fires for a request has one of the same set, or one that denies, that fires for a larger
one: the conversions to float64 keep the order, and a limit is lower the lower the tier.
-/

namespace OpenFireblocks.Policy

open Go Binary64 Outcome

/-- The integer a native value stands for. -/
def weiOf (value : String) : Option Int := if value = "" then some 0 else bigSetString value.toList

/-- The tiers from enterprise to free. -/
def TierLe (tier tier' : String) : Prop :=
  tier = tier' ∨ tier = "enterprise" ∧ tier' ∈ ["pro", "free"] ∨ tier = "pro" ∧ tier' = "free"

/-- A native value that can be read is within the range of a float64. -/
def InRange (value : String) : Prop := ∀ n, weiOf value = some n → |nearest n| < 2 ^ 1024

/-- The same request, with a larger value or amount, a lower tier or more countries blocked. The native
values are within the range of a float64. -/
structure Stricter (req req' : PolicyRequest) : Prop where
  value : req.value = req'.value ∨
    ∃ m n, weiOf req.value = some m ∧ weiOf req'.value = some n ∧ m ≤ n
  inRange : InRange req.value ∧ InRange req'.value
  amount : req.assetAmount = req'.assetAmount ∨ ∃ m n, bigSetString req.assetAmount.toList = some m ∧
    bigSetString req'.assetAmount.toList = some n ∧ 0 ≤ m ∧ m ≤ n
  tier : TierLe req.customerTier req'.customerTier
  blocked : req.blockedCountries ⊆ req'.blockedCountries
  rest : req' = { req with
    value := req'.value, assetAmount := req'.assetAmount
    customerTier := req'.customerTier, blockedCountries := req'.blockedCountries }

structure InputLe (i j : Input) : Prop where
  value : ∀ limit : ℕ, limit < i.valueWei → limit < j.valueWei
  pegged : i.pegged ≤ j.pegged
  tier : TierLe i.customerTier j.customerTier
  blocked : i.blockedCountries ⊆ j.blockedCountries
  rest : i.toAddr = j.toAddr ∧ i.whitelist = j.whitelist ∧ i.country = j.country ∧
    i.pegCurrency = j.pegCurrency ∧ i.isAllowance = j.isAllowance ∧ i.isToken = j.isToken ∧
    i.hasPegged = j.hasPegged

variable {lib : PolicyLib} {addresses addresses' : List String} {req req' : PolicyRequest} {i j : Input}

/-! ## The rules -/

theorem listed_mono {list list' : List String} (h : list ⊆ list') {text : String}
    (hl : listed lib list text) : listed lib list' text := by
  obtain ⟨a, ha, hlower⟩ := hl
  exact ⟨a, h ha, hlower⟩

theorem free_le_pro {c : Ceilings} {currency : String} (h : limits currency = some c) :
    c.free ≤ c.pro := by
  unfold limits at h
  split_ifs at h <;> cases h <;> decide

theorem abovePeg_mono (h : InputLe i j) {limit limit' : Ceilings → ℕ}
    (hle : ∀ c, limits i.pegCurrency = some c → limit' c ≤ limit c) (hi : abovePeg i limit) :
    abovePeg j limit' := by
  obtain ⟨hpegged, c, hc, hlt⟩ := hi
  obtain ⟨-, -, -, hcurrency, -, -, hhas⟩ := h.rest
  refine ⟨hhas ▸ hpegged, c, hcurrency ▸ hc, ?_⟩
  have hcast : (limit' c : ℚ) ≤ limit c := by exact_mod_cast hle c hc
  exact (hcast.trans_lt hlt).trans_le h.pegged

theorem fires_mono (h : InputLe i j) (hlist : addresses ⊆ addresses') {r : Rule}
    (hr : r.Fires lib addresses i) :
    ∃ r' : Rule, r'.Fires lib addresses' j ∧ (r.denies → r'.denies) := by
  obtain ⟨hto, hwhite, hcountry, hcurrency, hallow, htoken, hhas⟩ := h.rest
  cases r with
  | globalWei => exact ⟨.globalWei, h.value _ hr, id⟩
  | highWei => exact ⟨.highWei, h.value _ hr, id⟩
  | freeWei =>
    have htier := h.tier
    simp only [TierLe, hr.1, String.reduceEq, false_and, or_false] at htier
    exact ⟨.freeWei, ⟨htier.symm, h.value _ hr.2⟩, id⟩
  | proWei =>
    rcases h.tier with htier | ⟨htier, -⟩ | ⟨-, htier⟩
    · exact ⟨.proWei, ⟨htier ▸ hr.1, h.value _ hr.2⟩, id⟩
    · simp [hr.1] at htier
    have hlow : (freeLimitWei : ℚ) < i.valueWei := lt_trans (by norm_num [freeLimitWei, proLimitWei]) hr.2
    exact ⟨.freeWei, ⟨htier, h.value _ hlow⟩, id⟩
  | sanctioned =>
    refine ⟨.sanctioned, listed_mono hlist ?_, id⟩
    rw [← hto]
    exact hr
  | notWhitelisted => exact ⟨.notWhitelisted, by rw [Rule.Fires, ← hwhite, ← hto]; exact hr, id⟩
  | blockedCountry =>
    refine ⟨.blockedCountry, listed_mono h.blocked ?_, id⟩
    rw [← hcountry]
    exact hr
  | globalPeg => exact ⟨.globalPeg, abovePeg_mono h (fun _ _ => le_rfl) hr, id⟩
  | highPeg => exact ⟨.highPeg, abovePeg_mono h (fun _ _ => le_rfl) hr, id⟩
  | freePeg =>
    have htier := h.tier
    simp only [TierLe, hr.1, String.reduceEq, false_and, or_false] at htier
    exact ⟨.freePeg, ⟨htier.symm, abovePeg_mono h (fun _ _ => le_rfl) hr.2⟩, id⟩
  | proPeg =>
    rcases h.tier with htier | ⟨htier, -⟩ | ⟨-, htier⟩
    · exact ⟨.proPeg, ⟨htier ▸ hr.1, abovePeg_mono h (fun _ _ => le_rfl) hr.2⟩, id⟩
    · simp [hr.1] at htier
    · exact ⟨.freePeg, ⟨htier, abovePeg_mono h (fun _ => free_le_pro) hr.2⟩, id⟩
  | noLimits => exact ⟨.noLimits, by rw [Rule.Fires, ← hhas, ← hcurrency]; exact hr, id⟩
  | unpegged => exact ⟨.unpegged, by rw [Rule.Fires, ← htoken, ← hhas, ← hallow]; exact hr, id⟩
  | unlimited => exact ⟨.unlimited, ⟨hallow ▸ hr.1, hr.2.trans_le h.pegged⟩, id⟩
  | allowance =>
    -- above the bound the approval is refused instead
    rcases le_or_gt j.pegged (nearest (10 ^ 70)) with hle | hgt
    · exact ⟨.allowance, ⟨hallow ▸ hr.1, hle⟩, id⟩
    · exact ⟨.unlimited, ⟨hallow ▸ hr.1, hgt⟩, fun _ => rfl⟩

theorem mem_fired {denies : Bool} {r : Rule} :
    r ∈ fired lib addresses i denies ↔ r.denies = denies ∧ r.Fires lib addresses i := by
  have hall : r ∈ allRules := by cases r <;> decide
  simp [fired, hall]

theorem messages_eq_nil {denies : Bool} :
    messages lib addresses i denies = [] ↔ fired lib addresses i denies = [] := by
  rw [messages, ← List.length_eq_zero_iff, List.length_mergeSort, List.length_map,
    List.length_eq_zero_iff]

/-! ## The decision -/

theorem exists_decision (addresses : List String) (h : inputOf lib req = .ok i) :
    ∃ d, evaluate lib addresses req = .ok d ∧
      (d.approved = false ↔ ∃ r : Rule, r.denies ∧ r.Fires lib addresses i) := by
  refine ⟨_, by rw [evaluate, h]; rfl, ?_⟩
  rw [← not_iff_not, Bool.not_eq_false, List.isEmpty_iff, messages_eq_nil,
    List.eq_nil_iff_forall_not_mem]
  simp [mem_fired]

theorem strictness_eq_two_iff (h : inputOf lib req = .ok i) :
    strictness (evaluate lib addresses req) = 2 ↔
      ∃ r : Rule, r.denies ∧ r.Fires lib addresses i := by
  obtain ⟨d, hd, hiff⟩ := exists_decision addresses h
  rw [hd, ← hiff, strictness]
  split_ifs with hdenied <;> simp [hdenied]

theorem strictness_eq_zero_iff (h : inputOf lib req = .ok i) :
    strictness (evaluate lib addresses req) = 0 ↔ ∀ r : Rule, ¬ r.Fires lib addresses i := by
  have hnil : (fired lib addresses i true = [] ∧ fired lib addresses i false = []) ↔
      ∀ r : Rule, ¬ r.Fires lib addresses i := by
    simp only [List.eq_nil_iff_forall_not_mem, mem_fired, ← forall_and]
    refine forall_congr' fun r => ?_
    cases r.denies <;> simp
  rw [← hnil, ← messages_eq_nil, ← messages_eq_nil, evaluate, h, ok_bind]
  cases hdeny : messages lib addresses i true <;> cases happrove : messages lib addresses i false <;>
    simp [strictness, pure, Except.pure]

theorem strictness_le (d : Result PolicyDecision) : strictness d ≤ 2 := by
  unfold strictness
  split
  · exact le_rfl
  · split_ifs <;> decide

/-! ## The conversions -/

theorem weiToFloat_eq_ok {s : String} {f : ℚ} :
    weiToFloat lib s = .ok f ↔ ∃ n : Int, weiOf s = some n ∧ nearest n = f := by
  unfold weiOf weiToFloat
  by_cases hempty : s = ""
  · simp [hempty]
  by_cases hzero : s = "0"
  · subst hzero
    have hread : bigSetString ['0'] = some 0 := rfl
    simp [hread]
  rw [if_neg (by simp [hempty, hzero]), if_neg hempty]
  cases bigSetString s.toList <;> simp

theorem weiToFloat_mono (h : Stricter req req') {f : ℚ} (hf : weiToFloat lib req'.value = .ok f) :
    ∃ v, weiToFloat lib req.value = .ok v ∧ |v| < 2 ^ 1024 ∧ ∀ limit : ℕ, limit < v → limit < f := by
  obtain ⟨n, hn, rfl⟩ := weiToFloat_eq_ok.mp hf
  rcases h.value with heq | ⟨m, k, hm, hk, hle⟩
  · exact ⟨nearest n, heq ▸ hf, h.inRange.2 n hn, fun _ => id⟩
  obtain rfl := Option.mem_unique hn hk
  refine ⟨nearest m, weiToFloat_eq_ok.mpr ⟨m, hm, rfl⟩, h.inRange.1 m hm, fun limit hlt => ?_⟩
  rcases le_or_gt m 0 with hneg | hpos
  · have hnonpos : nearest m ≤ 0 := roundTo_nonpos (by exact_mod_cast hneg)
    exact absurd (hnonpos.trans (Nat.cast_nonneg limit)) hlt.not_ge
  · exact hlt.trans_le
      (roundTo_mono (by exact_mod_cast (hpos.trans_le hle).le) (by exact_mod_cast hle))

theorem round_nonneg {x : ℚ} (h : 0 ≤ x) : 0 ≤ lib.round x := by
  have hzero := lib.round_exact 0 0 (by norm_num)
  norm_num at hzero
  exact hzero ▸ lib.round_mono le_rfl h

theorem inCurrency_mono {m n : Int} (h0 : 0 ≤ m) (h : m ≤ n) (decimals : ℕ) :
    inCurrency lib m decimals ≤ inCurrency lib n decimals := by
  have hm : (0 : ℚ) ≤ m := by exact_mod_cast h0
  have hscale : 0 ≤ lib.round (10 ^ decimals) := round_nonneg (by positivity)
  have hunits : lib.round m ≤ lib.round n := lib.round_mono hm (by exact_mod_cast h)
  have hquot : 0 ≤ lib.round m / lib.round (10 ^ decimals) := div_nonneg (round_nonneg hm) hscale
  have hle := div_le_div_of_nonneg_right hunits hscale
  exact roundTo_mono (round_nonneg (hquot.trans hle)) (lib.round_mono hquot hle)

theorem peggedAmount_eq_ok {units : Int} {p : ℚ × Bool} (hcurrency : req.pegCurrency ≠ "")
    (hunits : bigSetString req.assetAmount.toList = some units) :
    peggedAmount lib req = .ok p ↔ (0 ≤ req.assetDecimals ∧ req.assetDecimals ≤ 36) ∧ 0 ≤ units ∧
      inCurrency lib units req.assetDecimals.toNat < 2 ^ 1024 ∧
      (inCurrency lib units req.assetDecimals.toNat, true) = p := by
  have hamount : req.assetAmount ≠ "" := by
    intro hempty
    rw [hempty] at hunits
    cases hunits
  unfold peggedAmount
  rw [if_neg (by simp [hcurrency, hamount]), hunits]
  dsimp only
  split_ifs with hdecimals hneg hhigh
  · simp only [errorf_ne_ok, false_iff]
    omega
  · simp [hneg.not_ge]
  · simp [hhigh.not_gt]
  · rw [Except.ok.injEq]
    exact ⟨fun h => ⟨by omega, by omega, not_le.mp hhigh, h⟩, fun h => h.2.2.2⟩

theorem peggedAmount_mono (h : Stricter req req') {p : ℚ × Bool} (hp : peggedAmount lib req' = .ok p) :
    ∃ q, peggedAmount lib req = .ok q ∧ q.1 ≤ p.1 ∧ q.2 = p.2 := by
  rcases h.amount with heq | ⟨m, n, hm, hn, h0, hle⟩
  · have hsame : peggedAmount lib req' = peggedAmount lib req := by rw [h.rest, ← heq]; rfl
    exact ⟨p, hsame ▸ hp, le_rfl, rfl⟩
  have hcurrency' : req'.pegCurrency = req.pegCurrency := by rw [h.rest]
  have hdecimals' : req'.assetDecimals = req.assetDecimals := by rw [h.rest]
  by_cases hcurrency : req.pegCurrency = ""
  · have hnone : peggedAmount lib req' = .ok (0, false) := if_pos (.inl (hcurrency'.trans hcurrency))
    obtain rfl := Except.ok.inj (hp.symm.trans hnone)
    exact ⟨_, if_pos (.inl hcurrency), le_rfl, rfl⟩
  obtain ⟨hdecimals, -, hfinite, rfl⟩ := (peggedAmount_eq_ok (hcurrency' ▸ hcurrency) hn).mp hp
  rw [hdecimals'] at hdecimals hfinite ⊢
  have hmono : inCurrency lib m req.assetDecimals.toNat ≤ _ := inCurrency_mono h0 hle _
  exact ⟨_, (peggedAmount_eq_ok hcurrency hm).mpr ⟨hdecimals, h0, hmono.trans_lt hfinite, rfl⟩, hmono, rfl⟩

theorem inputOf_eq_ok : inputOf lib req = .ok i ↔ ∃ f p, weiToFloat lib req.value = .ok f ∧
    peggedAmount lib req = .ok p ∧ lib.number f = .ok f ∧ inputWith req f p = i := by
  simp only [inputOf, bind_eq_ok, pure, Except.pure, Except.ok.injEq]
  constructor
  · rintro ⟨f, hf, p, hp, g, hg, hi⟩
    obtain rfl := lib.number_exact hg
    exact ⟨g, p, hf, hp, hg, hi⟩
  · rintro ⟨f, p, hf, hp, hg, hi⟩
    exact ⟨f, hf, p, hp, f, hg, hi⟩

theorem inputOf_mono (h : Stricter req req') (hj : inputOf lib req' = .ok j) :
    ∃ i, inputOf lib req = .ok i ∧ InputLe i j := by
  obtain ⟨f, p, hf, hp, -, rfl⟩ := inputOf_eq_ok.mp hj
  obtain ⟨v, hv, hfinite, hvalue⟩ := weiToFloat_mono h hf
  obtain ⟨q, hq, hle, hhas⟩ := peggedAmount_mono h hp
  refine ⟨inputWith req v q, inputOf_eq_ok.mpr ⟨v, q, hv, hq, lib.number_finite hfinite, rfl⟩,
    ⟨hvalue, hle, h.tier, h.blocked, ?_⟩⟩
  rw [h.rest]
  exact ⟨rfl, rfl, rfl, rfl, rfl, rfl, hhas⟩

/-- **The policy is monotone.** A larger value or amount, a lower tier, and longer lists of sanctioned
addresses and blocked countries are never judged less strictly, and a listed destination is refused. The
amount that grows is not negative: an error refuses a negative one. -/
theorem policy_monotone (hstrict : Stricter req req') (hlist : addresses ⊆ addresses') :
    strictness (evaluate lib addresses req) ≤ strictness (evaluate lib addresses' req') ∧
      (listed lib addresses req.toAddr → strictness (evaluate lib addresses req) = 2) := by
  refine ⟨?_, fun hlisted => ?_⟩
  · cases hj : inputOf lib req' with
    | error e => exact (strictness_le _).trans_eq (by rw [evaluate, hj]; rfl)
    | ok j =>
      obtain ⟨i, hi, hle⟩ := inputOf_mono hstrict hj
      have hbound := strictness_le (evaluate lib addresses req)
      have htwo : strictness (evaluate lib addresses req) = 2 →
          strictness (evaluate lib addresses' req') = 2 := by
        rw [strictness_eq_two_iff hi, strictness_eq_two_iff hj]
        rintro ⟨r, hdenies, hfires⟩
        obtain ⟨r', hfires', hr'⟩ := fires_mono hle hlist hfires
        exact ⟨r', hr' hdenies, hfires'⟩
      have hzero : strictness (evaluate lib addresses' req') = 0 →
          strictness (evaluate lib addresses req) = 0 := by
        rw [strictness_eq_zero_iff hi, strictness_eq_zero_iff hj]
        intro hnone r hfires
        obtain ⟨r', hfires', -⟩ := fires_mono hle hlist hfires
        exact hnone r' hfires'
      omega
  · cases hi : inputOf lib req with
    | error e => rw [evaluate, hi]; rfl
    | ok i =>
      obtain ⟨_, _, -, -, -, rfl⟩ := inputOf_eq_ok.mp hi
      exact (strictness_eq_two_iff hi).mpr ⟨.sanctioned, rfl, hlisted⟩

/-- `big.Float` rounds to the nearest even, and OPA panics where it compares an infinite number. -/
def bigFloatLib : PolicyLib where
  number f := if |f| < 2 ^ 1024 then .ok f else .error (.panic "illegal value")
  number_finite h := if_pos h
  number_exact {f g} h := by
    split_ifs at h
    exact (Except.ok.inj h).symm
  round := roundTo 255
  round_mono h0 h := roundTo_mono (h0.trans h) h
  round_exact n k hn := by
    rcases Nat.eq_zero_or_pos n with rfl | hpos
    · simp
    rcases hn.lt_or_eq with hlt | rfl
    · have hexact := roundTo_mul_zpow hpos hlt (-k)
      rwa [zpow_neg, zpow_natCast, ← div_eq_mul_inv] at hexact
    · have hexact := roundTo_mul_zpow (p := 255) (n := 1) (by decide) (by decide) (256 - k)
      rw [zpow_sub₀ (by norm_num), zpow_natCast, Nat.cast_one, one_mul] at hexact
      exact_mod_cast hexact
  lower := String.toLower
  quote s := s!"\"{s}\""

def dollars (amount : String) : PolicyRequest where
  customerTier := "pro"
  toAddr := "0xb0b"
  value := "0"
  asset := "USDC"
  assetAmount := amount
  assetDecimals := 6
  pegCurrency := "USD"
  isAllowance := false
  whitelist := []
  blockedCountries := []
  country := "ZA"

theorem inRange_zero : InRange "0" := by
  intro n hn
  obtain rfl : 0 = n := Option.some.inj hn
  norm_num [nearest]

theorem policy_monotone_dollars :
    strictness (evaluate bigFloatLib [] (dollars "5")) ≤
      strictness (evaluate bigFloatLib ["0xb0b"] (dollars "7")) := by
  have hstrict : Stricter (dollars "5") (dollars "7") :=
    ⟨.inl rfl, ⟨inRange_zero, inRange_zero⟩, .inr ⟨5, 7, rfl, rfl, by decide, by decide⟩, .inl rfl,
      .refl _, rfl⟩
  exact (policy_monotone hstrict (List.nil_subset _)).1

/-- Minus one base unit is refused, and none is let through. -/
theorem negative_amount_refused :
    strictness (evaluate bigFloatLib [] (dollars "0")) < strictness (evaluate bigFloatLib [] (dollars "-1")) := by
  have hinput : inputOf bigFloatLib (dollars "0") = .ok (inputWith (dollars "0") 0 (0, true)) := by
    refine inputOf_eq_ok.mpr ⟨0, (0, true), rfl, ?_, bigFloatLib.number_finite (by norm_num), rfl⟩
    rw [peggedAmount_eq_ok (by decide) (show _ = some 0 from rfl)]
    simp [inCurrency, bigFloatLib, dollars]
  have hzero : strictness (evaluate bigFloatLib [] (dollars "0")) = 0 := by
    rw [strictness_eq_zero_iff hinput]
    intro r
    cases r <;> simp [Rule.Fires, inputWith, dollars, abovePeg, listed, limits]
  rw [hzero]
  decide

end OpenFireblocks.Policy
