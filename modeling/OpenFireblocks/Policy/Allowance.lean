import OpenFireblocks.Evm.Routes
import OpenFireblocks.Policy.Accuracy

/-!
# Unlimited approvals

The rule against an unlimited approval compares an amount of money. With a peg, the limits of the
currency refuse the approval long before it; without one the amount is zero, and a person is asked.
-/

namespace OpenFireblocks.Policy

open Go Binary64 Outcome
open Evm (EthersLib Erc20Call Token decodeErc20Call tokenIntent policyInput)

def amountText (n : ℕ) : String := String.ofList (Go.decimal n)

/-- What the gateway posts, as the service reads it: a field that is left out is empty. -/
def PolicyRequest.ofInput (q : Gateway.PolicyInput) : PolicyRequest where
  customerTier := q.customerTier
  toAddr := q.toAddr
  value := amountText q.value
  asset := q.asset.getD ""
  assetAmount := (q.assetAmount.map amountText).getD ""
  assetDecimals := q.assetDecimals.getD 0
  pegCurrency := q.pegCurrency.getD ""
  isAllowance := q.isAllowance.getD false
  whitelist := q.whitelist.getD []
  blockedCountries := q.blockedCountries.getD []
  country := q.country.getD ""

/-- What the policy is asked about a call of a token. -/
def tokenRequest (call : Erc20Call) (token : Token) (customer : Gateway.Customer) (value : ℕ)
    (chainId : Int) (country : Option String) : PolicyRequest :=
  .ofInput (policyInput customer call.recipient value chainId country (tokenIntent call token))

variable {lib : PolicyLib} {addresses : List String} {req : PolicyRequest} {i : Input}

theorem bigSetString_amountText (n : ℕ) : bigSetString (amountText n).toList = some (n : Int) := by
  have hdigits := all_isDigit_decimal n
  rw [amountText, String.toList_ofList]
  unfold bigSetString
  split
  · next h => simp [h] at hdigits
  · next h => simp [h] at hdigits
  · rw [parseDigits_decimal]
    rfl

theorem weiOf_amountText (n : ℕ) : weiOf (amountText n) = some (n : Int) := by
  unfold weiOf
  split
  · next hempty =>
    have hread := bigSetString_amountText n
    rw [hempty] at hread
    cases hread
  · exact bigSetString_amountText n

theorem nearest_lt_of_le {x : ℚ} (h0 : 0 ≤ x) (h : x ≤ 2 ^ 256) :
    0 ≤ nearest x ∧ nearest x < 2 ^ 1024 := by
  refine ⟨roundTo_nonneg h0, lt_of_le_of_lt ?_ (b := (2 : ℚ) ^ 256) ?_⟩
  · exact (roundTo_mono (by positivity) h).trans_eq (roundTo_two_pow 256)
  · exact pow_lt_pow_right₀ (by norm_num) (by decide)

theorem inCurrency_lt {units : Int} {decimals : ℕ} (hdecimals : decimals ≤ 36) (h0 : 0 ≤ units)
    (h : units ≤ 2 ^ 256) : inCurrency lib units decimals < 2 ^ 1024 := by
  have hcast : (0 : ℚ) ≤ units ∧ (units : ℚ) ≤ 2 ^ 256 := ⟨by exact_mod_cast h0, by exact_mod_cast h⟩
  have hquot : (units : ℚ) / 10 ^ decimals ≤ 2 ^ 256 :=
    (div_le_self hcast.1 (one_le_pow₀ (by norm_num))).trans hcast.2
  have hround : lib.round (units / 10 ^ decimals) ≤ 2 ^ 256 := by
    have hexact := lib.round_exact (2 ^ 256) 0 le_rfl
    norm_num at hexact hquot ⊢
    exact (lib.round_mono (by positivity) hquot).trans_eq hexact
  rw [inCurrency_of_le hdecimals h0 h]
  exact (nearest_lt_of_le (round_nonneg (by positivity)) hround).2

theorem inputOf_amountText {n : ℕ} {p : ℚ × Bool} (hvalue : req.value = amountText n)
    (hn : n < 2 ^ 256) (hp : peggedAmount lib req = .ok p) :
    inputOf lib req = .ok (inputWith req (nearest n) p) := by
  have hcast : (n : ℚ) ≤ 2 ^ 256 := by exact_mod_cast hn.le
  obtain ⟨hlow, hhigh⟩ := nearest_lt_of_le (Nat.cast_nonneg n) hcast
  have hread : weiToFloat lib req.value = .ok (nearest n) := by
    rw [hvalue]
    exact weiToFloat_eq_ok.mpr ⟨n, weiOf_amountText n, by rw [Int.cast_natCast]⟩
  refine inputOf_eq_ok.mpr ⟨_, p, hread, hp, lib.number_finite ?_, rfl⟩
  rwa [abs_of_nonneg hlow]

/-- What a peg currency allows is less than `2 ^ 255` base units of any token. -/
theorem denied_of_pegged {units : ℕ} {f : ℚ}
    (hdecimals : 0 ≤ req.assetDecimals ∧ req.assetDecimals ≤ 36) (hunits : 2 ^ 255 ≤ units) :
    ∃ r : Rule, r.denies ∧ r.Fires lib addresses
      (inputWith req f (inCurrency lib units req.assetDecimals.toNat, true)) := by
  cases hlimits : limits req.pegCurrency with
  | none => exact ⟨.noLimits, rfl, rfl, hlimits⟩
  | some c =>
    have hlimit : c.top < 2 ^ 25 := (pegLimit_range (r := .globalPeg) rfl hlimits).2
    refine ⟨.globalPeg, rfl, rfl, c, hlimits, lt_inCurrency (by omega) hlimit (by omega) ?_⟩
    have hscale : (10 : ℚ) ^ req.assetDecimals.toNat ≤ 10 ^ 36 :=
      pow_le_pow_right₀ (by norm_num) (by omega)
    have hcast : (2 : ℚ) ^ 255 ≤ units := by exact_mod_cast hunits
    have htop : (c.top : ℚ) ≤ 2 ^ 25 := by exact_mod_cast hlimit.le
    rw [le_div_iff₀ (by positivity), Int.cast_natCast]
    nlinarith

/-- An organisation without lists. -/
def plainCustomer : Gateway.Customer := ⟨"org-1", "pro", ⟨none, none⟩, false⟩

theorem approved_of_unpegged {call : Erc20Call} {token : Token} (h : token.pegCurrency.getD "" = "") :
    ∃ d, evaluate lib [] (tokenRequest call token plainCustomer 0 1 none) = .ok d ∧
      d.approved := by
  have hinput : inputOf lib (tokenRequest call token plainCustomer 0 1 none) = .ok _ :=
    inputOf_amountText (n := 0) rfl (by norm_num) (if_pos (.inl h))
  obtain ⟨d, hd, hiff⟩ := exists_decision [] hinput
  refine ⟨d, hd, ?_⟩
  rw [← Bool.not_eq_false, hiff]
  rintro ⟨r, hdenies, hfires⟩
  refine absurd hfires ?_
  cases r <;> simp [Rule.denies] at hdenies <;> simp [Rule.Fires, inputWith, tokenRequest,
    PolicyRequest.ofInput, policyInput, abovePeg, listed, plainCustomer]
  exact fun _ => roundTo_nonneg (by positivity)

/--
**An unlimited approval is refused exactly for the tokens with a peg**, as is any call for as much.
Of another token it is not refused to some organisation, only sent for approval.
-/
theorem unlimited_denied_iff {ethers : EthersLib} {data : String} {call : Erc20Call}
    {token : Token} (hread : decodeErc20Call ethers (some data) = .ok (some call))
    (hamount : 2 ^ 255 ≤ call.amount) (hdecimals : token.decimals ≤ 36) :
    (∀ addresses customer value chainId country, value < 2 ^ 256 →
      ∃ d, evaluate lib addresses (tokenRequest call token customer value chainId country) = .ok d ∧
        d.approved = false) ↔
    token.pegCurrency.getD "" ≠ "" := by
  obtain ⟨-, bs, -, -, hcall⟩ := Evm.decodeErc20Call_eq_ok hread
  have hmax : call.amount < 2 ^ 256 := by
    have hlt := BigEndian.toNat_lt (Evm.abiWord bs (call.method.arity - 1))
    rw [Evm.length_abiWord hcall.length (by cases call.method <;> decide), ← hcall.amount] at hlt
    exact hlt.trans_eq (by norm_num)
  constructor
  · intro hdenied hunpegged
    obtain ⟨d, hd, hrefused⟩ := hdenied [] plainCustomer 0 1 none (by norm_num)
    obtain ⟨d', hd', happroved⟩ := approved_of_unpegged hunpegged
    obtain rfl := Except.ok.inj (hd.symm.trans hd')
    rw [hrefused] at happroved
    cases happroved
  · intro hpegged addresses customer value chainId country hvalue
    have hdec : (0 : Int) ≤ token.decimals ∧ (token.decimals : Int) ≤ 36 := by omega
    have hpeg : (tokenRequest call token customer value chainId country).pegCurrency ≠ "" := hpegged
    have hp : peggedAmount lib (tokenRequest call token customer value chainId country) = .ok _ :=
      (peggedAmount_eq_ok hpeg (bigSetString_amountText call.amount)).mpr
        ⟨hdec, by omega, inCurrency_lt hdecimals (by omega) (by exact_mod_cast hmax.le), rfl⟩
    obtain ⟨d, hd, hiff⟩ := exists_decision addresses (inputOf_amountText rfl hvalue hp)
    exact ⟨d, hd, hiff.mpr (denied_of_pegged hdec hamount)⟩

/-- `approve` of the largest amount there is. -/
def approveAll : String :=
  String.ofList ("0x095ea7b3".toList ++ List.replicate 24 '0' ++ List.replicate 40 '1' ++
    List.replicate 64 'f')

def approval : Erc20Call :=
  ⟨.approve, "0x1111111111111111111111111111111111111111", none, 2 ^ 256 - 1, true⟩

theorem decodeErc20Call_approveAll :
    decodeErc20Call Evm.digitsLib (some approveAll) = .ok (some approval) := by
  decide +kernel

def ether (pegCurrency : Option String) : Token :=
  ⟨1, some "0xc02aaa39b223fe8d0a0e5c4f27ead9083c756cc2", "WETH", 18, pegCurrency, none, .verified⟩

theorem unlimited_denied_iff_dollars : ∃ d, evaluate bigFloatLib []
    (tokenRequest approval (ether (some "USD")) plainCustomer 0 1 none) = .ok d ∧ d.approved = false :=
  (unlimited_denied_iff decodeErc20Call_approveAll (by decide) (by decide)).mpr (by decide) [] _ 0 1
    none (by decide)

theorem unlimited_not_denied :
    decodeErc20Call Evm.digitsLib (some approveAll) = .ok (some approval) ∧
    approval.method = .approve ∧ 2 ^ 255 ≤ approval.amount ∧ ∃ d, evaluate bigFloatLib []
      (tokenRequest approval (ether none) plainCustomer 0 1 none) = .ok d ∧ d.approved = true :=
  ⟨decodeErc20Call_approveAll, rfl, by decide, approved_of_unpegged rfl⟩

end OpenFireblocks.Policy
