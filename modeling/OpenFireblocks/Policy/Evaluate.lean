import OpenFireblocks.Go.Json
import OpenFireblocks.Lib.Binary64

/-!
# The policy service, as `evaluate` and the Rego rules decide

A request is turned into the input of the rules: its native value as a float64, and the amount of a
pegged token in its currency. The rules that fire refuse the request or send it for approval.

* A float64 is the rational it stands for, and from `2 ^ 1024` on it is infinite.
* What OPA and the packages `math/big`, `strings` and `fmt` compute enters as a `PolicyLib`.
-/

namespace OpenFireblocks.Policy

open Go Binary64

structure PolicyLib where
  /-- The number that OPA compares for a float64 of its input. -/
  number : ℚ → Result ℚ
  number_finite : ∀ {f}, |f| < 2 ^ 1024 → number f = .ok f
  number_exact : ∀ {f g}, number f = .ok g → g = f
  /-- A `big.Float` of 256 bits: the nearest one. -/
  round : ℚ → ℚ
  round_mono : ∀ {x y}, 0 ≤ x → x ≤ y → round x ≤ round y
  round_exact : ∀ n k : ℕ, n ≤ 2 ^ 256 → round (n / 2 ^ k) = n / 2 ^ k
  /-- `strings.ToLower`, and `lower` of Rego. -/
  lower : String → String
  /-- The verb `%q` of `fmt`. -/
  quote : String → String

structure PolicyRequest where
  customerTier : String
  toAddr : String
  value : String
  asset : String
  assetAmount : String
  assetDecimals : Int
  pegCurrency : String
  isAllowance : Bool
  whitelist : List String
  blockedCountries : List String
  country : String

structure PolicyDecision where
  approved : Bool
  denials : List String
  requiresApproval : Bool
  approvalReasons : List String
  reason : String

/-- What `evaluate` adds to the request for the rules. -/
structure Input extends PolicyRequest where
  valueWei : ℚ
  isToken : Bool
  hasPegged : Bool
  pegged : ℚ

/-! ## The rules -/

structure Ceilings where
  top : ℕ
  free : ℕ
  pro : ℕ
  highValue : ℕ

def limits (currency : String) : Option Ceilings :=
  if currency = "USD" then some ⟨1000000, 10000, 100000, 100000⟩
  else if currency = "ZAR" then some ⟨18000000, 180000, 1800000, 1800000⟩
  else if currency = "EUR" then some ⟨900000, 9000, 90000, 90000⟩
  else none

def globalLimitWei : ℕ := 100000000000000000000
def freeLimitWei : ℕ := 10000000000000000000
def proLimitWei : ℕ := 50000000000000000000
def highValueWei : ℕ := 10000000000000000000

/-- The rules by file: `amount_limits`, `sanctions`, `approval_rules` and `token_limits`. -/
inductive Rule
  | globalWei | freeWei | proWei
  | sanctioned
  | highWei | notWhitelisted | blockedCountry
  | globalPeg | freePeg | proPeg | noLimits | unpegged | highPeg | unlimited | allowance
deriving DecidableEq

def Rule.denies : Rule → Bool
  | .highWei | .unpegged | .highPeg | .allowance => false
  | _ => true

def allRules : List Rule :=
  [.globalWei, .freeWei, .proWei, .sanctioned, .highWei, .notWhitelisted, .blockedCountry, .globalPeg,
    .freePeg, .proPeg, .noLimits, .unpegged, .highPeg, .unlimited, .allowance]

def abovePeg (i : Input) (limit : Ceilings → ℕ) : Prop :=
  i.hasPegged = true ∧ ∃ c ∈ limits i.pegCurrency, (limit c : ℚ) < i.pegged

instance (i : Input) (limit : Ceilings → ℕ) : Decidable (abovePeg i limit) :=
  inferInstanceAs (Decidable (_ ∧ _))

section

variable (lib : PolicyLib) (addresses : List String)

/-- The text is in the list, up to the case of its letters. -/
def listed (list : List String) (text : String) : Prop := ∃ a ∈ list, lib.lower a = lib.lower text

instance (list : List String) (text : String) : Decidable (listed lib list text) :=
  inferInstanceAs (Decidable (∃ a ∈ list, _))

def Rule.Fires (i : Input) : Rule → Prop
  | .globalWei => globalLimitWei < i.valueWei
  | .freeWei => i.customerTier = "free" ∧ freeLimitWei < i.valueWei
  | .proWei => i.customerTier = "pro" ∧ proLimitWei < i.valueWei
  | .sanctioned => listed lib addresses i.toAddr
  | .highWei => highValueWei < i.valueWei
  | .notWhitelisted => i.whitelist ≠ [] ∧ ¬ listed lib i.whitelist i.toAddr
  | .blockedCountry => listed lib i.blockedCountries i.country
  | .globalPeg => abovePeg i Ceilings.top
  | .freePeg => i.customerTier = "free" ∧ abovePeg i Ceilings.free
  | .proPeg => i.customerTier = "pro" ∧ abovePeg i Ceilings.pro
  | .noLimits => i.hasPegged = true ∧ limits i.pegCurrency = none
  | .unpegged => i.isToken = true ∧ i.hasPegged = false ∧ i.isAllowance = false
  | .highPeg => abovePeg i Ceilings.highValue
  | .unlimited => i.isAllowance = true ∧ nearest (10 ^ 70) < i.pegged
  | .allowance => i.isAllowance = true ∧ i.pegged ≤ nearest (10 ^ 70)

instance (i : Input) (r : Rule) : Decidable (r.Fires lib addresses i) := by
  cases r <;> dsimp only [Rule.Fires] <;> infer_instance

/-- The text a rule adds to its set. -/
def Rule.message (i : Input) : Rule → String
  | .globalWei => "amount exceeds global limit of 100 ETH"
  | .freeWei => "free tier limited to 10 ETH per transaction"
  | .proWei => "pro tier limited to 50 ETH per transaction"
  | .sanctioned => s!"destination {i.toAddr} is on the sanctions list"
  | .highWei => "high-value transaction (> 10 ETH) requires approval"
  | .notWhitelisted => s!"destination {i.toAddr} is not on the tenant whitelist"
  | .blockedCountry => s!"transactions from {i.country} are blocked for this tenant"
  | .globalPeg =>
    s!"amount exceeds the global limit of {limitText Ceilings.top} {i.pegCurrency} for {i.asset}"
  | .freePeg => s!"free tier limited to {limitText Ceilings.free} {i.pegCurrency} per transaction"
  | .proPeg => s!"pro tier limited to {limitText Ceilings.pro} {i.pegCurrency} per transaction"
  | .noLimits => s!"no amount limits are configured for {i.pegCurrency}; refusing to transact {i.asset} until they are"
  | .unpegged => s!"{i.asset} is not a pegged asset, so its value cannot be checked against a limit; approval required"
  | .highPeg => s!"high-value transfer (> {limitText Ceilings.highValue} {i.pegCurrency}) requires approval"
  | .unlimited => "refusing an unlimited token approval; approve a specific amount instead"
  | .allowance => s!"approving {i.toAddr} to spend {i.asset} requires approval; an allowance can be drawn at any later time"
where
  limitText (limit : Ceilings → ℕ) : ℕ := ((limits i.pegCurrency).map limit).getD 0

/-! ## The service -/

def weiToFloat (s : String) : Result ℚ :=
  if s = "" ∨ s = "0" then .ok 0
  else
    match bigSetString s.toList with
    | none => errorf s!"invalid wei value: {lib.quote s}"
    | some n => .ok (nearest n)

/-- Base units in the peg currency, rounded to 256 bits and to a float64. -/
def inCurrency (units : Int) (decimals : ℕ) : ℚ :=
  nearest (lib.round (lib.round units / lib.round (10 ^ decimals)))

variable (req : PolicyRequest)

def peggedAmount : Result (ℚ × Bool) :=
  if req.pegCurrency = "" ∨ req.assetAmount = "" then .ok (0, false)
  else if req.assetDecimals < 0 ∨ 36 < req.assetDecimals then
    errorf s!"implausible decimals {req.assetDecimals} for asset {lib.quote req.asset}"
  else
    match bigSetString req.assetAmount.toList with
    | none => errorf s!"invalid asset amount: {lib.quote req.assetAmount}"
    | some units =>
      if units < 0 then errorf s!"negative asset amount: {lib.quote req.assetAmount}"
      else
        let f := inCurrency lib units req.assetDecimals.toNat
        if 2 ^ 1024 ≤ f then
          errorf s!"asset amount {lib.quote req.assetAmount} does not convert to a finite value"
        else .ok (f, true)

def inputWith (valueWei : ℚ) (pegged : ℚ × Bool) : Input :=
  let asset := if req.asset = "" then "NATIVE" else req.asset
  { req with asset, valueWei, isToken := asset ≠ "NATIVE", hasPegged := pegged.2, pegged := pegged.1 }

def inputOf : Result Input := do
  let valueWei ← weiToFloat lib req.value
  let pegged ← peggedAmount lib req
  let valueWei ← lib.number valueWei
  return inputWith req valueWei pegged

/-- The rules that fire, of those that deny or of those that ask for approval. -/
def fired (i : Input) (denies : Bool) : List Rule :=
  allRules.filter fun r => r.denies = denies ∧ r.Fires lib addresses i

/-- The set `deny` or `require_approval`, which OPA hands over in the order of its texts. -/
def messages (i : Input) (denies : Bool) : List String :=
  ((fired lib addresses i denies).map (Rule.message i)).mergeSort fun a b => decide (a ≤ b)

def evaluate : Result PolicyDecision := do
  let i ← inputOf lib req
  let denials := messages lib addresses i true
  let approvalReasons := messages lib addresses i false
  let requiresApproval := !approvalReasons.isEmpty
  return {
    approved := denials.isEmpty
    denials, requiresApproval, approvalReasons
    reason :=
      if !denials.isEmpty then s!"{denials.length} policy violation(s)"
      else if requiresApproval then "approved, manual approval required"
      else "approved" }

end

/-- Allow, allow with approval, refuse: a denial and an error are refusals. -/
def strictness : Result PolicyDecision → ℕ
  | .error _ => 2
  | .ok d => if d.approved = false then 2 else if d.requiresApproval then 1 else 0

end OpenFireblocks.Policy
