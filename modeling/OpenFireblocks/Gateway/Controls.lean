import OpenFireblocks.Lib.Outcome

/-!
# What stands before a signature

The stops every signing path of the gateway asks: the organisation's freeze and its whitelist
(`controls/controls.service.ts`), the spending policy, and the key itself. Each either lets the
request through or ends it with the error the client gets. What they read is one record, `Services`.
-/

namespace OpenFireblocks.Gateway

inductive HttpError where
  | badRequest (message : String)
  | forbidden (message : String)
  | notFound (message : String)
  | conflict (message : String)
  | unprocessable (message : String)
  | serviceUnavailable (message : String)
  | internal (message : String)
deriving DecidableEq

def HttpError.message : HttpError → String
  | badRequest message | forbidden message | notFound message | conflict message
  | unprocessable message | serviceUnavailable message | internal message => message

/-- `customer.policies`, the lists that go to the policy with every question. -/
structure PolicyOverrides where
  whitelist : Option (List String)
  blockedCountries : Option (List String)

structure Customer where
  customerId : String
  tier : String
  policies : PolicyOverrides
  arbitraryContractCallsEnabled : Bool

structure ControlsView where
  frozen : Bool
  frozenReason : Option String
  whitelistEnforced : Bool

/-- A row of `address_whitelist`. -/
structure WhitelistRow where
  blockchain : String
  address : String
  activeFrom : Nat
  removed : Bool

inductive KeyStatus where
  | pendingDkg
  | active
  | inactive
  | compromised
  | failed
deriving DecidableEq

def KeyStatus.text : KeyStatus → String
  | .pendingDkg => "pending_dkg"
  | .active => "active"
  | .inactive => "inactive"
  | .compromised => "compromised"
  | .failed => "failed"

/-- A key of the customer, with the user wallet it may belong to. -/
structure Key where
  keyId : String
  blockchain : String
  status : KeyStatus
  address : String
  publicKey : String
  walletId : Option String
  walletFrozen : Bool

/-- What the policy is asked. A field the caller leaves out is `none`. -/
structure PolicyInput where
  customerId : String
  customerTier : String
  toAddr : String
  value : Nat
  chainId : Int
  country : Option String
  asset : Option String
  assetAmount : Option Nat
  assetDecimals : Option Nat
  pegCurrency : Option String
  isAllowance : Option Bool
  whitelist : Option (List String)
  blockedCountries : Option (List String)
deriving DecidableEq

structure PolicyDecision where
  approved : Bool
  denials : List String
  requiresApproval : Bool
  approvalReasons : List String

structure TravelFacts where
  chainId : Int
  originatorAddress : String
  beneficiaryAddress : String
  asset : String
  amount : Nat
  decimals : Nat
  pegCurrency : Option String
  isAllowance : Option Bool

structure Services where
  /-- `none` if the row could not be read. -/
  controls : Option ControlsView
  whitelist : List WhitelistRow
  now : Nat
  keys : String → Option Key
  policy : PolicyInput → Except HttpError PolicyDecision

/-! ## Freeze and whitelist -/

def evm : List String := ["ethereum", "polygon"]

def trim (text : List Char) : List Char :=
  ((text.dropWhile Char.isWhitespace).reverse.dropWhile Char.isWhitespace).reverse

/-- EVM addresses are compared in lower case, the others exactly. -/
def normaliseAddress (chain address : String) : String :=
  let a := trim address.toList
  if evm.contains chain then String.ofList (a.map Char.toLower) else String.ofList a

def unreadableControls : HttpError :=
  .forbidden "the organisation's safety controls could not be checked, so nothing was signed"

def frozenException (reason : Option String) : HttpError :=
  let why := match reason with
    | some r => if r = "" then "" else s!" ({r})"
    | none => ""
  .forbidden ("this organisation is frozen: nothing can be signed until an admin lifts the freeze"
    ++ why)

variable (s : Services)

/-- Fails closed: controls that cannot be read stop the request as a freeze does. -/
def assertCanSign : Except HttpError Unit :=
  match s.controls with
  | none => .error unreadableControls
  | some c => if c.frozen then .error (frozenException c.frozenReason) else .ok ()

/-- A no-op unless the organisation enforces its whitelist. -/
def assertDestinationAllowed (chain address : String) : Except HttpError Unit :=
  match s.controls with
  | none => .error unreadableControls
  | some c =>
    if ¬ c.whitelistEnforced then .ok ()
    else
      let addr := normaliseAddress chain address
      let chains := if evm.contains chain then evm else [chain]
      let rows := s.whitelist.filter fun r =>
        chains.contains r.blockchain && r.address == addr && !r.removed
      if rows.isEmpty then
        .error (.forbidden
          "this address is not on the organisation's whitelist, so the transfer was refused")
      else if rows.any (·.activeFrom ≤ s.now) then .ok ()
      else
        .error (.forbidden ("this address was added to the whitelist recently and is still in its "
          ++ "cooling-off period, so the transfer was refused"))

def enforceControls (chain : String) (destination : Option String) : Except HttpError Unit := do
  assertCanSign s
  match destination with
  | some d => assertDestinationAllowed s chain d
  | none => return ()

def Services.whitelistEnforced : Bool :=
  match s.controls with
  | some c => c.whitelistEnforced
  | none => false

/-- The whitelist holds the address: a row for the chain that is not removed and past its
cooling-off period. -/
def Services.Whitelists (chain address : String) : Prop :=
  ∃ row ∈ s.whitelist, (row.blockchain = chain ∨ chain ∈ evm ∧ row.blockchain ∈ evm) ∧
    row.address = normaliseAddress chain address ∧ row.removed = false ∧ row.activeFrom ≤ s.now

/-! ## Keys and policy -/

def loadSignableKey (keyId : String) : Except HttpError Key :=
  match s.keys keyId with
  | none => .error (.notFound s!"no key {keyId}")
  | some key =>
    if key.status ≠ .active then
      .error (.conflict
        s!"key {keyId} is {key.status.text}, not active; only an active key can sign")
    else if key.walletFrozen then
      let wallet := key.walletId.getD ""
      .error (.forbidden (s!"key {keyId} belongs to user wallet {wallet}, which is "
        ++ "frozen; unfreeze the wallet to send from it"))
    else .ok key

def approvalRequired (reasons : List String) : HttpError :=
  .forbidden ("This transfer needs approval before it can be signed: "
    ++ (if reasons.isEmpty then "policy requires a manual approval"
        else String.intercalate "; " reasons)
    ++ ". Start it from the console or as a settlement so that approvers are asked.")

/-- Refuses what the policy denies, and what it wants approved unless it was. -/
def enforcePolicy (input : PolicyInput) (approvalGranted : Bool) : Except HttpError Unit := do
  let decision ← s.policy input
  if ¬ decision.approved then .error (.forbidden "policy denied")
  else if decision.requiresApproval ∧ ¬ approvalGranted then
    .error (approvalRequired decision.approvalReasons)
  else return ()

/-- The policy answers the question, and approves. -/
def Services.Approves (input : PolicyInput) : Prop :=
  ∃ decision, s.policy input = .ok decision ∧ decision.approved = true

/-! ## What a stop that lets a request through says -/

variable {s} {chain address : String} {u : Unit}

theorem Services.Whitelists.of_allowed (h : assertDestinationAllowed s chain address = .ok u)
    (he : s.whitelistEnforced = true) : s.Whitelists chain address := by
  unfold assertDestinationAllowed at h
  split at h
  · cases h
  next c hc =>
  have henforced : c.whitelistEnforced = true := by simpa [Services.whitelistEnforced, hc] using he
  simp only [henforced, not_true, if_false] at h
  generalize hchains : (if evm.contains chain then evm else [chain]) = chains at h
  split at h
  · cases h
  split at h
  · next hany =>
    obtain ⟨row, hrow, hactive⟩ := List.any_eq_true.mp hany
    obtain ⟨hmem, hkept⟩ := List.mem_filter.mp hrow
    simp only [Bool.and_eq_true, beq_iff_eq, Bool.not_eq_true'] at hkept
    obtain ⟨⟨hchain, haddress⟩, hremoved⟩ := hkept
    refine ⟨row, hmem, ?_, haddress, hremoved, of_decide_eq_true hactive⟩
    have hin : row.blockchain ∈ chains := List.contains_iff_mem.mp hchain
    rw [← hchains] at hin
    split at hin
    · next hevm => exact .inr ⟨List.contains_iff_mem.mp hevm, hin⟩
    · exact .inl (List.mem_singleton.mp hin)
  · cases h

theorem Services.Whitelists.of_controls (h : enforceControls s chain (some address) = .ok u)
    (he : s.whitelistEnforced = true) : s.Whitelists chain address := by
  obtain ⟨_, -, h⟩ := Outcome.bind_eq_ok.mp h
  exact .of_allowed h he

theorem Services.Approves.of_policy {input : PolicyInput} {approvalGranted : Bool}
    (h : enforcePolicy s input approvalGranted = .ok u) : s.Approves input := by
  obtain ⟨decision, hdecision, h⟩ := Outcome.bind_eq_ok.mp h
  split at h
  · cases h
  next happroved => exact ⟨decision, hdecision, Decidable.not_not.mp happroved⟩

end OpenFireblocks.Gateway
