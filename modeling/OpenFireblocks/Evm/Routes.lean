import OpenFireblocks.Eth.Transaction
import OpenFireblocks.Evm.Intent

/-!
# The routes that sign an EVM transaction

* `signTransaction` and `sendToken` of `keys/keys.service.ts`, which sign with a threshold key;
* `sign` of `sign/sign.service.ts`, which forwards the request to the signer;
* the settlement workflow, started with an API key (`settlements/settlements.controller.ts`) or by a
  person (`approvals/approvals.controller.ts`), whose activities ask the policy and the signer.

A route ends in the error the client gets or in `Signed`: the transaction, what the policy was asked
about it, and the address the whitelist was asked about. An unsigned end of the workflow that is no
error in the source (`status: denied`) is an error here.
-/

namespace OpenFireblocks.Evm

open BigEndian Go Eth Gateway

/-! ## Requests -/

/-- `/^0x[0-9a-fA-F]{40}$/`. -/
def matchesAddress (text : String) : Bool :=
  match text.toList with
  | '0' :: 'x' :: body => body.length == 40 && body.all (fun c => (hexValue c).isSome)
  | _ => false

/-- `/^[0-9]+$/`. -/
def matchesDigits (text : String) : Bool := !text.toList.isEmpty && text.toList.all Char.isDigit

/-- The body of `POST /keys/:keyId/transactions`. Fees are base-10 strings in the source. -/
structure SignTransactionDto where
  toAddr : String
  value : String
  data : Option String
  gasLimit : UInt64
  nonce : UInt64
  chainId : Int
  gasPrice : Option Nat
  maxFeePerGas : Option Nat
  maxPriorityFeePerGas : Option Nat
  country : Option String
  to_matches : matchesAddress toAddr = true
  value_matches : matchesDigits value = true
  data_matches : ∀ d, data = some d → isHex d.toList = true
  gasLimit_min : 21000 ≤ gasLimit
  chainId_min : 1 ≤ chainId

/-- The body of `POST /keys/:keyId/token-transfers`. -/
structure TokenTransferDto where
  token : String
  recipient : String
  amount : String
  chainId : Int
  nonce : UInt64
  gasLimit : Option UInt64
  gasPrice : Option Nat
  maxFeePerGas : Option Nat
  maxPriorityFeePerGas : Option Nat
  country : Option String
  recipient_matches : matchesAddress recipient = true
  chainId_min : 1 ≤ chainId

/-- The body of `POST /sign` and of the settlement routes. `data` is any text. -/
structure SignRequestDto where
  chainId : Int
  toAddr : String
  data : Option String
  value : Option String
  gasLimit : UInt64
  gasPrice : Option String
  maxFeePerGas : Option String
  maxPriorityFeePerGas : Option String
  nonce : UInt64
  country : Option String
  to_matches : matchesAddress toAddr = true
  value_matches : ∀ v, value = some v → matchesDigits v = true
  gasLimit_min : 21000 ≤ gasLimit

/-- What a settlement workflow is started with. -/
structure TransactionRequest where
  customerId : String
  customerTier : String
  chainId : Int
  toAddr : String
  data : String
  value : String
  gasLimit : UInt64
  gasPrice : String
  nonce : UInt64
  country : String
  initiatedByUserId : String
  initiatedByLabel : String

/-- What the EVM routes read and call, beside what every route does. -/
structure EvmServices extends Services where
  lib : EthersLib
  tokens : Option Registry
  governed : Option Tokenisation
  /-- Refuses a transfer whose originator or beneficiary information is missing. -/
  travelRuleBeforeSigning : TravelFacts → Except HttpError Unit
  /-- The threshold ceremony over the hash of the transaction, and the assembly of its result. -/
  runSigningCeremony : Key → Transaction → Except HttpError Unit
  /-- The hourly limit of the tenant. -/
  checkAndRecord : Except HttpError Unit
  /-- The signer's key, over the hash of the transaction. -/
  signDigest : Transaction → Result Unit
  /-- How the approval request of a settlement ended. -/
  awaitApprovals : TransactionRequest → List String → String
  erc20TransferGasLimit : UInt64

structure Signed where
  tx : Transaction
  asked : PolicyInput
  /-- The address given to the whitelist, if it was asked. -/
  destination : Option String

variable (s : EvmServices) (customer : Customer)

def EvmServices.intentContext : IntentContext where
  customerId := customer.customerId
  arbitraryContractCallsEnabled := customer.arbitraryContractCallsEnabled
  tokens := s.tokens
  governed := s.governed

/-! ## Threshold keys -/

structure UnsignedTxRequest where
  toAddr : String
  value : Nat
  data : Option String
  gasLimit : UInt64
  nonce : UInt64
  chainId : Int
  gasPrice : Option Nat
  maxFeePerGas : Option Nat
  maxPriorityFeePerGas : Option Nat

/-- The transaction ethers hashes. A value of more than 32 bytes cannot be serialized. -/
def buildUnsignedTransaction (lib : EthersLib) (req : UnsignedTxRequest) :
    Except String Transaction :=
  let legacy := req.gasPrice.isSome
  let dynamic := req.maxFeePerGas.isSome || req.maxPriorityFeePerGas.isSome
  if legacy && dynamic then
    .error ("supply either gasPrice (legacy) or maxFeePerGas + maxPriorityFeePerGas (EIP-1559), "
      ++ "not both")
  else if !legacy && !dynamic then
    .error "supply either gasPrice (legacy) or maxFeePerGas + maxPriorityFeePerGas (EIP-1559)"
  else if dynamic && (req.maxFeePerGas.isNone || req.maxPriorityFeePerGas.isNone) then
    .error "maxFeePerGas and maxPriorityFeePerGas must be supplied together"
  else
    match lib.getAddress req.toAddr, lib.getBytes (req.data.getD "0x") with
    | .error message, _ | _, .error message => .error ("could not build transaction: " ++ message)
    | .ok address, .ok data =>
      if 2 ^ 256 ≤ req.value then .error "could not build transaction: value out of range"
      else
        .ok {
          chainID := some req.chainId
          nonce := req.nonce
          gas := req.gasLimit
          gasPrice := req.gasPrice.map Int.ofNat
          maxFee := req.maxFeePerGas.map Int.ofNat
          tip := req.maxPriorityFeePerGas.map Int.ofNat
          recipient := addressOf address
          value := some req.value
          data := data }

def policyInput (toAddr : String) (value : Nat) (chainId : Int) (country : Option String)
    (intent : TransferIntent) : PolicyInput where
  customerId := customer.customerId
  customerTier := customer.tier
  toAddr := toAddr
  value := value
  chainId := chainId
  country := country
  asset := some intent.asset
  assetAmount := some intent.assetAmount
  assetDecimals := some intent.assetDecimals
  pegCurrency := intent.pegCurrency
  isAllowance := intent.isAllowance
  whitelist := customer.policies.whitelist
  blockedCountries := customer.policies.blockedCountries

def requireEvmKey (key : Key) (keyId what : String) : Except HttpError Unit :=
  if evm.contains key.blockchain then .ok ()
  else
    .error (.badRequest (s!"key {keyId} is a {key.blockchain} key; this route {what}. "
      ++ s!"Use the {key.blockchain}-specific route instead."))

def orBadRequest {α : Type} : Except String α → Except HttpError α
  | .ok a => .ok a
  | .error message => .error (.badRequest message)

/-- Signs a transaction the caller describes. The whitelist is asked about the envelope's `to`. -/
def signTransaction (keyId : String) (req : SignTransactionDto) (approvalGranted : Bool) :
    Except HttpError Signed := do
  enforceControls s.toServices "ethereum" (some req.toAddr)
  let key ← loadSignableKey s.toServices keyId
  requireEvmKey key keyId "builds and signs an EVM transaction"
  let value := decimal req.value.toList
  let built ← orBadRequest (buildUnsignedTransaction s.lib {
    toAddr := req.toAddr, value := value, data := req.data, gasLimit := req.gasLimit,
    nonce := req.nonce, chainId := req.chainId, gasPrice := req.gasPrice,
    maxFeePerGas := req.maxFeePerGas, maxPriorityFeePerGas := req.maxPriorityFeePerGas })
  let intent ← resolveTransferIntent s.lib (s.intentContext customer) req.chainId req.toAddr
    req.value req.data
  let asked := policyInput customer intent.policyTo value req.chainId req.country intent
  enforcePolicy s.toServices asked approvalGranted
  s.travelRuleBeforeSigning {
    chainId := req.chainId, originatorAddress := key.address,
    beneficiaryAddress := intent.effectiveTo.getD req.toAddr, asset := intent.asset,
    amount := intent.effectiveAmount.getD intent.assetAmount, decimals := intent.assetDecimals,
    pegCurrency := intent.pegCurrency, isAllowance := intent.isAllowance }
  s.runSigningCeremony key built
  return { tx := built, asked := asked, destination := some req.toAddr }

/-- Sends a registered token. The platform writes the calldata. -/
def sendToken (keyId : String) (req : TokenTransferDto) : Except HttpError Signed := do
  enforceControls s.toServices "ethereum" (some req.recipient)
  match s.tokens with
  | none =>
    .error (.serviceUnavailable
      "the token registry is not configured, so token transfers cannot be signed")
  | some registry =>
    let key ← loadSignableKey s.toServices keyId
    if ¬ evm.contains key.blockchain then
      .error (.badRequest (s!"key {keyId} is a {key.blockchain} key; "
        ++ "this route sends ERC-20 tokens on EVM chains"))
    else
      let token ← registry.requireTransactable req.chainId req.token
      match token.contractAddress with
      | none =>
        .error (.badRequest
          s!"{token.symbol} on chain {req.chainId} has no contract address recorded")
      | some contract =>
        let baseUnits ← orBadRequest (parseUnits req.amount token.decimals)
        let data ← orBadRequest (encodeTransfer s.lib req.recipient baseUnits)
        let built ← orBadRequest (buildUnsignedTransaction s.lib {
          toAddr := contract, value := 0, data := some data,
          gasLimit := req.gasLimit.getD s.erc20TransferGasLimit, nonce := req.nonce,
          chainId := req.chainId, gasPrice := req.gasPrice, maxFeePerGas := req.maxFeePerGas,
          maxPriorityFeePerGas := req.maxPriorityFeePerGas })
        let intent : TransferIntent := {
          policyTo := req.recipient, asset := token.symbol, assetAmount := baseUnits,
          assetDecimals := token.decimals, pegCurrency := token.pegCurrency,
          isAllowance := some false, effectiveTo := some req.recipient,
          effectiveAmount := some baseUnits }
        let asked := policyInput customer req.recipient 0 req.chainId req.country intent
        enforcePolicy s.toServices asked false
        s.travelRuleBeforeSigning {
          chainId := req.chainId, originatorAddress := key.address,
          beneficiaryAddress := req.recipient, asset := token.symbol, amount := baseUnits,
          decimals := token.decimals, pegCurrency := token.pegCurrency, isAllowance := none }
        s.runSigningCeremony key built
        return { tx := built, asked := asked, destination := some req.recipient }

/-! ## The signer -/

/-- The body of the signer's `POST /sign`. A field the caller leaves out is empty. -/
structure SignRequest where
  chainID : Int
  toAddr : String
  data : String
  value : String
  gasLimit : UInt64
  gasPrice : String
  nonce : UInt64
  maxFeePerGas : String
  maxPriorityFeePerGas : String

/-- The texts it gets are digits, so a sign is not modelled. -/
def parseBig (text : String) (zeroOK : Bool) : Result Nat :=
  if text = "" ∨ text = "0" then
    if zeroOK ∨ text = "0" then .ok 0 else errorf "empty value"
  else if text.toList.all Char.isDigit then .ok (decimal text.toList)
  else errorf s!"not a base-10 integer: \"{text}\""

def decodeData (text : String) : Result Bytes :=
  if text = "" ∨ text = "0x" then .ok []
  else
    match hexDecodeChars (digitsOf text.toList) with
    | some data => .ok data
    | none => errorf "invalid data"

/-- The gas price, or the EIP-1559 pair if both of it are set. -/
def parseFees (req : SignRequest) : Result (Option Nat × Option Nat × Option Nat) :=
  if req.maxFeePerGas ≠ "" ∧ req.maxPriorityFeePerGas ≠ "" then do
    let maxFee ← wrapError "invalid maxFeePerGas: " (parseBig req.maxFeePerGas false)
    let tip ← wrapError "invalid maxPriorityFeePerGas: " (parseBig req.maxPriorityFeePerGas false)
    return (none, some maxFee, some tip)
  else do
    let gasPrice ← wrapError "invalid gasPrice: " (parseBig req.gasPrice false)
    return (some gasPrice, none, none)

def parseTo (text : String) : Result Bytes :=
  match parseAddress text with
  | .ok address => .ok address
  | .error _ => errorf s!"invalid 'to' address: \"{text}\""

/-- `MPCSigner.SignTransaction`. -/
def mpcSignTransaction (req : SignRequest) : Result Transaction := do
  let recipient ← parseTo req.toAddr
  let value ← wrapError "invalid value: " (parseBig req.value true)
  let data ← decodeData req.data
  let (gasPrice, maxFee, tip) ← parseFees req
  let tx : Transaction := {
    chainID := some req.chainID, nonce := req.nonce, gas := req.gasLimit,
    gasPrice := gasPrice.map Int.ofNat, maxFee := maxFee.map Int.ofNat, tip := tip.map Int.ofNat,
    recipient := some recipient, value := some value, data := data }
  let _ ← tx.signingPreimage
  s.signDigest tx
  return tx

/-- The answer of the signer, as the caller of its API sees it. -/
def postSign (req : SignRequest) : Except HttpError Transaction :=
  match mpcSignTransaction s req with
  | .ok tx => .ok tx
  | .error _ => .error (.internal "Request failed")

/-- Reads the calldata first and asks every control about what it moves. -/
def sign (req : SignRequestDto) : Except HttpError Signed := do
  let value := req.value.getD "0"
  let intent ← resolveTransferIntent s.lib (s.intentContext customer) req.chainId req.toAddr
    value req.data
  assertCanSign s.toServices
  assertDestinationAllowed s.toServices "ethereum" intent.policyTo
  let asked := policyInput customer intent.policyTo (decimal value.toList) req.chainId req.country
    intent
  enforcePolicy s.toServices asked false
  s.checkAndRecord
  let tx ← postSign s {
    chainID := req.chainId, toAddr := req.toAddr, data := req.data.getD "",
    value := req.value.getD "", gasLimit := req.gasLimit, gasPrice := req.gasPrice.getD "",
    nonce := req.nonce, maxFeePerGas := req.maxFeePerGas.getD "",
    maxPriorityFeePerGas := req.maxPriorityFeePerGas.getD "" }
  return { tx := tx, asked := asked, destination := some intent.policyTo }

/-! ## Settlements -/

/-- Who started a settlement. -/
inductive Initiator where
  | apiKey
  | person (userId label : String)
deriving DecidableEq

/-- `TemporalService.start`: the argument of the workflow. -/
def transactionRequest (req : SignRequestDto) : Initiator → TransactionRequest
  | .apiKey => request "" "api-key"
  | .person userId label => request userId label
where
  request (userId label : String) : TransactionRequest := {
    customerId := customer.customerId, customerTier := customer.tier, chainId := req.chainId,
    toAddr := req.toAddr, data := req.data.getD "", value := req.value.getD "0",
    gasLimit := req.gasLimit, gasPrice := req.gasPrice.getD "", nonce := req.nonce,
    country := req.country.getD "", initiatedByUserId := userId, initiatedByLabel := label }

/-- The address the whitelist was asked about. A person's request is started without asking. -/
def startSettlement (req : SignRequestDto) : Initiator → Except HttpError (Option String)
  | .apiKey => do
    assertCanSign s.toServices
    assertDestinationAllowed s.toServices "ethereum" req.toAddr
    return some req.toAddr
  | .person _ _ => .ok none

/-- The question of the activity `CheckPolicy`: the envelope only. -/
def checkPolicyInput (req : TransactionRequest) : PolicyInput where
  customerId := req.customerId
  customerTier := req.customerTier
  toAddr := req.toAddr
  value := decimal req.value.toList
  chainId := req.chainId
  country := some req.country
  asset := none
  assetAmount := none
  assetDecimals := none
  pegCurrency := none
  isAllowance := none
  whitelist := none
  blockedCountries := none

/-- The activity `SignTransaction`. -/
def settlementSignRequest (req : TransactionRequest) : SignRequest where
  chainID := req.chainId
  toAddr := req.toAddr
  data := req.data
  value := req.value
  gasLimit := req.gasLimit
  gasPrice := req.gasPrice
  nonce := req.nonce
  maxFeePerGas := ""
  maxPriorityFeePerGas := ""

/-- `TransactionSettlementWorkflow` up to the signature. -/
def transactionSettlementWorkflow (req : TransactionRequest) : Except HttpError Transaction := do
  let policy ← s.policy (checkPolicyInput req)
  if ¬ policy.approved then .error (.forbidden "denied")
  else if policy.requiresApproval ∧ s.awaitApprovals req policy.approvalReasons ≠ "approved" then
    .error (.forbidden ("approval " ++ s.awaitApprovals req policy.approvalReasons))
  else postSign s (settlementSignRequest req)

def settle (initiator : Initiator) (req : SignRequestDto) : Except HttpError Signed := do
  let destination ← startSettlement s req initiator
  let request := transactionRequest customer req initiator
  let tx ← transactionSettlementWorkflow s request
  return { tx := tx, asked := checkPolicyInput request, destination := destination }

/-! ## All routes -/

inductive Route where
  | signTransaction (keyId : String) (req : SignTransactionDto) (approvalGranted : Bool)
  | sendToken (keyId : String) (req : TokenTransferDto)
  | sign (req : SignRequestDto)
  | settlement (initiator : Initiator) (req : SignRequestDto)

def Route.run : Route → Except HttpError Signed
  | .signTransaction keyId req approvalGranted => Evm.signTransaction s customer keyId req approvalGranted
  | .sendToken keyId req => Evm.sendToken s customer keyId req
  | .sign req => Evm.sign s customer req
  | .settlement initiator req => settle s customer initiator req

end OpenFireblocks.Evm
