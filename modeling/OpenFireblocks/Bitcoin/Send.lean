import OpenFireblocks.Bitcoin.Plan
import OpenFireblocks.Evm.Erc20
import OpenFireblocks.Gateway.Controls

/-!
# Sending Bitcoin

* `sendBitcoin` of `keys/keys.service.ts` asks the controls, the policy and the Travel Rule, has the
  signer prepare a transaction, runs one ceremony for each of its inputs and has it assembled;
* `handleBitcoinPrepare` of the signer (`bitcoin_http.go`) reads the key's coins from a node,
  selects some of them and plans the transaction.

`signBitcoin` is `sendBitcoin` up to the last ceremony. From there on every input has its signature,
whether or not the assembled transaction is relayed.
-/

namespace OpenFireblocks.Bitcoin

open BigEndian Go Outcome Gateway

/-! ## The addresses of a key -/

/-- The third-party functions the two services call. -/
structure SpendLib extends TxLib where
  /-- `btcec.ParsePubKey`, and the compressed form of the key. -/
  parsePubKey : Bytes → Except String Bytes
  hash160 : Bytes → Bytes
  newAddressWitnessPubKeyHash : Bytes → Net → Except String toTxLib.Address
  newAddressPubKeyHash : Bytes → Net → Except String toTxLib.Address
  encodeAddress : toTxLib.Address → String
  hash160_length : ∀ b, (hash160 b).length = 20

section

variable (lib : SpendLib)

/-- The hash of the compressed key both addresses are made of. -/
def pubKeyHash (pubKeyHex : String) : Result Bytes :=
  match hexDecodeString (strip0x pubKeyHex) with
  | none => errorf "invalid public key hex"
  | some raw =>
    match lib.parsePubKey raw with
    | .error err => errorf s!"invalid public key: {err}"
    | .ok compressed => .ok (lib.hash160 compressed)

def bitcoinAddressesForPubKey (pubKeyHex network : String) : Result (String × String) := do
  let params ← bitcoinNetParams lib.toBtcLib network
  let hash ← pubKeyHash lib pubKeyHex
  match lib.newAddressWitnessPubKeyHash hash params with
  | .error err => errorf s!"deriving the segwit address: {err}"
  | .ok segwit =>
    match lib.newAddressPubKeyHash hash params with
    | .error err => errorf s!"deriving the legacy address: {err}"
    | .ok legacy => .ok (lib.encodeAddress segwit, lib.encodeAddress legacy)

end

/-! ## The signer -/

/-- A node. An error is its text. -/
structure BitcoinNode where
  listUnspentForAddresses : List String → Except String (List UTXO)
  /-- `estimatesmartfee`, in satoshis per 1000 virtual bytes, if the node has an estimate. -/
  estimateSmartFee : Int → Except String (Option Int)
  /-- There are 2.1 · 10¹⁵ satoshis. -/
  supply : ∀ addresses utxos, listUnspentForAddresses addresses = .ok utxos →
    (∀ u ∈ utxos, 0 ≤ u.amount) ∧ (utxos.map UTXO.amount).sum < 2 ^ 63

def BitcoinNode.estimateFeeRate (node : BitcoinNode) (confirmationTarget fallback : Int) :
    Except String Int := do
  match ← node.estimateSmartFee (if confirmationTarget ≤ 0 then 6 else confirmationTarget) with
  | none => return fallback
  | some perKvB =>
    let rate := Int.tdiv perKvB 1000
    return if rate < 1 then 1 else rate

def defaultFeeRateSatPerVByte : Int := 2

/-- An answer of the signer that is not `200`, or no answer. -/
structure SignerError where
  status : Nat
  message : String

/-- The body of `POST /bitcoin/prepare`. A number the caller leaves out is zero, a text empty. -/
structure BitcoinPrepareRequest where
  network : String
  pubKeyHex : String
  address : String
  destination : String
  amount : Int
  feeRate : Int
  changeAddress : String
  minConfirmations : Option Int
  confirmationTarget : Int

structure BitcoinPrepareResponse where
  selection : CoinSelection
  plan : BitcoinSigningPlan
  balance : Int
  utxoCount : Nat
  addresses : List String

/-- The error a Go call returned. The signer's other faults end the request as a `500`. -/
def respond {α : Type} (status : Nat) : Result α → Except SignerError α
  | .ok a => .ok a
  | .error (.error msg) => .error ⟨status, msg⟩
  | .error _ => .error ⟨500, "HTTP 500"⟩

variable {α : Type}

@[simp] theorem respond_eq_ok {status : Nat} {x : Result α} {a : α} :
    respond status x = .ok a ↔ x = .ok a := by
  rcases x with (msg | msg | _ | _) | b <;> simp [respond]

/-- The error text of a node call, after what the handler was doing. -/
def nodeCall {α : Type} (context : String) : Except String α → Except SignerError α
  | .ok a => .ok a
  | .error err => .error ⟨502, context ++ err⟩

@[simp] theorem nodeCall_eq_ok {context : String} {x : Except String α} {a : α} :
    nodeCall context x = .ok a ↔ x = .ok a := by
  cases x <;> simp [nodeCall]

section

variable (lib : SpendLib)

def scanAddresses (req : BitcoinPrepareRequest) : Except SignerError (List String × String) := do
  let (scan, defaultChange) ←
    if req.pubKeyHex = "" then pure ([], "")
    else do
      let (segwit, legacy) ← respond 400 (bitcoinAddressesForPubKey lib req.pubKeyHex req.network)
      pure ([segwit, legacy], segwit)
  let (scan, defaultChange) :=
    if req.address = "" then (scan, defaultChange)
    else ([req.address], if defaultChange = "" then req.address else defaultChange)
  if scan = [] then
    .error ⟨400, "pubkey_hex or address is required: one of them says whose coins will be spent"⟩
  else return (scan, defaultChange)

def feeRateFor (node : BitcoinNode) (req : BitcoinPrepareRequest) : Except SignerError Int :=
  if req.feeRate ≤ 0 then
    nodeCall "could not estimate a fee rate: "
      (node.estimateFeeRate req.confirmationTarget defaultFeeRateSatPerVByte)
  else .ok req.feeRate

/-- Selects coins and returns the digests to sign. -/
def handleBitcoinPrepare (node : Option BitcoinNode) (req : BitcoinPrepareRequest) :
    Except SignerError BitcoinPrepareResponse :=
  match node with
  | none => .error ⟨503, "no Bitcoin node is configured (set BITCOIN_RPC_URL)"⟩
  | some node => do
    let (scan, defaultChange) ← scanAddresses lib req
    let utxos ← nodeCall "could not read the address's unspent outputs: "
      (node.listUnspentForAddresses scan)
    let feeRate ← feeRateFor node req
    let selection ← respond 400 (selectCoins lib.toBtcLib {
      network := req.network
      utxos := utxos
      destination := req.destination
      amount := req.amount
      feeRate := feeRate
      changeAddress := if req.changeAddress = "" then defaultChange else req.changeAddress
      minConfirmations := req.minConfirmations })
    let plan ← respond 400 (planBitcoinTransaction lib.toTxLib selection.request)
    return {
      selection := selection
      plan := plan
      balance := sumAmounts (utxos.map UTXO.amount)
      utxoCount := utxos.length
      addresses := scan }

end

/-! ## The gateway -/

/-- `/^[1-9][0-9]{0,17}$/`. -/
def matchesAmount (text : String) : Bool :=
  match text.toList with
  | first :: rest =>
    first.isDigit && first != '0' && rest.length ≤ 17 && rest.all Char.isDigit
  | [] => false

/-- The body of `POST /keys/:keyId/bitcoin/transactions`. -/
structure BitcoinTransactionDto where
  destination : String
  amount : String
  feeRate : Option Nat
  confirmationTarget : Option Nat
  changeAddress : Option String
  minConfirmations : Option Nat
  broadcast : Option Bool
  idempotencyKey : Option String
  country : Option String
  destination_length : 26 ≤ destination.length ∧ destination.length ≤ 90
  amount_matches : matchesAmount amount = true
  feeRate_range : ∀ r, feeRate = some r → 1 ≤ r ∧ r ≤ 10000
  confirmationTarget_range : ∀ t, confirmationTarget = some t → 1 ≤ t ∧ t ≤ 1008
  changeAddress_length : ∀ a, changeAddress = some a → 26 ≤ a.length ∧ a.length ≤ 90
  minConfirmations_max : ∀ n, minConfirmations = some n → n ≤ 100

structure Finalized where
  txid : String
  broadcast : Bool

/-- What `sendBitcoin` reads and calls, beside what every route does. -/
structure BitcoinServices extends Services where
  /-- `none` if the signer has no node. -/
  node : Option BitcoinNode
  /-- Why a route of the signer cannot be reached, if it cannot. -/
  unreachable : String → Option String
  travelRuleBeforeSigning : Option (TravelFacts → Except HttpError Unit)
  /-- The threshold ceremony over a digest: the signature in hex. -/
  runSigningCeremony : Key → String → Bytes → Except HttpError String
  /-- Assembles the transaction, runs its scripts and relays it. -/
  finalize : BitcoinSigningPlan → List (String × String) → String → Bool →
    Except SignerError Finalized
  uuid : String

structure BitcoinSigned where
  key : Key
  asked : PolicyInput
  prepared : BitcoinPrepareResponse
  signatures : List (String × String)

def toPolicyUnits (amount decimals : Nat) : Nat := amount * 10 ^ (18 - decimals)

/-- The `r` and the `s` of a ceremony signature. The recovery id after them is dropped. -/
def splitSignature (signature : String) : Except HttpError (String × String) :=
  let hex := match signature.toList with
    | '0' :: 'x' :: rest => rest
    | cs => cs
  if hex.length < 128 then .error (.internal "Internal server error")
  else .ok (String.ofList (hex.take 64), String.ofList ((hex.drop 64).take 64))

def translateSignerError {α : Type} (context : String) :
    Except SignerError α → Except HttpError α
  | .ok a => .ok a
  | .error err =>
    if err.status = 400 then .error (.badRequest err.message)
    else .error (.serviceUnavailable s!"{context} failed: {err.message}")

@[simp] theorem translateSignerError_eq_ok {context : String} {x : Except SignerError α} {a : α} :
    translateSignerError context x = .ok a ↔ x = .ok a := by
  cases x with
  | error err => by_cases h : err.status = 400 <;> simp [translateSignerError, h]
  | ok b => simp [translateSignerError]

def BitcoinServices.call {α : Type} (s : BitcoinServices) (path : String)
    (answer : Except SignerError α) : Except SignerError α :=
  match s.unreachable path with
  | some message => .error ⟨503, s!"the Bitcoin signer is unreachable: {message}"⟩
  | none => answer

theorem BitcoinServices.call_eq_ok {s : BitcoinServices} {path : String}
    {answer : Except SignerError α} {a : α} (h : s.call path answer = .ok a) : answer = .ok a := by
  unfold BitcoinServices.call at h
  split at h
  · cases h
  · exact h

section

variable (lib : SpendLib) (network : String) (s : BitcoinServices) (customer : Customer)
  (keyId : String) (req : BitcoinTransactionDto) (approvalGranted : Bool)

def requireBitcoinKey (key : Key) : Except HttpError Unit :=
  if key.blockchain ≠ "bitcoin" then
    .error (.badRequest s!"key {keyId} is a {key.blockchain} key; this route spends Bitcoin")
  else if key.publicKey = "" then
    .error (.conflict (s!"key {keyId} has no public key recorded, "
      ++ "so its Bitcoin addresses cannot be derived"))
  else .ok ()

/-- The satoshis asked for, as a number. Digits below `2 ^ 53` are read exactly, the others give no
safe integer. -/
def BitcoinTransactionDto.satoshis : Except HttpError Nat :=
  let amount := Evm.decimal req.amount.toList
  if 2 ^ 53 ≤ amount then .error (.badRequest "amount is too large to be a number of satoshis")
  else .ok amount

def bitcoinPolicyInput (amount : Nat) : PolicyInput where
  customerId := customer.customerId
  customerTier := customer.tier
  toAddr := req.destination
  value := toPolicyUnits amount 8
  chainId := 0
  country := req.country
  asset := none
  assetAmount := none
  assetDecimals := none
  pegCurrency := none
  isAllowance := none
  whitelist := customer.policies.whitelist
  blockedCountries := customer.policies.blockedCountries

/-- The Travel Rule, if the gateway runs one, over the key's segwit address. -/
def bitcoinTravelRule (key : Key) (amount : Nat) : Except HttpError Unit :=
  match s.travelRuleBeforeSigning with
  | none => .ok ()
  | some travelRule => do
    let (segwit, _) ← translateSignerError "deriving the Bitcoin address"
      (s.call "/bitcoin/addresses" (respond 400
        (bitcoinAddressesForPubKey lib key.publicKey network)))
    travelRule {
      chainId := 0, originatorAddress := segwit, beneficiaryAddress := req.destination,
      asset := "NATIVE", amount := toPolicyUnits amount 8, decimals := 18,
      pegCurrency := none, isAllowance := none }

def prepareRequest (key : Key) (amount : Nat) : BitcoinPrepareRequest where
  network := network
  pubKeyHex := key.publicKey
  address := ""
  destination := req.destination
  amount := amount
  feeRate := req.feeRate.getD 0
  changeAddress := req.changeAddress.getD ""
  minConfirmations := req.minConfirmations.map Int.ofNat
  confirmationTarget := req.confirmationTarget.getD 0

def signInputs (key : Key) (requestId : String) (index : Nat) :
    List Bytes → Except HttpError (List (String × String))
  | [] => .ok []
  | sighash :: rest => do
    let signature ← s.runSigningCeremony key s!"{requestId}:input-{index}" sighash
    let pair ← splitSignature signature
    let pairs ← signInputs key requestId (index + 1) rest
    return pair :: pairs

/-- `sendBitcoin` until every input is signed. -/
def signBitcoin : Except HttpError BitcoinSigned := do
  enforceControls s.toServices "bitcoin" (some req.destination)
  let key ← loadSignableKey s.toServices keyId
  requireBitcoinKey keyId key
  let amount ← req.satoshis
  let asked := bitcoinPolicyInput customer req amount
  enforcePolicy s.toServices asked approvalGranted
  bitcoinTravelRule lib network s req key amount
  let prepared ← translateSignerError "preparing the Bitcoin transaction"
    (s.call "/bitcoin/prepare" (handleBitcoinPrepare lib s.node
      (prepareRequest network req key amount)))
  let signatures ← signInputs s key (req.idempotencyKey.getD s.uuid) 0 prepared.plan.sigHashes
  return {
    key := key, asked := asked, prepared := prepared, signatures := signatures }

def sendBitcoin : Except HttpError Finalized := do
  let signed ← signBitcoin lib network s customer keyId req approvalGranted
  translateSignerError "assembling the Bitcoin transaction"
    (s.call "/bitcoin/finalize" (s.finalize signed.prepared.plan signed.signatures
      signed.key.publicKey (req.broadcast.getD true)))

end

end OpenFireblocks.Bitcoin
