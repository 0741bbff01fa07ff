import OpenFireblocks.Go.Basic

/-!
# Coin selection, as `chains/bitcoin_coinselect.go` does it

`SelectCoins` filters the wallet's coins, sorts them largest first and takes them one by one until
they cover the amount and a fee that grows with every coin taken. Its arithmetic is `int64`, so
every sum and product below is followed by `wrap64`.

* Addresses and scripts are third-party (`btcutil`, `txscript`) and enter as a `BtcLib`.
* `sort.Slice` is an insertion sort here. It is not stable, but with distinct `(txid, vout)` pairs
  there is only one sorted order.
* `inputWeights` returns an `Option`: no caller reads its error.
-/

namespace OpenFireblocks.Bitcoin

open BigEndian Go Outcome

/-! ## Requests and selections -/

/-- One spendable previous output. -/
structure UTXO where
  txid : String
  vout : Int
  amount : Int
  script : String
  confirmations : Int

/-- A transaction paying one destination, to be built. -/
structure CoinSelectionRequest where
  network : String
  utxos : List UTXO
  destination : String
  amount : Int
  feeRate : Int
  changeAddress : String
  minConfirmations : Option Int

structure BitcoinInput where
  txid : String
  vout : Int
  amount : Int
  script : String
  segWit : Bool

structure BitcoinOutput where
  address : String
  amount : Int

/-- What `PlanBitcoinTransaction` takes. -/
structure BitcoinSigningRequest where
  network : String
  inputs : List BitcoinInput
  outputs : List BitcoinOutput

/-- The decision, with the numbers that produced it. -/
structure CoinSelection where
  request : BitcoinSigningRequest
  selected : List UTXO
  totalIn : Int
  amount : Int
  fee : Int
  change : Int
  virtualSize : Int
  feeRate : Int
  changeDroppedToFee : Bool

/-! ## Addresses and scripts -/

/-- The `chaincfg.Params` the service knows. -/
inductive Net where
  | mainNet
  | testNet3
  | regressionNet
deriving DecidableEq

/-- `params.Name`. -/
def Net.name : Net → String
  | .mainNet => "mainnet"
  | .testNet3 => "testnet3"
  | .regressionNet => "regtest"

/-- The third-party functions the selector calls. An error is its text. -/
structure BtcLib where
  /-- `btcutil.Address`. -/
  Address : Type
  decodeAddress : String → Net → Except String Address
  isForNet : Address → Net → Bool
  payToAddrScript : Address → Except String Bytes
  isPayToWitnessPubKeyHash : Bytes → Bool
  /-- The verb `%q` of `fmt`. -/
  quote : String → String

def txOverheadBase : Int := 10
def segwitMarkerFlagWeight : Int := 2
def p2pkhInputBase : Int := 148
def p2wpkhInputBase : Int := 41
def p2wpkhInputWitness : Int := 108
def p2pkhDust : Int := 546
def p2wpkhDust : Int := 294

section

variable (lib : BtcLib)

def bitcoinNetParams (network : String) : Result Net :=
  if network = "" ∨ network = "mainnet" then .ok .mainNet
  else if network = "testnet" ∨ network = "testnet3" then .ok .testNet3
  else if network = "regtest" then .ok .regressionNet
  else errorf s!"unsupported Bitcoin network: {lib.quote network}"

def scriptForAddress (addr : String) (params : Net) : Result Bytes :=
  if addr = "" then errorf "no address supplied"
  else
    match lib.decodeAddress addr params with
    | .error err => errorf s!"invalid address {lib.quote addr}: {err}"
    | .ok decoded =>
      if lib.isForNet decoded params = false then
        errorf s!"address {lib.quote addr} is not valid on {params.name}"
      else
        match lib.payToAddrScript decoded with
        | .error err => errorf err
        | .ok script => .ok script

/-- `OP_DUP OP_HASH160 <20 bytes> OP_EQUALVERIFY OP_CHECKSIG`. -/
def isPayToPubKeyHash (script : Bytes) : Bool :=
  script.length = 25 && script[0]? = some 0x76 && script[1]? = some 0xa9 && script[2]? = some 20 &&
    script[23]? = some 0x88 && script[24]? = some 0xac

/-- The base and witness bytes an input spending this script occupies. -/
def inputWeights (scriptHex : String) : Option (Int × Int) :=
  match hexDecodeString scriptHex with
  | none => none
  | some script =>
    if lib.isPayToWitnessPubKeyHash script then some (p2wpkhInputBase, p2wpkhInputWitness)
    else if isPayToPubKeyHash script then some (p2pkhInputBase, 0)
    else none

def chargedWeights (u : UTXO) : Int × Int := (inputWeights lib u.script).getD (p2pkhInputBase, 0)

/-- The variables of the size estimate's first loop. -/
structure SizeState where
  base : Int
  witness : Int
  anySegwit : Bool

def SizeState.addInput (s : SizeState) (u : UTXO) : SizeState :=
  let (b, w) := chargedWeights lib u
  { base := wrap64 (s.base + b)
    witness := wrap64 (s.witness + w)
    anySegwit := s.anySegwit || 0 < w }

def estimateVirtualSize (inputs : List UTXO) (outputScripts : List Bytes) : Int :=
  let s := inputs.foldl (SizeState.addInput lib)
    { base := txOverheadBase, witness := 0, anySegwit := false }
  -- amount(8) + script length(1) + script
  let base := outputScripts.foldl (fun base script => wrap64 (base + (9 + script.length))) s.base
  let witness := if s.anySegwit then wrap64 (s.witness + segwitMarkerFlagWeight) else s.witness
  let weight := wrap64 (wrap64 (base * 4) + witness)
  Int.tdiv (wrap64 (weight + 3)) 4

/-- The smallest output worth creating for a script. -/
def dustThreshold (script : Bytes) : Int :=
  if lib.isPayToWitnessPubKeyHash script then p2wpkhDust else p2pkhDust

end

/-! ## Selecting -/

section

variable (lib : BtcLib) (req : CoinSelectionRequest)

def checkRequest : Result (Bytes × Bytes) := do
  let params ← bitcoinNetParams lib req.network
  if req.amount ≤ 0 then errorf s!"amount must be positive, got {req.amount} sats"
  else if req.feeRate ≤ 0 then errorf s!"fee rate must be positive, got {req.feeRate} sat/vB"
  else
    let destScript ← wrapError "destination: " (scriptForAddress lib req.destination params)
    let changeScript ← wrapError "change address: " (scriptForAddress lib req.changeAddress params)
    return (destScript, changeScript)

def minConf : Int := req.minConfirmations.getD 1

def spendable : List UTXO :=
  req.utxos.filter fun u =>
    0 < u.amount && minConf req ≤ u.confirmations && (inputWeights lib u.script).isSome

/-- The coins that only lack confirmations, counted for the error message. -/
def unconfirmed : Nat :=
  req.utxos.countP fun u => 0 < u.amount && u.confirmations < minConf req

/-- The `less` of the sort: larger amounts first, then by outpoint. -/
def coinLess (a b : UTXO) : Bool :=
  if a.amount ≠ b.amount then b.amount < a.amount
  else if a.txid ≠ b.txid then a.txid < b.txid
  else a.vout < b.vout

def sortCoins (coins : List UTXO) : List UTXO := coins.insertionSort fun a b => coinLess b a = false

def buildSelection (selected : List UTXO) (totalIn change fee vsize : Int) (changeDropped : Bool) :
    CoinSelection where
  request :=
    { network := req.network
      inputs := selected.map fun u =>
        { txid := u.txid, vout := u.vout, amount := u.amount, script := u.script, segWit := false }
      outputs := { address := req.destination, amount := req.amount } ::
        if 0 < change then [{ address := req.changeAddress, amount := change }] else [] }
  selected := selected
  totalIn := totalIn
  amount := req.amount
  fee := fee
  change := change
  virtualSize := vsize
  feeRate := req.feeRate
  changeDroppedToFee := changeDropped

variable (destScript changeScript : Bytes)

def trySelection (selected : List UTXO) (totalIn : Int) : Option CoinSelection :=
  let withChange := estimateVirtualSize lib selected [destScript, changeScript]
  let feeWithChange := wrap64 (withChange * req.feeRate)
  if totalIn < wrap64 (req.amount + feeWithChange) then none
  else
    let change := wrap64 (wrap64 (totalIn - req.amount) - feeWithChange)
    if dustThreshold lib changeScript ≤ change then
      some (buildSelection req selected totalIn change feeWithChange withChange false)
    else
      -- the change would be dust: it goes to the miner, and the output that held it is dropped
      let noChange := estimateVirtualSize lib selected [destScript]
      let feeNoChange := wrap64 (noChange * req.feeRate)
      if wrap64 (req.amount + feeNoChange) ≤ totalIn then
        some (buildSelection req selected totalIn 0 (wrap64 (totalIn - req.amount)) noChange true)
      else none

/-- The loop over the sorted coins. `selected` and `totalIn` are its variables. -/
def selectLoop (selected : List UTXO) (totalIn : Int) : List UTXO → Result CoinSelection
  | [] =>
    let size := estimateVirtualSize lib selected [destScript, changeScript]
    let need := wrap64 (req.amount + wrap64 (size * req.feeRate))
    errorf s!"insufficient funds: {totalIn} sats available across {selected.length} output(s), need {need} ({req.amount} to send + ~{wrap64 (size * req.feeRate)} fee at {req.feeRate} sat/vB)"
  | u :: rest =>
    match trySelection lib req destScript changeScript (selected ++ [u])
        (wrap64 (totalIn + u.amount)) with
    | some sel => .ok sel
    | none => selectLoop (selected ++ [u]) (wrap64 (totalIn + u.amount)) rest

end

def selectCoins (lib : BtcLib) (req : CoinSelectionRequest) : Result CoinSelection := do
  let (destScript, changeScript) ← checkRequest lib req
  if spendable lib req = [] then
    if 0 < unconfirmed req then
      errorf s!"no spendable outputs: {unconfirmed req} output(s) exist but have fewer than {minConf req} confirmation(s)"
    else errorf "no spendable outputs"
  else if req.amount < dustThreshold lib destScript then
    errorf s!"amount of {req.amount} sats is below the {dustThreshold lib destScript} sat dust threshold for {req.destination}; the network will not relay it"
  else selectLoop lib req destScript changeScript [] 0 (sortCoins (spendable lib req))

end OpenFireblocks.Bitcoin
