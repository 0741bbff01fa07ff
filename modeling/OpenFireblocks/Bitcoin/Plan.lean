import OpenFireblocks.Bitcoin.CoinAccounting
import OpenFireblocks.Go.Hex

/-!
# The unsigned transaction, as `PlanBitcoinTransaction` builds it

`chains/bitcoin_threshold.go` turns a decided selection into a transaction and the digests the
committee signs. The plan carries the transaction itself here, not its serialisation. The digest of an
input is third-party (`txscript`); it fails only for a script that was not recognised before.
-/

namespace OpenFireblocks.Bitcoin

open BigEndian Go Outcome

structure OutPoint where
  hash : Bytes
  index : Nat

structure TxOut where
  value : Int
  script : Bytes
deriving DecidableEq

structure BitcoinSigningPlan where
  txIn : List OutPoint
  txOut : List TxOut
  sigHashes : List Bytes
  prevScripts : List String
  witness : List Bool
  amounts : List Int

/-- The third-party functions planning calls. -/
structure TxLib extends BtcLib where
  /-- The digest of input `i`, by BIP 143 if it is segwit. It commits to every input and output. -/
  sigHash : List OutPoint → List TxOut → Nat → Bytes → Bool → Int → Bytes
  /-- `chainhash.NewHashFromStr`. -/
  newHashFromStr : String → Except String Bytes
  /-- A hash is written with its last byte first. -/
  newHashFromStr_hex : ∀ hash : Bytes, hash.length = 32 →
    newHashFromStr (hexEncodeToString hash.reverse) = .ok hash
  /-- The longest script of an address is a witness program of 40 bytes. -/
  script_length : ∀ addr script, payToAddrScript addr = .ok script → script.length ≤ 42

section

variable (lib : TxLib)

def planInput (i : Nat) (input : BitcoinInput) : Result OutPoint :=
  match lib.newHashFromStr input.txid with
  | .error err => errorf s!"input {i}: invalid txid {lib.quote input.txid}: {err}"
  | .ok hash =>
    if input.vout < 0 then errorf s!"input {i}: negative vout {input.vout}"
    else .ok ⟨hash, input.vout.toNat % 2 ^ 32⟩

def planInputs (i : Nat) : List BitcoinInput → Result (List OutPoint)
  | [] => .ok []
  | input :: rest => do
    let outPoint ← planInput lib i input
    let outPoints ← planInputs (i + 1) rest
    return outPoint :: outPoints

def planOutput (params : Net) (i : Nat) (out : BitcoinOutput) : Result TxOut :=
  if out.amount ≤ 0 then errorf s!"output {i} has a non-positive amount ({out.amount} sats)"
  else
    match lib.decodeAddress out.address params with
    | .error err => errorf s!"output {i}: invalid address {lib.quote out.address}: {err}"
    | .ok addr =>
      if lib.isForNet addr params = false then
        errorf s!"output {i}: address {lib.quote out.address} is not valid on {params.name}"
      else
        match lib.payToAddrScript addr with
        | .error err => errorf s!"output {i}: {err}"
        | .ok script =>
          let threshold := dustThreshold lib.toBtcLib script
          if out.amount < threshold then
            errorf (s!"output {i} sends {out.amount} sats to {out.address}, below the {threshold} "
              ++ "sat dust threshold for that address type; the network will not relay it")
          else .ok ⟨out.amount, script⟩

def planOutputs (params : Net) (i : Nat) : List BitcoinOutput → Result (List TxOut)
  | [] => .ok []
  | out :: rest => do
    let txOut ← planOutput lib params i out
    let txOuts ← planOutputs params (i + 1) rest
    return txOut :: txOuts

def planSigHash (txIn : List OutPoint) (txOut : List TxOut) (i : Nat) (input : BitcoinInput) :
    Result (Bytes × Bool) :=
  match hexDecodeString input.script with
  | none => errorf s!"input {i}: invalid scriptPubKey hex"
  | some script =>
    if script = [] then
      errorf s!"input {i}: no scriptPubKey; the sighash cannot be computed without it"
    else
      let witness := lib.isPayToWitnessPubKeyHash script
      if witness ∧ input.amount ≤ 0 then
        errorf (s!"input {i} spends a segwit output but has no amount; "
          ++ "BIP143 signs the value, so it cannot be omitted")
      else .ok (lib.sigHash txIn txOut i script witness input.amount, witness)

def planSigHashes (txIn : List OutPoint) (txOut : List TxOut) (i : Nat) :
    List BitcoinInput → Result (List (Bytes × Bool))
  | [] => .ok []
  | input :: rest => do
    let digest ← planSigHash lib txIn txOut i input
    let digests ← planSigHashes txIn txOut (i + 1) rest
    return digest :: digests

/-- The sum the code forms of amounts, in `int64`. -/
def sumAmounts (amounts : List Int) : Int := amounts.foldl (fun sum a => wrap64 (sum + a)) 0

def planBitcoinTransaction (req : BitcoinSigningRequest) : Result BitcoinSigningPlan := do
  let params ← bitcoinNetParams lib.toBtcLib req.network
  if req.inputs = [] then errorf "no inputs to spend"
  else if req.outputs = [] then
    errorf "no outputs; this would burn the entire input value to fees"
  else
    let txIn ← planInputs lib 0 req.inputs
    let txOut ← planOutputs lib params 0 req.outputs
    let totalOut := sumAmounts (req.outputs.map BitcoinOutput.amount)
    let totalIn := sumAmounts (req.inputs.map BitcoinInput.amount)
    let fee := wrap64 (totalIn - totalOut)
    if 0 < totalIn ∧ fee < 0 then
      errorf s!"outputs ({totalOut} sats) exceed inputs ({totalIn} sats)"
    else if 0 < totalIn ∧ 0 < totalOut ∧ totalOut < fee then
      errorf (s!"implied fee of {fee} sats exceeds the {totalOut} sats being sent; "
        ++ "refusing (check the output amounts)")
    else
      let digests ← planSigHashes lib txIn txOut 0 req.inputs
      return {
        txIn := txIn
        txOut := txOut
        sigHashes := digests.map Prod.fst
        prevScripts := req.inputs.map BitcoinInput.script
        witness := digests.map Prod.snd
        amounts := req.inputs.map BitcoinInput.amount }

end

/-! ## What an accepted plan is -/

section

variable {lib : TxLib}

variable {params : Net} {i : Nat}

theorem scriptForAddress_eq_ok {lib : BtcLib} {addr : String} {script : Bytes} :
    scriptForAddress lib addr params = .ok script ↔
      addr ≠ "" ∧ ∃ decoded, lib.decodeAddress addr params = .ok decoded ∧
        lib.isForNet decoded params ∧ lib.payToAddrScript decoded = .ok script := by
  unfold scriptForAddress
  by_cases haddr : addr = ""
  · simp [haddr]
  rw [if_neg haddr]
  cases hd : lib.decodeAddress addr params with
  | error err => simp
  | ok decoded =>
    cases hn : lib.isForNet decoded params with
    | false => simp [hn]
    | true => cases hs : lib.payToAddrScript decoded <;> simp [haddr, hn, hs]

theorem dustThreshold_pos (lib : BtcLib) (script : Bytes) : 0 < dustThreshold lib script := by
  unfold dustThreshold
  split <;> decide

theorem planOutput_eq_ok {out : BitcoinOutput} {script : Bytes} {txOut : TxOut}
    (hscript : scriptForAddress lib.toBtcLib out.address params = .ok script) :
    planOutput lib params i out = .ok txOut ↔
      dustThreshold lib.toBtcLib script ≤ out.amount ∧ txOut = ⟨out.amount, script⟩ := by
  obtain ⟨-, decoded, hdecode, hnet, hpay⟩ := scriptForAddress_eq_ok.mp hscript
  have hpos := dustThreshold_pos lib.toBtcLib script
  unfold planOutput
  rw [hdecode]
  simp only [hnet, hpay, Bool.true_eq_false, if_false]
  split
  · simp only [errorf_ne_ok, false_iff]
    omega
  · split
    · simp only [errorf_ne_ok, false_iff]
      omega
    · next hdust =>
      rw [Except.ok.injEq, eq_comm]
      exact (and_iff_right (Int.not_lt.mp hdust)).symm

theorem planOutputs_eq_ok {dest change : BitcoinOutput} {txOuts : List TxOut}
    {destScript changeScript : Bytes} {p : Prop} [Decidable p]
    (hdest : scriptForAddress lib.toBtcLib dest.address params = .ok destScript)
    (hchange : scriptForAddress lib.toBtcLib change.address params = .ok changeScript) :
    planOutputs lib params i (dest :: if p then [change] else []) = .ok txOuts ↔
      dustThreshold lib.toBtcLib destScript ≤ dest.amount ∧
      (p → dustThreshold lib.toBtcLib changeScript ≤ change.amount) ∧
      txOuts = ⟨dest.amount, destScript⟩ :: if p then [⟨change.amount, changeScript⟩] else [] := by
  by_cases hp : p
  · simp only [if_pos hp, planOutputs, bind_eq_ok, planOutput_eq_ok hdest, planOutput_eq_ok hchange]
    constructor
    · rintro ⟨_, ⟨hd, rfl⟩, _, ⟨_, ⟨hc, rfl⟩, _, h, h'⟩, h''⟩
      cases h
      cases h'
      cases h''
      exact ⟨hd, fun _ => hc, rfl⟩
    · rintro ⟨hd, hc, rfl⟩
      exact ⟨_, ⟨hd, rfl⟩, _, ⟨_, ⟨hc hp, rfl⟩, _, rfl, rfl⟩, rfl⟩
  · simp only [if_neg hp, planOutputs, bind_eq_ok, planOutput_eq_ok hdest]
    constructor
    · rintro ⟨_, ⟨hd, rfl⟩, _, h, h'⟩
      cases h
      cases h'
      exact ⟨hd, fun h => absurd h hp, rfl⟩
    · rintro ⟨hd, -, rfl⟩
      exact ⟨_, ⟨hd, rfl⟩, _, rfl, rfl⟩

theorem planBitcoinTransaction_eq_ok {req : BitcoinSigningRequest} {plan : BitcoinSigningPlan}
    (h : planBitcoinTransaction lib req = .ok plan) :
    ∃ params, bitcoinNetParams lib.toBtcLib req.network = .ok params ∧
      planOutputs lib params 0 req.outputs = .ok plan.txOut ∧
      plan.amounts = req.inputs.map BitcoinInput.amount ∧
      planInputs lib 0 req.inputs = .ok plan.txIn ∧ req.inputs ≠ [] ∧ req.outputs ≠ [] ∧
      let totalOut := sumAmounts (req.outputs.map BitcoinOutput.amount)
      let totalIn := sumAmounts (req.inputs.map BitcoinInput.amount)
      (0 < totalIn → 0 ≤ wrap64 (totalIn - totalOut)) ∧
        (0 < totalIn → 0 < totalOut → wrap64 (totalIn - totalOut) ≤ totalOut) := by
  simp only [planBitcoinTransaction, bind_eq_ok, ite_errorf_eq_ok] at h
  obtain ⟨params, hparams, hinputs, houtputs, txIn, hin, txOut, hout, hneg, hfee, digests, -, h⟩ := h
  cases h
  exact ⟨params, hparams, hout, rfl, hin, hinputs, houtputs,
    fun hpos => not_lt.mp fun hlt => hneg ⟨hpos, hlt⟩,
    fun hpos hsent => not_lt.mp fun hlt => hfee ⟨hpos, hsent, hlt⟩⟩

/-! ## The planned transaction and the requested one -/

def BitcoinSigningRequest.totalIn (req : BitcoinSigningRequest) : Int :=
  (req.inputs.map BitcoinInput.amount).sum

def BitcoinSigningRequest.totalOut (req : BitcoinSigningRequest) : Int :=
  (req.outputs.map BitcoinOutput.amount).sum

/-- The generator of the curve, compressed. -/
def generatorKey : Bytes :=
  toBytes 0x0279be667ef9dcbbac55a06295ce870b07029bfcdb2dce28d959f2815b16f81798

/-- At most 64 hex digits, the last byte first. -/
def hashFromHex (text : String) : Except String Bytes :=
  if 64 < text.length then .error "max hash string length is 64 bytes"
  else
    let padded := List.replicate (64 - text.length) '0' ++ text.toList
    ((hexDecodeChars padded).map List.reverse).elim (.error "encoding/hex: invalid byte") .ok

theorem hashFromHex_hex (hash : Bytes) (h : hash.length = 32) :
    hashFromHex (hexEncodeToString hash.reverse) = .ok hash := by
  have hlen : (hexEncodeToString hash.reverse).length = 64 := by
    rw [← String.length_toList, toList_hexEncodeToString, length_hexChars, List.length_reverse, h]
  unfold hashFromHex
  simp [hlen, toList_hexEncodeToString, hexDecodeChars_hexChars]

theorem script_length_mainNetLib (addr script : Bytes)
    (h : mainNetLib.payToAddrScript addr = .ok script) : script.length ≤ 42 := by
  simp only [mainNetLib] at h
  split at h
  · next hle => exact Except.ok.inj h ▸ hle
  · cases h

end

end OpenFireblocks.Bitcoin
