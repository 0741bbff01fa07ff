import OpenFireblocks.Eth.Rlp
import OpenFireblocks.Eth.Crypto

/-!
# Ethereum transactions, as `internal/ethtypes/transaction.go` builds them

One structure for the legacy and the EIP-1559 form. A `*big.Int` that may be `nil` is an
`Option Int`, and so is `To` (`recipient` here), where `nil` is contract creation. The code never tells
`nil` from empty `Data`.
-/

namespace OpenFireblocks.Eth

open BigEndian Go Outcome

def dynamicFeeTxType : UInt8 := 0x02

structure Transaction where
  chainID : Option Int
  nonce : UInt64
  gas : UInt64
  gasPrice : Option Int
  maxFee : Option Int
  tip : Option Int
  recipient : Option Bytes
  value : Option Int
  data : Bytes

namespace Transaction

def isDynamic (t : Transaction) : Bool := t.maxFee.isSome || t.tip.isSome

def validate (t : Transaction) : Result Unit :=
  if t.chainID.isNone ∨ t.chainID.getD 0 ≤ 0 then
    errorf "a chain id is required; without one the signature is replayable on any EVM chain"
  else if t.gasPrice.isSome ∧ t.isDynamic then
    errorf "supply either gasPrice (legacy) or maxFee and tip (EIP-1559), not both"
  else if ¬ t.gasPrice.isSome ∧ ¬ t.isDynamic then
    errorf "supply either gasPrice (legacy) or maxFee and tip (EIP-1559)"
  else if t.isDynamic ∧ (t.maxFee.isNone ∨ t.tip.isNone) then
    errorf "EIP-1559 needs both maxFee and tip"
  else if t.recipient.isSome ∧ (t.recipient.getD []).length ≠ 20 then
    errorf s!"a recipient address is 20 bytes, got {(t.recipient.getD []).length}"
  else if t.value.isSome ∧ t.value.getD 0 < 0 then errorf "value cannot be negative"
  else .ok ()

def toField (t : Transaction) : Bytes :=
  match t.recipient with
  | none => rlpString []
  | some addr => rlpString addr

/-- The bytes `SigningHash` gives to Keccak. -/
def signingPreimage (t : Transaction) : Result Bytes := do
  t.validate
  if t.isDynamic then
    let chainID ← rlpBig t.chainID
    let tip ← rlpBig t.tip
    let maxFee ← rlpBig t.maxFee
    let value ← rlpBig t.value
    alloc (dynamicFeeTxType :: rlpList (concat
      [chainID, rlpUint t.nonce, tip, maxFee, rlpUint t.gas, t.toField, value, rlpString t.data,
        rlpList []]))
  else
    let gasPrice ← rlpBig t.gasPrice
    let value ← rlpBig t.value
    let chainID ← rlpBig t.chainID
    alloc (rlpList (concat
      [rlpUint t.nonce, gasPrice, rlpUint t.gas, t.toField, value, rlpString t.data, chainID,
        rlpUint 0, rlpUint 0]))

def signingHash (lib : CryptoLib) (t : Transaction) : Result Bytes := do
  let preimage ← t.signingPreimage
  return lib.keccak256 preimage

end Transaction

structure SignedTransaction where
  raw : Bytes
  hash : Bytes
  sender : String

namespace Transaction

/-- The bytes to broadcast, once the signature has been checked. -/
def signedBytes (t : Transaction) (r s : Nat) (recovery : UInt8) : Result Bytes :=
  if t.isDynamic then do
    let chainID ← rlpBig t.chainID
    let tip ← rlpBig t.tip
    let maxFee ← rlpBig t.maxFee
    let value ← rlpBig t.value
    let r ← rlpBig (some r)
    let s ← rlpBig (some s)
    alloc (dynamicFeeTxType :: rlpList (concat
      [chainID, rlpUint t.nonce, tip, maxFee, rlpUint t.gas, t.toField, value, rlpString t.data,
        rlpList [], rlpUint recovery.toUInt64, r, s]))
  else do
    -- EIP-155 folds the chain id into v; ChainID is not nil here, validate has seen to that
    let v : Int := (recovery.toUInt64 + 35).toNat + t.chainID.getD 0 * 2
    let gasPrice ← rlpBig t.gasPrice
    let value ← rlpBig t.value
    let v ← rlpBig (some v)
    let r ← rlpBig (some r)
    let s ← rlpBig (some s)
    alloc (rlpList (concat
      [rlpUint t.nonce, gasPrice, rlpUint t.gas, t.toField, value, rlpString t.data, v, r, s]))

/-- Attaches a 65-byte `[R || S || V]` signature, refusing one by another key. -/
def withSignature (lib : CryptoLib) (t : Transaction) (sig : Bytes) (expectedFrom : String) :
    Result SignedTransaction := do
  t.validate
  if sig.length ≠ signatureLength then
    errorf s!"a signature is {signatureLength} bytes, got {sig.length}"
  else
    let digest ← t.signingHash lib
    let sender ← wrapError "the signature does not recover to any public key: "
      (recoverAddress lib digest sig)
    if expectedFrom ≠ "" ∧ equalAddress sender expectedFrom = false then
      errorf (s!"the signature recovers to {sender} but this key is {expectedFrom}; refusing to " ++
        "return a transaction that spends from an address the customer does not control")
    else
      let raw ← t.signedBytes (toNat (sig.take 32)) (toNat ((sig.drop 32).take 32))
        (recoveryID (sig.getD 64 0))
      return { raw := raw, hash := lib.keccak256 raw, sender := sender }

/-! ## What a validated transaction looks like -/

/-- What `validate` lets through. -/
structure Valid (t : Transaction) : Prop where
  chainID_pos : 0 < t.chainID.getD 0
  legacy_iff : t.gasPrice.isSome ↔ t.isDynamic = false
  dynamic : t.isDynamic = true → t.maxFee.isSome ∧ t.tip.isSome
  recipient_length : ∀ addr, t.recipient = some addr → addr.length = 20
  value_nonneg : 0 ≤ t.value.getD 0

theorem valid_of_validate {t : Transaction} {u : Unit} (h : t.validate = .ok u) : t.Valid := by
  simp only [validate, ite_errorf_eq_ok] at h
  obtain ⟨hchain, hdynamic, hfees, hlegacy, hto, hvalue, -⟩ := h
  refine ⟨?_, ?_, ?_, ?_, ?_⟩
  · omega
  · cases hd : t.isDynamic <;> cases hg : t.gasPrice <;> simp_all
  · intro hd
    cases hm : t.maxFee <;> cases ht : t.tip <;> simp_all
  · intro addr ha
    by_contra hlen
    exact hto ⟨by simp [ha], by simpa [ha] using hlen⟩
  · cases hv : t.value with
    | none => simp
    | some v =>
      by_contra hneg
      exact hvalue ⟨by simp [hv], by rw [hv] at *; simpa using hneg⟩

end Transaction

end OpenFireblocks.Eth
