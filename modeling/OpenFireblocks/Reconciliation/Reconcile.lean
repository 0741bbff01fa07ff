import Mathlib.Data.List.Basic

/-!
# What became of each transfer

The pure functions of `reconciliation/reconcile.ts`: a signed transaction as the ledger has it, and
what the chain returned for it.

* `ethers` is a parameter (`EvmLib`); each of its functions may throw.
* Times are milliseconds, and an age is compared and rounded in minutes.
-/

namespace OpenFireblocks.Reconciliation

inductive Classification where
  | confirmed
  | mismatch
  | failed
  | pending
  | recent
  | missing
  | unsignedOutbound

inductive Severity where
  | ok
  | info
  | warning
  | critical
deriving DecidableEq

/-- `SEVERITY`. -/
def Classification.severity : Classification → Severity
  | .confirmed => .ok
  | .recent => .info
  | .pending => .info
  | .missing => .warning
  | .failed => .warning
  | .mismatch => .critical
  | .unsignedOutbound => .critical

/-! ## Signed transactions -/

/-- What `Transaction.from` reads from signed bytes. -/
structure SignedTransaction where
  hash : Option String
  chainId : Nat
  sender : Option String
  nonce : Nat
  recipient : Option String
  value : Nat

structure EvmLib where
  transactionFrom : String → Except String SignedTransaction
  getAddress : String → Except String String
  bigInt : String → Except String Int

structure LedgerEntry where
  requestId : String
  signedTx : String
  createdAt : Int
  assetContract : Option String
  effectiveTo : Option String
  effectiveAmount : Option String

structure Parsed where
  requestId : String
  hash : String
  chainId : Nat
  sender : String
  nonce : Nat
  recipient : Option String
  value : Nat
  entry : LedgerEntry

def parseSigned (lib : EvmLib) (entry : LedgerEntry) : Except String Parsed := do
  let tx ← lib.transactionFrom entry.signedTx
  match tx.hash, tx.sender with
  | some hash, some sender =>
    return { requestId := entry.requestId
             hash := hash
             chainId := tx.chainId
             sender := sender
             nonce := tx.nonce
             recipient := tx.recipient
             value := tx.value
             entry := entry }
  | _, _ => .error s!"ledger entry {entry.requestId} is not a signed transaction"

/-! ## EVM -/

structure Log where
  address : String
  topics : List String
  data : String

structure Receipt where
  status : Option Nat
  blockNumber : Nat
  logs : List Log

structure Transfer where
  contract : String
  sender : String
  recipient : String
  amount : Int

/-- The topic of `Transfer(address,address,uint256)`. -/
def transferTopic : String := "0xddf252ad1be2c89b69c2b068fc378daa952ba7f163c4a11628f55a4df523b3ef"

/-- The address in the last 40 characters of a topic. -/
def topicAddress (lib : EvmLib) (topic : String) : Except String String :=
  lib.getAddress ("0x" ++ String.ofList (topic.toList.drop (topic.toList.length - 40)))

def Log.isTransfer (l : Log) : Bool :=
  (l.topics.head?.map fun topic => topic.map Char.toLower) = some transferTopic ∧
    l.topics.length = 3

def Log.transfer (lib : EvmLib) (l : Log) : Except String Transfer := do
  let contract ← lib.getAddress l.address
  let sender ← topicAddress lib (l.topics.getD 1 "")
  let recipient ← topicAddress lib (l.topics.getD 2 "")
  let amount ← lib.bigInt l.data
  return ⟨contract, sender, recipient, amount⟩

/-- A value in a template, which is `null` if there is none. -/
def orNull {α : Type} [ToString α] (value : Option α) : String :=
  match value with
  | some a => toString a
  | none => "null"

def Transfer.text (t : Transfer) : String :=
  s!"{t.amount} {t.sender}->{t.recipient} ({t.contract})"

def truthy (text : Option String) : Option String := text.filter (· ≠ "")

def movedWhatLedgerSays (lib : EvmLib) (p : Parsed) (receipt : Receipt) :
    Except String (Bool × String) :=
  match truthy p.entry.assetContract with
  | none => .ok (true, s!"native transfer of {p.value} wei")
  | some asset => do
    let contract ← lib.getAddress asset
    let sender ← lib.getAddress p.sender
    let recipient ← (truthy p.entry.effectiveTo).mapM lib.getAddress
    let amount ← p.entry.effectiveAmount.mapM lib.bigInt
    let transfers ← (receipt.logs.filter Log.isTransfer).mapM (Log.transfer lib)
    let found := transfers.find? fun t =>
      t.contract = contract ∧ t.sender = sender ∧ some t.recipient = recipient ∧
        some t.amount = amount
    match found with
    | some t => return (true, s!"Transfer of {t.amount} to {t.recipient}")
    | none =>
      let seen :=
        if transfers = [] then "no Transfer events"
        else "; ".intercalate (transfers.map Transfer.text)
      let wanted := s!"{orNull amount} to {orNull recipient} from {sender} on {contract}"
      return (false, s!"ledger says {wanted}; chain shows {seen}")

/-- `Math.round` of an age in minutes. -/
def roundedMinutes (age : Int) : Int := (age + 30000) / 60000

def signedAgo (age : Int) : String := s!"signed {roundedMinutes age} min ago"

def classify (lib : EvmLib) (p : Parsed) (receipt : Option Receipt) (knownToNode : Bool)
    (now : Int) (missingAfterMinutes : Nat) : Except String (Classification × String) :=
  match receipt with
  | some receipt =>
    if receipt.status = some 0 then
      .ok (.failed, s!"reverted in block {receipt.blockNumber}")
    else do
      let (moved, detail) ← movedWhatLedgerSays lib p receipt
      let classification := if moved then Classification.confirmed else .mismatch
      return (classification, s!"block {receipt.blockNumber}: {detail}")
  | none =>
    let age := now - p.entry.createdAt
    let ago := signedAgo age
    if knownToNode then .ok (.pending, "in the mempool, not yet mined")
    else if age < missingAfterMinutes * 60000 then
      .ok (.recent, s!"{ago}; not yet seen by the node")
    else .ok (.missing, s!"{ago} and unknown to the node: never broadcast, or dropped")

def unsignedNonces (chainNonce : Nat) (signedNonces : List Nat) : List Nat :=
  (List.range chainNonce).filter fun n => n ∉ signedNonces

theorem unsignedNonces_ne_nil {chainNonce : Nat} {signedNonces : List Nat} :
    unsignedNonces chainNonce signedNonces ≠ [] ↔ ∃ n < chainNonce, n ∉ signedNonces := by
  simp [unsignedNonces]

/-! ## Solana and Cosmos -/

structure NativeLedgerEntry where
  requestId : String
  createdAt : Int
  txHash : String
  recipient : Option String
  amount : Option String

/-- What the signer reports of a transaction. -/
inductive NativeChainStatus where
  | notFound
  | failed (failure : Option String)
  | pending
  | landed (moved : Option (String × String))

def classifyNative (e : NativeLedgerEntry) (st : NativeChainStatus) (now : Int)
    (missingAfterMinutes : Nat) : Classification × String :=
  match st with
  | .notFound =>
    let age := now - e.createdAt
    let ago := signedAgo age
    if age < missingAfterMinutes * 60000 then (.recent, s!"{ago}; not yet seen by the node")
    else (.missing, s!"{ago} and unknown to the node: never broadcast, expired, or dropped")
  | .failed failure =>
    let reason := failure.getD "no reason given"
    (.failed, s!"included and failed: {reason}")
  | .pending => (.pending, "seen by the node, not yet confirmed")
  | .landed none =>
    (.confirmed,
      "confirmed (the node did not report what moved, so amount and recipient are unchecked)")
  | .landed (some (recipient, amount)) =>
    if some recipient ≠ e.recipient ∨ some amount ≠ e.amount then
      let wanted := s!"{orNull e.amount} to {orNull e.recipient}"
      (.mismatch, s!"ledger says {wanted}; chain shows {amount} to {recipient}")
    else (.confirmed, s!"{amount} to {recipient}")

end OpenFireblocks.Reconciliation
