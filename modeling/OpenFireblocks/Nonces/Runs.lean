import OpenFireblocks.Evm.Routes
import OpenFireblocks.Transfers.Execution

/-!
# EVM payments from one key on one chain

`runEvm` of `transfers/transfers.service.ts` and `signAndBroadcast` of `agents/agents.controller.ts`
under `withEvmNonceLock` (`blockchain/evm-nonce-lock.ts`). A call is a thread: it gets the lock of
the key, reads the nonce, signs, broadcasts and leaves. Any number of calls take turns.

* The transfers that wait for approval are those of `Transfers.Execution`. A run for this key is taken
  apart here.
* An approved transfer saves the nonce and the fees that it read. A retry takes them from its row,
  before it waits for the lock.
* The lock excludes: a call gets it when nobody has it, and a gateway that stops lets go of it. An
  unlock that fails leaves the lock with a connection that no call uses, and the next call to use
  that connection gets it again.
* The node counts every transaction it has accepted. It may count others, too.
* An agent may choose the nonce. Then there is no lock, and the agent gets the signed transaction.
* `signed` and `accepted` are no tables: they are what was signed, and what the node accepted.
-/

namespace OpenFireblocks.Nonces

open Approval Eth Evm Gateway Transfers

/-! ## Requests -/

structure EvmTransferRequest where
  chainId : Int
  destination : String
  amount : String
  data : Option String
  country : Option String
  chainId_min : 1 ≤ chainId
  destination_matches : matchesAddress destination = true
  amount_matches : matchesDigits amount = true
  data_matches : ∀ d, data = some d → isHex d.toList = true
deriving DecidableEq

structure Prepared where
  nonce : UInt64
  gasLimit : UInt64
  maxFeePerGas : Option Nat
  maxPriorityFeePerGas : Option Nat
  gasPrice : Option Nat
deriving DecidableEq

/-- `getFeeData()`. -/
structure FeeData where
  maxFeePerGas : Option Nat
  maxPriorityFeePerGas : Option Nat
  gasPrice : Option Nat

/-- What is chosen from the answers of the node: 20% headroom on the estimate. -/
def prepare (nonce : UInt64) (fee : FeeData) (estimate : Nat) : Prepared :=
  let dynamic := fee.maxFeePerGas.isSome && fee.maxPriorityFeePerGas.isSome
  { nonce := nonce
    gasLimit := .ofNat (estimate * 12 / 10)
    maxFeePerGas := if dynamic then fee.maxFeePerGas else none
    maxPriorityFeePerGas := if dynamic then fee.maxPriorityFeePerGas else none
    gasPrice := if dynamic then none else some (fee.gasPrice.getD 0) }

/-- What `signTransaction` is asked for. -/
def EvmTransferRequest.transaction (req : EvmTransferRequest) (p : Prepared) :
    SignTransactionDto where
  toAddr := req.destination
  value := req.amount
  -- an empty text is no data
  data := req.data.filter (· ≠ "")
  gasLimit := max 21000 p.gasLimit
  nonce := p.nonce
  chainId := req.chainId
  gasPrice := p.gasPrice
  maxFeePerGas := p.maxFeePerGas
  maxPriorityFeePerGas := p.maxPriorityFeePerGas
  country := req.country
  to_matches := req.destination_matches
  value_matches := req.amount_matches
  data_matches := by
    intro d hd
    obtain ⟨hd, -⟩ := Option.filter_eq_some_iff.mp hd
    exact req.data_matches d hd
  gasLimit_min := by
    rw [UInt64.le_iff_toNat_le]
    show _ ≤ (if (21000 : UInt64) ≤ p.gasLimit then p.gasLimit else 21000).toNat
    split
    · next h => exact UInt64.le_iff_toNat_le.mp h
    · exact le_rfl
  chainId_min := req.chainId_min

/-- The body of `POST /agent/transfers`. -/
structure AgentTransferDto where
  token : String
  recipient : String
  amount : String
  chainId : Int
  nonce : Option UInt64
  gasPrice : Option Nat
  maxFeePerGas : Option Nat
  maxPriorityFeePerGas : Option Nat
  recipient_matches : matchesAddress recipient = true

/-! ## The key -/

structure Account (U J : Type) where
  chainId : Int
  /-- Whether `getKey` finds a key with this address. -/
  hasAddress : (customer key : U) → Bool
  lib : EthersLib
  request : J → EvmTransferRequest
  readPrepared : J → Prepared
  prepared : Prepared → J
  /-- What is recorded of a transaction that was sent. -/
  result : Transaction → J
  chainId_min : 1 ≤ chainId

/-- A transaction, with the request, nonce and fees it is for unless it is an agent's. -/
structure Sent where
  origin : Option (EvmTransferRequest × Prepared)
  tx : Transaction

structure Store (U J : Type) where
  tables : Tables U J
  locked : Bool
  signed : List Sent
  accepted : List Sent

/-- Who sends. -/
inductive Caller (U J : Type) where
  | approved (customer approval : U) (run : Run U J)
  /-- A transfer that the policy lets through at once. -/
  | direct (keyId : String) (request : EvmTransferRequest)
  | agent (keyId : String) (transfer : AgentTransferDto)

section

variable {U J : Type} (pg : Pg U) (acc : Account U J)

/-- What `sendToken` is asked for. The agent's own fees go first. -/
def tokenTransfer (transfer : AgentTransferDto) (p : Prepared) : TokenTransferDto :=
  let own := transfer.gasPrice.isSome || transfer.maxFeePerGas.isSome
  { token := transfer.token
    recipient := transfer.recipient
    amount := transfer.amount
    chainId := acc.chainId
    nonce := p.nonce
    gasLimit := none
    gasPrice := if own then transfer.gasPrice else p.gasPrice
    maxFeePerGas := if own then transfer.maxFeePerGas else p.maxFeePerGas
    maxPriorityFeePerGas :=
      if own then transfer.maxPriorityFeePerGas
      else p.maxPriorityFeePerGas <|> transfer.maxPriorityFeePerGas
    country := none
    recipient_matches := transfer.recipient_matches
    chainId_min := acc.chainId_min }

def Account.runs (run : Run U J) : Bool :=
  run.kind = .evm ∧ acc.hasAddress run.customerID run.keyID ∧
    (acc.request run.request).chainId = acc.chainId

def Caller.request : Caller U J → Option EvmTransferRequest
  | .approved _ _ run => some (acc.request run.request)
  | .direct _ request => some request
  | .agent _ _ => none

def Caller.sent (caller : Caller U J) (p : Prepared) (tx : Transaction) : Sent :=
  ⟨(caller.request acc).map fun request => (request, p), tx⟩

/-- Asks for the signature, with whatever the controls, the policy and the parties say now. -/
def Caller.sign (env : EvmServices) (customer : Customer) (p : Prepared) :
    Caller U J → Except HttpError Signed
  | .approved _ _ run =>
    signTransaction { env with lib := acc.lib } customer (pg.uuidText run.keyID)
      ((acc.request run.request).transaction p) true
  | .direct keyId request =>
    signTransaction { env with lib := acc.lib } customer keyId (request.transaction p) false
  | .agent keyId transfer =>
    sendToken { env with lib := acc.lib } customer keyId (tokenTransfer acc transfer p)

/-! ## Calls -/

/-- What a call that has the lock does next. -/
inductive Phase (J : Type) where
  | choosing
  | saving (p : Prepared)
  /-- `saved`: by an earlier run. -/
  | signing (p : Prepared) (saved : Bool)
  | broadcasting (sent : Sent)
  | leaving (outcome : Except String J)

inductive Call (U J : Type) where
  /-- A call that does not run a transfer of this key now. -/
  | transfer (call : Transfers.Call U J)
  /-- It waits for the lock. -/
  | waiting (caller : Caller U J)
  | locked (caller : Caller U J) (phase : Phase J)
  /-- It signs with the nonce of the agent. -/
  | unlocked (caller : Caller U J) (p : Prepared)

/-- Why a call ends without the lock. -/
inductive EntryFailure where
  | noEndpoint
  | noAddress (keyId : String)
  | stillInProgress
  | thrown (message : String)

def EntryFailure.message : EntryFailure → String
  | noEndpoint =>
    let chainId := acc.chainId
    s!"no JSON-RPC endpoint is configured for chain {chainId} (EVM_RPC_{chainId}), " ++
      "so its nonce and fees cannot be read"
  | noAddress keyId => s!"key {keyId} has no address yet"
  | stillInProgress => "another transfer from this key is still in progress; try again shortly"
  | thrown message => message

inductive Action (U J : Type) where
  | transfers (action : Transfers.Action U J)
  | send (keyId : String) (request : EvmTransferRequest)
  | pay (keyId : String) (transfer : AgentTransferDto)
  | giveUp (why : EntryFailure)
  | lock
  /-- The node answers, or does not. -/
  | prepare (answer : Except String (UInt64 × FeeData × Nat))
  | save (reply : Reply)
  | sign (env : EvmServices) (customer : Customer) (reply : Reply)
  | broadcast (reply : Reply)
  | unlock
  /-- Somebody else sends a signed transaction to the node. -/
  | relay (place : Nat)
  /-- The gateway of the call stops. -/
  | crash

def Call.ofTransfer : Transfers.Call U J → Call U J
  | .running customer approval run =>
    if acc.runs run then .waiting (.approved customer approval run)
    else .transfer (.running customer approval run)
  | call => .transfer call

/-- What is left to do after the lock was let go of. -/
def Caller.finish (outcome : Except String J) : Caller U J → Option (Call U J)
  | .approved customer approval run =>
    ((Transfers.Call.running customer approval run).ran outcome).map .transfer
  | .direct _ _ | .agent _ _ => none

/-- What is done first under the lock. -/
def Caller.start : Caller U J → Phase J
  | .approved _ _ run =>
    match run.prepared with
    | some j => .signing (acc.readPrepared j) true
    | none => .choosing
  | .direct _ _ | .agent _ _ => .choosing

/-- Only an approved transfer has a row to save to. -/
def Caller.afterChoosing (p : Prepared) : Caller U J → Phase J
  | .approved _ _ _ => .saving p
  | .direct _ _ | .agent _ _ => .signing p false

variable [DecidableEq U] [DecidableEq J] (s : Store U J)

def Store.transfers (call : Option (Transfers.Call U J)) (action : Transfers.Action U J) :
    Option (Store U J × Option (Call U J)) :=
  (Transfers.next pg s.tables call action).map fun r =>
    ({ s with tables := r.1 }, r.2.map (Call.ofTransfer acc))

/-- The nonce is the node's pending count. -/
def Caller.choose (caller : Caller U J) :
    Except String (UInt64 × FeeData × Nat) → Option (Store U J × Phase J)
  | .ok (nonce, fee, estimate) =>
    if s.accepted.all (·.tx.nonce < nonce) then
      some (s, caller.afterChoosing (prepare nonce fee estimate))
    else none
  | .error message => some (s, .leaving (.error message))

/-- The answer says whether the row was executing, and nobody looks. -/
def Caller.save (p : Prepared) (reply : Reply) : Caller U J → Option (Store U J × Phase J)
  | .approved customer approval _ =>
    let r := reply.send s.tables (transitionTransfer s.tables customer approval [.executing]
      .executing { prepared := some (acc.prepared p) })
    some ({ s with tables := r.1 },
      match r.2 with
      | .ok _ => .signing p false
      | .error e => .leaving (.error (e.message SqlError.message)))
  | _ => none

/-- A signature that was made counts, whether or not the caller gets it. -/
def Caller.signed (caller : Caller U J) (env : EvmServices) (customer : Customer) (p : Prepared)
    (reply : Reply) : Store U J × Except (Reply.Failure HttpError) Sent :=
  reply.send s ((caller.sign pg acc env customer p).map fun signed =>
    let sent := caller.sent acc p signed.tx
    ({ s with signed := s.signed ++ [sent] }, sent))

def Caller.afterSigning : Except (Reply.Failure HttpError) Sent → Phase J
  | .ok sent => .broadcasting sent
  | .error e => .leaving (.error (e.message HttpError.message))

def Store.accept (sent : Sent) : Store U J := { s with accepted := s.accepted ++ [sent] }

/-- The node takes the transaction or does not, and the answer may get lost. -/
def Store.broadcast (sent : Sent) : Reply → Store U J × Phase J
  | .answered => (s.accept sent, .leaving (.ok (acc.result sent.tx)))
  | .lost message => (s.accept sent, .leaving (.error message))
  | .failed message => (s, .leaving (.error message))

/-- A step of a call that has the lock. -/
def Phase.next (caller : Caller U J) : Phase J → Action U J → Option (Store U J × Phase J)
  | .choosing, .prepare answer => caller.choose s answer
  | .saving p, .save reply => caller.save acc s p reply
  | .signing p _, .sign env customer reply =>
    let r := caller.signed pg acc s env customer p reply
    some (r.1, Caller.afterSigning r.2)
  | .broadcasting sent, .broadcast reply => some (s.broadcast acc sent reply)
  | _, _ => none

/-- The lock is let go of at the end, and when the gateway stops. -/
def Caller.locked (caller : Caller U J) : Phase J → Action U J → Option (Store U J × Option (Call U J))
  | .leaving outcome, .unlock => some ({ s with locked := false }, caller.finish outcome)
  | _, .crash => some ({ s with locked := false }, none)
  | phase, action =>
    (phase.next pg acc s caller action).map fun r => (r.1, some (.locked caller r.2))

def next : Option (Call U J) → Action U J → Option (Store U J × Option (Call U J))
  | none, .transfers action => s.transfers pg acc none action
  | none, .send keyId request =>
    if request.chainId = acc.chainId then some (s, some (.waiting (.direct keyId request)))
    else none
  | none, .pay keyId transfer =>
    if transfer.chainId = acc.chainId then
      match transfer.nonce with
      | none => some (s, some (.waiting (.agent keyId transfer)))
      | some nonce =>
        some (s, some (.unlocked (.agent keyId transfer)
          ⟨nonce, 0, transfer.maxFeePerGas, transfer.maxPriorityFeePerGas, transfer.gasPrice⟩))
    else none
  | none, .relay place => (s.signed[place]?).map fun sent => (s.accept sent, none)
  | some (.transfer call), .transfers action => s.transfers pg acc (some call) action
  | some (.waiting caller), .giveUp why => some (s, caller.finish (.error (why.message acc)))
  | some (.waiting caller), .lock =>
    if s.locked then none
    else some ({ s with locked := true }, some (.locked caller (caller.start acc)))
  | some (.locked caller phase), action => caller.locked pg acc s phase action
  | some (.unlocked caller p), .sign env customer reply =>
    some ((caller.signed pg acc s env customer p reply).1, none)
  | some (.waiting _), .crash | some (.unlocked _ _), .crash => some (s, none)
  | _, _ => none

end

/-- Nothing was sent from the key yet. -/
def Store.fresh {U J : Type} (tables : Tables U J) : Store U J := ⟨tables, false, [], []⟩

end OpenFireblocks.Nonces
