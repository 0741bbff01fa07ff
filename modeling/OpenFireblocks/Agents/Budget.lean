import OpenFireblocks.Agents.Valuation
import OpenFireblocks.Approval.Database
import OpenFireblocks.Lib.Reply
import OpenFireblocks.Lib.Threads

/-!
# Agents that pay within a budget

The route `POST /agent/transfers` (`agents/agents.controller.ts`, `agents/agents.service.ts`) for one
agent. A call is a thread: it looks for an earlier payment under its idempotency key, reserves the
value, signs, broadcasts and settles.

* `reserve` holds the lock on the agent's row, so it is one step. Its `NOW()` is the time at which
  its transaction began, which may be any time before it got the lock.
* The records of the agent are the list `spends`; a spend id is a place in it.
* A statement, a signing or a broadcast may fail or lose its answer; the gateway may stop.
* `payments` is no table: it is what has been signed, each with its reservation.
* The token is the one the registry gave for the request; its symbol is unique on a chain. What the
  route checks before its first statement is left out. There is one clock.
-/

namespace OpenFireblocks.Agents

open Approval (Sql SqlError raise)
open Binary64

/-! ## Rows -/

/-- The terms of an agent. `agents_guard` lets nobody change them. Limits are in cents. -/
structure AgentTerms where
  allowedTokens : List String
  /-- In lower case. `none` is any recipient. -/
  allowedRecipients : Option (List String)
  perTransferLimit : Int
  dailyLimit : Int
  expiresAt : Int
  limit_pos : 0 < perTransferLimit
  limit_le : perTransferLimit ≤ dailyLimit

inductive AgentStatus where
  | active
  | revoked
deriving DecidableEq

inductive SpendStatus where
  | reserved
  | spent
  | released
  | refused
deriving DecidableEq

def SpendStatus.text : SpendStatus → String
  | .reserved => "reserved"
  | .spent => "spent"
  | .released => "released"
  | .refused => "refused"

/-- A row of `agent_spend`. Times are in microseconds. -/
structure Spend where
  requestId : String
  token : String
  recipient : String
  amount : Nat
  /-- In cents. -/
  valueZar : Option Int
  status : SpendStatus
  reason : Option String
  txHash : Option String
  createdAt : Int

/-- `status IN ('reserved', 'spent')`. -/
def Spend.live (r : Spend) : Bool := r.status == .reserved || r.status == .spent

/-- A transfer that was signed for the agent. -/
structure Payment where
  spend : Nat
  facts : TransferFacts
  recipient : String
deriving DecidableEq

structure Store where
  now : Int
  status : AgentStatus
  /-- How many records there were when the agent was revoked. -/
  revokedAfter : Option Nat
  spends : List Spend
  payments : List Payment

/-- `interval '24 hours'`. -/
def day : Int := 24 * 60 * 60 * 1000000

/-! ## Statements -/

/-- What an agent asks for. -/
structure TransferRequest where
  requestId : String
  /-- The caller chose the request id. -/
  idempotent : Bool
  /-- The caller gave no nonce. -/
  platformPrepared : Bool
  facts : TransferFacts
  recipient : String

/-- What the service reads at its start, and how it writes numbers. -/
structure Platform where
  cfg : TravelRuleConfig
  js : NumberText
  terms : AgentTerms

variable (p : Platform)

section

variable (s : Store)

def Store.spendOf (requestId : String) : Option Spend :=
  (s.spends.filter fun r => r.requestId == requestId).foldl
    (fun latest r =>
      match latest with
      | none => some r
      | some l => if l.createdAt ≤ r.createdAt then some r else some l) none

def lowerText (text : String) : String := String.ofList (text.toList.map Char.toLower)

/-- The record of a request, with its values as the database stores them. -/
def spendRow (req : TransferRequest) (valueZar : Option ℚ) (status : SpendStatus)
    (reason : Option String) (createdAt : Int) : Spend where
  requestId := req.requestId
  token := upperText req.facts.asset
  recipient := lowerText req.recipient
  amount := req.facts.amount
  valueZar := valueZar.map p.js.cents
  status := status
  reason := reason
  txHash := none
  createdAt := createdAt

/-- `SUM(value_zar)` over what counts against the budget of a transaction that began then. -/
def Store.spentSince (startedAt : Int) : Int :=
  ((s.spends.filter fun r => r.live && startedAt - day < r.createdAt).map
    fun r => r.valueZar.getD 0).sum

/-- Checks the terms and reserves the value. The error is why it refuses. -/
def reserve (req : TransferRequest) (startedAt : Int) : Except String (Store × Nat) :=
  let number (cents : Int) := p.js.text (numberOfCents cents)
  let asset := req.facts.asset
  let per := number p.terms.perTransferLimit
  let daily := number p.terms.dailyLimit
  -- a `Date` has milliseconds
  if s.status ≠ .active ∨ p.terms.expiresAt / 1000 ≤ s.now / 1000 then
    .error "revoked or expired: this agent can no longer spend"
  else if ¬ p.terms.allowedTokens.contains (upperText asset) then
    let allowed := String.intercalate ", " p.terms.allowedTokens
    .error s!"token not allowed: {asset} is not one of {allowed}"
  else if ¬ p.terms.allowedRecipients.all (·.contains (lowerText req.recipient)) then
    .error s!"recipient not allowed: {req.recipient} is not on this agent's list"
  else
    match valueInZar p.cfg req.facts with
    | none =>
      .error s!"unvalued: {asset} cannot be valued in rand, so no budget can govern it"
    | some valueZar =>
      let value := p.js.text valueZar
      let spent := number (s.spentSince startedAt)
      if numberOfCents p.terms.perTransferLimit < valueZar then
        .error s!"over per-transfer limit: R{value} exceeds R{per}"
      else if numberOfCents p.terms.dailyLimit <
          nearest (numberOfCents (s.spentSince startedAt) + valueZar) then
        .error (s!"over daily budget: R{value} with R{spent} already spent in 24 hours "
          ++ s!"exceeds R{daily}")
      else
        .ok ({ s with
          spends := s.spends ++ [spendRow p req (some valueZar) .reserved none startedAt] },
          s.spends.length)

def insertRefusal (req : TransferRequest) (reason : String) : Sql (Store × Unit) :=
  .ok ({ s with
    spends := s.spends ++
      [spendRow p req (valueInZar p.cfg req.facts) .refused (some reason) s.now] }, ())

/-- The trigger `agent_spend_guard`. -/
def agentSpendGuard (old new : Spend) : Sql Unit :=
  if (new.requestId, new.token, new.recipient, new.amount, new.valueZar, new.createdAt)
      ≠ (old.requestId, old.token, old.recipient, old.amount, old.valueZar, old.createdAt) then
    raise .ofb04 "an agent spend record cannot be changed"
  else if ¬ (old.status = .reserved ∧ (new.status = .spent ∨ new.status = .released)) ∧
      new.status ≠ old.status then
    raise .ofb03 s!"agent spend cannot move from {old.status.text} to {new.status.text}"
  else .ok ()

/-- How a payment ended. -/
inductive SettleOutcome where
  | txHash (hash : String)
  | failed (message : String)

def SettleOutcome.apply (r : Spend) : SettleOutcome → Spend
  | .txHash hash => { r with status := .spent, txHash := some hash }
  | .failed message => { r with status := .released, reason := some message }

/-- `UPDATE agent_spend SET ... WHERE spend_id = ...`. -/
def settle (spend : Nat) (outcome : SettleOutcome) : Sql (Store × Unit) :=
  match s.spends[spend]? with
  | none => .ok (s, ())
  | some r => do
    agentSpendGuard r (outcome.apply r)
    return ({ s with spends := s.spends.set spend (outcome.apply r) }, ())

/-- `UPDATE agents SET status = 'revoked' ... WHERE status = 'active'`. -/
def revoke : Store :=
  if s.status = .active then
    { s with status := .revoked, revokedAfter := some s.spends.length }
  else s

/-! ## Calls -/

inductive Call where
  /-- It looks for an earlier payment under its idempotency key. -/
  | looking (req : TransferRequest)
  /-- It begins the transaction that reserves. -/
  | beginning (req : TransferRequest)
  | reserving (req : TransferRequest) (startedAt : Int)
  | refusing (req : TransferRequest) (reason : String)
  /-- It reads the customer. -/
  | reserved (req : TransferRequest) (spend : Nat)
  | signing (req : TransferRequest) (spend : Nat)
  | broadcasting (spend : Nat) (txHash : String)
  | settling (spend : Nat) (txHash : String)
  /-- It is in the `catch`. -/
  | releasing (spend : Nat) (message : String)

/-- What becomes of `sendToken`. -/
inductive Signing where
  | signed (txHash : String)
  /-- An earlier signature under the same request id is returned. -/
  | replayed (txHash : String)
  /-- It throws after the transaction was signed. -/
  | lost (message : String)
  /-- It throws, and nothing is signed. -/
  | failed (message : String)

inductive Action where
  | transfer (req : TransferRequest)
  | revoke
  | tick (microseconds : Nat)
  | find (reply : Reply)
  | start
  | reserve (reply : Reply)
  | refuse (reply : Reply)
  /-- The customer is read, or the read throws. -/
  | customer (reply : Reply)
  | sign (outcome : Signing)
  | broadcast (reply : Reply)
  | settle (reply : Reply)
  | release (reply : Reply)
  /-- The gateway of the call stops. -/
  | crash

section

variable (reply : Reply)

/-- An earlier payment is returned, and one in flight is reported as such. -/
def Call.find : Call → Option (Store × Option Call)
  | .looking req =>
    some (s,
      match reply with
      | .answered =>
        match s.spendOf req.requestId with
        | some prior =>
          if prior.status = .spent ∨ prior.status = .reserved then none else some (.beginning req)
        | none => some (.beginning req)
      | _ => none)
  | _ => none

def Call.start : Call → Option (Store × Option Call)
  | .beginning req => some (s, some (.reserving req s.now))
  | _ => none

/-- A refusal is recorded; any other error ends the call. -/
def afterReserving (req : TransferRequest) : Except (Reply.Failure String) Nat → Option Call
  | .ok spend => some (.reserved req spend)
  | .error (.raised reason) => some (.refusing req reason)
  | .error (.broken _) => none

def Call.reserve : Call → Option (Store × Option Call)
  | .reserving req startedAt =>
    let r := reply.send s (Agents.reserve p s req startedAt)
    some (r.1, afterReserving req r.2)
  | _ => none

def Call.refuse : Call → Option (Store × Option Call)
  | .refusing req reason => some ((reply.send s (insertRefusal p s req reason)).1, none)
  | _ => none

/-- Before the `try`: the reservation stays as it is if this fails. -/
def Call.customer : Call → Option (Store × Option Call)
  | .reserved req spend =>
    some (s,
      match reply with
      | .answered => some (.signing req spend)
      | _ => none)
  | _ => none

def afterSigning (req : TransferRequest) (spend : Nat) (txHash : String) : Call :=
  if req.platformPrepared then .broadcasting spend txHash else .settling spend txHash

def Store.pay (req : TransferRequest) (spend : Nat) : Store :=
  { s with payments := s.payments ++ [⟨spend, req.facts, req.recipient⟩] }

def Call.sign (outcome : Signing) : Call → Option (Store × Option Call)
  | .signing req spend =>
    match outcome with
    | .signed txHash => some (s.pay req spend, some (afterSigning req spend txHash))
    | .replayed txHash => some (s, some (afterSigning req spend txHash))
    | .lost message => some (s.pay req spend, some (.releasing spend message))
    | .failed message => some (s, some (.releasing spend message))
  | _ => none

def Call.broadcast : Call → Option (Store × Option Call)
  | .broadcasting spend txHash =>
    some (s,
      match reply with
      | .answered => some (.settling spend txHash)
      | .lost message | .failed message => some (.releasing spend message))
  | _ => none

/-- An error of the settlement is an error of the payment. -/
def Call.settle : Call → Option (Store × Option Call)
  | .settling spend txHash =>
    let r := reply.send s (Agents.settle s spend (.txHash txHash))
    some (r.1,
      match r.2 with
      | .ok _ => none
      | .error e => some (.releasing spend (e.message SqlError.message)))
  | _ => none

def Call.release : Call → Option (Store × Option Call)
  | .releasing spend message =>
    let reason := String.ofList (message.toList.take 500)
    some ((reply.send s (Agents.settle s spend (.failed reason))).1, none)
  | _ => none

end

def next : Option Call → Action → Option (Store × Option Call)
  | none, .transfer req => some (s, some (if req.idempotent then .looking req else .beginning req))
  | none, .revoke => some (Agents.revoke s, none)
  | none, .tick microseconds => some ({ s with now := s.now + microseconds }, none)
  | some call, .find reply => call.find s reply
  | some call, .start => call.start s
  | some call, .reserve reply => call.reserve p s reply
  | some call, .refuse reply => call.refuse p s reply
  | some call, .customer reply => call.customer s reply
  | some call, .sign outcome => call.sign s outcome
  | some call, .broadcast reply => call.broadcast s reply
  | some call, .settle reply => call.settle s reply
  | some call, .release reply => call.release s reply
  | some _, .crash => some (s, none)
  | _, _ => none

end

/-- An agent that has done nothing yet. -/
def Store.fresh (now : Int) : Store where
  now := now
  status := .active
  revokedAfter := none
  spends := []
  payments := []

end OpenFireblocks.Agents
