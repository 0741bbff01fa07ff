import OpenFireblocks.Lib.Reply
import OpenFireblocks.Lib.Threads
import OpenFireblocks.Transfers.Link

/-!
# The gateway runs a transfer that was parked

`openTransferRequest`, `pendingTransfer`, `transitionTransfer` and `expireStaleTransfers` are the
statements of the approvals service; `onDecision`, `retry` and `execute` are calls of the transfers
service, each of which is a thread here.

* A transaction is one step. Its answer may get lost, after or before it takes effect, and the
  caller then sees an error; what an error does is what the source does with it.
* Signing and sending is outside the database. It is the phase `running`, in which anything may
  happen elsewhere, and it ends with a result, with an error or not at all.
* A gateway may stop at any time, and its calls are gone.
* What else is written to the approvals renames no request.
-/

namespace OpenFireblocks.Transfers

open Approval Outcome Threads

/-! ## Statements of the approvals service -/

/-- What `park` asks for, with the ids that are made for it. -/
structure ParkedTransfer (U J : Type) where
  approvalID : U
  workflow : String
  customerID : U
  initiatedByUserID : Option U
  initiatedByLabel : String
  policy : ApprovalPolicy
  summary : String
  keyID : U
  kind : TransferKind
  request : J

/-- The row of `approval_requests` for it. -/
def ParkedTransfer.approvalRequest {U J : Type} (p : ParkedTransfer U J) (now : Int) : Request U where
  approvalID := p.approvalID
  customerID := p.customerID
  workflowID := "native:" ++ p.workflow
  initiatedByUserID := p.initiatedByUserID
  initiatedByLabel := p.initiatedByLabel
  requiredApprovals := p.policy.requiredApprovals
  status := .pending
  summary := p.summary
  createdAt := now
  expiresAt := now + p.policy.windowMinutes * 60000000
  decidedAt := none
  required_range := p.policy.required_range
  expires_after := by
    have hwindow := p.policy.window_range.1
    omega

/-- The row of `pending_transfers` for it. -/
def ParkedTransfer.pendingTransfer {U J : Type} (p : ParkedTransfer U J) (now : Int) :
    PendingTransfer U J where
  approvalID := p.approvalID
  customerID := p.customerID
  keyID := p.keyID
  kind := p.kind
  request := p.request
  prepared := none
  status := .awaitingApproval
  result := none
  error := none
  createdAt := now
  updatedAt := now

/-- What a transition writes besides the status. -/
structure Patch (J : Type) where
  result : Option J := none
  error : Option String := none
  prepared : Option J := none

/-- `SET status = ..., result = COALESCE(...), error = ..., prepared = COALESCE(...)`. -/
def Patch.apply {U J : Type} (patch : Patch J) (target : TransferStatus) (t : PendingTransfer U J) :
    PendingTransfer U J :=
  { t with
    status := target
    result := patch.result <|> t.result
    error := patch.error
    prepared := patch.prepared <|> t.prepared }

section

variable {U J : Type} [DecidableEq U] [DecidableEq J] (pg : Pg U) (db : Tables U J)

def openTransferRequest (p : ParkedTransfer U J) : Sql (Tables U J) :=
  if db.approvals.requests.any fun r => r.workflowID = "native:" ++ p.workflow then
    raise .uniqueViolation
      "duplicate key value violates unique constraint \"approval_requests_workflow_id_key\""
  else do
    let db ← execApproval db pg (.insertRequest (p.approvalRequest db.approvals.now))
    insertTransfer db (some p.customerID) (p.pendingTransfer db.approvals.now)

/-- `SELECT * FROM pending_transfers WHERE approval_id = ...`. -/
def pendingTransfer (customer approval : U) : Option (PendingTransfer U J) :=
  findTransfer db (some customer) approval

/-- `UPDATE pending_transfers ... WHERE approval_id = ... AND customer_id = ... AND status = ANY(...)`,
and whether it changed a row. A refusal by the guard is no change. -/
def transitionTransfer (customer approval : U) (source : List TransferStatus)
    (target : TransferStatus) (patch : Patch J) : Sql (Tables U J × Bool) :=
  match findTransfer db (some customer) approval with
  | none => .ok (db, false)
  | some t =>
    if t.customerID = customer ∧ source.contains t.status then
      match updateTransfers db (some customer) [(approval, patch.apply target t)] with
      | .ok db' => .ok (db', true)
      | .error e => if e.code = .ofb01 ∨ e.code = .ofb03 then .ok (db, false) else .error e
    else .ok (db, false)

/-- Whether nobody decided on this request of the gateway in time. -/
def isStale (customer : U) (r : Request U) : Bool :=
  r.customerID = customer ∧ "native:".toList.isPrefixOf r.workflowID.toList ∧ r.status = .pending ∧
    r.expiresAt < db.approvals.now

/-- Requests whose time is over, and the transfers that wait for them. -/
def expireStaleTransfers (customer : U) : Sql (Tables U J) := do
  let stale := db.approvals.requests.filter (isStale db customer)
  let db ← execApproval db pg (.updateRequests (stale.map fun r =>
    (r.approvalID, { r with status := .expired, decidedAt := some db.approvals.now })))
  let waiting := db.transfers.filter fun t =>
    t.customerID = customer ∧ stale.any (fun r => r.approvalID = t.approvalID) ∧
      t.status = .awaitingApproval
  updateTransfers db (some customer)
    (waiting.map fun t => (t.approvalID, { t with status := .expired }))

end

/-! ## Calls -/

/-- What `run` is given: `approvalGranted` is true. -/
structure Run (U J : Type) where
  kind : TransferKind
  customerID : U
  keyID : U
  request : J
  idempotencyKey : String
  prepared : Option J

inductive Call (U J : Type) where
  /-- `onDecision` reads the row. It was given the status that the request had at some time. -/
  | deciding (customer approval : U) (view : Status)
  | closing (customer approval : U) (target : TransferStatus)
  /-- `retry` reads the row. -/
  | retrying (customer approval : U)
  /-- `execute` takes "executing". -/
  | claiming (customer approval : U) (source : TransferStatus)
  /-- `execute` has it, and reads the row. -/
  | claimed (customer approval : U)
  | running (customer approval : U) (run : Run U J)
  | completing (customer approval : U) (result : J)
  | failing (customer approval : U) (error : String)

/-- What can happen. -/
inductive Action (U J : Type) where
  | park (p : ParkedTransfer U J)
  | expireStale (customer : U)
  /-- Decisions, other requests, policies, members and the clock. -/
  | records (statement : { s : Statement U // s.KeepsIDs })
  | onDecision (customer approval : U) (view : Status)
  | retry (customer approval : U)
  /-- The call sends its next statement. -/
  | query (reply : Reply)
  /-- A run on an EVM chain saves the nonce and the fees it chose. -/
  | save (prepared : J) (reply : Reply)
  /-- The run ends. -/
  | ran (outcome : Except String J)
  /-- The gateway of the call stops. -/
  | crash

section

variable {U J : Type} [DecidableEq U] [DecidableEq J] (pg : Pg U)

/-- The arguments of `run` for a row. -/
def runOf (customer approval : U) (t : PendingTransfer U J) : Run U J where
  kind := t.kind
  customerID := customer
  keyID := t.keyID
  request := t.request
  idempotencyKey := "approval:" ++ pg.uuidText approval
  prepared := t.prepared

def afterTransaction (db : Tables U J) : Sql (Tables U J) → Tables U J
  | .ok db' => db'
  | .error _ => db

def Call.query (db : Tables U J) (reply : Reply) : Call U J → Option (Tables U J × Option (Call U J))
  | .deciding customer approval view =>
    some (db,
      match reply with
      | .answered =>
        if (pendingTransfer db customer approval).isSome then
          match view with
          | .rejected => some (.closing customer approval .rejected)
          | .expired => some (.closing customer approval .expired)
          | .approved => some (.claiming customer approval .awaitingApproval)
          | .pending => none
        else none
      | _ => none)
  | .closing customer approval target =>
    let r := reply.send db
      (transitionTransfer db customer approval [.awaitingApproval] target {})
    some (r.1, none)
  | .retrying customer approval =>
    some (db,
      match reply with
      | .answered =>
        if (pendingTransfer db customer approval).any fun t => t.status = .failed then
          some (.claiming customer approval .failed)
        else none
      | _ => none)
  | .claiming customer approval source =>
    let r := reply.send db (transitionTransfer db customer approval [source] .executing {})
    some (r.1,
      match r.2 with
      | .ok true => some (.claimed customer approval)
      | _ => none)
  | .claimed customer approval =>
    some (db,
      match reply with
      | .answered =>
        match pendingTransfer db customer approval with
        | some t => some (.running customer approval (runOf pg customer approval t))
        | none => some (.failing customer approval "Cannot read properties of null (reading 'kind')")
      | _ => none)
  | .running _ _ _ => none
  | .completing customer approval result =>
    let r := reply.send db
      (transitionTransfer db customer approval [.executing] .completed { result := some result })
    some (r.1,
      match r.2 with
      | .ok _ => none
      | .error e => some (.failing customer approval (e.message SqlError.message)))
  | .failing customer approval error =>
    let r := reply.send db
      (transitionTransfer db customer approval [.executing] .failed { error := some error })
    some (r.1, none)

/-- The nonce and the fees are saved once, and an error ends the run. -/
def Call.save (db : Tables U J) (prepared : J) (reply : Reply) :
    Call U J → Option (Tables U J × Option (Call U J))
  | .running customer approval run =>
    if run.kind = .evm ∧ run.prepared.isNone then
      let r := reply.send db
        (transitionTransfer db customer approval [.executing] .executing { prepared := some prepared })
      some (r.1,
        match r.2 with
        | .ok _ => some (.running customer approval { run with prepared := some prepared })
        | .error e => some (.failing customer approval (e.message SqlError.message)))
    else none
  | _ => none

/-- The end of a run: its result is recorded, or its error is. -/
def Call.ran (outcome : Except String J) : Call U J → Option (Call U J)
  | .running customer approval _ =>
    match outcome with
    | .ok result => some (.completing customer approval result)
    | .error message => some (.failing customer approval message)
  | _ => none

def next (db : Tables U J) : Option (Call U J) → Action U J → Option (Tables U J × Option (Call U J))
  | none, .park p => some (afterTransaction db (openTransferRequest pg db p), none)
  | none, .expireStale customer =>
    some (afterTransaction db (expireStaleTransfers pg db customer), none)
  | none, .records statement => some (afterTransaction db (execApproval db pg statement.1), none)
  | none, .onDecision customer approval view => some (db, some (.deciding customer approval view))
  | none, .retry customer approval => some (db, some (.retrying customer approval))
  | some call, .query reply => call.query pg db reply
  | some call, .save prepared reply => call.save db prepared reply
  | some call, .ran outcome => (call.ran outcome).map fun c => (db, some c)
  | some _, .crash => some (db, none)
  | _, _ => none

end

end OpenFireblocks.Transfers
