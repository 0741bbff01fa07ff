import Mathlib.Data.List.Dedup

/-!
# Approval records in Postgres, as migration 023 guards them

Two tables, and the triggers that filter what is written to them. A statement that raises changes
nothing.

* UUIDs are a type `U`. A `CHECK` of a table is a field of its row.
* `UPDATE` of several rows is one statement: the row trigger runs for each, and the foreign key of
  the decisions is looked at when all rows are done.
* Row-level security and the foreign keys to users and customers are left out; they refuse more.
* Time is in microseconds.
-/

namespace OpenFireblocks.Approval

/-! ## Rows -/

inductive Status where
  | pending
  | approved
  | rejected
  | expired
deriving DecidableEq

def Status.text : Status → String
  | .pending => "pending"
  | .approved => "approved"
  | .rejected => "rejected"
  | .expired => "expired"

inductive Decision where
  | approve
  | reject
deriving DecidableEq

inductive Role where
  | admin
  | approver
  | operator
  | auditor
  | viewer
  | billingAdmin
  | user
deriving DecidableEq

inductive StepUp where
  | totp
  | sso

/-- A row of `approval_requests`. -/
structure Request (U : Type) where
  approvalID : U
  customerID : U
  workflowID : String
  initiatedByUserID : Option U
  initiatedByLabel : String
  requiredApprovals : Nat
  status : Status
  summary : String
  createdAt : Int
  expiresAt : Int
  decidedAt : Option Int
  required_range : 1 ≤ requiredApprovals ∧ requiredApprovals ≤ 10
  expires_after : createdAt < expiresAt

/-- A row of `approval_decisions`. -/
structure DecisionRow (U : Type) where
  approvalID : U
  customerID : U
  userID : U
  decision : Decision
  reason : Option String
  stepUp : StepUp
  createdAt : Int

/-- A row of `approval_policies`. -/
structure ApprovalPolicy where
  requiredApprovals : Nat
  windowMinutes : Nat
  required_range : 1 ≤ requiredApprovals ∧ requiredApprovals ≤ 10
  window_range : 5 ≤ windowMinutes ∧ windowMinutes ≤ 10080

/-- The tables the triggers read and write, and the clock. -/
structure Database (U : Type) where
  requests : List (Request U)
  decisions : List (DecisionRow U)
  policies : U → Option ApprovalPolicy
  /-- The role of a user for a customer. -/
  roles : U → U → Option Role
  active : U → Bool
  now : Int

/-- The errors of the tables. -/
inductive Sqlstate where
  | ofb01
  | ofb02
  | ofb03
  | ofb04
  | uniqueViolation
  | foreignKeyViolation
  | insufficientPrivilege
deriving DecidableEq

structure SqlError where
  code : Sqlstate
  message : String

/-- How Postgres writes and reads the types of the tables. -/
structure Pg (U : Type) where
  uuidText : U → String
  /-- `::uuid`, which fails for text that is no UUID. -/
  castUUID : String → Option U
  timestampText : Int → String

abbrev Sql := Except SqlError

def raise {α : Type} (code : Sqlstate) (message : String) : Sql α := .error { code, message }

@[simp] theorem raise_ne_ok {α : Type} {code : Sqlstate} {message : String} {a : α} :
    raise code message ≠ .ok a := by
  simp [raise]

/-! ## Triggers -/

section

variable {U : Type} [DecidableEq U] (pg : Pg U)

/-- `COUNT(DISTINCT user_id)` over the approvals of a request. -/
def approvals (decisions : List (DecisionRow U)) (id : U) : Nat :=
  ((decisions.filter fun d => d.approvalID = id ∧ d.decision = .approve).map
    DecisionRow.userID).dedup.length

section

variable (db : Database U)

def findRequest (id : U) : Option (Request U) :=
  db.requests.find? fun r => r.approvalID = id

/-- `BEFORE INSERT ON approval_decisions`. -/
def approvalDecisionGuard (new : DecisionRow U) : Sql (DecisionRow U) :=
  match findRequest db new.approvalID with
  | none => raise .ofb03 s!"approval request {pg.uuidText new.approvalID} not found"
  | some req =>
    if req.customerID ≠ new.customerID then
      raise .ofb03 s!"approval request {pg.uuidText new.approvalID} not found"
    else if req.status ≠ .pending then
      raise .ofb03 s!"approval request is already {req.status.text}"
    else if req.expiresAt ≤ db.now then
      raise .ofb03 s!"approval request expired at {pg.timestampText req.expiresAt}"
    else if req.initiatedByUserID = some new.userID then
      raise .ofb01 "segregation of duties: the person who initiated a transfer cannot approve or reject it"
    else if db.roles new.userID new.customerID ≠ some .approver ∧
        db.roles new.userID new.customerID ≠ some .admin then
      raise .ofb02 "only an approver or admin of this organisation can decide on a transfer"
    else if db.active new.userID = false then raise .ofb02 "the deciding user is not active"
    else .ok { new with createdAt := db.now }

/-- `BEFORE UPDATE ON approval_requests`. It says nothing about `approval_id`. -/
def approvalRequestGuard (old new : Request U) : Sql (Request U) :=
  if new.customerID ≠ old.customerID ∨ new.workflowID ≠ old.workflowID ∨
      new.initiatedByUserID ≠ old.initiatedByUserID ∨
      new.requiredApprovals ≠ old.requiredApprovals ∨ new.summary ≠ old.summary ∨
      new.createdAt ≠ old.createdAt ∨ new.expiresAt ≠ old.expiresAt then
    raise .ofb04 "an approval request's terms cannot change after it opens"
  else if new.status ≠ old.status ∧ old.status ≠ .pending then
    raise .ofb03 s!"approval request is already {old.status.text}"
  else if new.status = .approved ∧ old.status = .pending ∧
      approvals db.decisions new.approvalID < new.requiredApprovals then
    raise .ofb01 s!"cannot mark approved: fewer than {new.requiredApprovals} distinct approvals"
  else .ok new

/-- `UPDATE` of the row with this id to new values. -/
def updateRow (id : U) (new : Request U) : Sql (Database U) :=
  match findRequest db id with
  | none => .ok db
  | some old => do
    let new ← approvalRequestGuard db old new
    if new.approvalID ≠ id ∧ db.requests.any (fun r => r.approvalID = new.approvalID) then
      raise .uniqueViolation "duplicate key value violates unique constraint \"approval_requests_pkey\""
    else
      return { db with requests := db.requests.map fun r => if r.approvalID = id then new else r }

/-- `UPDATE approval_requests SET status = ..., decided_at = NOW() WHERE approval_id = ...`. -/
def setStatus (id : U) (status : Status) : Sql (Database U) :=
  match findRequest db id with
  | none => .ok db
  | some old => updateRow db id { old with status := status, decidedAt := some db.now }

/-- `AFTER INSERT ON approval_decisions`. -/
def approvalDecisionApply (new : DecisionRow U) : Sql (Database U) :=
  if new.decision = .reject then setStatus db new.approvalID .rejected
  else
    match findRequest db new.approvalID with
    | none => .ok db
    | some req =>
      if req.requiredApprovals ≤ approvals db.decisions new.approvalID then
        setStatus db new.approvalID .approved
      else .ok db

/-- The trigger that refuses every `UPDATE` and `DELETE` of a row that is there. -/
def approvalDecisionImmutable (present : Bool) : Sql (Database U) :=
  if present then raise .ofb04 "approval records are append-only" else .ok db

/-! ## Statements -/

/-- `INSERT INTO approval_requests ... ON CONFLICT (workflow_id) DO NOTHING`. No caller sets the
status, which is `pending` by default. -/
def insertRequest (row : Request U) : Sql (Database U) :=
  if db.requests.any fun r => r.workflowID = row.workflowID then .ok db
  else if db.requests.any fun r => r.approvalID = row.approvalID then
    raise .uniqueViolation "duplicate key value violates unique constraint \"approval_requests_pkey\""
  else .ok { db with requests := db.requests ++ [{ row with status := .pending, decidedAt := none }] }

/-- `INSERT INTO approval_decisions`. -/
def insertDecision (new : DecisionRow U) : Sql (Database U) := do
  let new ← approvalDecisionGuard pg db new
  if db.decisions.any fun d => d.approvalID = new.approvalID ∧ d.userID = new.userID then
    raise .uniqueViolation "duplicate key value violates unique constraint \"approval_decisions_pkey\""
  else approvalDecisionApply { db with decisions := db.decisions ++ [new] } new

end

def updateRows (db : Database U) : List (U × Request U) → Sql (Database U)
  | [] => .ok db
  | (id, new) :: rest => do
    let db ← updateRow db id new
    updateRows db rest

/-- `UPDATE approval_requests`: every row, then the foreign key of the decisions. -/
def updateRequests (db : Database U) (changes : List (U × Request U)) : Sql (Database U) := do
  let db ← updateRows db changes
  if db.decisions.all fun d => db.requests.any fun r => r.approvalID = d.approvalID then return db
  else raise .foreignKeyViolation "update or delete on table \"approval_requests\" violates foreign key constraint"

/-- What a client may send. -/
inductive Statement (U : Type) where
  | insertRequest (row : Request U)
  | insertDecision (row : DecisionRow U)
  | updateRequests (changes : List (U × Request U))
  | deleteRequest (id : U)
  | updateDecision (id user : U) (new : DecisionRow U)
  | deleteDecision (id user : U)
  | setPolicy (customer : U) (policy : Option ApprovalPolicy)
  | setRole (user customer : U) (role : Option Role)
  | setActive (user : U) (active : Bool)
  | advance (microseconds : Nat)

def exec (db : Database U) : Statement U → Sql (Database U)
  | .insertRequest row => Approval.insertRequest db row
  | .insertDecision row => Approval.insertDecision pg db row
  | .updateRequests changes => Approval.updateRequests db changes
  | .deleteRequest id => approvalDecisionImmutable db (findRequest db id).isSome
  | .updateDecision id user _ =>
    approvalDecisionImmutable db (db.decisions.any fun d => d.approvalID = id ∧ d.userID = user)
  | .deleteDecision id user =>
    approvalDecisionImmutable db (db.decisions.any fun d => d.approvalID = id ∧ d.userID = user)
  | .setPolicy customer policy => .ok { db with policies := Function.update db.policies customer policy }
  | .setRole user customer role =>
    .ok { db with roles := Function.update db.roles user
                    (Function.update (db.roles user) customer role) }
  | .setActive user active => .ok { db with active := Function.update db.active user active }
  | .advance microseconds => .ok { db with now := db.now + microseconds }

/-- The tables after a statement, which are the tables before it if it raised. -/
def after (db : Database U) (statement : Statement U) : Database U :=
  match exec pg db statement with
  | .ok db' => db'
  | .error _ => db

end

end OpenFireblocks.Approval
