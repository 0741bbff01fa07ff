import OpenFireblocks.Lib.Machine
import OpenFireblocks.Approval.Database

/-!
# The settlement workflow

`TransactionSettlementWorkflow` of `services/temporal-worker`, with `awaitApprovals` and the
activities it calls, beside the database those activities talk to.

One event is an activity's statement, a signal, the timer, or a statement somebody else sends to the
database. An activity that may be retried after its statement took effect has an event for the
statement and one for its end, so that anything may come in between.

* A signal that is lost is no event, one that is duplicated is two. Anybody may send them.
* The activities that do not touch the tables return whatever the event says.
* Temporal's clock is not the database's: the timer may fire at any time.
-/

namespace OpenFireblocks.Approval

/-! ## Types -/

/-- The fields of the workflow's input that the approval step reads. -/
structure TransactionRequest where
  customerID : String
  chainID : Int
  recipient : String
  data : String
  value : String
  country : String
  initiatedByUserID : String
  initiatedByLabel : String

structure TransactionResult where
  requestID : String
  txHash : String
  status : String
  blockNumber : Int
  reason : String
deriving DecidableEq

structure PolicyCheckResult where
  approved : Bool
  denials : List String
  requiresApproval : Bool
  approvalReasons : List String
  reason : String

structure SignResult where
  signedTx : String
  txHash : String
deriving DecidableEq

structure MonitorResult where
  blockNumber : Int
  success : Bool

/-- What anything with access to Temporal can send. -/
structure ApprovalDecisionSignal where
  approverUserID : String
  decision : String

structure ApprovalState where
  approvalID : String
  status : Status
  requiredApprovals : Nat
  approvedBy : List String
  rejectedBy : String
deriving DecidableEq

structure OpenApprovalRequestResult where
  approvalID : String
  requiredApprovals : Nat
  expiresInSeconds : Int

structure RecordedApprovalStatus where
  status : Status
  distinctApprovals : Nat
  requiredApprovals : Nat

/-- `workflow.GetVersion` of the change "segregation-of-duties". -/
inductive Version where
  | default
  | one

/-! ## Activities -/

/-- What the activities use besides the tables. -/
structure Worker (U : Type) where
  pg : Pg U
  /-- `json.Marshal` of what is being approved. -/
  summary : TransactionRequest → List String → String

/-- Two approvals within an hour, where the tenant has set no policy. -/
def defaultPolicy : ApprovalPolicy where
  requiredApprovals := 2
  windowMinutes := 60
  required_range := by decide
  window_range := by decide

section

variable {U : Type} [DecidableEq U] (w : Worker U)

/-- The initiator's id: `NULL` for a machine, and an error for text that is no UUID. -/
def initiatorID (req : TransactionRequest) : Option (Option U) :=
  if req.initiatedByUserID = "" then some none
  else (w.pg.castUUID req.initiatedByUserID).map some

variable (db : Database U) (workflowID : String)

/-- The row `OpenApprovalRequest` inserts, with the id the database generates for it. -/
def approvalRow (req : TransactionRequest) (reasons : List String) (newID : U) : Option (Request U) := do
  let customer ← w.pg.castUUID req.customerID
  let initiator ← initiatorID w req
  let policy := (db.policies customer).getD defaultPolicy
  return {
    approvalID := newID
    customerID := customer
    workflowID := workflowID
    initiatedByUserID := initiator
    initiatedByLabel := if req.initiatedByLabel = "" then "api-key" else req.initiatedByLabel
    requiredApprovals := policy.requiredApprovals
    status := .pending
    summary := w.summary req reasons
    createdAt := db.now
    expiresAt := db.now + policy.windowMinutes * 60000000
    decidedAt := none
    required_range := policy.required_range
    expires_after := by
      have := policy.window_range.1
      omega }

def findWorkflow : Option (Request U) :=
  db.requests.find? fun r => r.workflowID = workflowID

/-- The second statement of `OpenApprovalRequest`. -/
def readApprovalRequest : Option OpenApprovalRequestResult :=
  (findWorkflow db workflowID).map fun r =>
    { approvalID := w.pg.uuidText r.approvalID
      requiredApprovals := r.requiredApprovals
      expiresInSeconds := max (r.expiresAt - db.now) 0 / 1000000 }

/-- The distinct people other than the initiator who approved. -/
def distinctApprovals (decisions : List (DecisionRow U)) (r : Request U) : Nat :=
  ((decisions.filter fun d => d.approvalID = r.approvalID ∧ d.decision = .approve ∧
    some d.userID ≠ r.initiatedByUserID).map DecisionRow.userID).dedup.length

def getRecordedApprovalStatus : Option RecordedApprovalStatus :=
  (findWorkflow db workflowID).map fun r =>
    { status := r.status
      distinctApprovals := distinctApprovals db.decisions r
      requiredApprovals := r.requiredApprovals }

/-- Closes a request that is still pending; approval is recorded by the decisions themselves. -/
def closeApprovalRequest (status : Status) : Sql (Database U) :=
  if status ≠ .expired ∧ status ≠ .rejected then .ok db
  else
    match findWorkflow db workflowID with
    | none => .ok db
    | some r => if r.status = .pending then setStatus db r.approvalID status else .ok db

end

/-! ## The workflow -/

def openedState (opened : OpenApprovalRequestResult) : ApprovalState where
  approvalID := opened.approvalID
  status := .pending
  -- an approval step that needs no approvals is not one
  requiredApprovals := max opened.requiredApprovals 1
  approvedBy := []
  rejectedBy := ""

/-- One decision signal. `seen` is the map of the people who have decided. -/
def applyDecision (initiator : String) (state : ApprovalState) (seen : List String)
    (d : ApprovalDecisionSignal) : ApprovalState × List String :=
  if d.approverUserID = "" then (state, seen)
  else if initiator ≠ "" ∧ d.approverUserID = initiator then (state, seen)
  else if d.approverUserID ∈ seen then (state, seen)
  else if d.decision = "reject" then
    ({ state with rejectedBy := d.approverUserID, status := .rejected }, d.approverUserID :: seen)
  else if d.decision = "approve" then
    let approvedBy := state.approvedBy ++ [d.approverUserID]
    ({ state with
        approvedBy := approvedBy
        status := if state.requiredApprovals ≤ approvedBy.length then .approved else state.status },
      d.approverUserID :: seen)
  else (state, seen)

/-- Where the workflow is. -/
inductive Phase where
  | checkPolicy
  /-- `OpenApprovalRequest`; the flag says that its insert has gone through. -/
  | openRecord (inserted : Bool)
  | await (state : ApprovalState) (seen : List String)
  | readOutcome (state : ApprovalState)
  | closeRecord (outcome : Status)
  /-- The wait of workflows started before segregation of duties. -/
  | waitForApproval
  | sign
  | broadcast (signed : SignResult)
  | monitor (txHash : String)
  | finished (result : Option TransactionResult) (err : Option String)
deriving DecidableEq

inductive Attempt (α : Type) where
  | returned (a : α)
  | failed (err : String)
  | retried
deriving DecidableEq

structure System (U : Type) where
  db : Database U
  phase : Phase
  /-- What the policy said, and the version the approval step runs at. -/
  policy : Option (PolicyCheckResult × Version)

inductive Event (U : Type) where
  | policyChecked (policy : PolicyCheckResult) (version : Version)
  | recordInserted (newID : U)
  | recordRead
  | signal (d : ApprovalDecisionSignal)
  | approvalSignal (approved : Bool)
  | timer
  | outcomeRead
  | recordClosed (acknowledged : Bool)
  | signTransaction (attempt : Attempt SignResult)
  | broadcastTransaction (attempt : Attempt String)
  | monitorTransaction (attempt : Attempt MonitorResult)
  | activityFailed (err : String)
  | statement (s : Statement U)

/-- The loop of `awaitApprovals`: on while the state is pending. -/
def afterSelect (state : ApprovalState) (seen : List String) : Phase :=
  match state.status with
  | .pending => .await state seen
  | .approved => .readOutcome state
  | .rejected => .closeRecord .rejected
  | .expired => .closeRecord .expired

/-- What the workflow makes of the recorded outcome: both counts have to agree. -/
def reconcile (state : ApprovalState) (recorded : RecordedApprovalStatus) : Status :=
  if recorded.status ≠ .approved ∨ recorded.distinctApprovals < state.requiredApprovals then
    .rejected
  else .approved

section

variable {U : Type} [DecidableEq U] (w : Worker U) (workflowID : String) (req : TransactionRequest)

def denied (reason : String) : Phase :=
  .finished (some { requestID := workflowID, txHash := "", status := "denied", blockNumber := 0,
                    reason := reason }) none

def afterPolicy (policy : PolicyCheckResult) (version : Version) : Phase :=
  if policy.approved = false then denied workflowID policy.reason
  else if policy.requiresApproval then
    match version with
    | .default => .waitForApproval
    | .one => .openRecord false
  else .sign

def step (s : System U) : Event U → Option (System U)
  | .policyChecked policy version =>
    match s.phase with
    | .checkPolicy => some { s with phase := afterPolicy workflowID policy version
                                    policy := some (policy, version) }
    | _ => none
  | .recordInserted newID =>
    match s.phase, s.policy with
    | .openRecord _, some (policy, _) =>
      match approvalRow w s.db workflowID req policy.approvalReasons newID with
      | none => none
      | some row =>
        match insertRequest s.db row with
        | .ok db => some { s with db := db, phase := .openRecord true }
        | .error _ => none
    | _, _ => none
  | .recordRead =>
    match s.phase, readApprovalRequest w s.db workflowID with
    | .openRecord true, some opened =>
      some { s with phase := .await (openedState opened) [] }
    | _, _ => none
  | .signal d =>
    match s.phase with
    | .await state seen =>
      let (state, seen) := applyDecision req.initiatedByUserID state seen d
      some { s with phase := afterSelect state seen }
    | _ => none
  | .approvalSignal approved =>
    match s.phase with
    | .waitForApproval =>
      some { s with phase := if approved then .sign
                             else denied workflowID "manual approval not granted within window" }
    | _ => none
  | .timer =>
    match s.phase with
    | .await state seen => some { s with phase := afterSelect { state with status := .expired } seen }
    | .waitForApproval =>
      some { s with phase := denied workflowID "manual approval not granted within window" }
    | _ => none
  | .outcomeRead =>
    match s.phase, getRecordedApprovalStatus s.db workflowID with
    | .readOutcome state, some recorded =>
      some { s with phase := .closeRecord (reconcile state recorded) }
    | .readOutcome _, none =>
      some { s with phase := .finished none (some s!"no approval request recorded for {workflowID}") }
    | _, _ => none
  | .recordClosed acknowledged =>
    match s.phase with
    | .closeRecord outcome =>
      match closeApprovalRequest s.db workflowID outcome with
      | .error _ => none
      | .ok db =>
        some { s with
          db := db
          phase := if acknowledged = false then .closeRecord outcome
                   else if outcome = .approved then .sign
                   else denied workflowID ("approval " ++ outcome.text) }
    | _ => none
  | .signTransaction attempt =>
    match s.phase, attempt with
    | .sign, .returned signed => some { s with phase := .broadcast signed }
    | .sign, .failed err => some { s with phase := .finished none (some err) }
    | .sign, .retried => some s
    | _, _ => none
  | .broadcastTransaction attempt =>
    match s.phase, attempt with
    | .broadcast _, .returned txHash => some { s with phase := .monitor txHash }
    | .broadcast signed, .failed err =>
      some { s with phase := .finished (some
              { requestID := workflowID, txHash := signed.txHash, status := "signed",
                blockNumber := 0, reason := "signed but broadcast failed: " ++ err }) (some err) }
    | .broadcast _, .retried => some s
    | _, _ => none
  | .monitorTransaction attempt =>
    match s.phase, attempt with
    | .monitor txHash, .returned m =>
      some { s with phase := .finished (some
              { requestID := workflowID, txHash := txHash,
                status := if m.success then "confirmed" else "failed",
                blockNumber := m.blockNumber, reason := "settled" }) none }
    | .monitor txHash, .failed err =>
      some { s with phase := .finished (some
              { requestID := workflowID, txHash := txHash, status := "broadcasted",
                blockNumber := 0,
                reason := "broadcast ok but monitoring failed: " ++ err }) (some err) }
    | .monitor _, .retried => some s
    | _, _ => none
  | .activityFailed err =>
    match s.phase with
    | .checkPolicy | .openRecord _ | .readOutcome _ | .closeRecord _ =>
      some { s with phase := .finished none (some err) }
    | _ => none
  | .statement statement => some { s with db := after w.pg s.db statement }

end

def System.start {U : Type} (db : Database U) : System U where
  db := db
  phase := .checkPolicy
  policy := none

end OpenFireblocks.Approval
