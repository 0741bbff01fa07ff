import OpenFireblocks.Approval.DatabaseInvariant

/-!
# Transfers that wait for approval, as migration 027 guards them

The table `pending_transfers` beside the tables of migration 023. A session belongs to one tenant,
or to none, and row-level security shows it that tenant's rows only. The trigger of the table runs
as the session does, so what its sub-select sees of `approval_requests` is filtered too; keys are
checked over all rows.

* The kind of a transfer is one of five (migration 033 adds `custodian`).
* JSON columns are a type `J`.
-/

namespace OpenFireblocks.Transfers

open Approval Outcome

/-! ## Rows -/

inductive TransferKind where
  | bitcoin
  | solana
  | cosmos
  | evm
  | custodian
deriving DecidableEq

inductive TransferStatus where
  | awaitingApproval
  | executing
  | completed
  | failed
  | rejected
  | expired
deriving DecidableEq

def TransferStatus.text : TransferStatus → String
  | .awaitingApproval => "awaiting_approval"
  | .executing => "executing"
  | .completed => "completed"
  | .failed => "failed"
  | .rejected => "rejected"
  | .expired => "expired"

/-- A row of `pending_transfers`. -/
structure PendingTransfer (U J : Type) where
  approvalID : U
  customerID : U
  keyID : U
  kind : TransferKind
  request : J
  prepared : Option J
  status : TransferStatus
  result : Option J
  error : Option String
  createdAt : Int
  updatedAt : Int

structure Tables (U J : Type) where
  approvals : Database U
  transfers : List (PendingTransfer U J)

section

variable {U J : Type} [DecidableEq U] [DecidableEq J] (db : Tables U J) (tenant : Option U)

/-! ## The trigger -/

def TransferStatus.mayBecome : TransferStatus → TransferStatus → Bool
  | .awaitingApproval, .executing | .awaitingApproval, .rejected | .awaitingApproval, .expired => true
  | .executing, .completed | .executing, .failed => true
  | .failed, .executing => true
  | _, _ => false

/-- `SELECT status FROM approval_requests WHERE approval_id = ...`, as the session sees it. -/
def visibleStatus (id : U) : Option Status :=
  ((findRequest db.approvals id).filter fun r => some r.customerID = tenant).map Request.status

/--
`BEFORE UPDATE ON pending_transfers`. It says nothing about `approval_id`, and a request that the
session does not see has the status `NULL`, which is not `<> 'approved'`.
-/
def pendingTransferGuard (old new : PendingTransfer U J) : Sql (PendingTransfer U J) :=
  if new.customerID ≠ old.customerID ∨ new.keyID ≠ old.keyID ∨ new.kind ≠ old.kind ∨
      new.request ≠ old.request ∨ new.createdAt ≠ old.createdAt then
    raise .ofb04 "a pending transfer's terms cannot change after it opens"
  else if new.status ≠ old.status ∧ ¬ old.status.mayBecome new.status then
    raise .ofb03 s!"a transfer cannot go from {old.status.text} to {new.status.text}"
  else if new.status = .executing ∧ old.status = .awaitingApproval ∧
      (visibleStatus db tenant new.approvalID).any fun status => status ≠ .approved then
    raise .ofb01 "cannot execute a transfer whose approval is not approved"
  else .ok { new with updatedAt := db.approvals.now }

/-! ## Statements -/

/-- The row with this key, if the session sees it. -/
def findTransfer (id : U) : Option (PendingTransfer U J) :=
  db.transfers.find? fun t => t.approvalID = id ∧ some t.customerID = tenant

def Tables.refersToRequests : Bool :=
  db.transfers.all fun t => db.approvals.requests.any fun r => r.approvalID = t.approvalID

def missingRequest {α : Type} : Sql α :=
  raise .foreignKeyViolation
    "insert or update on table \"pending_transfers\" violates foreign key constraint"

def hiddenRow {α : Type} : Sql α :=
  raise .insufficientPrivilege
    "new row violates row-level security policy for table \"pending_transfers\""

def duplicateTransfer {α : Type} : Sql α :=
  raise .uniqueViolation
    "duplicate key value violates unique constraint \"pending_transfers_pkey\""

/-- `INSERT INTO pending_transfers`. No trigger looks at it. -/
def insertTransfer (row : PendingTransfer U J) : Sql (Tables U J) :=
  if some row.customerID ≠ tenant then hiddenRow
  else if db.transfers.any fun t => t.approvalID = row.approvalID then duplicateTransfer
  else if db.approvals.requests.any fun r => r.approvalID = row.approvalID then
    .ok { db with transfers := db.transfers ++ [row] }
  else missingRequest

/-- One row of an `UPDATE`. -/
def updateTransfer (id : U) (new : PendingTransfer U J) : Sql (Tables U J) :=
  match findTransfer db tenant id with
  | none => .ok db
  | some old => do
    let new ← pendingTransferGuard db tenant old new
    if some new.customerID ≠ tenant then hiddenRow
    else if new.approvalID ≠ id ∧ db.transfers.any (fun t => t.approvalID = new.approvalID) then
      duplicateTransfer
    else
      return { db with transfers := db.transfers.map fun t => if t.approvalID = id then new else t }

def updateTransferRows (tenant : Option U) (db : Tables U J) :
    List (U × PendingTransfer U J) → Sql (Tables U J)
  | [] => .ok db
  | (id, new) :: rest => do
    let db ← updateTransfer db tenant id new
    updateTransferRows tenant db rest

/-- `UPDATE pending_transfers`: every row, then the foreign key. -/
def updateTransfers (changes : List (U × PendingTransfer U J)) : Sql (Tables U J) := do
  let db ← updateTransferRows tenant db changes
  if db.refersToRequests then return db else missingRequest

/-- `DELETE FROM pending_transfers`. -/
def deleteTransfer (id : U) : Sql (Tables U J) :=
  if (findTransfer db tenant id).isSome then raise .ofb04 "approval records are append-only"
  else .ok db

/-- A statement on the tables of migration 023, which transfers refer to as well. -/
def execApproval (pg : Pg U) (statement : Statement U) : Sql (Tables U J) := do
  let approvals ← exec pg db.approvals statement
  let db := { db with approvals }
  if db.refersToRequests then return db else missingRequest

end

/-! ## What the trigger lets through -/

section

variable {U J : Type} [DecidableEq U] [DecidableEq J] {db db' : Tables U J} {tenant : Option U}

structure SameTransfer (t t' : PendingTransfer U J) : Prop where
  approvalID : t'.approvalID = t.approvalID
  customerID : t'.customerID = t.customerID
  keyID : t'.keyID = t.keyID
  kind : t'.kind = t.kind
  request : t'.request = t.request
  createdAt : t'.createdAt = t.createdAt

omit [DecidableEq U] [DecidableEq J] in
theorem SameTransfer.refl (t : PendingTransfer U J) : SameTransfer t t :=
  ⟨rfl, rfl, rfl, rfl, rfl, rfl⟩

omit [DecidableEq U] [DecidableEq J] in
theorem SameTransfer.trans {t t' t'' : PendingTransfer U J} (h : SameTransfer t t')
    (h' : SameTransfer t' t'') : SameTransfer t t'' where
  approvalID := h'.approvalID.trans h.approvalID
  customerID := h'.customerID.trans h.customerID
  keyID := h'.keyID.trans h.keyID
  kind := h'.kind.trans h.kind
  request := h'.request.trans h.request
  createdAt := h'.createdAt.trans h.createdAt

/-- What an accepted update of one row has been checked for. -/
structure Moves (db : Tables U J) (tenant : Option U) (old new : PendingTransfer U J) : Prop where
  same : new.approvalID = old.approvalID → SameTransfer old new
  status : new.status = old.status ∨ old.status.mayBecome new.status
  approved : new.status = .executing → old.status = .awaitingApproval →
    ∀ status, visibleStatus db tenant new.approvalID = some status → status = .approved

theorem pendingTransferGuard_eq_ok {old new new' : PendingTransfer U J}
    (h : pendingTransferGuard db tenant old new = .ok new') :
    new' = { new with updatedAt := db.approvals.now } ∧ Moves db tenant old new := by
  simp only [pendingTransferGuard, raise, ite_error_eq_ok, not_or, not_not] at h
  obtain ⟨⟨h1, h2, h3, h4, h5⟩, hstatus, happroved, h⟩ := h
  cases h
  refine ⟨rfl, fun hid => ⟨hid, h1, h2, h3, h4, h5⟩, ?_, ?_⟩
  · by_cases hs : new.status = old.status
    · exact .inl hs
    · exact .inr (not_not.mp fun hm => hstatus ⟨hs, hm⟩)
  · intro hexecuting hawaiting status hvisible
    by_contra hne
    exact happroved ⟨hexecuting, hawaiting, by simp [hvisible, hne]⟩

omit [DecidableEq J] in
theorem mem_of_findTransfer {id : U} {t : PendingTransfer U J}
    (h : findTransfer db tenant id = some t) :
    t ∈ db.transfers ∧ t.approvalID = id ∧ some t.customerID = tenant := by
  have hid := List.find?_some h
  exact ⟨List.mem_of_find?_eq_some h, of_decide_eq_true hid⟩

def Tables.replace (db : Tables U J) (id : U) (new : PendingTransfer U J) : Tables U J :=
  { db with transfers := db.transfers.map fun t => if t.approvalID = id then new else t }

theorem updateTransfer_eq_ok {id : U} {new : PendingTransfer U J}
    (h : updateTransfer db tenant id new = .ok db') :
    (findTransfer db tenant id = none ∧ db' = db) ∨
    ∃ old, findTransfer db tenant id = some old ∧ Moves db tenant old new ∧
      (new.approvalID ≠ id → ∀ t ∈ db.transfers, t.approvalID ≠ new.approvalID) ∧
      db' = db.replace id { new with updatedAt := db.approvals.now } := by
  unfold updateTransfer at h
  split at h
  · next hfind =>
    cases h
    exact .inl ⟨hfind, rfl⟩
  next old hfind =>
  obtain ⟨new', hguard, h⟩ := bind_eq_ok.mp h
  obtain ⟨rfl, hmoves⟩ := pendingTransferGuard_eq_ok hguard
  simp only [hiddenRow, duplicateTransfer, raise, ite_error_eq_ok] at h
  obtain ⟨-, hfree, h⟩ := h
  cases h
  refine .inr ⟨old, hfind, hmoves, fun hne t ht hid => ?_, rfl⟩
  exact hfree ⟨hne, List.any_eq_true.mpr ⟨t, ht, decide_eq_true hid⟩⟩

end

end OpenFireblocks.Transfers
