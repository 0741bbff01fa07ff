import Mathlib.Data.Finset.Max

/-!
# The key tables and the activities that write them

`key_pairs` and `dkg_ceremonies`, the three activities of `activities/key_rotation.go` that update
them, and the query by which the gateway finds the ceremony of a key.

* An activity is tried up to three times. A try may fail before its update is committed or after it
  (`Reply`), and Temporal may give up before the third one.
* `ORDER BY completed_at DESC NULLS LAST LIMIT 1` leaves open which of the rows with one time is
  returned, so `getCompletedCeremonyForKey` is the list of the rows it may be. A `completed_at` that
  is null is `⊥`.
-/

namespace OpenFireblocks.Worker

/-! ## Rows -/

inductive KeyStatus where
  | pendingDkg
  | active
  | inactive
  | compromised
  | failed

inductive CeremonyStatus where
  | initiated
  | inProgress
  | completed
  | failed
deriving DecidableEq

structure KeyPair where
  keyID : String
  status : KeyStatus
  address : Option String
  publicKey : Option String

structure Ceremony where
  ceremonyID : String
  keyID : String
  status : CeremonyStatus
  errorMessage : Option String
  completedAt : WithBot Nat
deriving DecidableEq

structure Database where
  keyPairs : List KeyPair
  ceremonies : List Ceremony

/-! ## Activities -/

def activateKeyPair (db : Database) (keyID address publicKey : String) : Except String Database :=
  if ∃ row ∈ db.keyPairs, row.keyID = keyID then
    .ok { db with
      keyPairs := db.keyPairs.map fun row =>
        if row.keyID = keyID then
          { row with status := .active, address := some address, publicKey := some publicKey }
        else row }
  else .error s!"key_pairs row {keyID} not found"

def setKeyPairStatus (db : Database) (keyID : String) (status : KeyStatus) :
    Except String Database :=
  if ∃ row ∈ db.keyPairs, row.keyID = keyID then
    .ok { db with
      keyPairs := db.keyPairs.map fun row =>
        if row.keyID = keyID then { row with status := status } else row }
  else .error s!"key_pairs row {keyID} not found"

/-- What `SetCeremonyStatus` writes to a row at time `now`. -/
def Ceremony.setStatus (row : Ceremony) (status : CeremonyStatus) (errorMessage : String)
    (now : Nat) : Ceremony :=
  { row with
    status := status
    errorMessage := if errorMessage = "" then none else some errorMessage
    completedAt := if status = .completed ∨ status = .failed then WithBot.some now else row.completedAt }

def setCeremonyStatus (db : Database) (ceremonyID : String) (status : CeremonyStatus)
    (errorMessage : String) (now : Nat) : Except String Database :=
  if ∃ row ∈ db.ceremonies, row.ceremonyID = ceremonyID then
    .ok { db with
      ceremonies := db.ceremonies.map fun row =>
        if row.ceremonyID = ceremonyID then row.setStatus status errorMessage now else row }
  else .error s!"dkg_ceremonies row {ceremonyID} not found"

/-! ## Tries -/

/-- How one try of an activity goes. -/
inductive Reply where
  | ok
  /-- it fails and nothing is written -/
  | failed (err : String)
  /-- it fails after the update was committed -/
  | lost (err : String)

section

variable (reply : Reply) (db : Database) (update : Except String Database)

/-- The database after a try, and the error it is reported with. -/
def Reply.apply : Database × Option String :=
  match reply, update with
  | .ok, .ok db' => (db', none)
  | .ok, .error err => (db, some err)
  | .failed err, _ => (db, some err)
  | .lost err, .ok db' => (db', some err)
  | .lost err, .error _ => (db, some err)

/-- `MaximumAttempts` of the retry policy. -/
def maximumAttempts : Nat := 3

/-- The update takes effect. -/
def Reply.Commits : Reply → Prop
  | .ok => True
  | .failed _ => False
  | .lost _ => True

theorem Reply.apply_cases :
    (reply.apply db update).1 = db ∨ reply.Commits ∧ update = .ok (reply.apply db update).1 := by
  cases reply with
  | ok =>
    cases update with
    | ok db' => exact .inr ⟨trivial, rfl⟩
    | error err => exact .inl rfl
  | failed err => exact .inl rfl
  | lost err =>
    cases update with
    | ok db' => exact .inr ⟨trivial, rfl⟩
    | error err => exact .inl rfl

end

/-! ## The ceremony that the gateway finds -/

def Database.completedFor (db : Database) (keyID : String) : List Ceremony :=
  db.ceremonies.filter fun row => row.keyID = keyID ∧ row.status = .completed

/-- The rows that the query may return. -/
def Database.getCompletedCeremonyForKey (db : Database) (keyID : String) : List Ceremony :=
  (db.completedFor keyID).filter fun row =>
    ∀ other ∈ db.completedFor keyID, other.completedAt ≤ row.completedAt

variable {db : Database} {keyID : String} {row : Ceremony}

theorem mem_completedFor :
    row ∈ db.completedFor keyID ↔
      row ∈ db.ceremonies ∧ row.keyID = keyID ∧ row.status = .completed := by
  simp [Database.completedFor]

theorem mem_getCompletedCeremonyForKey :
    row ∈ db.getCompletedCeremonyForKey keyID ↔
      row ∈ db.completedFor keyID ∧
        ∀ other ∈ db.completedFor keyID, other.completedAt ≤ row.completedAt := by
  simp [Database.getCompletedCeremonyForKey]

theorem exists_mem_getCompletedCeremonyForKey (h : row ∈ db.completedFor keyID) :
    ∃ newest, newest ∈ db.getCompletedCeremonyForKey keyID := by
  obtain ⟨newest, hmem, hmax⟩ := (db.completedFor keyID).toFinset.exists_max_image
    Ceremony.completedAt ⟨row, List.mem_toFinset.mpr h⟩
  refine ⟨newest, mem_getCompletedCeremonyForKey.mpr ⟨List.mem_toFinset.mp hmem, ?_⟩⟩
  exact fun other hother => hmax other (List.mem_toFinset.mpr hother)

end OpenFireblocks.Worker
