import OpenFireblocks.Approval.Database
import OpenFireblocks.Lib.Reply
import OpenFireblocks.Lib.Threads

/-!
# Signing under an idempotency key

`runSigningCeremony` of the gateway, for one customer and one idempotency key. A call is a thread:
it looks for the row of the key, records a new one, starts the signing workflow, waits for its
result and records that. The row, the workflows started under the key, and what the calls returned are
shared.

* The workflow id is made from the idempotency key. Temporal refuses to start a workflow while one
  of the same id is running, and keeps the result of one that has ended.
* A statement, or a start, may fail or lose its answer. The gateway may stop at any time.
* A signature carries the key and the message it is by and over. Messages are hexadecimal text, and
  `sha256` is the hash of the bytes that a text stands for.
* The parties of the committee, the blockchain and the times are left out of the rows.
-/

namespace OpenFireblocks.Keys

open Approval (Sql SqlError raise)

/-! ## Rows, workflows and answers -/

structure Ask where
  keyID : String
  message : String
deriving DecidableEq

structure Signature where
  ask : Ask
  bytes : String
deriving DecidableEq

inductive SigningStatus where
  | pending
  | inProgress
  | completed
  | failed
deriving DecidableEq

/-- A row of `signing_requests`. -/
structure SigningRequest where
  requestID : String
  keyID : String
  transactionHash : String
  transactionData : String
  status : SigningStatus
  signature : Option Signature
  errorMessage : Option String

/-- What `ThresholdSigningWorkflow` returns. -/
structure WorkflowResult where
  status : String
  signature : Option String
  error : Option String

structure WorkflowRun where
  ask : Ask
  result : Option WorkflowResult

/-- How a call ended. -/
structure Answer where
  ask : Ask
  outcome : Except String Signature

structure Store where
  record : Option SigningRequest
  runs : List WorkflowRun
  answers : List Answer

structure Gateway where
  idempotencyKey : String
  sha256 : String → String

variable (g : Gateway)

/-! ## Statements -/

/-- A digest is stored as it is; anything longer than 128 characters by its hash. -/
def recordedDigest (messageHex : String) : String :=
  if messageHex.length ≤ 128 then messageHex else g.sha256 messageHex

section

variable (s : Store)

/-- `INSERT INTO signing_requests`, with `UNIQUE (customer_id, idempotency_key)`. -/
def createSigningRequest (ask : Ask) (requestID : String) : Sql (Store × Unit) :=
  if s.record.isSome then
    raise .uniqueViolation
      "duplicate key value violates unique constraint \"signing_requests_customer_id_idempotency_key_key\""
  else
    .ok ({ s with record := some {
      requestID := requestID, keyID := ask.keyID, transactionHash := recordedDigest g ask.message,
      transactionData := ask.message, status := .inProgress, signature := none,
      errorMessage := none } }, ())

/-- `UPDATE signing_requests SET ... WHERE request_id = ...`. -/
def Store.update (requestID : String) (f : SigningRequest → SigningRequest) : Store :=
  { s with record := s.record.map fun r => if r.requestID = requestID then f r else r }

def SigningRequest.complete (signature : Signature) (r : SigningRequest) : SigningRequest :=
  { r with status := .completed, signature := some signature }

def SigningRequest.fail (error : String) (r : SigningRequest) : SigningRequest :=
  { r with status := .failed, errorMessage := some (String.ofList (error.toList.take 2000)) }

def completeSigningRequest (requestID : String) (signature : Signature) : Sql (Store × Unit) :=
  .ok (s.update requestID (.complete signature), ())

/-- Whatever the status of the row is. -/
def failSigningRequest (requestID error : String) : Sql (Store × Unit) :=
  .ok (s.update requestID (.fail error), ())

/-- `client.start`: the place of the new workflow, unless one of the same id is running. -/
def startWorkflow (ask : Ask) : Except String (Store × Nat) :=
  if s.runs.any fun run => run.result.isNone then .error "Workflow execution already started"
  else .ok ({ s with runs := s.runs ++ [{ ask, result := none }] }, s.runs.length)

/-! ## Decisions of the call -/

structure Ceremony where
  ceremonyID : String
  totalParties : Nat

def chooseParties (keyID : String) (threshold : Nat) (ceremony : Option Ceremony)
    (healthy : List Nat) : Except String (List Nat) :=
  match ceremony with
  | none => .error s!"key {keyID} has no completed DKG ceremony; its shares do not exist yet"
  | some c =>
    let signerCount := min threshold c.totalParties
    if healthy.length < signerCount then
      .error (s!"only {healthy.length} of {c.totalParties} MPC parties are reachable; " ++
        s!"{signerCount} are required to sign with this key")
    else .ok (healthy.take signerCount)

/-- What a call answers when it finds a row, or nothing if it goes on under that row. It does not
look at the key. -/
def existingAnswer (ask : Ask) (r : SigningRequest) : Option (Except String Signature) :=
  if r.transactionHash ≠ recordedDigest g ask.message then
    some (.error (s!"idempotency key {g.idempotencyKey} was already used for a different message; " ++
      "reusing it would return a signature over something else"))
  else
    match r.status, r.signature with
    | .completed, some signature => some (.ok signature)
    | .inProgress, _ =>
      some (.error s!"a request with idempotency key {g.idempotencyKey} is still running")
    | _, _ => none

def WorkflowResult.bytes (result : WorkflowResult) : Except String String :=
  match result.signature with
  | some bytes =>
    if result.status = "completed" ∧ bytes ≠ "" then .ok bytes
    else .error (result.error.getD result.status)
  | none => .error (result.error.getD result.status)

/-! ## Calls -/

/-- What a call that goes on under the row does next. -/
inductive Phase where
  | starting
  | waiting (run : Nat)
  | failing (reason answer : String)
  | recording (signature : Signature)

inductive Call where
  /-- It chooses the parties. -/
  | asked (ask : Ask)
  /-- It looks for the row. -/
  | ready (ask : Ask)
  /-- It inserts the row. -/
  | creating (ask : Ask) (requestID : String)
  /-- It goes on under the row of this id. -/
  | taken (ask : Ask) (requestID : String) (phase : Phase)

inductive Action where
  | call (ask : Ask)
  | choose (threshold : Nat) (ceremony : Option Ceremony) (healthy : List Nat)
  /-- A new id is made in case there is no row. -/
  | find (reply : Reply) (requestID : String)
  | create (reply : Reply)
  | start (reply : Reply)
  /-- `handle.result()` throws, or returns what the workflow returned. -/
  | result (thrown : Option String)
  | record (reply : Reply)
  /-- A workflow ends. -/
  | finish (run : Nat) (result : WorkflowResult)
  /-- The gateway of the call stops. -/
  | crash

def Store.answer (ask : Ask) (outcome : Except String Signature) : Store :=
  { s with answers := s.answers ++ [{ ask, outcome }] }

def Call.choose (threshold : Nat) (ceremony : Option Ceremony) (healthy : List Nat) :
    Call → Option (Store × Option Call)
  | .asked ask =>
    match chooseParties ask.keyID threshold ceremony healthy with
    | .ok _ => some (s, some (.ready ask))
    | .error message => some (s.answer ask (.error message), none)
  | _ => none

def Call.find (reply : Reply) (requestID : String) : Call → Option (Store × Option Call)
  | .ready ask =>
    match reply with
    | .answered =>
      match s.record with
      | none => some (s, some (.creating ask requestID))
      | some r =>
        match existingAnswer g ask r with
        | some outcome => some (s.answer ask outcome, none)
        | none => some (s, some (.taken ask r.requestID .starting))
    | .lost message | .failed message => some (s.answer ask (.error message), none)
  | _ => none

/-- Why the row was not recorded. -/
def createFailure (e : Reply.Failure SqlError) : String :=
  match e with
  | .raised e =>
    if e.code = .uniqueViolation then
      s!"a request with idempotency key {g.idempotencyKey} is already running"
    else e.message
  | .broken message => message

def Call.create (reply : Reply) : Call → Option (Store × Option Call)
  | .creating ask requestID =>
    let r := reply.send s (createSigningRequest g s ask requestID)
    match r.2 with
    | .ok _ => some (r.1, some (.taken ask requestID .starting))
    | .error e => some (r.1.answer ask (.error (createFailure g e)), none)
  | _ => none

def Call.start (reply : Reply) : Call → Option (Store × Option Call)
  | .taken ask requestID .starting =>
    let r := reply.send s (startWorkflow s ask)
    match r.2 with
    | .ok run => some (r.1, some (.taken ask requestID (.waiting run)))
    | .error e =>
      some (r.1, some (.taken ask requestID
        (.failing (e.message id) "threshold signing is unavailable")))
  | _ => none

end

def Phase.afterResult (run : WorkflowRun) (result : WorkflowResult) : Phase :=
  match result.bytes with
  | .ok bytes => .recording { ask := run.ask, bytes }
  | .error reason => .failing reason s!"threshold signing did not complete: {reason}"

def Call.result (s : Store) (thrown : Option String) : Call → Option (Store × Option Call)
  | .taken ask requestID (.waiting n) =>
    match thrown with
    | some message =>
      some (s, some (.taken ask requestID (.failing message "threshold signing is unavailable")))
    | none => do
      let run ← s.runs[n]?
      let result ← run.result
      some (s, some (.taken ask requestID (.afterResult run result)))
  | _ => none

/-- The record is written as far as that works, and the call returns. -/
def Call.record (s : Store) (reply : Reply) : Call → Option (Store × Option Call)
  | .taken ask requestID (.failing reason answer) =>
    some ((reply.send s (failSigningRequest s requestID reason)).1.answer ask (.error answer), none)
  | .taken ask requestID (.recording signature) =>
    some ((reply.send s (completeSigningRequest s requestID signature)).1.answer ask (.ok signature),
      none)
  | _ => none

def Store.finish (s : Store) (n : Nat) (result : WorkflowResult) : Option Store :=
  match s.runs[n]? with
  | some { ask, result := none } => some { s with runs := s.runs.set n { ask, result := some result } }
  | _ => none

def next (s : Store) : Option Call → Action → Option (Store × Option Call)
  | none, .call ask => some (s, some (.asked ask))
  | none, .finish n result => (s.finish n result).map fun s' => (s', none)
  | some call, .choose threshold ceremony healthy => call.choose s threshold ceremony healthy
  | some call, .find reply requestID => call.find g s reply requestID
  | some call, .create reply => call.create g s reply
  | some call, .start reply => call.start s reply
  | some call, .result thrown => call.result s thrown
  | some call, .record reply => call.record s reply
  | some _, .crash => some (s, none)
  | _, _ => none

end OpenFireblocks.Keys
