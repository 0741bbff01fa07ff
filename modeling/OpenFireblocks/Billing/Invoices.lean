import OpenFireblocks.Go.Time
import OpenFireblocks.Lib.Reply
import OpenFireblocks.Lib.Threads

/-!
# Raising invoices

`Subscribe` (`billing/billing.go`), `CountUsage` and `GenerateInvoice` (`billing/usage.go`) and
`RunBilling` (`billing/schedule.go`), on the tables they read and write.

* A call of `RunBilling` or `GenerateInvoice` is a thread that takes one statement at a time. A
  statement may fail or lose its answer, and a call may crash at any time.
* Times are in one zone, and the services and the database agree on them. Amounts are integers
  without a bound.
* `Invoice.usage` lists the requests that were counted, of which the source keeps the number, and
  `Store.runs` the results of the billing runs that returned.
-/

namespace OpenFireblocks.Billing

open Go

/-! ## Tables -/

inductive BillingCycle
  | monthly
  | yearly

def BillingCycle.text : BillingCycle → String
  | .monthly => "monthly"
  | .yearly => "yearly"

structure Plan where
  planID : String
  name : String
  price : Int
  currency : String
  billingCycle : BillingCycle
  signingLimit : Int
  keyLimit : Int
  overageSigningCents : Int
  overageKeyCents : Int

inductive SubscriptionStatus
  | active
  | paused
  | canceled
  | pastDue
  | scheduledForCancellation
deriving DecidableEq

structure Subscription where
  subscriptionID : String
  customerID : String
  planID : String
  status : SubscriptionStatus
  currentPeriodStart : Time
  currentPeriodEnd : Time

structure LineItem where
  description : String
  quantity : Int
  unitPrice : Int
  amount : Int

inductive InvoiceStatus
  | paid
  | unpaid
  | overdue
deriving DecidableEq

structure Invoice where
  invoiceID : String
  subscriptionID : String
  customerID : String
  amount : Int
  currency : String
  status : InvoiceStatus
  dueDate : Time
  lineItems : List LineItem
  periodStart : Time
  periodEnd : Time
  createdAt : Time
  /-- the requests that were counted -/
  usage : List String

inductive RequestStatus
  | inProgress
  | completed
  | failed
deriving DecidableEq

/-- A row of `signing_requests`. -/
structure SigningRequest where
  requestID : String
  customerID : String
  status : RequestStatus
  createdAt : Time
  completedAt : Option Time

/-- A row of `key_pairs`. -/
structure KeyPair where
  keyID : String
  customerID : String
  failed : Bool
  createdAt : Time

structure BilledLine where
  subscriptionID : String
  customerID : String
  invoiceID : String
  amountCents : Int
  periodStart : Time
  periodEnd : Time

structure BillingFailure where
  subscriptionID : String
  error : String

structure BillingRunResult where
  ranAt : Time
  considered : Nat
  invoiced : List BilledLine
  failed : List BillingFailure

structure Store where
  now : Time
  plans : List Plan
  subscriptions : List Subscription
  invoices : List Invoice
  requests : List SigningRequest
  keys : List KeyPair
  /-- the results of the runs that returned -/
  runs : List BillingRunResult

/-! ## Statements -/

section

variable (s : Store)

def getPlan (planID : String) : Except String Plan :=
  match s.plans.find? fun p => p.planID = planID with
  | some plan => .ok plan
  | none => .error ("plan " ++ planID ++ ": not found")

def getSubscription (subscriptionID : String) : Except String Subscription :=
  match s.subscriptions.find? fun sub => sub.subscriptionID = subscriptionID with
  | some sub => .ok sub
  | none => .error ("subscription " ++ subscriptionID ++ ": not found")

def getInvoiceForPeriod (subscriptionID : String) (periodStart : Time) : Option Invoice :=
  s.invoices.find? fun inv => inv.subscriptionID = subscriptionID ∧ inv.periodStart = periodStart

def subscriptionsDueForBilling (now : Time) : List Subscription :=
  (s.subscriptions.filter fun sub => sub.status = .active ∧ sub.currentPeriodEnd ≤ now).mergeSort
    fun a b => a.currentPeriodEnd ≤ b.currentPeriodEnd

def Subscription.isOf (sub : Subscription) (subscriptionID customerID : String) : Bool :=
  sub.subscriptionID = subscriptionID ∧ sub.customerID = customerID

/-- An update of the row, whether or not it is in the period that the caller has read. -/
def advanceSubscriptionPeriod (subscriptionID customerID : String) (first last : Time) :
    Except String (Store × Unit) :=
  let update (sub : Subscription) : Subscription :=
    if sub.isOf subscriptionID customerID then
      { sub with currentPeriodStart := first, currentPeriodEnd := last }
    else sub
  if s.subscriptions.any fun sub => sub.isOf subscriptionID customerID then
    .ok ({ s with subscriptions := s.subscriptions.map update }, ())
  else .error ("subscription " ++ subscriptionID ++ ": not found")

structure UsageCounts where
  signingRequests : Nat
  keyOperations : Nat

def completedRequests (customerID : String) (first last : Time) : List SigningRequest :=
  s.requests.filter fun r =>
    r.customerID = customerID ∧ r.status = .completed ∧ first ≤ r.createdAt ∧ r.createdAt < last

def countUsage (customerID : String) (first last : Time) : UsageCounts where
  signingRequests := (completedRequests s customerID first last).length
  keyOperations := (s.keys.filter fun k =>
    k.customerID = customerID ∧ k.failed = false ∧ first ≤ k.createdAt ∧ k.createdAt < last).length

/-- The insert, refused by the unique index on subscription and period start. -/
def createInvoice (inv : Invoice) : Except String (Store × Unit) :=
  if (getInvoiceForPeriod s inv.subscriptionID inv.periodStart).isSome then .error "23505"
  else .ok ({ s with invoices := s.invoices ++ [inv] }, ())

/-! ## What is charged -/

def invoiceLineItems (plan : Plan) (counts : UsageCounts) : List LineItem :=
  let base : LineItem :=
    ⟨plan.name ++ " (" ++ plan.billingCycle.text ++ ")", 1, plan.price, plan.price⟩
  let signing := (counts.signingRequests : Int) - plan.signingLimit
  let keys := (counts.keyOperations : Int) - plan.keyLimit
  [base] ++
  (if signing > 0 ∧ plan.overageSigningCents > 0 then
    [⟨"Signatures beyond the " ++ toString plan.signingLimit ++ " included", signing,
      plan.overageSigningCents, signing * plan.overageSigningCents⟩]
  else []) ++
  (if keys > 0 ∧ plan.overageKeyCents > 0 then
    [⟨"Keys beyond the " ++ toString plan.keyLimit ++ " included", keys, plan.overageKeyCents,
      keys * plan.overageKeyCents⟩]
  else [])

def totalOf (items : List LineItem) : Int := items.foldl (fun total item => total + item.amount) 0

def nextPeriodEnd (start : Time) (cycle : BillingCycle) : Time :=
  match cycle with
  | .yearly => start.addDate 1 0 0
  | .monthly => start.addDate 0 1 0

/-- `Subscribe` reads the clock for the start and once more for the end, which is a month later
whatever the plan's cycle is. -/
def subscribe (subscriptionID customerID planID : String) (first second : Time) :
    Except String Store := do
  let _ ← getPlan s planID
  return { s with subscriptions := s.subscriptions ++
    [⟨subscriptionID, customerID, planID, .active, first, second.addDate 0 1 0⟩] }

/-! ## Calls -/

structure Run where
  now : Time
  subscription : Subscription
  plan : Plan
  rest : List Subscription
  result : BillingRunResult

/-- A call of `GenerateInvoice`, by an operator or by a run. -/
structure Generate where
  subscriptionID : String
  run : Option Run

inductive Call
  /-- `RunBilling` reads the subscriptions that are due. -/
  | listing (now : Time)
  /-- `RunBilling` reads the plan of a subscription. -/
  | planning (now : Time) (subscription : Subscription) (rest : List Subscription)
      (result : BillingRunResult)
  /-- `GenerateInvoice` reads the subscription, its plan and the invoice that may exist. -/
  | reading (g : Generate)
  | pricing (g : Generate) (subscription : Subscription)
  | looking (g : Generate) (subscription : Subscription) (plan : Plan)
  /-- `CountUsage`. -/
  | counting (g : Generate) (subscription : Subscription) (plan : Plan)
  /-- `CreateInvoice`, and the invoice of whoever was first. -/
  | inserting (g : Generate) (invoice : Invoice)
  | losing (g : Generate) (periodStart : Time)
  /-- `AdvanceSubscriptionPeriod`. -/
  | advancing (run : Run) (invoice : Invoice)

inductive Action
  | runBilling
  | generateInvoice (subscriptionID : String)
  /-- The call sends its next statement. `uuid` is the id for an invoice. -/
  | statement (reply : Reply) (uuid : String)
  | crash
  /-- A signing request is made, and ends. -/
  | request (requestID customerID : String)
  | finish (requestID : String) (completed : Bool)
  | createKey (key : KeyPair)
  | tick (now : Time)

/-- What a query returns to the caller. -/
def ask {α : Type} (reply : Reply) (answer : Except String α) : Except String α :=
  match reply with
  | .answered => answer
  | .lost message => .error message
  | .failed message => .error message

def proceed (now : Time) (result : BillingRunResult) : List Subscription → Store × Option Call
  | [] => ({ s with runs := s.runs ++ [result] }, none)
  | sub :: rest => (s, some (.planning now sub rest result))

end

def BillingRunResult.fail (result : BillingRunResult) (sub : Subscription) (error : String) :
    BillingRunResult :=
  { result with failed := result.failed ++ [⟨sub.subscriptionID, error⟩] }

/-- `GenerateInvoice` returns an error. -/
def Generate.fail (g : Generate) (s : Store) (error : String) : Store × Option Call :=
  match g.run with
  | none => (s, none)
  | some run => proceed s run.now (run.result.fail run.subscription error) run.rest

/-- `GenerateInvoice` returns an invoice. -/
def Generate.done (g : Generate) (invoice : Invoice) : Option Call :=
  g.run.map fun run => .advancing run invoice

def BillingRunResult.bill (result : BillingRunResult) (sub : Subscription) (invoice : Invoice) :
    BillingRunResult :=
  { result with invoiced := result.invoiced ++
      [⟨sub.subscriptionID, sub.customerID, invoice.invoiceID, invoice.amount,
        sub.currentPeriodStart, sub.currentPeriodEnd⟩] }

def invoiceFor (s : Store) (g : Generate) (sub : Subscription) (plan : Plan) (uuid : String) :
    Invoice :=
  let items := invoiceLineItems plan
    (countUsage s sub.customerID sub.currentPeriodStart sub.currentPeriodEnd)
  { invoiceID := uuid
    subscriptionID := g.subscriptionID
    customerID := sub.customerID
    amount := totalOf items
    currency := plan.currency
    status := .unpaid
    dueDate := s.now.addDate 0 0 14
    lineItems := items
    periodStart := sub.currentPeriodStart
    periodEnd := sub.currentPeriodEnd
    createdAt := s.now
    usage := (completedRequests s sub.customerID sub.currentPeriodStart
      sub.currentPeriodEnd).map SigningRequest.requestID }

def Call.statement (s : Store) (reply : Reply) (uuid : String) : Call → Store × Option Call
  | .listing now =>
    match ask reply (.ok (subscriptionsDueForBilling s now)) with
    | .ok due => proceed s now ⟨now, due.length, [], []⟩ due
    | .error _ => (s, none)
  | .planning now sub rest result =>
    match ask reply (getPlan s sub.planID) with
    | .ok plan => (s, some (.reading ⟨sub.subscriptionID, some ⟨now, sub, plan, rest, result⟩⟩))
    | .error e => proceed s now (result.fail sub ("plan " ++ sub.planID ++ ": " ++ e)) rest
  | .reading g =>
    match ask reply (getSubscription s g.subscriptionID) with
    | .ok sub => (s, some (.pricing g sub))
    | .error e => g.fail s ("subscription not found: " ++ e)
  | .pricing g sub =>
    match ask reply (getPlan s sub.planID) with
    | .ok plan => (s, some (.looking g sub plan))
    | .error e => g.fail s ("plan not found: " ++ e)
  | .looking g sub plan =>
    match ask reply (.ok (getInvoiceForPeriod s g.subscriptionID sub.currentPeriodStart)) with
    | .ok (some invoice) => (s, g.done invoice)
    | .ok none => (s, some (.counting g sub plan))
    | .error e => g.fail s e
  | .counting g sub plan =>
    match ask reply (.ok (invoiceFor s g sub plan uuid)) with
    | .ok invoice => (s, some (.inserting g invoice))
    | .error e => g.fail s e
  | .inserting g invoice =>
    let r := reply.send s (createInvoice s invoice)
    match r.2 with
    | .ok _ => (r.1, g.done invoice)
    | .error (.raised _) => (r.1, some (.losing g invoice.periodStart))
    | .error (.broken message) => g.fail r.1 ("creating the invoice: " ++ message)
  | .losing g periodStart =>
    match ask reply (.ok (getInvoiceForPeriod s g.subscriptionID periodStart)) with
    | .ok (some invoice) => (s, g.done invoice)
    | .ok none => (s, none)
    | .error e => g.fail s e
  | .advancing run invoice =>
    let start := run.subscription.currentPeriodEnd
    let r := reply.send s (advanceSubscriptionPeriod s run.subscription.subscriptionID
      run.subscription.customerID start (nextPeriodEnd start run.plan.billingCycle))
    match r.2 with
    | .ok _ => proceed r.1 run.now (run.result.bill run.subscription invoice) run.rest
    | .error e =>
      proceed r.1 run.now (run.result.fail run.subscription ("invoice " ++ invoice.invoiceID ++
        " was raised but the period did not advance: " ++ e.message fun e => e)) run.rest

def SigningRequest.finish (r : SigningRequest) (now : Time) (completed : Bool) : SigningRequest :=
  { r with status := if completed then .completed else .failed, completedAt := some now }

def finishRequest (s : Store) (requestID : String) (completed : Bool) : Store :=
  let update (r : SigningRequest) : SigningRequest :=
    if r.requestID = requestID ∧ r.status = .inProgress then r.finish s.now completed else r
  { s with requests := s.requests.map update }

def next (s : Store) : Option Call → Action → Option (Store × Option Call)
  | none, .runBilling => some (s, some (.listing s.now))
  | none, .generateInvoice subscriptionID => some (s, some (.reading ⟨subscriptionID, none⟩))
  | some call, .statement reply uuid => some (call.statement s reply uuid)
  | some _, .crash => some (s, none)
  | none, .request requestID customerID =>
    if s.requests.any fun r => r.requestID = requestID then none
    else some ({ s with requests := s.requests ++ [⟨requestID, customerID, .inProgress, s.now, none⟩] },
      none)
  | none, .finish requestID completed => some (finishRequest s requestID completed, none)
  | none, .createKey key => some ({ s with keys := s.keys ++ [{ key with createdAt := s.now }] }, none)
  | none, .tick now => if s.now ≤ now then some ({ s with now }, none) else none
  | _, _ => none

end OpenFireblocks.Billing
