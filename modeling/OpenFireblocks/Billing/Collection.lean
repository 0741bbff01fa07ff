import OpenFireblocks.Billing.Invoices

/-!
# Collecting payments

`ChargeInvoice` and the calls of the Stripe client (`billing/stripe.go`), `collectPayments`
(`billing/collect.go`) and `HandleChargeInvoice` (`billing/usage.go`), on the tables and on Stripe.

* Stripe keeps payment intents and idempotency keys. A request whose key is less than 24 hours old is
  answered as the first one was; the search finds a payment only once it is in the index.
* A collection run and an operator's call are threads that send one request at a time, to the
  database or to Stripe. A request may fail or lose its answer, and a call may crash.
* A payment may be in progress for any length of time, and customers change their cards.
-/

namespace OpenFireblocks.Billing

open Go

/-! ## Stripe -/

inductive IntentStatus
  | requiresPaymentMethod
  | processing
  | succeeded
deriving DecidableEq

def IntentStatus.text : IntentStatus → String
  | .requiresPaymentMethod => "requires_payment_method"
  | .processing => "processing"
  | .succeeded => "succeeded"

/-- What `CreatePaymentIntent` asks for. -/
structure IntentRequest where
  amount : Int
  currency : String
  customer : String
  paymentMethod : String
  invoiceID : String
  customerID : String
  subscriptionID : String
deriving DecidableEq

structure PaymentIntent where
  id : Nat
  amount : Int
  currency : String
  status : IntentStatus
  customer : String

structure Intent where
  request : IntentRequest
  key : String
  status : IntentStatus
  createdAt : Time
  /-- whether the search finds it -/
  indexed : Bool

structure KeyRecord where
  key : String
  request : IntentRequest
  answer : Except String PaymentIntent
  createdAt : Time

structure Wallet where
  defaultPaymentMethod : String
  cards : List String

structure Stripe where
  intents : List Intent
  keys : List KeyRecord
  wallets : String → Wallet

def Intent.view (i : Intent) (id : Nat) : PaymentIntent :=
  ⟨id, i.request.amount, i.request.currency, i.status, i.request.customer⟩

/-- A key is kept for 24 hours. -/
def KeyRecord.live (r : KeyRecord) (now : Time) (key : String) : Bool :=
  r.key = key ∧ now < r.createdAt.addDate 0 0 1

def intentAnswer (i : Intent) (id : Nat) : Except String PaymentIntent :=
  match i.status with
  | .requiresPaymentMethod => .error "stripe 402 Payment Required: Your card was declined."
  | _ => .ok (i.view id)

/-- `POST /v1/payment_intents`. The network decides what becomes of a payment at first. -/
def Stripe.post (st : Stripe) (now : Time) (request : IntentRequest) (key : String)
    (status : IntentStatus) : Stripe × Except String PaymentIntent :=
  match st.keys.find? fun r => r.live now key with
  | some r =>
    if r.request = request then (st, r.answer)
    else (st, .error
      "stripe 400 Bad Request: Keys for idempotent requests can only be used with the same parameters")
  | none =>
    let i : Intent := ⟨request, key, status, now, false⟩
    let answer := intentAnswer i st.intents.length
    ({ st with
        intents := st.intents ++ [i]
        keys := st.keys ++ [⟨key, request, answer, now⟩] }, answer)

/-- The quotes are taken out of an invoice id before it goes into the query. -/
def searchID (invoiceID : String) : String :=
  String.ofList (invoiceID.toList.filter fun c => c ≠ Char.ofNat 39)

/-- `GET /v1/payment_intents/search`: a payment for the invoice that succeeded, if the index has it. -/
def Stripe.succeededIntentForInvoice (st : Stripe) (invoiceID : String) : Option PaymentIntent :=
  (st.intents.zipIdx.find? fun p =>
    p.1.request.invoiceID = searchID invoiceID ∧ p.1.status = .succeeded ∧ p.1.indexed).map
    fun p => p.1.view p.2

/-! ## Tables -/

/-- A row of `invoice_charges`. -/
structure InvoiceCharge where
  invoiceID : String
  customerID : String
  paymentIntentID : Option Nat
  amountCents : Int
  currency : String
  status : String
  detail : String

structure UnpaidInvoice where
  invoice : Invoice
  stripeCustomerID : String

structure CollectedLine where
  invoiceID : String
  customerID : String
  paymentIntentID : Nat
  amountCents : Int
  status : IntentStatus

structure SkippedLine where
  invoiceID : String
  customerID : String
  amountCents : Int
  reason : String

structure CollectedFailed where
  invoiceID : String
  customerID : String
  error : String

structure CollectionResult where
  ranAt : Time
  attempted : Nat
  collected : List CollectedLine
  skipped : List SkippedLine
  failed : List CollectedFailed

structure Books where
  now : Time
  invoices : List Invoice
  /-- `customers.stripe_customer_id`, empty when it is null -/
  customers : String → Option String
  charges : List InvoiceCharge
  stripe : Stripe
  /-- the results of the collection runs that returned -/
  collections : List CollectionResult

def defaultCollectionLimit : Nat := 200

/-- What is outstanding, oldest first. -/
def unpaidInvoices (s : Books) (limit : Nat) : List UnpaidInvoice :=
  (((s.invoices.filter fun inv => inv.status ≠ .paid).filterMap fun inv =>
    (s.customers inv.customerID).map fun stripeID => ⟨inv, stripeID⟩).mergeSort
    fun a b => a.invoice.createdAt ≤ b.invoice.createdAt).take limit

def recordCharge (s : Books) (charge : InvoiceCharge) : Except String (Books × Unit) :=
  .ok ({ s with charges := s.charges ++ [charge] }, ())

def markInvoicePaid (s : Books) (invoiceID customerID : String) : Except String (Books × Unit) :=
  let update (inv : Invoice) : Invoice :=
    if inv.invoiceID = invoiceID ∧ inv.customerID = customerID then { inv with status := .paid }
    else inv
  .ok ({ s with invoices := s.invoices.map update }, ())

/-! ## Charging -/

/-- The errors that callers look for. -/
inductive Sentinel
  | invalidInput
  | unavailable
  | noPaymentMethod
deriving DecidableEq

structure ChargeError where
  wraps : Option Sentinel
  text : String

/-- The checks of `ChargeInvoice` before it asks Stripe anything. -/
def chargeRefusal (configured : Bool) (inv : Invoice) : Option ChargeError :=
  if inv.status = .paid then
    some ⟨some .invalidInput, "invalid input: invoice " ++ inv.invoiceID ++ " is already paid"⟩
  else if configured = false then
    some ⟨some .unavailable, "unavailable: no payment processor is configured, so invoice " ++
      inv.invoiceID ++ " cannot be charged"⟩
  else none

/-- The key has the card in it, so a card that replaces a declined one is tried. -/
def idempotencyKey (inv : Invoice) (pm : String) : String := "invoice:" ++ inv.invoiceID ++ ":" ++ pm

def intentRequest (inv : Invoice) (stripeCustomerID pm : String) : IntentRequest where
  amount := inv.amount
  currency := inv.currency.toLower
  customer := stripeCustomerID
  paymentMethod := pm
  invoiceID := inv.invoiceID
  customerID := inv.customerID
  subscriptionID := inv.subscriptionID

/-- The checks of `CreatePaymentIntent`. -/
def intentRefusal (inv : Invoice) (stripeCustomerID pm : String) : Option String :=
  if inv.amount ≤ 0 then
    some ("refusing to create a payment intent for " ++ toString inv.amount ++ " cents")
  else if inv.currency = "" then some "currency is required"
  else if stripeCustomerID = "" ∨ pm = "" then
    some "a charge needs both a customer and a payment method"
  else none

structure CollectionRun where
  rest : List UnpaidInvoice
  result : CollectionResult

/-- A call of `ChargeInvoice`, by an operator or by a run. -/
structure Charge where
  invoice : Invoice
  stripeCustomerID : String
  run : Option CollectionRun

inductive ChargeCall
  /-- `collectPayments` reads what is outstanding. -/
  | listing (now : Time) (limit : Int)
  /-- `HandleChargeInvoice` reads the invoices of the customer. -/
  | fetching (invoiceID customerID stripeCustomerID : String)
  /-- `SucceededIntentForInvoice`. -/
  | searching (c : Charge)
  /-- `DefaultPaymentMethod` reads the customer, and their cards if there is no default. -/
  | readingCustomer (c : Charge)
  | readingCards (c : Charge)
  /-- `CreatePaymentIntent`. -/
  | posting (c : Charge) (pm : String)
  /-- `RecordCharge`, after which the run marks the invoice as paid or goes on. -/
  | recording (charge : InvoiceCharge) (run : CollectionRun)
      (paid : Option (Invoice × PaymentIntent))
  /-- `MarkInvoicePaid`. -/
  | marking (invoice : Invoice) (intent : PaymentIntent) (run : Option CollectionRun)

inductive ChargeAction
  | collect (limit : Int)
  | charge (invoiceID customerID stripeCustomerID : String)
  /-- The call sends its next request. `status` is what becomes of a payment that it starts. -/
  | send (reply : Reply) (status : IntentStatus)
  | crash
  /-- A payment that was in progress ends. -/
  | settle (intent : Nat) (succeeded : Bool)
  /-- The search index catches up. -/
  | index (intent : Nat)
  | changeWallet (stripeCustomerID : String) (wallet : Wallet)
  | tick (now : Time)

section

variable (result : CollectionResult) (inv : Invoice)

def CollectionResult.skip (reason : String) : CollectionResult :=
  { result with skipped := result.skipped ++ [⟨inv.invoiceID, inv.customerID, inv.amount, reason⟩] }

def CollectionResult.fail (error : String) : CollectionResult :=
  { result with failed := result.failed ++ [⟨inv.invoiceID, inv.customerID, error⟩] }

def CollectionResult.collect (intent : PaymentIntent) : CollectionResult :=
  { result with collected := result.collected ++
      [⟨inv.invoiceID, inv.customerID, intent.id, inv.amount, intent.status⟩] }

end

def chargeRow (inv : Invoice) (intent : Option Nat) (status detail : String) : InvoiceCharge :=
  ⟨inv.invoiceID, inv.customerID, intent, inv.amount, inv.currency, status, detail⟩

/-- The run keeps a record of why it did not charge, and goes on. -/
def recordRefusal (inv : Invoice) (rest : List UnpaidInvoice) (result : CollectionResult)
    (error : ChargeError) : ChargeCall :=
  if error.wraps = some .noPaymentMethod then
    let reason := "no saved card; the customer has to add one before this can be charged"
    .recording (chargeRow inv none "skipped" reason) ⟨rest, result.skip inv reason⟩ none
  else
    .recording (chargeRow inv none "failed" error.text) ⟨rest, result.fail inv error.text⟩ none

/-- The run goes on with the next invoice, or returns. Without a processor it skips them all. -/
def collectNext (configured : Bool) (s : Books) (result : CollectionResult) :
    List UnpaidInvoice → Books × Option ChargeCall
  | [] => ({ s with collections := s.collections ++ [result] }, none)
  | item :: rest =>
    if item.stripeCustomerID = "" then
      let reason := "no payment processor identity on file; this invoice is collected manually"
      (s, some (.recording (chargeRow item.invoice none "skipped" reason)
        ⟨rest, result.skip item.invoice reason⟩ none))
    else
      match chargeRefusal configured item.invoice with
      | none => (s, some (.searching ⟨item.invoice, item.stripeCustomerID, some ⟨rest, result⟩⟩))
      | some error =>
        if error.wraps = some .unavailable then
          collectNext configured s
            (result.skip item.invoice "no payment processor is configured") rest
        else (s, some (recordRefusal item.invoice rest result error))

/-- `ChargeInvoice` returns an error. -/
def Charge.fail (c : Charge) (s : Books) (error : ChargeError) : Books × Option ChargeCall :=
  match c.run with
  | none => (s, none)
  | some run => (s, some (recordRefusal c.invoice run.rest run.result error))

/-- `ChargeInvoice` returns a payment intent. -/
def Charge.done (c : Charge) (intent : PaymentIntent) : Option ChargeCall :=
  match c.run with
  | none => if intent.status = .succeeded then some (.marking c.invoice intent none) else none
  | some run =>
    let result := run.result.collect c.invoice intent
    if intent.status = .succeeded then
      some (.recording (chargeRow c.invoice (some intent.id) "succeeded" "") ⟨run.rest, result⟩
        (some (c.invoice, intent)))
    else
      some (.recording (chargeRow c.invoice (some intent.id) "requires_action"
        ("payment intent is " ++ intent.status.text)) ⟨run.rest, result⟩ none)

/-- `CreatePaymentIntent`: what it refuses itself does not reach Stripe. -/
def Charge.post (c : Charge) (s : Books) (pm : String) (reply : Reply) (status : IntentStatus) :
    Books × Option ChargeCall :=
  match intentRefusal c.invoice c.stripeCustomerID pm with
  | some text => c.fail s ⟨none, text⟩
  | none =>
    let posted := s.stripe.post s.now (intentRequest c.invoice c.stripeCustomerID pm)
      (idempotencyKey c.invoice pm) status
    match reply with
    | .answered =>
      match posted.2 with
      | .ok intent => ({ s with stripe := posted.1 }, c.done intent)
      | .error text => c.fail { s with stripe := posted.1 } ⟨none, text⟩
    | .lost message => c.fail { s with stripe := posted.1 } ⟨none, message⟩
    | .failed message => c.fail s ⟨none, message⟩

def noCard (c : Charge) : ChargeError :=
  ⟨some .noPaymentMethod, "no payment method on file: customer " ++ c.stripeCustomerID ++
    " has no saved card, so invoice " ++ c.invoice.invoiceID ++ " cannot be charged"⟩

def ChargeCall.send (configured : Bool) (s : Books) (reply : Reply) (status : IntentStatus) :
    ChargeCall → Books × Option ChargeCall
  | .listing now limit =>
    let limit := if limit ≤ 0 then defaultCollectionLimit else limit.toNat
    match ask reply (.ok (unpaidInvoices s limit)) with
    | .ok outstanding => collectNext configured s ⟨now, outstanding.length, [], [], []⟩ outstanding
    | .error _ => (s, none)
  | .fetching invoiceID customerID stripeCustomerID =>
    match ask reply (.ok (s.invoices.find? fun inv =>
      inv.customerID = customerID ∧ inv.invoiceID = invoiceID)) with
    | .ok (some inv) =>
      (s, match chargeRefusal configured inv with
        | none => some (.searching ⟨inv, stripeCustomerID, none⟩)
        | some _ => none)
    | _ => (s, none)
  | .searching c =>
    match ask reply (.ok (s.stripe.succeededIntentForInvoice c.invoice.invoiceID)) with
    | .ok (some intent) => (s, c.done intent)
    | .ok none => (s, some (.readingCustomer c))
    | .error e => c.fail s ⟨none, "could not check whether invoice " ++ c.invoice.invoiceID ++
        " was already paid: " ++ e⟩
  | .readingCustomer c =>
    match ask reply (.ok (s.stripe.wallets c.stripeCustomerID).defaultPaymentMethod) with
    | .ok pm => (s, some (if pm ≠ "" then .posting c pm else .readingCards c))
    | .error e => c.fail s ⟨none, "could not read the customer's payment method: " ++ e⟩
  | .readingCards c =>
    match ask reply (.ok (s.stripe.wallets c.stripeCustomerID).cards) with
    | .ok (pm :: _) => if pm ≠ "" then (s, some (.posting c pm)) else c.fail s (noCard c)
    | .ok [] => c.fail s (noCard c)
    | .error e => c.fail s ⟨none, "could not read the customer's payment method: " ++ e⟩
  | .posting c pm => c.post s pm reply status
  | .recording charge run paid =>
    let r := reply.send s (recordCharge s charge)
    match paid with
    | some (inv, intent) => (r.1, some (.marking inv intent (some run)))
    | none => collectNext configured r.1 run.result run.rest
  | .marking inv intent run =>
    let r := reply.send s (markInvoicePaid s inv.invoiceID inv.customerID)
    match run with
    | none => (r.1, none)
    | some run =>
      match r.2 with
      | .ok _ => collectNext configured r.1 run.result run.rest
      | .error e =>
        collectNext configured r.1 (run.result.fail inv ("payment " ++ toString intent.id ++
          " succeeded but the invoice could not be marked paid: " ++ e.message fun e => e)) run.rest

def Intent.settle (i : Intent) (succeeded : Bool) : Intent :=
  if i.status = .processing then
    { i with status := if succeeded then .succeeded else .requiresPaymentMethod }
  else i

def chargeNext (configured : Bool) (s : Books) :
    Option ChargeCall → ChargeAction → Option (Books × Option ChargeCall)
  | none, .collect limit => some (s, some (.listing s.now limit))
  | none, .charge invoiceID customerID stripeCustomerID =>
    some (s, some (.fetching invoiceID customerID stripeCustomerID))
  | some call, .send reply status => some (call.send configured s reply status)
  | some _, .crash => some (s, none)
  | none, .settle intent succeeded =>
    let intents := s.stripe.intents.modify intent fun i => i.settle succeeded
    some ({ s with stripe := { s.stripe with intents } }, none)
  | none, .index intent =>
    let intents := s.stripe.intents.modify intent fun i => { i with indexed := true }
    some ({ s with stripe := { s.stripe with intents } }, none)
  | none, .changeWallet stripeCustomerID wallet =>
    let wallets := Function.update s.stripe.wallets stripeCustomerID wallet
    some ({ s with stripe := { s.stripe with wallets } }, none)
  | none, .tick now => if s.now ≤ now then some ({ s with now }, none) else none
  | _, _ => none

end OpenFireblocks.Billing
