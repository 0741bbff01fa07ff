import OpenFireblocks.Billing.Periods
import OpenFireblocks.Lib.Sums

/-!
# Usage is billed once

`CountUsage` takes the requests that were made in a period and are completed when it counts. What is
counted is right for good if nothing that was made in the period is still in progress then.
-/

namespace OpenFireblocks.Billing

open Go Threads

def timesBilled (s : Store) (r : SigningRequest) : Nat :=
  (s.invoices.flatMap Invoice.usage).count r.requestID

/-- The end of period `j` has been followed by a billing run that did not fail for the subscription. -/
def FollowedByRun (id : String) (start : Time) (cycle : BillingCycle) (s : Store) (j : Nat) : Prop :=
  ∃ result ∈ s.runs, boundary start cycle (j + 1) ≤ result.ranAt ∧
    ∀ failure ∈ result.failed, failure.subscriptionID ≠ id

/-- The invoice charges the plan's price, and the requests it has counted beyond the plan's limit. -/
def Invoice.Charges (inv : Invoice) (plan : Plan) : Prop :=
  ∃ keys, inv.lineItems = invoiceLineItems plan ⟨inv.usage.length, keys⟩ ∧
    inv.amount = totalOf inv.lineItems

/-- A request that is not completed is counted in no invoice, one that is in exactly one, and what an
invoice charges is what it has counted. -/
structure BilledOnce (id customer : String) (start : Time) (plan : Plan) (s : Store) : Prop where
  never : ∀ r ∈ s.requests, r.customerID = customer → r.status ≠ .completed → timesBilled s r = 0
  once : ∀ r ∈ s.requests, r.customerID = customer → r.status = .completed →
    ∀ time, r.completedAt = some time → start < time →
      ∀ j, time < boundary start plan.billingCycle (j + 1) →
        FollowedByRun id start plan.billingCycle s j → timesBilled s r = 1
  charged : ∀ inv ∈ invoicesOf s id, inv.Charges plan

section

variable (id customer : String) (start : Time) (cycle : BillingCycle) (s : Store)

/-- A run comes before the next period is over, the requests that were made in a period have ended
when they are counted, and no request from before the subscription completes after its start. -/
def Settled : Option Call → Action → Prop
  | some (.listing now), .statement _ _ => ∀ sub ∈ s.subscriptions, sub.subscriptionID = id →
      now < nextPeriodEnd sub.currentPeriodEnd cycle
  | some (.counting g sub _), .statement _ _ => g.subscriptionID = id → ∀ r ∈ s.requests,
      r.customerID = customer → sub.currentPeriodStart ≤ r.createdAt →
        r.createdAt < sub.currentPeriodEnd → r.status ≠ .inProgress
  | none, .finish requestID true => ∀ r ∈ s.requests, r.requestID = requestID →
      r.status = .inProgress → r.customerID = customer → start < s.now → start ≤ r.createdAt
  | _, _ => True

instance (call : Option Call) (action : Action) :
    Decidable (Settled id customer start cycle s call action) :=
  match call, action with
  | some (.listing _), .statement .. => by change Decidable (∀ sub ∈ _, _); infer_instance
  | some (.counting ..), .statement .. => by change Decidable (_ → _); infer_instance
  | none, .finish _ true => by change Decidable (∀ r ∈ _, _); infer_instance
  | some (.listing _), .runBilling | some (.listing _), .generateInvoice _
  | some (.listing _), .crash | some (.listing _), .request .. | some (.listing _), .finish ..
  | some (.listing _), .createKey _ | some (.listing _), .tick _
  | some (.counting ..), .runBilling | some (.counting ..), .generateInvoice _
  | some (.counting ..), .crash | some (.counting ..), .request .. | some (.counting ..), .finish ..
  | some (.counting ..), .createKey _ | some (.counting ..), .tick _
  | none, .runBilling | none, .generateInvoice _ | none, .statement .. | none, .crash
  | none, .request .. | none, .finish _ false | none, .createKey _ | none, .tick _
  | some (.planning ..), _ | some (.reading _), _ | some (.pricing ..), _ | some (.looking ..), _
  | some (.inserting ..), _ | some (.losing ..), _ | some (.advancing ..), _ => isTrue trivial

end

/-! ## The invariant -/

section

variable (id customer : String) (start : Time) (plan : Plan) (s : Store)

def Subscription.Sole (sub : Subscription) : Prop :=
  (sub.subscriptionID = id ↔ sub.customerID = customer) ∧
    (sub.subscriptionID = id → sub.status = .active)

/-- What an invoice of the subscription counts does not change any more, and the other invoices
count requests of other customers. -/
structure Counted (inv : Invoice) : Prop where
  ended : inv.subscriptionID = id → inv.periodEnd ≤ s.now
  settled : inv.subscriptionID = id → ∀ r ∈ s.requests, r.customerID = customer →
    inv.periodStart ≤ r.createdAt → r.createdAt < inv.periodEnd → r.status ≠ .inProgress
  own : inv.subscriptionID = id → inv.usage =
    (completedRequests s customer inv.periodStart inv.periodEnd).map SigningRequest.requestID
  other : inv.subscriptionID ≠ id → ∀ x ∈ inv.usage,
    ∃ r ∈ s.requests, r.requestID = x ∧ r.customerID ≠ customer

def Done (now : Time) : Prop :=
  ∀ j, boundary start plan.billingCycle (j + 1) ≤ now → j < (invoicesOf s id).length

/-- A run has failed for the subscription, or has still to bill the last period that had ended, or
every such period is invoiced. -/
def Covered (now : Time) (rest : List Subscription) (result : BillingRunResult) : Prop :=
  result.ranAt = now ∧
    ((∃ failure ∈ result.failed, failure.subscriptionID = id) ∨
      (∃ sub ∈ rest, sub.subscriptionID = id ∧ ∀ j,
        boundary start plan.billingCycle (j + 1) ≤ now →
          boundary start plan.billingCycle j ≤ sub.currentPeriodStart) ∨
      Done id start plan s now)

def Run.Covers (run : Run) : Prop :=
  Covered id start plan s run.now (run.subscription :: run.rest) run.result

def Generate.Covers (g : Generate) : Prop :=
  ∀ run, g.run = some run → run.Covers id start plan s

structure Metered : Prop where
  sole : ∀ sub ∈ s.subscriptions, sub.Sole id customer
  row : ∃ sub ∈ s.subscriptions, sub.subscriptionID = id
  ids : (s.requests.map SigningRequest.requestID).Nodup
  past : ∀ r ∈ s.requests, r.createdAt ≤ s.now
  completed : ∀ r ∈ s.requests, r.customerID = customer → r.status = .completed →
    ∀ time, r.completedAt = some time → r.createdAt ≤ time ∧ (start < time → start ≤ r.createdAt)
  counted : ∀ inv ∈ s.invoices, Counted id customer s inv
  runs : ∀ result ∈ s.runs, (∃ failure ∈ result.failed, failure.subscriptionID = id) ∨
    Done id start plan s result.ranAt
  charged : ∀ inv ∈ s.invoices, inv.subscriptionID = id → inv.Charges plan

/-- What a call has counted, and what its run has still to bill. -/
def Call.Meters : Call → Prop
  | .listing _ => True
  | .planning now sub rest result => Covered id start plan s now (sub :: rest) result
  | .reading g => g.Covers id start plan s
  | .pricing g sub => g.Covers id start plan s ∧ (sub.subscriptionID = g.subscriptionID ∧
      sub.Sole id customer) ∧ (g.subscriptionID = id → sub.planID = plan.planID)
  | .looking g sub p | .counting g sub p => g.Covers id start plan s ∧
      (sub.subscriptionID = g.subscriptionID ∧ sub.Sole id customer) ∧
      (g.subscriptionID = id → p = plan)
  | .inserting g inv => g.Covers id start plan s ∧ Counted id customer s inv ∧
      (inv.subscriptionID = id → inv.Charges plan)
  | .losing g _ => g.Covers id start plan s
  | .advancing run _ => run.Covers id start plan s

end

/-! ## What one step does to what was counted -/

section

variable {id customer : String} {start : Time} {plan : Plan} {s t : Store}

variable {now : Time} {g : Generate} {customerID uuid : String} {r : SigningRequest}
  {completed : Bool} {sub : Subscription} {reply : Reply}

theorem Done.grow (h : Grows id s t) (hs : Done id start plan s now) : Done id start plan t now :=
  fun j hj => Nat.lt_of_lt_of_le (hs j hj) h.invoices

variable {rest : List Subscription} {result : BillingRunResult}

theorem Covered.grow (h : Grows id s t) (hs : Covered id start plan s now rest result) :
    Covered id start plan t now rest result := by
  obtain ⟨hran, hfailed | hlisted | hdone⟩ := hs
  · exact ⟨hran, .inl hfailed⟩
  · exact ⟨hran, .inr (.inl hlisted)⟩
  · exact ⟨hran, .inr (.inr (hdone.grow h))⟩

theorem Generate.Covers.grow (h : Grows id s t) (hs : g.Covers id start plan s) :
    g.Covers id start plan t :=
  fun run hrun => Covered.grow h (hs run hrun)

variable {inv : Invoice}

theorem Counted.of_eq (hnow : s.now ≤ t.now) (hrequests : t.requests = s.requests)
    (hs : Counted id customer s inv) : Counted id customer t inv where
  ended := fun hid => le_trans (hs.ended hid) hnow
  settled := by
    rw [hrequests]
    exact hs.settled
  own := by
    unfold completedRequests
    rw [hrequests]
    exact hs.own
  other := by
    rw [hrequests]
    exact hs.other

variable {requestID : String}

theorem Counted.request (hs : Counted id customer s inv) :
    Counted id customer
      { s with requests := s.requests ++ [⟨requestID, customerID, .inProgress, s.now, none⟩] } inv where
  ended := hs.ended
  settled := by
    intro hid r hr hown hfirst hlast
    rcases List.mem_append.mp hr with hr | hr
    · exact hs.settled hid r hr hown hfirst hlast
    obtain rfl := List.mem_singleton.mp hr
    exact absurd hlast (not_lt_of_ge (hs.ended hid))
  own := by
    intro hid
    rw [hs.own hid]
    simp [completedRequests]
  other := by
    intro hid x hx
    obtain ⟨r, hr, hrest⟩ := hs.other hid x hx
    exact ⟨r, List.mem_append_left _ hr, hrest⟩

/-- The row of a request after `finishRequest`. -/
def SigningRequest.after (requestID : String) (completed : Bool) (now : Time) (r : SigningRequest) :
    SigningRequest :=
  if r.requestID = requestID ∧ r.status = .inProgress then r.finish now completed else r

theorem finishRequest_requests (s : Store) (requestID : String) (completed : Bool) :
    (finishRequest s requestID completed).requests =
      s.requests.map (SigningRequest.after requestID completed s.now) := rfl

theorem after_of_ne (h : r.status ≠ .inProgress) (requestID : String) (completed : Bool)
    (now : Time) : r.after requestID completed now = r :=
  if_neg fun hboth => h hboth.2

@[simp] theorem after_requestID (r : SigningRequest) (requestID : String) (completed : Bool)
    (now : Time) : (r.after requestID completed now).requestID = r.requestID := by
  unfold SigningRequest.after
  split <;> rfl

@[simp] theorem after_customerID (r : SigningRequest) (requestID : String) (completed : Bool)
    (now : Time) : (r.after requestID completed now).customerID = r.customerID := by
  unfold SigningRequest.after
  split <;> rfl

@[simp] theorem after_createdAt (r : SigningRequest) (requestID : String) (completed : Bool)
    (now : Time) : (r.after requestID completed now).createdAt = r.createdAt := by
  unfold SigningRequest.after
  split <;> rfl

theorem map_completedRequests_finish {first last : Time}
    (hsettled : ∀ r ∈ s.requests, r.customerID = customer → first ≤ r.createdAt →
      r.createdAt < last → r.status ≠ .inProgress) :
    (completedRequests (finishRequest s requestID completed) customer first last).map
      SigningRequest.requestID =
    (completedRequests s customer first last).map SigningRequest.requestID := by
  have hid : SigningRequest.requestID ∘ SigningRequest.after requestID completed s.now =
      SigningRequest.requestID := funext fun r => after_requestID r requestID completed s.now
  unfold completedRequests
  rw [finishRequest_requests, List.filter_map, List.map_map, hid]
  refine congrArg (List.map SigningRequest.requestID) (List.filter_congr fun r hr => ?_)
  by_cases hin : r.customerID = customer ∧ first ≤ r.createdAt ∧ r.createdAt < last
  · obtain ⟨hown, hfirst, hlast⟩ := hin
    rw [Function.comp_apply, after_of_ne (hsettled r hr hown hfirst hlast)]
  · rw [Function.comp_apply, decide_eq_decide, after_customerID, after_createdAt]
    constructor
    · rintro ⟨hown, -, hin'⟩
      exact absurd ⟨hown, hin'⟩ hin
    · rintro ⟨hown, -, hin'⟩
      exact absurd ⟨hown, hin'⟩ hin

theorem Counted.finish (hs : Counted id customer s inv) :
    Counted id customer (finishRequest s requestID completed) inv where
  ended := hs.ended
  settled := by
    intro hid r hr hown hfirst hlast
    rw [finishRequest_requests] at hr
    obtain ⟨old, hold, rfl⟩ := List.mem_map.mp hr
    rw [after_customerID] at hown
    rw [after_createdAt] at hfirst hlast
    have hsettled := hs.settled hid old hold hown hfirst hlast
    rw [after_of_ne hsettled]
    exact hsettled
  own := by
    intro hid
    rw [hs.own hid]
    exact (map_completedRequests_finish (hs.settled hid)).symm
  other := by
    intro hid x hx
    obtain ⟨r, hr, hrest⟩ := hs.other hid x hx
    refine ⟨r.after requestID completed s.now, ?_, ?_⟩
    · rw [finishRequest_requests]
      exact List.mem_map_of_mem hr
    · rw [after_requestID, after_customerID]
      exact hrest

/-! ## One step -/

variable (id customer) in
structure Extends (s t : Store) : Prop where
  grows : Grows id s t
  counted : ∀ inv, Counted id customer s inv → Counted id customer t inv

theorem Extends.of_eq (h : Grows id s t) (hrequests : t.requests = s.requests) :
    Extends id customer s t :=
  ⟨h, fun _ hs => hs.of_eq h.now hrequests⟩

theorem Call.Meters.extend (h : Extends id customer s t) {m : Call}
    (hs : m.Meters id customer start plan s) : m.Meters id customer start plan t := by
  cases m with
  | listing now => exact trivial
  | planning => exact Covered.grow h.grows hs
  | reading g => exact Generate.Covers.grow h.grows hs
  | pricing | looking | counting => exact ⟨hs.1.grow h.grows, hs.2⟩
  | inserting g inv => exact ⟨hs.1.grow h.grows, h.counted inv hs.2.1, hs.2.2⟩
  | losing => exact Generate.Covers.grow h.grows hs
  | advancing => exact Covered.grow h.grows hs

variable (id customer start plan) in
/-- A step keeps what is known about usage. -/
structure Meters (r : Store × Option Call) : Prop where
  metered : Metered id customer start plan r.1
  own : ∀ m, r.2 = some m → m.Meters id customer start plan r.1

theorem Covered.fail (h : Covered id start plan s now (sub :: rest) result) (error : String) :
    Covered id start plan s now rest (result.fail sub error) := by
  obtain ⟨hran, ⟨failure, hmem, hid⟩ | ⟨x, hx, hid, hlast⟩ | hdone⟩ := h
  · exact ⟨hran, .inl ⟨failure, List.mem_append_left _ hmem, hid⟩⟩
  · rcases List.mem_cons.mp hx with rfl | hx
    · exact ⟨hran, .inl ⟨_, List.mem_append_right _ List.mem_cons_self, hid⟩⟩
    · exact ⟨hran, .inr (.inl ⟨x, hx, hid, hlast⟩)⟩
  · exact ⟨hran, .inr (.inr hdone)⟩

theorem Covered.bill (h : Covered id start plan s now (sub :: rest) result)
    (hraised : sub.subscriptionID = id →
      ∃ j, j < (invoicesOf s id).length ∧ sub.period = tile start plan.billingCycle j)
    (invoice : Invoice) : Covered id start plan s now rest (result.bill sub invoice) := by
  obtain ⟨hran, hfailed | ⟨x, hx, hid, hlast⟩ | hdone⟩ := h
  · exact ⟨hran, .inl hfailed⟩
  · rcases List.mem_cons.mp hx with rfl | hx
    · refine ⟨hran, .inr (.inr fun i hi => ?_)⟩
      obtain ⟨j, hj, hperiod⟩ := hraised hid
      have hle := hlast i hi
      rw [show x.currentPeriodStart = _ from congrArg Prod.fst hperiod] at hle
      exact Nat.lt_of_le_of_lt ((boundary_strictMono start plan.billingCycle).le_iff_le.mp hle) hj
    · exact ⟨hran, .inr (.inl ⟨x, hx, hid, hlast⟩)⟩
  · exact ⟨hran, .inr (.inr hdone)⟩

section

variable (hs : Metered id customer start plan s)
include hs

theorem Meters.ended : Meters id customer start plan (s, none) := by
  refine ⟨hs, ?_⟩
  rintro m ⟨⟩

theorem Meters.goOn {m : Call} (hm : m.Meters id customer start plan s) :
    Meters id customer start plan (s, some m) := by
  refine ⟨hs, ?_⟩
  rintro m ⟨⟩
  exact hm

theorem meters_proceed (hcovered : Covered id start plan s now rest result) :
    Meters id customer start plan (proceed s now result rest) := by
  cases rest with
  | nil =>
    refine .ended ⟨hs.sole, hs.row, hs.ids, hs.past, hs.completed,
      fun inv hinv => (hs.counted inv hinv).of_eq (by exact le_refl _) (by rfl), ?_, hs.charged⟩
    intro x hx
    rcases List.mem_append.mp hx with hx | hx
    · exact hs.runs x hx
    obtain rfl := List.mem_singleton.mp hx
    obtain ⟨rfl, hfailed | ⟨sub, hsub, -⟩ | hdone⟩ := hcovered
    · exact .inl hfailed
    · exact absurd hsub List.not_mem_nil
    · exact .inr hdone
  | cons => exact .goOn hs hcovered

theorem meters_fail {error : String} (hg : g.Covers id start plan s) :
    Meters id customer start plan (g.fail s error) := by
  unfold Generate.fail
  split
  · exact .ended hs
  · next run hrun => exact meters_proceed hs ((hg run hrun).fail error)

theorem meters_done (hg : g.Covers id start plan s) :
    Meters id customer start plan (s, g.done inv) := by
  refine ⟨hs, fun m hm => ?_⟩
  obtain ⟨run, hrun, rfl⟩ := Option.map_eq_some_iff.mp hm
  exact hg run hrun

theorem metered_createInvoice (hgrows : Grows id s t) (hinv : Counted id customer s inv)
    (hcharges : inv.subscriptionID = id → inv.Charges plan)
    (h : createInvoice s inv = .ok (t, ())) : Metered id customer start plan t := by
  unfold createInvoice at h
  split at h
  · cases h
  cases h
  refine ⟨hs.sole, hs.row, hs.ids, hs.past, hs.completed, ?_, ?_, ?_⟩
  · intro x hx
    rcases List.mem_append.mp hx with hx | hx
    · exact (hs.counted x hx).of_eq (by exact le_refl _) (by rfl)
    obtain rfl := List.mem_singleton.mp hx
    exact hinv.of_eq (by exact le_refl _) (by rfl)
  · intro result hresult
    rcases hs.runs result hresult with hfailed | hdone
    · exact .inl hfailed
    · exact .inr (hdone.grow hgrows)
  · intro x hx
    rcases List.mem_append.mp hx with hx | hx
    · exact hs.charged x hx
    obtain rfl := List.mem_singleton.mp hx
    exact hcharges

theorem metered_advanceSubscriptionPeriod {subscriptionID : String} {first last : Time}
    (h : advanceSubscriptionPeriod s subscriptionID customerID first last = .ok (t, ())) :
    Metered id customer start plan t := by
  unfold advanceSubscriptionPeriod at h
  split at h
  swap
  · cases h
  cases h
  refine ⟨?_, ?_, hs.ids, hs.past, hs.completed,
    fun inv hinv => (hs.counted inv hinv).of_eq (by exact le_refl _) (by rfl), hs.runs, hs.charged⟩
  · intro sub hsub
    obtain ⟨old, hold, rfl⟩ := List.mem_map.mp hsub
    have hsole := hs.sole old hold
    split
    · exact hsole
    · exact hsole
  · obtain ⟨old, hold, hid⟩ := hs.row
    refine ⟨_, List.mem_map_of_mem hold, ?_⟩
    split
    · exact hid
    · exact hid

theorem metered_request
    (hnew : ¬ (s.requests.any fun r => r.requestID = requestID)) :
    Metered id customer start plan
      { s with requests := s.requests ++ [⟨requestID, customerID, .inProgress, s.now, none⟩] } := by
  refine ⟨hs.sole, hs.row, ?_, ?_, ?_, fun inv hinv => (hs.counted inv hinv).request, hs.runs,
    hs.charged⟩
  · rw [List.map_append, List.nodup_append]
    refine ⟨hs.ids, List.nodup_singleton _, ?_⟩
    rintro x hx y hy rfl
    obtain ⟨r, hr, rfl⟩ := List.mem_map.mp hx
    obtain rfl := List.mem_singleton.mp hy
    exact hnew (List.any_eq_true.mpr ⟨r, hr, by simp⟩)
  · intro r hr
    rcases List.mem_append.mp hr with hr | hr
    · exact hs.past r hr
    obtain rfl := List.mem_singleton.mp hr
    exact le_refl _
  · intro r hr hown hcompleted
    rcases List.mem_append.mp hr with hr | hr
    · exact hs.completed r hr hown hcompleted
    obtain rfl := List.mem_singleton.mp hr
    cases hcompleted

theorem metered_finish
    (hsettled : completed → ∀ r ∈ s.requests, r.requestID = requestID → r.status = .inProgress →
      r.customerID = customer → start < s.now → start ≤ r.createdAt) :
    Metered id customer start plan (finishRequest s requestID completed) := by
  refine ⟨hs.sole, hs.row, ?_, ?_, ?_, fun inv hinv => (hs.counted inv hinv).finish, hs.runs,
    hs.charged⟩
  · have hid : SigningRequest.requestID ∘ SigningRequest.after requestID completed s.now =
        SigningRequest.requestID := funext fun r => after_requestID r requestID completed s.now
    rw [finishRequest_requests, List.map_map, hid]
    exact hs.ids
  · intro r hr
    rw [finishRequest_requests] at hr
    obtain ⟨old, hold, rfl⟩ := List.mem_map.mp hr
    rw [after_createdAt]
    exact hs.past old hold
  · intro r hr hown hcompleted time htime
    rw [finishRequest_requests] at hr
    obtain ⟨old, hold, rfl⟩ := List.mem_map.mp hr
    rw [after_customerID] at hown
    rw [after_createdAt]
    by_cases hends : old.requestID = requestID ∧ old.status = .inProgress
    · rw [SigningRequest.after, if_pos hends] at hcompleted htime
      cases htime
      cases completed with
      | true => exact ⟨hs.past old hold, hsettled rfl old hold hends.1 hends.2 hown⟩
      | false => cases hcompleted
    · rw [SigningRequest.after, if_neg hends] at hcompleted htime
      exact hs.completed old hold hown hcompleted time htime

theorem metered_of_eq (hnow : s.now ≤ t.now) (hsubs : t.subscriptions = s.subscriptions)
    (hinvs : t.invoices = s.invoices) (hrequests : t.requests = s.requests)
    (hruns : t.runs = s.runs) : Metered id customer start plan t := by
  obtain ⟨now, plans, subscriptions, invoices, requests, keys, runs⟩ := t
  subst hsubs hinvs hrequests hruns
  exact ⟨hs.sole, hs.row, hs.ids, fun r hr => le_trans (hs.past r hr) hnow, hs.completed,
    fun inv hinv => (hs.counted inv hinv).of_eq hnow rfl, hs.runs, hs.charged⟩

end

/-- What `CountUsage` counts in a period that has ended and in which nothing is in progress. -/
theorem counted_invoiceFor {p : Plan} (hread : g.Read id start plan s sub)
    (hown : sub.subscriptionID = g.subscriptionID) (hsole : sub.Sole id customer)
    (hsettled : g.subscriptionID = id → ∀ r ∈ s.requests, r.customerID = customer →
      sub.currentPeriodStart ≤ r.createdAt → r.createdAt < sub.currentPeriodEnd →
        r.status ≠ .inProgress) :
    Counted id customer s (invoiceFor s g sub p uuid) where
  ended := by
    intro hid
    obtain ⟨j, -, -, hended⟩ := hread hid
    exact hended
  settled := hsettled
  own := by
    intro hid
    show (completedRequests s sub.customerID _ _).map _ = _
    rw [hsole.1.mp (hown.trans hid)]
    rfl
  other := by
    intro hid x hx
    obtain ⟨r, hr, rfl⟩ := List.mem_map.mp hx
    unfold completedRequests at hr
    rw [List.mem_filter] at hr
    obtain ⟨hmem, hr⟩ := hr
    refine ⟨r, hmem, rfl, fun hcustomer => hid ?_⟩
    rw [decide_eq_true_eq] at hr
    exact hown.symm.trans (hsole.1.mpr (hr.1.symm.trans hcustomer))

/-- What is charged is the number of the requests that were counted. -/
theorem charges_invoiceFor (s : Store) (g : Generate) (sub : Subscription) (p : Plan)
    (uuid : String) : (invoiceFor s g sub p uuid).Charges p := by
  refine ⟨(countUsage s sub.customerID sub.currentPeriodStart sub.currentPeriodEnd).keyOperations,
    ?_, rfl⟩
  rw [show (invoiceFor s g sub p uuid).usage.length = _ from List.length_map _]
  rfl

section

variable (hs : Tiled id start plan s) (hm : Metered id customer start plan s)
include hs hm

theorem covered_due (hlate : ∀ sub ∈ s.subscriptions, sub.subscriptionID = id →
      now < nextPeriodEnd sub.currentPeriodEnd plan.billingCycle) (considered : Nat) :
    Covered id start plan s now (subscriptionsDueForBilling s now) ⟨now, considered, [], []⟩ := by
  have hmono := boundary_strictMono start plan.billingCycle
  obtain ⟨sub, hsub, hid⟩ := hm.row
  obtain ⟨-, k, hk, hperiod⟩ := hs.rows sub hsub hid
  have hstart : sub.currentPeriodStart = boundary start plan.billingCycle k :=
    congrArg Prod.fst hperiod
  have hend : sub.currentPeriodEnd = boundary start plan.billingCycle (k + 1) :=
    congrArg Prod.snd hperiod
  refine ⟨rfl, .inr ?_⟩
  by_cases hdue : sub.currentPeriodEnd ≤ now
  · refine .inl ⟨sub, ?_, hid, fun j hj => ?_⟩
    · unfold subscriptionsDueForBilling
      rw [List.mem_mergeSort, List.mem_filter]
      exact ⟨hsub, decide_eq_true ⟨(hm.sole sub hsub).2 hid, hdue⟩⟩
    · have hlt : boundary start plan.billingCycle (j + 1) <
          boundary start plan.billingCycle (k + 1 + 1) := by
        refine lt_of_le_of_lt hj ?_
        have := hlate sub hsub hid
        rw [hend] at this
        exact this
      rw [hstart, hmono.le_iff_le]
      have := hmono.lt_iff_lt.mp hlt
      omega
  · refine .inr fun j hj => ?_
    rw [hend, not_le] at hdue
    have := hmono.lt_iff_lt.mp (lt_of_le_of_lt hj hdue)
    omega

theorem meters_inserting (hknows : (Call.inserting g inv).Knows id start plan s)
    (hg : g.Covers id start plan s) (hinv : Counted id customer s inv)
    (hcharges : inv.subscriptionID = id → inv.Charges plan) :
    Meters id customer start plan ((Call.inserting g inv).statement s reply uuid) := by
  obtain ⟨-, hsame, hperiod⟩ := hknows
  obtain ⟨ht, hg⟩ := reply.send_keeps
    (P := fun t => Metered id customer start plan t ∧ g.Covers id start plan t) ⟨hm, hg⟩
    fun t _ hok =>
      let ⟨_, hgrows, _⟩ := keeps_createInvoice hs (fun hid => hperiod (hsame.symm.trans hid)) hok
      ⟨metered_createInvoice hm hgrows hinv hcharges hok, hg.grow hgrows⟩
  simp only [Call.statement]
  split
  · exact meters_done ht hg
  · exact .goOn ht hg
  · exact meters_fail ht hg

theorem meters_advancing {run : Run} (hknows : (Call.advancing run inv).Knows id start plan s)
    (hcovers : run.Covers id start plan s) :
    Meters id customer start plan ((Call.advancing run inv).statement s reply uuid) := by
  obtain ⟨hrun, hraised⟩ := hknows
  obtain ⟨ht, hcovers⟩ := reply.send_keeps
    (P := fun t => Metered id customer start plan t ∧ run.Covers id start plan t) ⟨hm, hcovers⟩
    fun t _ hok => ⟨metered_advanceSubscriptionPeriod hm hok,
      hcovers.grow (keeps_advanceSubscriptionPeriod hs hrun hraised hok).2⟩
  simp only [Call.statement]
  split
  · next hsend =>
    obtain ⟨-, hgrows⟩ :=
      keeps_advanceSubscriptionPeriod hs hrun hraised (Reply.eq_ok_of_send hsend)
    refine meters_proceed ht (Covered.bill hcovers (fun hid => ?_) inv)
    obtain ⟨j, hj, hperiod⟩ := hraised hid
    exact ⟨j, Nat.lt_of_lt_of_le hj hgrows.invoices, hperiod⟩
  · exact meters_proceed ht (Covered.fail hcovers _)

theorem meters_statement {m : Call} (hknows : m.Knows id start plan s)
    (hmeters : m.Meters id customer start plan s)
    (hsettled : Settled id customer start plan.billingCycle s (some m) (.statement reply uuid)) :
    Meters id customer start plan (m.statement s reply uuid) := by
  cases m with
  | listing now =>
    simp only [Call.statement]
    split
    · next due hdue =>
      obtain rfl := Except.ok.inj (ask_eq_ok hdue)
      exact meters_proceed hm (covered_due hs hm hsettled _)
    · exact .ended hm
  | planning =>
    simp only [Call.statement]
    split
    · refine .goOn hm ?_
      rintro run ⟨⟩
      exact hmeters
    · exact meters_proceed hm (Covered.fail hmeters _)
  | reading g =>
    simp only [Call.statement]
    split
    · next sub hsub =>
      obtain ⟨hmem, hown⟩ := mem_of_getSubscription (ask_eq_ok hsub)
      exact .goOn hm ⟨hmeters, ⟨hown, hm.sole sub hmem⟩,
        fun hid => (hs.rows sub hmem (hown.trans hid)).1⟩
    · exact meters_fail hm hmeters
  | pricing =>
    obtain ⟨hg, hsole, hplan⟩ := hmeters
    simp only [Call.statement]
    split
    · next p hp =>
      refine .goOn hm ⟨hg, hsole, fun hid => ?_⟩
      have hp := ask_eq_ok hp
      rw [hplan hid, hs.plans] at hp
      exact (Except.ok.inj hp).symm
    · exact meters_fail hm hg
  | looking =>
    simp only [Call.statement]
    split
    · exact meters_done hm hmeters.1
    · exact .goOn hm hmeters
    · exact meters_fail hm hmeters.1
  | counting =>
    obtain ⟨hg, ⟨hown, hsole⟩, hplan⟩ := hmeters
    simp only [Call.statement]
    split
    · next inv hinv =>
      obtain rfl := Except.ok.inj (ask_eq_ok hinv)
      exact .goOn hm ⟨hg, counted_invoiceFor hknows.2 hown hsole hsettled,
        fun hid => hplan hid ▸ charges_invoiceFor ..⟩
    · exact meters_fail hm hg
  | inserting => exact meters_inserting hs hm hknows hmeters.1 hmeters.2.1 hmeters.2.2
  | losing =>
    simp only [Call.statement]
    split
    · exact meters_done hm hmeters
    · exact .ended hm
    · exact meters_fail hm hmeters
  | advancing => exact meters_advancing hs hm hknows hmeters

end

@[simp] theorem proceed_requests (s : Store) (now : Time) (result : BillingRunResult)
    (rest : List Subscription) : (proceed s now result rest).1.requests = s.requests := by
  cases rest with
  | nil | cons => rfl

@[simp] theorem fail_requests (s : Store) (g : Generate) (error : String) :
    (g.fail s error).1.requests = s.requests := by
  unfold Generate.fail
  split
  · rfl
  · exact proceed_requests _ _ _ _

theorem statement_requests (s : Store) (m : Call) (reply : Reply) (uuid : String) :
    (m.statement s reply uuid).1.requests = s.requests := by
  cases m with
  | inserting g inv =>
    have hsend := reply.send_keeps (P := fun t : Store => t.requests = s.requests) rfl
      fun t _ (hok : createInvoice s inv = _) => by
        unfold createInvoice at hok
        split at hok <;> cases hok
        rfl
    simp only [Call.statement]
    split
    · exact hsend
    · exact hsend
    · exact (fail_requests _ _ _).trans hsend
  | advancing run inv =>
    simp only [Call.statement]
    split <;> refine (proceed_requests _ _ _ _).trans (reply.send_keeps
      (P := fun t : Store => t.requests = s.requests) rfl fun t _ hok => ?_)
    all_goals
      unfold advanceSubscriptionPeriod at hok
      split at hok <;> cases hok
      rfl
  | _ =>
    simp only [Call.statement]
    split <;> simp

theorem meters_next {call : Option Call} {action : Action} {r : Store × Option Call}
    (hs : Tiled id start plan s) (hknows : ∀ m, call = some m → m.Knows id start plan s)
    (hpunctual : Punctual id s call action) (hm : Metered id customer start plan s)
    (hmeters : ∀ m, call = some m → m.Meters id customer start plan s)
    (hsettled : Settled id customer start plan.billingCycle s call action)
    (hstep : next s call action = some r) :
    Meters id customer start plan r ∧ Extends id customer s r.1 := by
  have hgrows := (keeps_next hs hknows hpunctual hstep).grows
  unfold next at hstep
  split at hstep
  · cases hstep
    exact ⟨.goOn hm trivial, .of_eq hgrows rfl⟩
  · cases hstep
    exact ⟨.goOn hm nofun, .of_eq hgrows rfl⟩
  · next m reply uuid =>
    cases hstep
    exact ⟨meters_statement hs hm (hknows m rfl) (hmeters m rfl) hsettled,
      .of_eq hgrows (statement_requests s m reply uuid)⟩
  · cases hstep
    exact ⟨.ended hm, .of_eq hgrows rfl⟩
  · split at hstep
    · cases hstep
    · next hnew =>
      cases hstep
      exact ⟨.ended (metered_request hm hnew), hgrows, fun _ h => h.request⟩
  · next requestID completed =>
    cases hstep
    refine ⟨.ended (metered_finish hm ?_), hgrows, fun _ h => h.finish⟩
    rintro rfl
    exact hsettled
  · cases hstep
    exact ⟨.ended (metered_of_eq hm (le_refl _) rfl rfl rfl rfl), .of_eq hgrows rfl⟩
  · split at hstep
    · next hnow =>
      cases hstep
      exact ⟨.ended (metered_of_eq hm hnow rfl rfl rfl rfl), .of_eq hgrows rfl⟩
    · cases hstep
  · cases hstep

/-! ## What the invoices count -/

/-- A time after the start and before the end of period `j` is in one of the periods up to `j`. -/
theorem exists_tile {cycle : BillingCycle} {time : Time} {j : Nat} (hfirst : start ≤ time)
    (hlast : time < boundary start cycle (j + 1)) :
    ∃ i ≤ j, boundary start cycle i ≤ time ∧ time < boundary start cycle (i + 1) := by
  induction j with
  | zero => exact ⟨0, Nat.le_refl 0, hfirst, hlast⟩
  | succ j ih =>
    rcases lt_or_ge time (boundary start cycle (j + 1)) with hlt | hge
    · obtain ⟨i, hi, hin⟩ := ih hlt
      exact ⟨i, Nat.le_succ_of_le hi, hin⟩
    · exact ⟨j + 1, Nat.le_refl _, hge, hlast⟩

section

variable (hs : Metered id customer start plan s)
include hs

theorem eq_of_requestID {x : SigningRequest} (hr : r ∈ s.requests) (hx : x ∈ s.requests)
    (h : x.requestID = r.requestID) : x = r :=
  List.inj_on_of_nodup_map hs.ids hx hr h

/-- An invoice of the subscription counts the completed requests that were made in its period. -/
theorem mem_usage_iff (hinv : inv ∈ invoicesOf s id) (hr : r ∈ s.requests) :
    r.requestID ∈ inv.usage ↔ r.customerID = customer ∧ r.status = .completed ∧
      inv.periodStart ≤ r.createdAt ∧ r.createdAt < inv.periodEnd := by
  rw [invoicesOf, List.mem_filter, decide_eq_true_eq] at hinv
  rw [(hs.counted inv hinv.1).own hinv.2, List.mem_map]
  unfold completedRequests
  constructor
  · rintro ⟨x, hx, heq⟩
    rw [List.mem_filter, decide_eq_true_eq] at hx
    obtain rfl := eq_of_requestID hs hr hx.1 heq
    exact hx.2
  · intro h
    exact ⟨r, List.mem_filter.mpr ⟨hr, decide_eq_true h⟩, rfl⟩

variable (htiled : Tiled id start plan s)
include htiled

theorem nodup_usage :
    ((invoicesOf s id).flatMap Invoice.usage).Nodup := by
  have husage : ∀ inv ∈ invoicesOf s id, inv.usage =
      (completedRequests s customer inv.periodStart inv.periodEnd).map SigningRequest.requestID := by
    intro inv hinv
    rw [invoicesOf, List.mem_filter, decide_eq_true_eq] at hinv
    exact (hs.counted inv hinv.1).own hinv.2
  rw [List.nodup_flatMap]
  constructor
  · intro inv hinv
    rw [husage inv hinv]
    exact hs.ids.sublist (List.filter_sublist.map _)
  · rw [List.pairwise_iff_getElem]
    intro i j hi hj hij x hx hx'
    have hmem := List.getElem_mem hi
    have hmem' := List.getElem_mem hj
    obtain ⟨r, hr, rfl⟩ : ∃ r ∈ s.requests, r.requestID = x := by
      rw [husage _ hmem] at hx
      obtain ⟨r, hr, rfl⟩ := List.mem_map.mp hx
      exact ⟨r, List.mem_of_mem_filter hr, rfl⟩
    obtain ⟨-, -, -, hlast⟩ := (mem_usage_iff hs hmem hr).mp hx
    obtain ⟨-, -, hfirst, -⟩ := (mem_usage_iff hs hmem' hr).mp hx'
    have hend := congrArg Prod.snd
      (period_of_getElem? htiled.periods (List.getElem?_eq_getElem hi))
    have hstart := congrArg Prod.fst
      (period_of_getElem? htiled.periods (List.getElem?_eq_getElem hj))
    have hlt : boundary start plan.billingCycle j < boundary start plan.billingCycle (i + 1) := by
      refine lt_of_le_of_lt (le_of_eq_of_le hstart.symm hfirst) ?_
      exact lt_of_lt_of_eq hlast hend
    have := (boundary_strictMono start plan.billingCycle).lt_iff_lt.mp hlt
    omega

theorem timesBilled_eq (hr : r ∈ s.requests) (hown : r.customerID = customer) :
    timesBilled s r = if r.requestID ∈ (invoicesOf s id).flatMap Invoice.usage then 1 else 0 := by
  have hother : ∀ inv ∈ s.invoices, ¬ decide (inv.subscriptionID = id) →
      r.requestID ∉ inv.usage := by
    intro inv hinv hid hmem
    rw [decide_eq_true_eq] at hid
    obtain ⟨x, hx, heq, hne⟩ := (hs.counted inv hinv).other hid _ hmem
    obtain rfl := eq_of_requestID hs hr hx heq
    exact hne hown
  rw [timesBilled, ← Sums.count_flatMap_filter hother]
  exact (nodup_usage hs htiled).count

theorem billedOnce_of_metered : BilledOnce id customer start plan s where
  charged := by
    intro inv hinv
    rw [invoicesOf, List.mem_filter, decide_eq_true_eq] at hinv
    exact hs.charged inv hinv.1 hinv.2
  never := by
    intro r hr hown hstatus
    rw [timesBilled_eq hs htiled hr hown, if_neg]
    intro hmem
    obtain ⟨inv, hinv, hmem⟩ := List.mem_flatMap.mp hmem
    exact hstatus ((mem_usage_iff hs hinv hr).mp hmem).2.1
  once := by
    rintro r hr hown hstatus time htime hstart j hj ⟨result, hresult, hran, hfailed⟩
    obtain ⟨hcreated, hstarted⟩ := hs.completed r hr hown hstatus time htime
    obtain ⟨i, hi, hfirst, hlast⟩ := exists_tile (hstarted hstart) (lt_of_le_of_lt hcreated hj)
    have hraised : i < (invoicesOf s id).length := by
      rcases hs.runs result hresult with ⟨failure, hmem, hid⟩ | hdone
      · exact absurd hid (hfailed failure hmem)
      · exact Nat.lt_of_le_of_lt hi (hdone j hran)
    have hperiod := period_of_getElem? htiled.periods (List.getElem?_eq_getElem hraised)
    rw [timesBilled_eq hs htiled hr hown, if_pos]
    refine List.mem_flatMap.mpr ⟨_, List.getElem_mem hraised, ?_⟩
    rw [mem_usage_iff hs (List.getElem_mem hraised) hr]
    refine ⟨hown, hstatus, ?_, ?_⟩
    · exact le_of_eq_of_le (congrArg Prod.fst hperiod) hfirst
    · exact lt_of_lt_of_eq hlast (congrArg Prod.snd hperiod).symm

end

/-! ## Runs -/

variable (id customer start plan) in
def usageOutline : Outline Store Call where
  shared := fun s => Tiled id start plan s ∧ Metered id customer start plan s
  thread := fun s m => m.Knows id start plan s ∧ m.Meters id customer start plan s
  pair := fun _ _ => True
  pair_symm := fun h => h

end

/-- The customer has no subscription yet, the ids of requests are unique, and what has happened is in
the past. -/
structure Unsubscribed (id customer : String) (s : Store) : Prop where
  subscriptions : ∀ sub ∈ s.subscriptions, sub.subscriptionID ≠ id ∧ sub.customerID ≠ customer
  invoices : ∀ inv ∈ s.invoices, inv.subscriptionID ≠ id ∧
    ∀ x ∈ inv.usage, ∃ r ∈ s.requests, r.requestID = x ∧ r.customerID ≠ customer
  ids : (s.requests.map SigningRequest.requestID).Nodup
  past : ∀ r ∈ s.requests, r.createdAt ≤ s.now
  completed : ∀ r ∈ s.requests, ∀ time ∈ r.completedAt, r.createdAt ≤ time ∧ time ≤ s.now
  runs : s.runs = []

theorem metered_of_subscribe {s₀ s : Store} {id customer : String} {plan : Plan} {first second : Time}
    (h : Unsubscribed id customer s₀) (hnow : s₀.now ≤ first)
    (hplan : getPlan s₀ plan.planID = .ok plan)
    (hsub : subscribe s₀ id customer plan.planID first second = .ok s) :
    Metered id customer first plan s := by
  unfold subscribe at hsub
  rw [hplan] at hsub
  cases hsub
  refine ⟨?_, ⟨_, List.mem_append_right _ List.mem_cons_self, rfl⟩, h.ids, h.past, ?_, ?_, ?_,
    fun inv hinv hid => absurd hid (h.invoices inv hinv).1⟩
  · intro sub hmem
    rcases List.mem_append.mp hmem with hold | hlast
    · obtain ⟨hid, hcustomer⟩ := h.subscriptions sub hold
      exact ⟨⟨fun h => absurd h hid, fun h => absurd h hcustomer⟩, fun h => absurd h hid⟩
    · obtain rfl := List.mem_singleton.mp hlast
      exact ⟨⟨fun _ => rfl, fun _ => rfl⟩, fun _ => rfl⟩
  · intro r hr _ _ time htime
    obtain ⟨hcreated, hpast⟩ := h.completed r hr time htime
    exact ⟨hcreated, fun hlt => absurd (le_trans hpast hnow) (not_le_of_gt hlt)⟩
  · intro inv hinv
    obtain ⟨hid, husage⟩ := h.invoices inv hinv
    exact ⟨fun h => absurd h hid, fun h => absurd h hid, fun h => absurd h hid, fun _ => husage⟩
  · intro result hresult
    rw [h.runs] at hresult
    cases hresult

/--
**Usage is billed exactly once.** For a customer with one subscription, whose first period is as long
as the plan's cycle: a request that completes after the subscription started is counted once, over
all invoices, when a period end after its completion has been followed by a billing run that did not
fail for the subscription; one that is not completed is not counted; and an invoice charges what it
has counted. So it is in every run in which an operator's `GenerateInvoice` reads a period that has
ended, and that of a billing run the period that is in the run's list, a billing run comes before the
next period is over, and what was made in a period has ended when it is counted.
-/
theorem run_billedOnce {s₀ s : Store} {id customer : String} {plan : Plan} {first second : Time}
    {es : List (Nat × Action)} {t : System Store Call}
    (hfresh : Unsubscribed id customer s₀) (hnow : s₀.now ≤ first)
    (hplan : getPlan s₀ plan.planID = .ok plan)
    (hsub : subscribe s₀ id customer plan.planID first second = .ok s)
    (hfirst : second.addDate 0 1 0 = nextPeriodEnd first plan.billingCycle)
    (hrun : Machine.run (step next) (.idle s) es = some t)
    (hpunctual : Machine.Guarded (step next)
      (fun t e => Punctual id t.shared (t.threads e.1) e.2) (.idle s) es)
    (hsettled : Machine.Guarded (step next)
      (fun t e => Settled id customer first plan.billingCycle t.shared (t.threads e.1) e.2)
      (.idle s) es) :
    BilledOnce id customer first plan t.shared := by
  have hnone : invoicesOf s₀ id = [] := by
    rw [invoicesOf, List.filter_eq_nil_iff]
    intro inv hinv
    rw [decide_eq_true_eq]
    exact (hfresh.invoices inv hinv).1
  have htiled := tiled_of_subscribe hplan (fun sub h => (hfresh.subscriptions sub h).1) hnone hsub
    hfirst
  have hholds : (usageOutline id customer first plan).Holds t := by
    refine Machine.run_guarded_invariant (fun h hG hstep => ?_)
      (Outline.holds_idle ⟨htiled, metered_of_subscribe hfresh hnow hplan hsub⟩)
      (hpunctual.and hsettled) hrun
    obtain ⟨s', call', hnext, rfl⟩ := step_eq_some.mp hstep
    obtain ⟨hmeters, hextends⟩ := meters_next h.shared.1 (fun m hm => (h.thread hm).1) hG.1 h.shared.2
      (fun m hm => (h.thread hm).2) hG.2 hnext
    have hkeeps := keeps_next h.shared.1 (fun m hm => (h.thread hm).1) hG.1 hnext
    refine h.step (fun h => h) ⟨hkeeps.tiled, hmeters.metered⟩
      (fun m hm => ⟨hkeeps.own m hm, hmeters.own m hm⟩) ?_ fun _ _ _ _ _ _ => trivial
    intro j m _ hm
    obtain ⟨hknows, hmeter⟩ := h.thread hm
    exact ⟨hknows.grow hextends.grows, hmeter.extend hextends⟩
  exact billedOnce_of_metered hholds.shared.2 hholds.shared.1

/-! ### One subscription -/

def soon : Time := date 2025 1 20 (by decide)
def late : Time := date 2025 2 20 (by decide)

def signed : List (Nat × Action) := [(0, .request "request" "customer"), (0, .finish "request" true)]

theorem run_billedOnce_oneMonth :
    ∃ t, Machine.run (step next) (.idle (subscribed .monthly))
        ((0, .tick soon) :: signed ++ (0, .tick february) :: billingRun) = some t ∧
      (invoicesOf t.shared "sub").map Invoice.usage = [["request"]] ∧
      BilledOnce "sub" "customer" january (starter .monthly) t.shared := by
  have husage : (Machine.run (step next) (.idle (subscribed .monthly))
      ((0, .tick soon) :: signed ++ (0, .tick february) :: billingRun)).map
        (fun t => (invoicesOf t.shared "sub").map Invoice.usage) = some [["request"]] := by
    decide +kernel
  obtain ⟨t, hrun, husage⟩ := Option.map_eq_some_iff.mp husage
  refine ⟨t, hrun, husage, run_billedOnce
    (show Unsubscribed "sub" "customer" (noSubscription .monthly) from
      ⟨nofun, nofun, List.nodup_nil, nofun, nofun, rfl⟩)
    (le_refl _) (getPlan_noSubscription .monthly) (subscribe_noSubscription .monthly) ?_ hrun ?_ ?_⟩
  · decide +kernel
  · decide +kernel
  · decide +kernel

/-- Some request that should have been counted once by now is not. -/
def Miscounted (s : Store) (j : Nat) : Prop :=
  ∃ r ∈ s.requests, r.customerID = "customer" ∧ r.status = .completed ∧
    (∃ time ∈ r.completedAt, january < time ∧ time < boundary january .monthly (j + 1)) ∧
    (∃ result ∈ s.runs, boundary january .monthly (j + 1) ≤ result.ranAt ∧
      ∀ failure ∈ result.failed, failure.subscriptionID ≠ "sub") ∧
    timesBilled s r ≠ 1

instance (s : Store) (j : Nat) : Decidable (Miscounted s j) := by
  unfold Miscounted
  infer_instance

def stillInProgress : List (Nat × Action) :=
  [(0, .request "request" "customer"), (0, .tick february)] ++ billingRun ++
    [(0, .tick late), (0, .finish "request" true), (0, .tick march)] ++ billingRun

/-- The billing run comes after the second period has ended, and bills the first. -/
def twoPeriodsLate : List (Nat × Action) := (0, .tick late) :: signed ++ (0, .tick march) :: billingRun

/-- The customer had made the request before the subscription started. -/
def requestedBefore : Store :=
  { subscribed .monthly with
    requests := [⟨"request", "customer", .inProgress, date 2025 1 10 (by decide), none⟩] }

def completedAfter : List (Nat × Action) :=
  [(0, .tick soon), (0, .finish "request" true), (0, .tick february)] ++
    billingRun

/-- The customer has another subscription, which started a fortnight earlier. -/
def subscribedTwice : Store :=
  { subscribed .monthly with
    subscriptions := [⟨"sub", "customer", "starter", .active, january, february⟩,
      ⟨"other", "customer", "starter", .active, date 2025 1 1 (by decide), date 2025 2 1 (by decide)⟩] }

def billedTwice : List (Nat × Action) :=
  (0, .tick soon) :: signed ++
    (0, .tick (date 2025 2 1 (by decide))) :: billingRun ++ (0, .tick february) :: billingRun

theorem not_billedOnce :
    [(subscribed .monthly, stillInProgress, 1), (subscribed .monthly, twoPeriodsLate, 1),
      (requestedBefore, completedAfter, 0), (subscribedTwice, billedTwice, 0)].Forall fun x =>
    ∃ t, Machine.run (step next) (.idle x.1) x.2.1 = some t ∧
      ¬ BilledOnce "sub" "customer" january (starter .monthly) t.shared := by
  have hall : ∀ x ∈ [(subscribed .monthly, stillInProgress, 1), (subscribed .monthly, twoPeriodsLate, 1),
      (requestedBefore, completedAfter, 0), (subscribedTwice, billedTwice, 0)],
      (Machine.run (step next) (.idle x.1) x.2.1).map
        (fun t => decide (Miscounted t.shared x.2.2)) = some true := by
    decide +kernel
  refine List.forall_iff_forall_mem.mpr fun x hx => ?_
  obtain ⟨t, hrun, hmiscounted⟩ := Option.map_eq_some_iff.mp (hall x hx)
  refine ⟨t, hrun, fun hbilled => ?_⟩
  obtain ⟨r, hr, hown, hstatus, ⟨time, htime, hstart, hend⟩, hran, hcount⟩ :=
    of_decide_eq_true hmiscounted
  exact hcount (hbilled.once r hr hown hstatus time htime hstart _ hend hran)

end OpenFireblocks.Billing
