import OpenFireblocks.Billing.Collection
import OpenFireblocks.Lib.Sums

/-!
# No invoice is paid twice

Two things keep `ChargeInvoice` from charging again: the search for a payment that succeeded, which
lags behind, and the idempotency key, which has the card in it and is kept for 24 hours.
-/

namespace OpenFireblocks.Billing

open Go Threads

/-! ## The payments for an invoice -/

def payments (s : Books) (invoiceID : String) : Nat :=
  s.stripe.intents.countP fun i => i.request.invoiceID = invoiceID ∧ i.status = .succeeded

/-- The payment for the invoice has succeeded or may still succeed. -/
def Intent.isLive (invoiceID : String) (i : Intent) : Bool :=
  i.request.invoiceID = invoiceID ∧ i.status ≠ .requiresPaymentMethod

/-- A payment is asked for with the key of every other one that may take the money, and that key is
still kept. -/
def Rekeyed (invoiceID : String) (s : Books) : Option ChargeCall → ChargeAction → Prop
  | some (.posting c pm), .send _ _ => c.invoice.invoiceID = invoiceID →
      ∀ i ∈ s.stripe.intents, i.isLive invoiceID = true →
        i.key = idempotencyKey c.invoice pm ∧ s.now < i.createdAt.addDate 0 0 1
  | _, _ => True

instance (invoiceID : String) (s : Books) (call : Option ChargeCall) (action : ChargeAction) :
    Decidable (Rekeyed invoiceID s call action) := by
  unfold Rekeyed
  split <;> infer_instance

/-- There is at most one payment that may take the money, and Stripe has kept the key of each. -/
structure Single (invoiceID : String) (st : Stripe) : Prop where
  live : st.intents.countP (Intent.isLive invoiceID) ≤ 1
  keyed : ∀ i ∈ st.intents, i.request.invoiceID = invoiceID →
    ∃ r ∈ st.keys, r.key = i.key ∧ r.createdAt = i.createdAt

variable {invoiceID : String}

variable {s : Books} {st : Stripe}

theorem payments_le_one (h : Single invoiceID s.stripe) : payments s invoiceID ≤ 1 := by
  refine Nat.le_trans (List.countP_mono_left ?_) h.live
  intro i _ hi
  rw [decide_eq_true_eq] at hi
  refine decide_eq_true ⟨hi.1, ?_⟩
  rw [hi.2]
  decide

/-! ## One step -/

theorem single_append (hs : Single invoiceID st) {i : Intent} {answer : Except String PaymentIntent}
    (hlive : i.request.invoiceID = invoiceID → ∀ x ∈ st.intents, ¬ x.isLive invoiceID) :
    Single invoiceID { st with
      intents := st.intents ++ [i]
      keys := st.keys ++ [⟨i.key, i.request, answer, i.createdAt⟩] } where
  live := by
    rw [List.countP_append, List.countP_singleton]
    by_cases hid : i.request.invoiceID = invoiceID
    · rw [List.countP_eq_zero.mpr (hlive hid)]
      split <;> omega
    · have hdead : i.isLive invoiceID = false := decide_eq_false fun h => hid h.1
      rw [hdead]
      exact hs.live
  keyed := by
    intro x hx hid
    rcases List.mem_append.mp hx with hx | hx
    · obtain ⟨r, hr, hkey⟩ := hs.keyed x hx hid
      exact ⟨r, List.mem_append_left _ hr, hkey⟩
    · obtain rfl := List.mem_singleton.mp hx
      exact ⟨_, List.mem_append_right _ List.mem_cons_self, rfl, rfl⟩

theorem single_post (hs : Single invoiceID st) {now : Time} {request : IntentRequest} {key : String}
    {status : IntentStatus}
    (hkey : request.invoiceID = invoiceID → ∀ i ∈ st.intents, i.isLive invoiceID → i.key = key ∧ now < i.createdAt.addDate 0 0 1) :
    Single invoiceID (st.post now request key status).1 := by
  unfold Stripe.post
  split
  · split
    · exact hs
    · exact hs
  · next hnone =>
    refine single_append hs ?_
    intro hid x hx hlive
    obtain ⟨hsame, hfresh⟩ := hkey hid x hx hlive
    obtain ⟨r, hr, hrkey, hrtime⟩ := hs.keyed x hx (of_decide_eq_true hlive).1
    refine List.find?_eq_none.mp hnone r hr (decide_eq_true ⟨hrkey.trans hsame, ?_⟩)
    rw [hrtime]
    exact hfresh

/-- A payment changes, but not from one that cannot take the money to one that can. -/
theorem single_modify (hs : Single invoiceID st) {n : Nat} {f : Intent → Intent}
    (hlive : ∀ i, (f i).isLive invoiceID → i.isLive invoiceID)
    (hsame : ∀ i, (f i).request = i.request ∧ (f i).key = i.key ∧ (f i).createdAt = i.createdAt) :
    Single invoiceID { st with intents := st.intents.modify n f } where
  live := Nat.le_trans (Sums.countP_modify_le hlive) hs.live
  keyed := by
    intro x hx hid
    obtain ⟨i, hi, hxi⟩ := Sums.mem_of_mem_modify hx
    rcases hxi with rfl | rfl
    · exact hs.keyed x hi hid
    obtain ⟨hrequest, hkey, htime⟩ := hsame i
    rw [hrequest] at hid
    rw [hkey, htime]
    exact hs.keyed i hi hid

theorem isLive_settle {i : Intent} {succeeded : Bool}
    (h : (i.settle succeeded).isLive invoiceID) : i.isLive invoiceID := by
  unfold Intent.settle at h
  split at h
  · next hprocessing =>
    have hid := (of_decide_eq_true h).1
    refine decide_eq_true ⟨hid, ?_⟩
    rw [hprocessing]
    decide
  · exact h

@[simp] theorem collectNext_stripe (configured : Bool) (s : Books) (result : CollectionResult)
    (rest : List UnpaidInvoice) : (collectNext configured s result rest).1.stripe = s.stripe := by
  induction rest generalizing result with
  | nil => rfl
  | cons item rest ih =>
    unfold collectNext
    split
    · rfl
    split
    · rfl
    split
    · exact ih _
    · rfl

@[simp] theorem fail_stripe (c : Charge) (s : Books) (error : ChargeError) :
    (c.fail s error).1.stripe = s.stripe := by
  unfold Charge.fail
  split <;> rfl

/-- `CreatePaymentIntent` leaves Stripe as it is or sends one request. -/
theorem post_stripe (c : Charge) (s : Books) (pm : String) (reply : Reply) (status : IntentStatus) :
    (c.post s pm reply status).1.stripe = s.stripe ∨
      (c.post s pm reply status).1.stripe = (s.stripe.post s.now
        (intentRequest c.invoice c.stripeCustomerID pm) (idempotencyKey c.invoice pm) status).1 := by
  unfold Charge.post
  split
  · exact .inl (fail_stripe _ _ _)
  cases reply with
  | answered =>
    dsimp only
    split
    · exact .inr rfl
    · exact .inr (fail_stripe _ _ _)
  | lost message => exact .inr (fail_stripe _ _ _)
  | failed message => exact .inl (fail_stripe _ _ _)

theorem single_send {configured : Bool} {m : ChargeCall} {reply : Reply} {status : IntentStatus}
    (hs : Single invoiceID s.stripe) (hkey : Rekeyed invoiceID s (some m) (.send reply status)) :
    Single invoiceID (m.send configured s reply status).1.stripe := by
  cases m with
  | posting c pm =>
    rcases post_stripe c s pm reply status with h | h
    · rw [ChargeCall.send, h]
      exact hs
    · rw [ChargeCall.send, h]
      exact single_post hs hkey
  | recording charge run paid =>
    have hsend : (reply.send s (recordCharge s charge)).1.stripe = s.stripe := by cases reply <;> rfl
    unfold ChargeCall.send
    dsimp only
    split
    · rw [hsend]
      exact hs
    · rw [collectNext_stripe, hsend]
      exact hs
  | marking inv intent run =>
    have hsend : (reply.send s (markInvoicePaid s inv.invoiceID inv.customerID)).1.stripe
        = s.stripe := by cases reply <;> rfl
    unfold ChargeCall.send
    dsimp only
    split
    · rw [hsend]
      exact hs
    · split
      · rw [collectNext_stripe, hsend]
        exact hs
      · rw [collectNext_stripe, hsend]
        exact hs
  | readingCards c =>
    simp only [ChargeCall.send]
    split
    · split
      · exact hs
      · rw [fail_stripe]
        exact hs
    · rw [fail_stripe]
      exact hs
    · rw [fail_stripe]
      exact hs
  | _ =>
    -- The other requests only read.
    suffices h : (ChargeCall.send configured s reply status _).1.stripe = s.stripe by
      rw [h]
      exact hs
    simp only [ChargeCall.send]
    split <;> simp

theorem single_chargeNext {configured : Bool} {call : Option ChargeCall} {action : ChargeAction}
    {r : Books × Option ChargeCall} (hs : Single invoiceID s.stripe)
    (hkey : Rekeyed invoiceID s call action)
    (hstep : chargeNext configured s call action = some r) : Single invoiceID r.1.stripe := by
  unfold chargeNext at hstep
  split at hstep
  · cases hstep
    exact hs
  · cases hstep
    exact hs
  · cases hstep
    exact single_send hs hkey
  · cases hstep
    exact hs
  · next n succeeded =>
    cases hstep
    refine single_modify hs (fun _ => isLive_settle) fun i => ?_
    unfold Intent.settle
    split <;> exact ⟨rfl, rfl, rfl⟩
  · cases hstep
    exact single_modify hs (fun _ h => h) fun _ => ⟨rfl, rfl, rfl⟩
  · cases hstep
    exact ⟨hs.live, hs.keyed⟩
  · split at hstep
    · cases hstep
      exact hs
    · cases hstep
  · cases hstep

/-! ## Runs -/

/--
**No invoice is paid twice** in a run in which every request for a payment comes while each payment
for the invoice that may take the money was asked for with the same card, less than 24 hours ago.
-/
theorem run_paidOnce {configured : Bool} {s : Books} {invoiceID : String}
    {es : List (Nat × ChargeAction)} {t : System Books ChargeCall}
    (hnone : ∀ i ∈ s.stripe.intents, i.request.invoiceID ≠ invoiceID)
    (hrun : Machine.run (step (chargeNext configured)) (.idle s) es = some t)
    (hkey : Machine.Guarded (step (chargeNext configured))
      (fun t e => Rekeyed invoiceID t.shared (t.threads e.1) e.2) (.idle s) es) :
    payments t.shared invoiceID ≤ 1 := by
  have hsingle : Single invoiceID s.stripe := by
    refine ⟨?_, fun i hi hid => absurd hid (hnone i hi)⟩
    have hzero : s.stripe.intents.countP (Intent.isLive invoiceID) = 0 := by
      rw [List.countP_eq_zero]
      intro i hi hlive
      exact hnone i hi (of_decide_eq_true hlive).1
    omega
  have hkept : Single invoiceID t.shared.stripe := by
    refine Machine.run_guarded_invariant (P := fun t => Single invoiceID t.shared.stripe)
      (fun h hG hstep => ?_) hsingle hkey hrun
    obtain ⟨s', call', hnext, rfl⟩ := step_eq_some.mp hstep
    exact single_chargeNext h hG hnext
  exact payments_le_one hkept

/-! ### One invoice -/

def openInvoice : Invoice :=
  let day := date 2025 2 15 (by decide)
  ⟨"invoice", "sub", "customer", 4900, "ZAR", .unpaid, day.addDate 0 0 14, [],
    date 2025 1 15 (by decide), day, day, []⟩

def cardA : Wallet := ⟨"cardA", ["cardA"]⟩
def cardB : Wallet := ⟨"cardB", ["cardA", "cardB"]⟩

def oneInvoice : Books :=
  ⟨date 2025 2 16 (by decide), [openInvoice], fun _ => some "cus", [], ⟨[], [], fun _ => cardA⟩, []⟩

/-- The next requests of a call. -/
def sends (thread count : Nat) : List (Nat × ChargeAction) :=
  List.replicate count (thread, .send .answered .succeeded)

/-- The payment succeeds and the invoice cannot be marked paid. -/
def unmarked : List (Nat × ChargeAction) :=
  (0, .collect 10) :: sends 0 5 ++ [(0, .send (.failed "connection reset") .succeeded)]

/-- The next run asks for the payment with the same card, and Stripe answers as before. -/
theorem run_paidOnce_retried :
    ∃ t, Machine.run (step (chargeNext true)) (.idle oneInvoice)
        (unmarked ++ (0, .collect 10) :: sends 0 6) = some t ∧
      t.shared.invoices.map Invoice.status = [.paid] ∧ payments t.shared "invoice" ≤ 1 := by
  have hstatus : (Machine.run (step (chargeNext true)) (.idle oneInvoice)
      (unmarked ++ (0, .collect 10) :: sends 0 6)).map
        (fun t => t.shared.invoices.map Invoice.status) = some [.paid] := by
    decide +kernel
  obtain ⟨t, hrun, hstatus⟩ := Option.map_eq_some_iff.mp hstatus
  refine ⟨t, hrun, hstatus, run_paidOnce ?_ hrun ?_⟩
  · exact fun i hi => absurd hi List.not_mem_nil
  · decide +kernel

/-- The customer changes the card before the search finds the payment. -/
def cardChanged : List (Nat × ChargeAction) :=
  unmarked ++ [(0, .changeWallet "cus" cardB), (0, .collect 10)] ++ sends 0 6

/-- The customer changes the card while the payment is in progress, and it succeeds later. -/
def succeedsLate : List (Nat × ChargeAction) :=
  (0, .collect 10) :: sends 0 3 ++ [(0, .send .answered .processing), (0, .send .answered .succeeded),
    (0, .changeWallet "cus" cardB), (0, .collect 10)] ++ sends 0 6 ++ [(0, .settle 0 true)]

/-- The payment is in progress for a day, after which Stripe has forgotten the key. -/
def keyExpired : List (Nat × ChargeAction) :=
  (0, .collect 10) :: sends 0 3 ++ [(0, .send .answered .processing), (0, .send .answered .succeeded),
    (0, .tick (date 2025 2 17 (by decide))), (0, .collect 10)] ++ sends 0 6 ++ [(0, .settle 0 true)]

theorem paidTwice : [cardChanged, succeedsLate, keyExpired].Forall fun es =>
    ∃ t, Machine.run (step (chargeNext true)) (.idle oneInvoice) es = some t ∧
      ¬ payments t.shared "invoice" ≤ 1 := by
  have hall : ∀ es ∈ [cardChanged, succeedsLate, keyExpired],
      (Machine.run (step (chargeNext true)) (.idle oneInvoice) es).map
        (fun t => payments t.shared "invoice") = some 2 := by
    decide +kernel
  refine List.forall_iff_forall_mem.mpr fun es hes => ?_
  obtain ⟨t, hrun, hpayments⟩ := Option.map_eq_some_iff.mp (hall es hes)
  refine ⟨t, hrun, ?_⟩
  rw [hpayments]
  decide

end OpenFireblocks.Billing
