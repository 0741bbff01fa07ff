import Mathlib.Data.List.Chain
import OpenFireblocks.Billing.Invoices

/-!
# Billing periods

The periods for which a subscription is invoiced should tile the time from its start on. A billing
run reads the list of due subscriptions once, `GenerateInvoice` reads the subscription again, and the
advance to the next period overwrites whatever the row says by then.

`boundary n` is where period `n` starts. The invoices are for the periods below some `n`, in order, and
the subscription and every copy of it that a run holds are in one of the periods up to `n`.
-/

namespace OpenFireblocks.Billing

open Go Threads

/-! ## The periods of a subscription -/

def invoicesOf (s : Store) (id : String) : List Invoice :=
  s.invoices.filter fun inv => inv.subscriptionID = id

structure Tiles (cycle : BillingCycle) (invoices : List Invoice) : Prop where
  once : invoices.Pairwise fun a b => a.periodStart ≠ b.periodStart
  ended : ∀ inv ∈ invoices, inv.periodEnd ≤ inv.createdAt
  length : ∀ inv ∈ invoices, inv.periodEnd = nextPeriodEnd inv.periodStart cycle
  contiguous : invoices.IsChain fun a b => a.periodEnd = b.periodStart

instance (cycle : BillingCycle) (invoices : List Invoice) : Decidable (Tiles cycle invoices) :=
  decidable_of_iff
    (invoices.Pairwise (fun a b => a.periodStart ≠ b.periodStart) ∧
      (∀ inv ∈ invoices, inv.periodEnd ≤ inv.createdAt) ∧
      (∀ inv ∈ invoices, inv.periodEnd = nextPeriodEnd inv.periodStart cycle) ∧
      invoices.IsChain fun a b => a.periodEnd = b.periodStart)
    ⟨fun h => ⟨h.1, h.2.1, h.2.2.1, h.2.2.2⟩, fun h => ⟨h.once, h.ended, h.length, h.contiguous⟩⟩

/-- An operator's `GenerateInvoice` reads a period that has ended, and that of a run the period that
is in the run's list. -/
def Punctual (id : String) (s : Store) : Option Call → Action → Prop
  | some (.reading g), .statement _ _ => g.subscriptionID = id →
      ∀ sub ∈ s.subscriptions, sub.subscriptionID = id →
        (g.run = none → sub.currentPeriodEnd ≤ s.now) ∧
        ∀ run ∈ g.run, sub.currentPeriodStart = run.subscription.currentPeriodStart
  | _, _ => True

instance (id : String) (s : Store) (call : Option Call) (action : Action) :
    Decidable (Punctual id s call action) := by
  unfold Punctual
  split <;> infer_instance

/-- Where period `n` starts. -/
def boundary (start : Time) (cycle : BillingCycle) : Nat → Time
  | 0 => start
  | n + 1 => nextPeriodEnd (boundary start cycle n) cycle

theorem lt_nextPeriodEnd (t : Time) (cycle : BillingCycle) : t < nextPeriodEnd t cycle := by
  cases cycle with
  | monthly | yearly => exact lt_addDate (by decide)

theorem boundary_strictMono (start : Time) (cycle : BillingCycle) :
    StrictMono (boundary start cycle) :=
  strictMono_nat_of_lt_succ fun n => lt_nextPeriodEnd (boundary start cycle n) cycle

/-- The first and the last instant of period `n`. -/
def tile (start : Time) (cycle : BillingCycle) (n : Nat) : Time × Time :=
  (boundary start cycle n, boundary start cycle (n + 1))

def Invoice.period (inv : Invoice) : Time × Time := (inv.periodStart, inv.periodEnd)

def Subscription.period (sub : Subscription) : Time × Time :=
  (sub.currentPeriodStart, sub.currentPeriodEnd)

variable {start : Time} {cycle : BillingCycle}

theorem eq_of_tile_fst {j k : Nat} (h : (tile start cycle j).1 = (tile start cycle k).1) : j = k :=
  (boundary_strictMono start cycle).injective h

variable {inv : Invoice}

/-- The invoice at place `k` is for period `k`. -/
theorem period_of_getElem? {invoices : List Invoice}
    (hperiods : invoices.map Invoice.period = (List.range invoices.length).map (tile start cycle))
    {k : Nat} (hk : invoices[k]? = some inv) : inv.period = tile start cycle k := by
  have hperiod : (invoices.map Invoice.period)[k]? = some inv.period := by
    rw [List.getElem?_map, hk]
    rfl
  obtain ⟨hlt, -⟩ := List.getElem?_eq_some_iff.mp hk
  rw [hperiods, List.getElem?_map, List.getElem?_range hlt] at hperiod
  exact (Option.some.inj hperiod).symm

/-- Invoices for the periods below `n`, in order, tile time. -/
theorem tiles_of_map_period {invoices : List Invoice}
    (hperiods : invoices.map Invoice.period = (List.range invoices.length).map (tile start cycle))
    (hended : ∀ inv ∈ invoices, inv.periodEnd ≤ inv.createdAt) : Tiles cycle invoices := by
  have hget : ∀ k inv, invoices[k]? = some inv → inv.period = tile start cycle k :=
    fun _ _ hk => period_of_getElem? hperiods hk
  refine ⟨?_, hended, ?_, ?_⟩
  · rw [List.pairwise_iff_getElem]
    intro i j hi hj hij heq
    have hfirst := hget i _ (List.getElem?_eq_getElem hi)
    have hsecond := hget j _ (List.getElem?_eq_getElem hj)
    have hstart : (tile start cycle i).1 = (tile start cycle j).1 := by
      rw [← hfirst, ← hsecond]
      exact heq
    exact absurd (eq_of_tile_fst hstart) (Nat.ne_of_lt hij)
  · intro inv hinv
    obtain ⟨k, hk⟩ := List.mem_iff_getElem?.mp hinv
    obtain ⟨hfirst, hlast⟩ := Prod.mk.inj (hget k inv hk)
    rw [hfirst, hlast]
    rfl
  · rw [List.isChain_iff_getElem]
    intro k hk
    obtain ⟨-, hlast⟩ := Prod.mk.inj (hget k _ (List.getElem?_eq_getElem (Nat.lt_of_succ_lt hk)))
    obtain ⟨hfirst, -⟩ := Prod.mk.inj (hget (k + 1) _ (List.getElem?_eq_getElem hk))
    rw [hlast, hfirst]

/-! ## The invariant -/

section

variable (id : String) (start : Time) (plan : Plan) (s : Store)

/-- The row, or a copy of it, is in one of the periods up to the first that has no invoice. -/
def Placed (sub : Subscription) : Prop :=
  sub.subscriptionID = id → sub.planID = plan.planID ∧
    ∃ j, j ≤ (invoicesOf s id).length ∧ sub.period = tile start plan.billingCycle j

structure Tiled : Prop where
  plans : getPlan s plan.planID = .ok plan
  periods : (invoicesOf s id).map Invoice.period =
    (List.range (invoicesOf s id).length).map (tile start plan.billingCycle)
  ended : ∀ inv ∈ invoicesOf s id, inv.periodEnd ≤ inv.createdAt
  rows : ∀ sub ∈ s.subscriptions, Placed id start plan s sub

structure Grows (t : Store) : Prop where
  now : s.now ≤ t.now
  invoices : (invoicesOf s id).length ≤ (invoicesOf t id).length

def Listed (now : Time) (sub : Subscription) : Prop :=
  Placed id start plan s sub ∧ (sub.subscriptionID = id → sub.currentPeriodEnd ≤ now)

structure Run.Knows (run : Run) : Prop where
  now : run.now ≤ s.now
  subscription : Listed id start plan s run.now run.subscription
  priced : run.subscription.subscriptionID = id → run.plan = plan
  rest : ∀ sub ∈ run.rest, Listed id start plan s run.now sub

structure Generate.Knows (g : Generate) : Prop where
  run : ∀ run, g.run = some run → run.Knows id start plan s
  same : ∀ run, g.run = some run → run.subscription.subscriptionID = g.subscriptionID

/-- The call is about period `j`. -/
def Generate.About (g : Generate) (j : Nat) : Prop :=
  j ≤ (invoicesOf s id).length ∧
    ∀ run, g.run = some run → run.subscription.currentPeriodStart = boundary start plan.billingCycle j

/-- The subscription that `GenerateInvoice` has read. -/
def Generate.Read (g : Generate) (sub : Subscription) : Prop :=
  g.subscriptionID = id → ∃ j, g.About id start plan s j ∧
    sub.period = tile start plan.billingCycle j ∧ sub.currentPeriodEnd ≤ s.now

def Call.Knows : Call → Prop
  | .listing now => now ≤ s.now
  | .planning now sub rest _ => now ≤ s.now ∧ ∀ x ∈ sub :: rest, Listed id start plan s now x
  | .reading g => g.Knows id start plan s
  | .pricing g sub => g.Knows id start plan s ∧ g.Read id start plan s sub
  | .looking g sub _ => g.Knows id start plan s ∧ g.Read id start plan s sub
  | .counting g sub _ => g.Knows id start plan s ∧ g.Read id start plan s sub
  | .inserting g inv => g.Knows id start plan s ∧ inv.subscriptionID = g.subscriptionID ∧
      (g.subscriptionID = id → ∃ j, g.About id start plan s j ∧
        inv.period = tile start plan.billingCycle j ∧ inv.periodEnd ≤ inv.createdAt)
  | .losing g periodStart => g.Knows id start plan s ∧ (g.subscriptionID = id →
      ∃ j, g.About id start plan s j ∧ periodStart = boundary start plan.billingCycle j)
  | .advancing run _ => run.Knows id start plan s ∧ (run.subscription.subscriptionID = id →
      ∃ j, j < (invoicesOf s id).length ∧
        run.subscription.period = tile start plan.billingCycle j)

variable {id} in
theorem Grows.refl : Grows id s s := ⟨le_refl _, Nat.le_refl _⟩

end

section

variable {id : String} {start : Time} {plan : Plan} {s t : Store} {sub : Subscription}

theorem Placed.grow (h : Grows id s t) (hs : Placed id start plan s sub) :
    Placed id start plan t sub := by
  intro hid
  obtain ⟨hplan, j, hj, hperiod⟩ := hs hid
  exact ⟨hplan, j, Nat.le_trans hj h.invoices, hperiod⟩

variable {now : Time} {run : Run} {j : Nat} {m : Call}

theorem Listed.grow (h : Grows id s t) (hs : Listed id start plan s now sub) :
    Listed id start plan t now sub :=
  ⟨hs.1.grow h, hs.2⟩

theorem Run.Knows.grow (h : Grows id s t) (hs : run.Knows id start plan s) :
    run.Knows id start plan t where
  now := le_trans hs.now h.now
  subscription := hs.subscription.grow h
  priced := hs.priced
  rest := fun sub hsub => (hs.rest sub hsub).grow h

variable {g : Generate}

theorem Generate.Knows.grow (h : Grows id s t) (hs : g.Knows id start plan s) :
    g.Knows id start plan t :=
  ⟨fun run hrun => (hs.run run hrun).grow h, hs.same⟩

theorem Generate.About.grow (h : Grows id s t) (hs : g.About id start plan s j) :
    g.About id start plan t j :=
  ⟨Nat.le_trans hs.1 h.invoices, hs.2⟩

theorem Generate.Read.grow (h : Grows id s t) (hs : g.Read id start plan s sub) :
    g.Read id start plan t sub := by
  intro hid
  obtain ⟨j, habout, hperiod, hended⟩ := hs hid
  exact ⟨j, habout.grow h, hperiod, le_trans hended h.now⟩

theorem Call.Knows.grow (h : Grows id s t) (hs : m.Knows id start plan s) :
    m.Knows id start plan t := by
  cases m with
  | listing now => exact le_trans hs h.now
  | planning now sub rest result =>
    exact ⟨le_trans hs.1 h.now, fun x hx => (hs.2 x hx).grow h⟩
  | reading g => exact Generate.Knows.grow h hs
  | pricing | looking | counting => exact ⟨hs.1.grow h, hs.2.grow h⟩
  | inserting =>
    obtain ⟨hg, hsame, hinv⟩ := hs
    refine ⟨hg.grow h, hsame, fun hid => ?_⟩
    obtain ⟨j, habout, hrest⟩ := hinv hid
    exact ⟨j, habout.grow h, hrest⟩
  | losing =>
    obtain ⟨hg, hstart⟩ := hs
    refine ⟨hg.grow h, fun hid => ?_⟩
    obtain ⟨j, habout, hrest⟩ := hstart hid
    exact ⟨j, habout.grow h, hrest⟩
  | advancing =>
    obtain ⟨hrun, hplaced⟩ := hs
    refine ⟨hrun.grow h, fun hid => ?_⟩
    obtain ⟨j, hj, hperiod⟩ := hplaced hid
    exact ⟨j, Nat.lt_of_lt_of_le hj h.invoices, hperiod⟩

/-! ## One step -/

variable (id start plan) in
structure Keeps (s : Store) (r : Store × Option Call) : Prop where
  tiled : Tiled id start plan r.1
  grows : Grows id s r.1
  own : ∀ m, r.2 = some m → m.Knows id start plan r.1

theorem Keeps.goOn (ht : Tiled id start plan t) (hgrows : Grows id s t)
    (hm : m.Knows id start plan t) : Keeps id start plan s (t, some m) := by
  refine ⟨ht, hgrows, ?_⟩
  rintro m ⟨⟩
  exact hm

theorem Keeps.ended (ht : Tiled id start plan t) (hgrows : Grows id s t) :
    Keeps id start plan s (t, none) := by
  refine ⟨ht, hgrows, ?_⟩
  rintro m ⟨⟩

theorem Keeps.of_eq (hs : Tiled id start plan s) (hnow : s.now ≤ t.now) (hplans : t.plans = s.plans)
    (hsubs : t.subscriptions = s.subscriptions) (hinvs : t.invoices = s.invoices) :
    Keeps id start plan s (t, none) := by
  obtain ⟨now, plans, subscriptions, invoices, requests, keys, runs⟩ := t
  subst hplans hsubs hinvs
  exact .ended ⟨hs.plans, hs.periods, hs.ended, hs.rows⟩ ⟨hnow, Nat.le_refl _⟩

theorem keeps_proceed {result : BillingRunResult} {rest : List Subscription}
    (ht : Tiled id start plan t) (hgrows : Grows id s t) (hnow : now ≤ t.now)
    (hrest : ∀ sub ∈ rest, Listed id start plan t now sub) :
    Keeps id start plan s (proceed t now result rest) := by
  cases rest with
  | nil =>
    exact .ended ⟨ht.plans, ht.periods, ht.ended, ht.rows⟩ ⟨hgrows.now, hgrows.invoices⟩
  | cons => exact .goOn ht hgrows ⟨hnow, hrest⟩

theorem keeps_fail {error : String} (ht : Tiled id start plan t) (hgrows : Grows id s t)
    (hg : g.Knows id start plan t) : Keeps id start plan s (g.fail t error) := by
  unfold Generate.fail
  split
  · exact .ended ht hgrows
  · next run hrun =>
    have hknows := hg.run run hrun
    exact keeps_proceed ht hgrows hknows.now hknows.rest

/-- `GenerateInvoice` returns when there is an invoice for the period. -/
theorem knows_done (hg : g.Knows id start plan s)
    (hraised : g.subscriptionID = id → ∃ j, j < (invoicesOf s id).length ∧ g.About id start plan s j)
    (hm : g.done inv = some m) : m.Knows id start plan s := by
  obtain ⟨run, hrun, rfl⟩ := Option.map_eq_some_iff.mp hm
  have hknows := hg.run run hrun
  refine ⟨hknows, fun hid => ?_⟩
  obtain ⟨j, hj, habout⟩ := hraised ((hg.same run hrun).symm.trans hid)
  obtain ⟨-, i, -, hperiod⟩ := hknows.subscription.1 hid
  have hstart : boundary start plan.billingCycle i = boundary start plan.billingCycle j := by
    rw [← habout.2 run hrun]
    exact (congrArg Prod.fst hperiod).symm
  obtain rfl : i = j := (boundary_strictMono start plan.billingCycle).injective hstart
  exact ⟨i, hj, hperiod⟩

/-- An invoice that was found for period `j`. -/
theorem lt_of_getInvoiceForPeriod (hs : Tiled id start plan s)
    (hfound : getInvoiceForPeriod s id (boundary start plan.billingCycle j) = some inv) :
    j < (invoicesOf s id).length := by
  have hmem : inv ∈ invoicesOf s id := by
    rw [invoicesOf, List.mem_filter]
    have hprop := List.find?_some hfound
    rw [decide_eq_true_eq] at hprop
    exact ⟨List.mem_of_find?_eq_some hfound, decide_eq_true hprop.1⟩
  have hstart : inv.periodStart = boundary start plan.billingCycle j := by
    have hprop := List.find?_some hfound
    rw [decide_eq_true_eq] at hprop
    exact hprop.2
  have hperiod : inv.period ∈ (List.range (invoicesOf s id).length).map
      (tile start plan.billingCycle) := by
    rw [← hs.periods]
    exact List.mem_map_of_mem hmem
  obtain ⟨k, hk, hkj⟩ := List.mem_map.mp hperiod
  have hsame : boundary start plan.billingCycle k = boundary start plan.billingCycle j := by
    rw [← hstart]
    exact congrArg Prod.fst hkj
  obtain rfl : k = j := (boundary_strictMono start plan.billingCycle).injective hsame
  exact List.mem_range.mp hk

theorem getInvoiceForPeriod_isSome (hs : Tiled id start plan s)
    (hj : j < (invoicesOf s id).length) :
    (getInvoiceForPeriod s id (boundary start plan.billingCycle j)).isSome := by
  have hperiod : tile start plan.billingCycle j ∈ (invoicesOf s id).map Invoice.period := by
    rw [hs.periods]
    exact List.mem_map_of_mem (List.mem_range.mpr hj)
  obtain ⟨inv, hinv, hperiod⟩ := List.mem_map.mp hperiod
  rw [invoicesOf, List.mem_filter] at hinv
  rw [getInvoiceForPeriod, List.find?_isSome]
  refine ⟨inv, hinv.1, decide_eq_true ⟨of_decide_eq_true hinv.2, ?_⟩⟩
  exact congrArg Prod.fst hperiod

theorem invoicesOf_append_self (h : inv.subscriptionID = id) :
    invoicesOf { s with invoices := s.invoices ++ [inv] } id = invoicesOf s id ++ [inv] := by
  simp [invoicesOf, h]

theorem keeps_createInvoice (hs : Tiled id start plan s)
    (hinv : inv.subscriptionID = id → ∃ j, g.About id start plan s j ∧
      inv.period = tile start plan.billingCycle j ∧ inv.periodEnd ≤ inv.createdAt)
    (h : createInvoice s inv = .ok (t, ())) :
    Tiled id start plan t ∧ Grows id s t ∧ (inv.subscriptionID = id →
      ∃ j, g.About id start plan s j ∧ j < (invoicesOf t id).length) := by
  unfold createInvoice at h
  split at h
  · cases h
  next hnone =>
  cases h
  by_cases hid : inv.subscriptionID = id
  · obtain ⟨j, habout, hperiod, hended⟩ := hinv hid
    have hstart : inv.periodStart = boundary start plan.billingCycle j := congrArg Prod.fst hperiod
    obtain rfl : j = (invoicesOf s id).length := by
      by_contra hne
      rw [hid, hstart] at hnone
      exact hnone (getInvoiceForPeriod_isSome hs (Nat.lt_of_le_of_ne habout.1 hne))
    have hlength : (invoicesOf { s with invoices := s.invoices ++ [inv] } id).length =
        (invoicesOf s id).length + 1 := by
      rw [invoicesOf_append_self hid, List.length_append, List.length_singleton]
    have hgrows : Grows id s { s with invoices := s.invoices ++ [inv] } :=
      ⟨le_refl _, by omega⟩
    refine ⟨⟨hs.plans, ?_, ?_, fun sub hsub => (hs.rows sub hsub).grow hgrows⟩, hgrows,
      fun _ => ⟨_, habout, by omega⟩⟩
    · rw [hlength, invoicesOf_append_self hid, List.map_append, hs.periods, List.range_succ,
        List.map_append, List.map_singleton, List.map_singleton, hperiod]
    · intro x hx
      rw [invoicesOf_append_self hid, List.mem_append, List.mem_singleton] at hx
      rcases hx with hx | rfl
      · exact hs.ended x hx
      · exact hended
  · have hsame : invoicesOf { s with invoices := s.invoices ++ [inv] } id = invoicesOf s id := by
      simp [invoicesOf, hid]
    have hgrows : Grows id s { s with invoices := s.invoices ++ [inv] } :=
      ⟨le_refl _, by rw [hsame]⟩
    refine ⟨⟨hs.plans, ?_, ?_, fun sub hsub => (hs.rows sub hsub).grow hgrows⟩, hgrows,
      fun h => absurd h hid⟩
    · rw [hsame]
      exact hs.periods
    · rw [hsame]
      exact hs.ended

theorem keeps_advanceSubscriptionPeriod (hs : Tiled id start plan s)
    (hrun : run.Knows id start plan s)
    (hraised : run.subscription.subscriptionID = id → ∃ j, j < (invoicesOf s id).length ∧
      run.subscription.period = tile start plan.billingCycle j)
    (h : advanceSubscriptionPeriod s run.subscription.subscriptionID run.subscription.customerID
      run.subscription.currentPeriodEnd
      (nextPeriodEnd run.subscription.currentPeriodEnd run.plan.billingCycle) = .ok (t, ())) :
    Tiled id start plan t ∧ Grows id s t := by
  unfold advanceSubscriptionPeriod at h
  split at h
  swap
  · cases h
  cases h
  refine ⟨⟨hs.plans, hs.periods, hs.ended, ?_⟩, le_refl _, Nat.le_refl _⟩
  intro sub hsub
  obtain ⟨old, hold, rfl⟩ := List.mem_map.mp hsub
  have hplaced := hs.rows old hold
  split
  · next his =>
    intro hid
    obtain ⟨hsame, -⟩ := of_decide_eq_true his
    have hid' : run.subscription.subscriptionID = id := hsame.symm.trans hid
    obtain ⟨j, hj, hperiod⟩ := hraised hid'
    obtain ⟨hplan, -⟩ := hplaced hid
    have hlast : run.subscription.currentPeriodEnd = boundary start plan.billingCycle (j + 1) :=
      congrArg Prod.snd hperiod
    refine ⟨hplan, j + 1, hj, ?_⟩
    rw [hrun.priced hid', hlast]
    rfl
  · exact hplaced

variable {reply : Reply}

theorem ask_eq_ok {α : Type} {answer : Except String α} {x : α} (h : ask reply answer = .ok x) :
    answer = .ok x := by
  cases reply with
  | answered => exact h
  | lost message | failed message => cases h

variable {uuid : String}

theorem keeps_planning {rest : List Subscription} {result : BillingRunResult}
    (hs : Tiled id start plan s) (hm : (Call.planning now sub rest result).Knows id start plan s) :
    Keeps id start plan s ((Call.planning now sub rest result).statement s reply uuid) := by
  obtain ⟨hnow, hlisted⟩ := hm
  have hrest : ∀ x ∈ rest, Listed id start plan s now x :=
    fun x hx => hlisted x (List.mem_cons_of_mem sub hx)
  have hsub := hlisted sub List.mem_cons_self
  simp only [Call.statement]
  split
  · next p hp =>
    refine .goOn hs (.refl s) ⟨?_, ?_⟩
    · rintro run ⟨⟩
      refine ⟨hnow, hsub, fun hid => ?_, hrest⟩
      have hplan := ask_eq_ok hp
      rw [(hsub.1 hid).1, hs.plans] at hplan
      exact (Except.ok.inj hplan).symm
    · rintro run ⟨⟩
      rfl
  · exact keeps_proceed hs (.refl s) hnow hrest

theorem mem_of_getSubscription {subscriptionID : String}
    (h : getSubscription s subscriptionID = .ok sub) :
    sub ∈ s.subscriptions ∧ sub.subscriptionID = subscriptionID := by
  unfold getSubscription at h
  split at h
  · next found hfind =>
    cases h
    have hown := List.find?_some hfind
    rw [decide_eq_true_eq] at hown
    exact ⟨List.mem_of_find?_eq_some hfind, hown⟩
  · cases h

/-- A run lists what has ended, so a row that is still in the listed period is in one that has. -/
theorem Generate.Knows.ended (hg : g.Knows id start plan s) (hrun : g.run = some run)
    (hid : g.subscriptionID = id) (hperiod : sub.period = tile start plan.billingCycle j)
    (hsame : sub.currentPeriodStart = run.subscription.currentPeriodStart) :
    sub.currentPeriodEnd ≤ s.now := by
  have hknows := hg.run run hrun
  have hid' := (hg.same run hrun).trans hid
  obtain ⟨-, i, -, hlisted⟩ := hknows.subscription.1 hid'
  have hfirst : (tile start plan.billingCycle j).1 = (tile start plan.billingCycle i).1 := by
    rw [← hperiod, ← hlisted]
    exact hsame
  obtain rfl := eq_of_tile_fst hfirst
  have hend : sub.currentPeriodEnd = run.subscription.currentPeriodEnd :=
    congrArg Prod.snd (hperiod.trans hlisted.symm)
  rw [hend]
  exact le_trans (hknows.subscription.2 hid') hknows.now

section

variable (hs : Tiled id start plan s)
include hs

theorem keeps_reading (hg : g.Knows id start plan s)
    (hpunctual : Punctual id s (some (.reading g)) (.statement reply uuid)) :
    Keeps id start plan s ((Call.reading g).statement s reply uuid) := by
  simp only [Call.statement]
  split
  · next sub hsub =>
    obtain ⟨hmem, hown⟩ := mem_of_getSubscription (ask_eq_ok hsub)
    refine .goOn hs (.refl s) ⟨hg, fun hid => ?_⟩
    obtain ⟨-, j, hj, hperiod⟩ := hs.rows sub hmem (hown.trans hid)
    obtain ⟨hended, hsame⟩ := hpunctual hid sub hmem (hown.trans hid)
    refine ⟨j, ⟨hj, fun run hrun => ?_⟩, hperiod, ?_⟩
    · rw [← hsame run hrun]
      exact congrArg Prod.fst hperiod
    · cases hrun : g.run with
      | none => exact hended hrun
      | some run => exact hg.ended hrun hid hperiod (hsame run hrun)
  · exact keeps_fail hs (.refl s) hg

/-- `GenerateInvoice` has found the invoice of a period. -/
theorem keeps_found {periodStart : Time} (hg : g.Knows id start plan s)
    (hstart : g.subscriptionID = id → ∃ j, g.About id start plan s j ∧
      periodStart = boundary start plan.billingCycle j)
    (hfound : getInvoiceForPeriod s g.subscriptionID periodStart = some inv) :
    Keeps id start plan s (s, g.done inv) := by
  refine ⟨hs, .refl s, fun m hm => knows_done hg (fun hid => ?_) hm⟩
  obtain ⟨j, habout, rfl⟩ := hstart hid
  rw [hid] at hfound
  exact ⟨j, lt_of_getInvoiceForPeriod hs hfound, habout⟩

theorem keeps_looking {p : Plan} (hg : g.Knows id start plan s)
    (hread : g.Read id start plan s sub) :
    Keeps id start plan s ((Call.looking g sub p).statement s reply uuid) := by
  simp only [Call.statement]
  split
  · next inv hinv =>
    refine keeps_found hs hg (fun hid => ?_) (Except.ok.inj (ask_eq_ok hinv))
    obtain ⟨j, habout, hperiod, -⟩ := hread hid
    exact ⟨j, habout, congrArg Prod.fst hperiod⟩
  · exact .goOn hs (.refl s) ⟨hg, hread⟩
  · exact keeps_fail hs (.refl s) hg

theorem keeps_counting {p : Plan} (hg : g.Knows id start plan s)
    (hread : g.Read id start plan s sub) :
    Keeps id start plan s ((Call.counting g sub p).statement s reply uuid) := by
  simp only [Call.statement]
  split
  · next inv hinv =>
    obtain rfl := Except.ok.inj (ask_eq_ok hinv)
    exact .goOn hs (.refl s) ⟨hg, rfl, hread⟩
  · exact keeps_fail hs (.refl s) hg

theorem keeps_inserting (hm : (Call.inserting g inv).Knows id start plan s) :
    Keeps id start plan s ((Call.inserting g inv).statement s reply uuid) := by
  obtain ⟨hg, hsame, hinv⟩ := hm
  have hinv' := fun hid => hinv (hsame.symm.trans hid)
  obtain ⟨ht, hgrows⟩ := reply.send_keeps (P := fun t => Tiled id start plan t ∧ Grows id s t)
    ⟨hs, .refl s⟩ fun t _ hok =>
      let ⟨ht, hgrows, _⟩ := keeps_createInvoice hs hinv' hok
      ⟨ht, hgrows⟩
  simp only [Call.statement]
  split
  · next hsend =>
    obtain ⟨-, -, hraised⟩ := keeps_createInvoice hs hinv' (Reply.eq_ok_of_send hsend)
    refine ⟨ht, hgrows, fun m hm => knows_done (hg.grow hgrows) (fun hid => ?_) hm⟩
    obtain ⟨j, habout, hj⟩ := hraised (hsame.trans hid)
    exact ⟨j, hj, habout.grow hgrows⟩
  · -- Whether or not there is an invoice now, the call can go on with it.
    refine .goOn ht hgrows ⟨hg.grow hgrows, fun hid => ?_⟩
    obtain ⟨j, habout, hperiod, -⟩ := hinv hid
    exact ⟨j, habout.grow hgrows, congrArg Prod.fst hperiod⟩
  · exact keeps_fail ht hgrows (hg.grow hgrows)

theorem keeps_losing {periodStart : Time} (hm : (Call.losing g periodStart).Knows id start plan s) :
    Keeps id start plan s ((Call.losing g periodStart).statement s reply uuid) := by
  obtain ⟨hg, hstart⟩ := hm
  simp only [Call.statement]
  split
  · next inv hinv => exact keeps_found hs hg hstart (Except.ok.inj (ask_eq_ok hinv))
  · exact .ended hs (.refl s)
  · exact keeps_fail hs (.refl s) hg

theorem keeps_advancing (hm : (Call.advancing run inv).Knows id start plan s) :
    Keeps id start plan s ((Call.advancing run inv).statement s reply uuid) := by
  obtain ⟨hrun, hraised⟩ := hm
  obtain ⟨ht, hgrows⟩ := reply.send_keeps
    ⟨hs, .refl s⟩ fun t _ hok => keeps_advanceSubscriptionPeriod hs hrun hraised hok
  have hrun := hrun.grow hgrows
  simp only [Call.statement]
  split <;> exact keeps_proceed ht hgrows hrun.now hrun.rest

theorem keeps_statement (hm : m.Knows id start plan s)
    (hpunctual : Punctual id s (some m) (.statement reply uuid)) :
    Keeps id start plan s (m.statement s reply uuid) := by
  cases m with
  | listing now =>
    simp only [Call.statement]
    split
    · next due hdue =>
      obtain rfl := Except.ok.inj (ask_eq_ok hdue)
      refine keeps_proceed hs (.refl s) hm fun sub hsub => ?_
      rw [subscriptionsDueForBilling, List.mem_mergeSort, List.mem_filter] at hsub
      exact ⟨hs.rows sub hsub.1, fun _ => (of_decide_eq_true hsub.2).2⟩
    · exact .ended hs (.refl s)
  | planning => exact keeps_planning hs hm
  | reading g => exact keeps_reading hs hm hpunctual
  | pricing =>
    simp only [Call.statement]
    split
    · exact .goOn hs (.refl s) hm
    · exact keeps_fail hs (.refl s) hm.1
  | looking => exact keeps_looking hs hm.1 hm.2
  | counting => exact keeps_counting hs hm.1 hm.2
  | inserting => exact keeps_inserting hs hm
  | losing => exact keeps_losing hs hm
  | advancing => exact keeps_advancing hs hm

theorem keeps_next {call : Option Call} {action : Action} {r : Store × Option Call}
    (hcall : ∀ m, call = some m → m.Knows id start plan s)
    (hpunctual : Punctual id s call action) (hstep : next s call action = some r) :
    Keeps id start plan s r := by
  unfold next at hstep
  split at hstep
  · cases hstep
    exact .goOn hs (.refl s) (le_refl s.now)
  · cases hstep
    refine .goOn hs (.refl s) ⟨?_, ?_⟩ <;> rintro run ⟨⟩
  · next m reply uuid =>
    cases hstep
    exact keeps_statement hs (hcall m rfl) hpunctual
  · cases hstep
    exact .ended hs (.refl s)
  · split at hstep
    · cases hstep
    · cases hstep
      exact .of_eq hs (le_refl _) rfl rfl rfl
  · cases hstep
    exact .of_eq hs (le_refl _) rfl rfl rfl
  · cases hstep
    exact .of_eq hs (le_refl _) rfl rfl rfl
  · split at hstep
    · next hnow =>
      cases hstep
      exact .of_eq hs hnow rfl rfl rfl
    · cases hstep
  · cases hstep

end

/-! ## Runs -/

variable (id start plan) in
def outline : Outline Store Call where
  shared := Tiled id start plan
  thread := fun s m => m.Knows id start plan s
  pair := fun _ _ => True
  pair_symm := fun h => h

theorem Keeps.holds {s : System Store Call} {i : Nat} {r : Store × Option Call}
    (hs : (outline id start plan).Holds s) (h : Keeps id start plan s.shared r) :
    (outline id start plan).Holds ⟨r.1, Function.update s.threads i r.2⟩ :=
  hs.step (fun h => h) h.tiled h.own (fun _ _ _ hm => (hs.thread hm).grow h.grows)
    fun _ _ _ _ _ _ => trivial

theorem tiled_of_subscribe {s₀ : Store} {customer : String} {first second : Time}
    (hplan : getPlan s₀ plan.planID = .ok plan)
    (hnew : ∀ sub ∈ s₀.subscriptions, sub.subscriptionID ≠ id) (hnone : invoicesOf s₀ id = [])
    (hsub : subscribe s₀ id customer plan.planID first second = .ok s)
    (hfirst : second.addDate 0 1 0 = nextPeriodEnd first plan.billingCycle) :
    Tiled id first plan s := by
  unfold subscribe at hsub
  rw [hplan] at hsub
  cases hsub
  refine ⟨hplan, ?_, ?_, ?_⟩
  · show (invoicesOf s₀ id).map _ = (List.range (invoicesOf s₀ id).length).map _
    rw [hnone]
    rfl
  · show ∀ inv ∈ invoicesOf s₀ id, _
    rw [hnone]
    exact fun _ h => absurd h List.not_mem_nil
  · intro sub hmem hid
    rcases List.mem_append.mp hmem with hold | hlast
    · exact absurd hid (hnew sub hold)
    obtain rfl := List.mem_singleton.mp hlast
    refine ⟨rfl, 0, Nat.zero_le _, ?_⟩
    show (first, second.addDate 0 1 0) = (first, nextPeriodEnd first plan.billingCycle)
    rw [hfirst]

end

/--
**The invoiced periods tile time**: none is invoiced twice or before it has ended, each starts where
the one before it ends, and each is as long as the plan's cycle, if the first period is, in every
run in which an operator's `GenerateInvoice` reads a period that has ended, and that of a billing run
the period that is in the run's list.
-/
theorem run_tiles {s₀ s : Store} {id customer : String} {plan : Plan} {first second : Time}
    {es : List (Nat × Action)} {t : System Store Call}
    (hplan : getPlan s₀ plan.planID = .ok plan)
    (hnew : ∀ sub ∈ s₀.subscriptions, sub.subscriptionID ≠ id) (hnone : invoicesOf s₀ id = [])
    (hsub : subscribe s₀ id customer plan.planID first second = .ok s)
    (hfirst : second.addDate 0 1 0 = nextPeriodEnd first plan.billingCycle)
    (hrun : Machine.run (step next) (.idle s) es = some t)
    (hpunctual : Machine.Guarded (step next)
      (fun t e => Punctual id t.shared (t.threads e.1) e.2) (.idle s) es) :
    Tiles plan.billingCycle (invoicesOf t.shared id) := by
  have htiled := tiled_of_subscribe hplan hnew hnone hsub hfirst
  have hholds : (outline id first plan).Holds t := by
    refine Machine.run_guarded_invariant (fun h hG hstep => ?_) (Outline.holds_idle htiled)
      hpunctual hrun
    obtain ⟨s', call', hnext, rfl⟩ := step_eq_some.mp hstep
    exact (keeps_next h.shared (fun m hm => h.thread hm) hG hnext).holds h
  exact tiles_of_map_period hholds.shared.periods hholds.shared.ended

/-! ### One subscription -/

def starter (cycle : BillingCycle) : Plan where
  planID := "starter"
  name := "Starter"
  price := 4900
  currency := "ZAR"
  billingCycle := cycle
  signingLimit := 1
  keyLimit := 1
  overageSigningCents := 5
  overageKeyCents := 100

theorem january_fifteenth : 1 ≤ 15 ∧ 15 ≤ daysIn (2025 * 12 + (1 - 1)) := by decide

theorem february_fifteenth : 1 ≤ 15 ∧ 15 ≤ daysIn (2025 * 12 + (2 - 1)) := by decide

def january : Time := date 2025 1 15 january_fifteenth
def february : Time := date 2025 2 15 february_fifteenth
def march : Time := date 2025 3 15 (by decide)

def noSubscription (cycle : BillingCycle) : Store := ⟨january, [starter cycle], [], [], [], [], []⟩

/-- A subscription from 15 January on, for which `Subscribe` gives a month. -/
def subscribed (cycle : BillingCycle) : Store :=
  { noSubscription cycle with
    subscriptions := [⟨"sub", "customer", "starter", .active, january, february⟩] }

theorem getPlan_noSubscription (cycle : BillingCycle) :
    getPlan (noSubscription cycle) (starter cycle).planID = .ok (starter cycle) := rfl

theorem subscribe_noSubscription (cycle : BillingCycle) :
    subscribe (noSubscription cycle) "sub" "customer" "starter" january january =
      .ok (subscribed cycle) := by
  have hmonth : january.addDate 0 1 0 = february := by decide +kernel
  rfl

def statements (thread count : Nat) : List (Nat × Action) :=
  List.replicate count (thread, .statement .answered "invoice")

def billingRun : List (Nat × Action) := (0, .runBilling) :: statements 0 8

theorem run_tiles_twoMonths :
    ∃ t, Machine.run (step next) (.idle (subscribed .monthly))
        ((0, .tick february) :: billingRun ++ (0, .tick march) :: billingRun) = some t ∧
      (invoicesOf t.shared "sub").length = 2 ∧ Tiles .monthly (invoicesOf t.shared "sub") := by
  have hlength : (Machine.run (step next) (.idle (subscribed .monthly))
      ((0, .tick february) :: billingRun ++ (0, .tick march) :: billingRun)).map
        (fun t => (invoicesOf t.shared "sub").length) = some 2 := by
    decide +kernel
  obtain ⟨t, hrun, hlength⟩ := Option.map_eq_some_iff.mp hlength
  refine ⟨t, hrun, hlength, run_tiles (getPlan_noSubscription .monthly) nofun rfl
    (subscribe_noSubscription .monthly) ?_ hrun ?_⟩
  · decide +kernel
  · decide +kernel

/-- The first month of a yearly plan is invoiced on its own. -/
def yearly : List (Nat × Action) := (0, .tick february) :: billingRun

/-- An operator does not wait for the end of the period. -/
def early : List (Nat × Action) := (0, .generateInvoice "sub") :: statements 0 5

/-- Two runs have the subscription in their lists; one is done with it before the other begins. -/
def overlapping : List (Nat × Action) :=
  [(0, .tick february), (0, .runBilling), (1, .runBilling)] ++ statements 0 1 ++ statements 1 8 ++
    statements 0 7

theorem not_tiled :
    [(BillingCycle.yearly, yearly), (.monthly, early), (.monthly, overlapping)].Forall fun x =>
    subscribe (noSubscription x.1) "sub" "customer" "starter" january january =
      .ok (subscribed x.1) ∧
    ∃ t, Machine.run (step next) (.idle (subscribed x.1)) x.2 = some t ∧
      ¬ Tiles x.1 (invoicesOf t.shared "sub") := by
  refine List.forall_iff_forall_mem.mpr fun x hx => ⟨subscribe_noSubscription x.1, ?_⟩
  have hall : ∀ x ∈ [(BillingCycle.yearly, yearly), (.monthly, early), (.monthly, overlapping)],
      (Machine.run (step next) (.idle (subscribed x.1)) x.2).map
        (fun t => decide (Tiles x.1 (invoicesOf t.shared "sub"))) = some false := by
    decide +kernel
  obtain ⟨t, hrun, htiles⟩ := Option.map_eq_some_iff.mp (hall x hx)
  exact ⟨t, hrun, of_decide_eq_false htiles⟩

end OpenFireblocks.Billing
