import OpenFireblocks.Agents.Budget
import OpenFireblocks.Lib.Outcome
import OpenFireblocks.Lib.Sums

/-!
# What is signed for an agent stays within its budget

The budget counts records, not payments. `Sound` ties them together: every payment has a reservation of
its own that still counts, and that is worth what the payment is.

A payment is lost from the budget when anything fails between its signing and its settlement, because
the `catch` releases the reservation whatever has failed; and what a reservation counts is rounded to
cents. `Safe` excludes both; `overspent` shows what they do.
-/

namespace OpenFireblocks.Agents

open Binary64 Threads Outcome

variable (p : Platform)

/-! ## The limits -/

/-- The reservation was made in the 24 hours before `t`. -/
def inWindow (t createdAt : Int) : Bool := t - day < createdAt && createdAt ≤ t

/-- What was signed for reservations made in the 24 hours before `t`. -/
def Store.paidWithin (s : Store) (t : Int) : ℚ :=
  ((s.payments.filter fun pay => (s.spends[pay.spend]?).any fun r => inWindow t r.createdAt).map
    fun pay => (exactZar p.cfg pay.facts).getD 0).sum

structure WithinBudget (s : Store) : Prop where
  daily : ∀ t, s.paidWithin p t ≤ p.terms.dailyLimit / 100
  single : ∀ pay ∈ s.payments, ∃ v, exactZar p.cfg pay.facts = some v ∧
    v ≤ p.terms.perTransferLimit / 100
  /-- Its reservation was made before the agent expired and before it was revoked. -/
  reservation : ∀ pay ∈ s.payments, ∃ r, s.spends[pay.spend]? = some r ∧
    r.createdAt < p.terms.expiresAt ∧ ∀ n, s.revokedAfter = some n → pay.spend < n

/-- The transfer is worth a whole number of cents, and the limit is one a double can hold. -/
def Exact (req : TransferRequest) : Prop :=
  p.terms.dailyLimit ≤ maxLimit ∧ WholeCents p.cfg req.facts

/-- Nothing fails after a signing until the payment is settled, and requests are exact. -/
def Safe : Action → Prop
  | .transfer req => Exact p req
  | .sign (.lost _) => False
  | .broadcast reply => reply = .answered
  | .settle reply => ∀ message, reply ≠ .failed message
  | _ => True

/-! ## Records and payments -/

/-- What a record counts against the window before `t`. -/
def windowWeight (t : Int) (r : Spend) : Int :=
  if r.live && inWindow t r.createdAt then r.valueZar.getD 0 else 0

/-- The record counts exactly what the transfer is worth. -/
def Backs (r : Spend) (facts : TransferFacts) : Prop :=
  ∃ cents : Int, r.valueZar = some cents ∧ exactZar p.cfg facts = some ((cents : ℚ) / 100) ∧
    0 ≤ cents ∧ cents ≤ p.terms.perTransferLimit

structure Sound (s : Store) : Prop where
  value_nonneg : ∀ r ∈ s.spends, r.live = true → 0 ≤ r.valueZar.getD 0
  window : ∀ t, (s.spends.map (windowWeight t)).sum ≤ p.terms.dailyLimit
  backed : ∀ pay ∈ s.payments, ∃ r, s.spends[pay.spend]? = some r ∧ r.live = true ∧
    Backs p r pay.facts
  once : (s.payments.map Payment.spend).Nodup
  unexpired : ∀ r ∈ s.spends, r.status ≠ .refused → r.createdAt < p.terms.expiresAt
  revoked : ∀ n, s.revokedAfter = some n → s.status = .revoked ∧
    ∀ (k : Nat) r, s.spends[k]? = some r → r.status ≠ .refused → k < n

variable {p}

theorem windowWeight_nonneg {t : Int} {r : Spend} (h : r.live → 0 ≤ r.valueZar.getD 0) :
    0 ≤ windowWeight t r := by
  unfold windowWeight
  split
  · next hlive => exact h (Bool.and_eq_true_iff.mp hlive).1
  · exact le_rfl

variable {s : Store}

theorem Sound.paidWithin_eq (h : Sound p s) (t : Int) :
    s.paidWithin p t
      = ((s.payments.map Payment.spend).map (Sums.weightAt (windowWeight t) s.spends)).sum / 100 := by
  have hbacked := h.backed
  unfold Store.paidWithin
  generalize s.payments = payments at hbacked ⊢
  induction payments with
  | nil => simp
  | cons pay pays ih =>
    obtain ⟨r, hr, hlive, cents, hvalue, hexact, -⟩ := hbacked pay (by simp)
    have hrest := ih fun q hq => hbacked q (by simp [hq])
    have hweight : Sums.weightAt (windowWeight t) s.spends pay.spend
        = if inWindow t r.createdAt then cents else 0 := by
      simp [Sums.weightAt, hr, windowWeight, hlive, hvalue]
    rw [List.map_cons, List.map_cons, List.sum_cons, hweight]
    by_cases hin : inWindow t r.createdAt
    · rw [List.filter_cons_of_pos (by simp [hr, hin]), List.map_cons, List.sum_cons, hrest, hexact,
        if_pos hin]
      push_cast
      simp only [Option.getD_some]
      ring
    · rw [List.filter_cons_of_neg (by simp [hr, hin]), hrest, if_neg hin]
      simp

/-- **Sound records bound what was signed.** -/
theorem Sound.withinBudget (h : Sound p s) : WithinBudget p s where
  daily := by
    intro t
    have hsum : ((s.payments.map Payment.spend).map
        (Sums.weightAt (windowWeight t) s.spends)).sum ≤ (s.spends.map (windowWeight t)).sum := by
      refine Sums.sum_map_getElem?_le h.once ?_ ?_
      · intro k hk
        obtain ⟨pay, hpay, rfl⟩ := List.mem_map.mp hk
        obtain ⟨r, hr, -⟩ := h.backed pay hpay
        exact (List.getElem?_eq_some_iff.mp hr).1
      · intro r hr
        exact windowWeight_nonneg (h.value_nonneg r hr)
    rw [h.paidWithin_eq t]
    refine div_le_div_of_nonneg_right ?_ (by norm_num)
    exact_mod_cast hsum.trans (h.window t)
  single := by
    intro pay hpay
    obtain ⟨r, -, -, cents, -, hexact, -, hle⟩ := h.backed pay hpay
    refine ⟨_, hexact, ?_⟩
    exact div_le_div_of_nonneg_right (by exact_mod_cast hle) (by norm_num)
  reservation := by
    intro pay hpay
    obtain ⟨r, hr, hlive, -⟩ := h.backed pay hpay
    have hne : r.status ≠ .refused := by
      intro hrefused
      simp [Spend.live, hrefused] at hlive
    exact ⟨r, hr, h.unexpired r (List.mem_of_getElem? hr) hne,
      fun n hn => (h.revoked n hn).2 pay.spend r hr hne⟩

/-! ## What a reservation finds -/

variable {req : TransferRequest}

variable {s' : Store} {startedAt : Int} {k : Nat} {own : Option Nat} {call' : Option Call}

/-- Everything that a reservation checks, and what it writes. -/
theorem reserve_eq_ok (h : reserve p s req startedAt = .ok (s', k)) :
    s.status = .active ∧ s.now < p.terms.expiresAt ∧ ∃ x, valueInZar p.cfg req.facts = some x ∧
      x ≤ numberOfCents p.terms.perTransferLimit ∧
      nearest (numberOfCents (s.spentSince startedAt) + x) ≤ numberOfCents p.terms.dailyLimit ∧
      k = s.spends.length ∧
      s' = { s with
        spends := s.spends ++ [spendRow p req (some x) .reserved none startedAt] } := by
  simp only [reserve, ite_error_eq_ok] at h
  obtain ⟨hactive, -, -, h⟩ := h
  split at h
  · cases h
  next x hx =>
  rw [ite_error_eq_ok, ite_error_eq_ok] at h
  obtain ⟨hper, hdaily, h⟩ := h
  cases h
  push Not at hactive
  exact ⟨hactive.1, by omega, x, hx, not_lt.mp hper, not_lt.mp hdaily, rfl, rfl⟩

/-- What a record counts for a reservation that began then. -/
def sinceWeight (startedAt : Int) (r : Spend) : Int :=
  if r.live && startedAt - day < r.createdAt then r.valueZar.getD 0 else 0

theorem spentSince_eq (s : Store) (startedAt : Int) :
    s.spentSince startedAt = (s.spends.map (sinceWeight startedAt)).sum := by
  unfold Store.spentSince
  induction s.spends with
  | nil => rfl
  | cons r rs ih =>
    rw [List.filter_cons, List.map_cons, List.sum_cons, ← ih, sinceWeight]
    split
    · rw [List.map_cons, List.sum_cons]
    · rw [zero_add]

/-- A reservation that is in a window has counted everything before it that is. -/
theorem sum_windowWeight_le_spentSince (h : Sound p s) {t : Int}
    (hin : inWindow t startedAt) :
    (s.spends.map (windowWeight t)).sum ≤ s.spentSince startedAt := by
  rw [spentSince_eq]
  refine List.sum_le_sum ?_
  intro r hr
  unfold windowWeight sinceWeight
  unfold inWindow at hin ⊢
  simp only [Bool.and_eq_true, decide_eq_true_eq] at hin ⊢
  by_cases hlive : r.live
  · have := h.value_nonneg r hr hlive
    split
    · next hwin => rw [if_pos ⟨hlive, by omega⟩]
    split
    · exact this
    · exact le_rfl
  · rw [if_neg (by simp [hlive]), if_neg (by simp [hlive])]

theorem spentSince_nonneg (h : Sound p s) (startedAt : Int) : 0 ≤ s.spentSince startedAt := by
  rw [spentSince_eq]
  refine List.sum_nonneg ?_
  intro w hw
  obtain ⟨r, hr, rfl⟩ := List.mem_map.mp hw
  unfold sinceWeight
  split
  · next hlive => exact h.value_nonneg r hr (Bool.and_eq_true_iff.mp hlive).1
  · exact le_rfl

/-- The record that a reservation writes counts what the transfer is worth. -/
theorem backs_spendRow {x : ℚ} (startedAt : Int) (hexact : Exact p req)
    (hx : valueInZar p.cfg req.facts = some x) (hle : x ≤ numberOfCents p.terms.perTransferLimit) :
    ∃ cents : Int, x = numberOfCents cents ∧
      (spendRow p req (some x) .reserved none startedAt).valueZar = some cents ∧
      exactZar p.cfg req.facts = some ((cents : ℚ) / 100) ∧ 0 ≤ cents ∧
      cents ≤ p.terms.perTransferLimit := by
  obtain ⟨hmax, hwhole⟩ := hexact
  have hlim := p.terms.limit_le
  have hpos := p.terms.limit_pos
  obtain ⟨v, hv⟩ := exists_exactZar hx
  obtain ⟨cents, hcents⟩ := hwhole v hv
  obtain ⟨h0, hper, rfl⟩ := valueInZar_le_limit hx hv hcents hpos.le (hlim.trans hmax) hle
  refine ⟨cents, rfl, ?_, by rw [hv, hcents], h0, hper⟩
  exact congrArg some (cents_numberOfCents p.js h0 (by omega))

/-! ## What each statement keeps -/

theorem Sound.append {r : Spend} (h : Sound p s) (hnonneg : r.live → 0 ≤ r.valueZar.getD 0)
    (hwindow : ∀ t, r.live → inWindow t r.createdAt → (s.spends.map (windowWeight t)).sum + r.valueZar.getD 0 ≤ p.terms.dailyLimit)
    (hunexpired : r.status ≠ .refused → r.createdAt < p.terms.expiresAt)
    (hactive : r.status ≠ .refused → s.status = .active) :
    Sound p { s with spends := s.spends ++ [r] } where
  value_nonneg := by
    intro r' hr'
    rcases List.mem_append.mp hr' with hold | hnew
    · exact h.value_nonneg r' hold
    obtain rfl := List.mem_singleton.mp hnew
    exact hnonneg
  window := by
    intro t
    rw [List.map_append, List.sum_append, List.map_singleton, List.sum_singleton]
    by_cases hin : (r.live && inWindow t r.createdAt)
    · rw [windowWeight, if_pos hin]
      exact hwindow t (Bool.and_eq_true_iff.mp hin).1 (Bool.and_eq_true_iff.mp hin).2
    · rw [windowWeight, if_neg hin, add_zero]
      exact h.window t
  backed := by
    intro pay hpay
    obtain ⟨r', hr', hlive, hbacks⟩ := h.backed pay hpay
    exact ⟨r', by rw [List.getElem?_append_left (List.getElem?_eq_some_iff.mp hr').1]; exact hr',
      hlive, hbacks⟩
  once := h.once
  unexpired := by
    intro r' hr'
    rcases List.mem_append.mp hr' with hold | hnew
    · exact h.unexpired r' hold
    obtain rfl := List.mem_singleton.mp hnew
    exact hunexpired
  revoked := by
    intro n hn
    obtain ⟨hrevoked, hlt⟩ := h.revoked n hn
    refine ⟨hrevoked, ?_⟩
    intro k r' hr' hne
    by_cases hk : k < s.spends.length
    · rw [List.getElem?_append_left hk] at hr'
      exact hlt k r' hr' hne
    · -- the new record: an agent that is revoked makes no reservation
      rw [List.getElem?_append_right (Nat.not_lt.mp hk)] at hr'
      obtain rfl : r' = r := by simpa using List.mem_of_getElem? hr'
      rw [hactive hne] at hrevoked
      cases hrevoked

theorem Sound.reserve (h : Sound p s) (hexact : Exact p req) (hstart : startedAt ≤ s.now)
    (hres : Agents.reserve p s req startedAt = .ok (s', k)) : Sound p s' := by
  obtain ⟨hactive, hnow, x, hx, hper, hdaily, -, rfl⟩ := reserve_eq_ok hres
  obtain ⟨cents, rfl, hvalue, -, h0, -⟩ := backs_spendRow startedAt hexact hx hper
  refine h.append ?_ ?_ (fun _ => lt_of_le_of_lt hstart hnow) (fun _ => hactive)
  · intro _
    rw [hvalue]
    exact h0
  · intro t _ hin
    rw [hvalue]
    have hsum := sum_windowWeight_le_spentSince h hin
    have hadd := add_le_of_nearest_le (spentSince_nonneg h startedAt) h0
      (p.terms.limit_pos.le.trans p.terms.limit_le) hexact.1 hdaily
    exact le_trans (Int.add_le_add_right hsum cents) hadd

theorem Sound.refusal {value : Option ℚ} {reason : Option String} {createdAt : Int} (h : Sound p s) :
    Sound p { s with spends := s.spends ++ [spendRow p req value .refused reason createdAt] } :=
  h.append (fun hlive => by simp [Spend.live, spendRow] at hlive)
    (fun _ hlive => by simp [Spend.live, spendRow] at hlive) (fun hne => absurd rfl hne)
    (fun hne => absurd rfl hne)

def Unpaid (s : Store) (k : Nat) : Prop := ∀ pay ∈ s.payments, pay.spend ≠ k

theorem Sound.pay {s : Store} {req : TransferRequest} {r : Spend} (h : Sound p s)
    (hr : s.spends[k]? = some r) (hlive : r.live) (hbacks : Backs p r req.facts)
    (hunpaid : Unpaid s k) : Sound p (s.pay req k) where
  value_nonneg := h.value_nonneg
  window := h.window
  backed := by
    intro pay hpay
    rcases List.mem_append.mp hpay with hold | hnew
    · exact h.backed pay hold
    obtain rfl := List.mem_singleton.mp hnew
    exact ⟨r, hr, hlive, hbacks⟩
  once := by
    rw [Store.pay, List.map_append]
    refine h.once.append (List.nodup_singleton k) ?_
    intro j hj hjk
    obtain rfl := List.mem_singleton.mp hjk
    obtain ⟨pay, hpay, heq⟩ := List.mem_map.mp hj
    exact hunpaid pay hpay heq
  unexpired := h.unexpired
  revoked := h.revoked

/-- A record whose status alone changes. What was paid for has to count on. -/
theorem Sound.set {r r' : Spend} (h : Sound p s) (hr : s.spends[k]? = some r)
    (hvalue : r'.valueZar = r.valueZar) (hcreated : r'.createdAt = r.createdAt)
    (hrefused : r'.status ≠ .refused → r.status ≠ .refused) (hlive : r'.live → r.live)
    (hpaid : Unpaid s k ∨ r'.live) : Sound p { s with spends := s.spends.set k r' } where
  value_nonneg := by
    intro q hq
    rcases List.mem_or_eq_of_mem_set hq with hold | rfl
    · exact h.value_nonneg q hold
    intro hq
    rw [hvalue]
    exact h.value_nonneg r (List.mem_of_getElem? hr) (hlive hq)
  window := by
    intro t
    refine le_trans (Sums.sum_map_set_le hr ?_) (h.window t)
    unfold windowWeight
    rw [hvalue, hcreated]
    by_cases hq : r'.live
    · rw [hq, hlive hq]
    rw [if_neg (by simp [hq])]
    exact windowWeight_nonneg (h.value_nonneg r (List.mem_of_getElem? hr))
  backed := by
    intro pay hpay
    obtain ⟨q, hq, hqlive, hbacks⟩ := h.backed pay hpay
    by_cases hk : pay.spend = k
    · have hlt := (List.getElem?_eq_some_iff.mp hr).1
      obtain rfl : q = r := Option.some.inj (hq.symm.trans (hk ▸ hr))
      refine ⟨r', by rw [hk, List.getElem?_set_self hlt], ?_, ?_⟩
      · exact hpaid.resolve_left fun hunpaid => hunpaid pay hpay hk
      · obtain ⟨cents, hcents, hrest⟩ := hbacks
        exact ⟨cents, hvalue.trans hcents, hrest⟩
    · exact ⟨q, by rw [List.getElem?_set_ne (Ne.symm hk)]; exact hq, hqlive, hbacks⟩
  once := h.once
  unexpired := by
    intro q hq hne
    rcases List.mem_or_eq_of_mem_set hq with hold | rfl
    · exact h.unexpired q hold hne
    rw [hcreated]
    exact h.unexpired r (List.mem_of_getElem? hr) (hrefused hne)
  revoked := by
    intro n hn
    obtain ⟨hrevoked, hlt⟩ := h.revoked n hn
    refine ⟨hrevoked, ?_⟩
    intro j q hq hne
    by_cases hj : j = k
    · subst hj
      have hlen := (List.getElem?_eq_some_iff.mp hr).1
      rw [List.getElem?_set_self hlen] at hq
      cases hq
      exact hlt j r hr (hrefused hne)
    · rw [List.getElem?_set_ne (Ne.symm hj)] at hq
      exact hlt j q hq hne

theorem Sound.revoke (h : Sound p s) : Sound p (Agents.revoke s) := by
  unfold Agents.revoke
  split
  · refine ⟨h.value_nonneg, h.window, h.backed, h.once, h.unexpired, ?_⟩
    intro n hn
    cases hn
    exact ⟨rfl, fun k r hr _ => (List.getElem?_eq_some_iff.mp hr).1⟩
  · exact h

/-! ## What a call knows -/

def Call.spend? : Call → Option Nat
  | .reserved _ k | .signing _ k | .broadcasting k _ | .settling k _ | .releasing k _ => some k
  | _ => none

variable (p) in
/-- What holds while a call is in a phase, whatever the others do. -/
def Call.Knows (s : Store) : Call → Prop
  | .looking req | .beginning req => Exact p req
  | .reserving req startedAt => Exact p req ∧ startedAt ≤ s.now
  | .refusing _ _ => True
  | .reserved req k | .signing req k =>
    ∃ r, s.spends[k]? = some r ∧ r.status = .reserved ∧ Backs p r req.facts ∧ Unpaid s k
  | .broadcasting k _ | .settling k _ => ∃ r, s.spends[k]? = some r ∧ r.status = .reserved
  -- either nothing was signed, or the record says so and the guard keeps it
  | .releasing k _ => ∃ r, s.spends[k]? = some r ∧ (r.status = .spent ∨ Unpaid s k)

variable {call : Call}

/-- A step of another call: it leaves the record of this one alone and signs nothing for it. -/
theorem Call.Knows.mono (h : call.Knows p s) (hnow : s.now ≤ s'.now)
    (hrow : ∀ k r, call.spend? = some k → s.spends[k]? = some r → s'.spends[k]? = some r)
    (hunpaid : ∀ k, call.spend? = some k → Unpaid s k → Unpaid s' k) : call.Knows p s' := by
  cases call with
  | looking req | beginning req => exact h
  | reserving => exact ⟨h.1, h.2.trans hnow⟩
  | refusing => trivial
  | reserved req k | signing req k =>
    obtain ⟨r, hr, hstatus, hbacks, hpaid⟩ := h
    exact ⟨r, hrow k r rfl hr, hstatus, hbacks, hunpaid k rfl hpaid⟩
  | broadcasting k txHash | settling k txHash =>
    obtain ⟨r, hr, hstatus⟩ := h
    exact ⟨r, hrow k r rfl hr, hstatus⟩
  | releasing k message =>
    obtain ⟨r, hr, hstatus⟩ := h
    exact ⟨r, hrow k r rfl hr, hstatus.imp_right (hunpaid k rfl)⟩

variable (p) in
/-- Records are sound, and no two calls have reserved the same one. -/
def outline : Outline Store Call where
  shared := Sound p
  thread := Call.Knows p
  pair m n := ∀ k, m.spend? = some k → n.spend? ≠ some k
  pair_symm := by
    intro m n h k hn hm
    exact h k hm hn

theorem Call.Knows.lt (h : call.Knows p s) (hk : call.spend? = some k) : k < s.spends.length := by
  have hrow : ∃ r, s.spends[k]? = some r := by
    cases call <;> simp only [Call.spend?, reduceCtorEq, Option.some.injEq] at hk <;> subst hk
    all_goals
      obtain ⟨r, hr, -⟩ := h
      exact ⟨r, hr⟩
  obtain ⟨r, hr⟩ := hrow
  exact (List.getElem?_eq_some_iff.mp hr).1

/-! ## One step -/

variable (p) in
/-- A step of a call: it touches its own record at most, and may take the next one. -/
structure Good (s : Store) (own : Option Nat) (s' : Store) (call' : Option Call) : Prop where
  sound : Sound p s'
  now_le : s.now ≤ s'.now
  rows : ∀ k r, own ≠ some k → s.spends[k]? = some r → s'.spends[k]? = some r
  unpaid : ∀ k, own ≠ some k → Unpaid s k → Unpaid s' k
  knows : ∀ m, call' = some m → m.Knows p s'
  spend : ∀ m k, call' = some m → m.spend? = some k → own = some k ∨ k = s.spends.length

theorem Good.quiet (hs : Sound p s)
    (h : ∀ m, call' = some m → m.Knows p s ∧ (m.spend? = none ∨ m.spend? = own)) :
    Good p s own s call' where
  sound := hs
  now_le := le_rfl
  rows := fun _ _ _ hr => hr
  unpaid := fun _ _ h => h
  knows := fun m hm => (h m hm).1
  spend := by
    intro m k hm hk
    rcases (h m hm).2 with hnone | hsame
    · cases hnone.symm.trans hk
    · exact .inl (hsame.symm.trans hk)

theorem Good.ends (hs : Sound p s) : Good p s own s none := .quiet hs nofun

theorem Good.outside (hs' : Sound p s') (hspends : s'.spends = s.spends)
    (hpayments : s'.payments = s.payments) (hnow : s.now ≤ s'.now) : Good p s own s' none where
  sound := hs'
  now_le := hnow
  rows := by
    intro k r _ hr
    rw [hspends]
    exact hr
  unpaid := by
    intro k _ h
    unfold Unpaid
    rw [hpayments]
    exact h
  knows := nofun
  spend := nofun

theorem Good.append {r : Spend} (hs' : Sound p s') (heq : s' = { s with spends := s.spends ++ [r] })
    (h : ∀ m, call' = some m → m.Knows p s' ∧ (m.spend? = none ∨ m.spend? = some s.spends.length)) :
    Good p s own s' call' where
  sound := hs'
  now_le := by rw [heq]
  rows := by
    intro k q _ hq
    rw [heq, List.getElem?_append_left (List.getElem?_eq_some_iff.mp hq).1]
    exact hq
  unpaid := by
    intro k _ h
    rw [heq]
    exact h
  knows := fun m hm => (h m hm).1
  spend := by
    intro m k hm hk
    rcases (h m hm).2 with hnone | hnew
    · cases hnone.symm.trans hk
    · exact .inr (Option.mem_unique hk hnew)

theorem Good.set {r' : Spend} (hs' : Sound p { s with spends := s.spends.set k r' })
    (h : ∀ m, call' = some m → m.Knows p { s with spends := s.spends.set k r' } ∧ m.spend? = some k) :
    Good p s (some k) { s with spends := s.spends.set k r' } call' where
  sound := hs'
  now_le := le_rfl
  rows := by
    intro j q hj hq
    rw [List.getElem?_set_ne (by rintro rfl; exact hj rfl)]
    exact hq
  unpaid := fun _ _ h => h
  knows := fun m hm => (h m hm).1
  spend := fun m j hm hj => .inl ((h m hm).2.symm.trans hj)

theorem knows_reserved (hs : Sound p s) (hexact : Exact p req)
    (hres : Agents.reserve p s req startedAt = .ok (s', k)) : (Call.reserved req k).Knows p s' := by
  obtain ⟨-, -, x, hx, hper, -, rfl, rfl⟩ := reserve_eq_ok hres
  obtain ⟨cents, rfl, hvalue, hbacks⟩ := backs_spendRow startedAt hexact hx hper
  refine ⟨_, List.getElem?_concat_length, rfl, ⟨cents, hvalue, hbacks⟩, ?_⟩
  intro pay hpay hk
  obtain ⟨q, hq, -⟩ := hs.backed pay hpay
  have := (List.getElem?_eq_some_iff.mp hq).1
  omega

variable {reply : Reply} {r : Store × Option Call}

theorem reserve_good (hs : Sound p s) (hcall : call.Knows p s) (h : call.reserve p s reply = some r) :
    Good p s call.spend? r.1 r.2 := by
  cases call with
  | reserving req startedAt =>
    obtain ⟨hexact, hstart⟩ := hcall
    cases h
    -- an error leaves a call that records a refusal, or none
    have herror : ∀ x e m, afterReserving req (.error e) = some m →
        m.Knows p x ∧ m.spend? = none := by
      rintro x (reason | message) m hm <;> cases hm
      exact ⟨trivial, rfl⟩
    rcases reply.send_cases s (Agents.reserve p s req startedAt) with ⟨e, hsend⟩ |
      ⟨s', k, hres, hsend⟩
    · rw [hsend]
      exact .quiet hs fun m hm => (herror s e m hm).imp_right .inl
    obtain ⟨-, -, x, -, -, -, rfl, heq⟩ := reserve_eq_ok hres
    rcases hsend with hsend | ⟨e, hsend⟩ <;> rw [hsend] <;>
      refine .append (hs.reserve hexact hstart hres) heq fun m hm => ?_
    · cases hm
      exact ⟨knows_reserved hs hexact hres, .inr rfl⟩
    · exact (herror s' e m hm).imp_right .inl
  | _ => cases h

/-- Of a statement that ends the call only what is written matters. -/
theorem send_good {x : Approval.Sql (Store × Unit)} (hs : Sound p s)
    (h : ∀ s' u, x = .ok (s', u) → Good p s own s' none) : Good p s own (reply.send s x).1 none :=
  reply.send_keeps (.ends hs) h

theorem refuse_good (hs : Sound p s) (h : call.refuse p s reply = some r) :
    Good p s call.spend? r.1 r.2 := by
  cases call with
  | refusing req reason =>
    cases h
    refine send_good hs fun s' u hins => ?_
    cases hins
    exact .append hs.refusal rfl nofun
  | _ => cases h

theorem sign_good {outcome : Signing} (hs : Sound p s) (hcall : call.Knows p s)
    (hsafe : Safe p (.sign outcome)) (h : call.sign s outcome = some r) :
    Good p s call.spend? r.1 r.2 := by
  cases call with
  | signing req k =>
    obtain ⟨q, hq, hstatus, hbacks, hunpaid⟩ := hcall
    have hafter : ∀ x txHash, x.spends = s.spends → (afterSigning req k txHash).Knows p x ∧
        (afterSigning req k txHash).spend? = some k := by
      intro x txHash hx
      unfold afterSigning
      split <;> exact ⟨⟨q, hx ▸ hq, hstatus⟩, rfl⟩
    cases outcome with
    | signed txHash =>
      cases h
      have hlive : q.live := by simp [Spend.live, hstatus]
      have hs' := hs.pay hq hlive hbacks hunpaid
      refine ⟨hs', le_rfl, fun _ _ _ hr => hr, ?_, ?_, ?_⟩
      · intro j hj hfree pay hpay
        rcases List.mem_append.mp hpay with hold | hnew
        · exact hfree pay hold
        obtain rfl := List.mem_singleton.mp hnew
        rintro rfl
        exact hj rfl
      · intro m hm
        cases hm
        exact (hafter (s.pay req k) txHash rfl).1
      · intro m j hm hj
        cases hm
        exact .inl ((hafter s txHash rfl).2.symm.trans hj)
    | replayed txHash =>
      cases h
      refine .quiet hs fun m hm => ?_
      cases hm
      exact (hafter s txHash rfl).imp_right .inr
    | lost message => exact hsafe.elim
    | failed message =>
      cases h
      refine .quiet hs fun m hm => ?_
      cases hm
      exact ⟨⟨q, hq, .inr hunpaid⟩, .inr rfl⟩
  | _ => cases h

theorem agentSpendGuard_settle {r : Spend} {outcome : SettleOutcome} {u : Unit}
    (h : agentSpendGuard r (outcome.apply r) = .ok u) :
    r.status = .reserved ∨ (outcome.apply r).status = r.status := by
  unfold agentSpendGuard at h
  split at h
  · cases h
  split at h
  · cases h
  next hstatus =>
  by_contra hno
  push Not at hno
  exact hstatus ⟨fun hreserved => hno.1 hreserved.1, hno.2⟩

section

variable (hs : Sound p s)
include hs

theorem settle_good (hcall : call.Knows p s) (hsafe : Safe p (.settle reply))
    (h : call.settle s reply = some r) : Good p s call.spend? r.1 r.2 := by
  cases call with
  | settling k txHash =>
    obtain ⟨q, hq, hstatus⟩ := hcall
    cases h
    have hs' : Sound p { s with spends := s.spends.set k ((SettleOutcome.txHash txHash).apply q) } :=
      hs.set hq rfl rfl (fun _ => by rw [hstatus]; decide)
        (fun _ => by simp [Spend.live, hstatus]) (.inr rfl)
    have hok : Agents.settle s k (.txHash txHash) =
        .ok ({ s with spends := s.spends.set k ((SettleOutcome.txHash txHash).apply q) }, ()) := by
      simp [Agents.settle, hq, agentSpendGuard, SettleOutcome.apply, hstatus]
    rw [hok]
    cases reply with
    | answered => exact .set hs' nofun
    | lost message =>
      refine .set hs' fun m hm => ?_
      cases hm
      have hlt := (List.getElem?_eq_some_iff.mp hq).1
      exact ⟨⟨_, List.getElem?_set_self hlt, .inl rfl⟩, rfl⟩
    | failed message => exact absurd rfl (hsafe message)
  | _ => cases h

theorem release_good (hcall : call.Knows p s) (h : call.release s reply = some r) :
    Good p s call.spend? r.1 r.2 := by
  cases call with
  | releasing k message =>
    obtain ⟨q, hq, hpaid⟩ := hcall
    cases h
    refine send_good hs fun s' u hset => ?_
    unfold Agents.settle at hset
    rw [hq] at hset
    obtain ⟨_, hguard, hset⟩ := Outcome.bind_eq_ok.mp hset
    cases hset
    -- the guard has let it through, so the record did not say that it was spent
    have hstatus := agentSpendGuard_settle hguard
    have hunpaid : Unpaid s k := by
      refine hpaid.resolve_left fun hspent => ?_
      rw [hspent] at hstatus
      rcases hstatus with hstatus | hstatus <;> cases hstatus
    refine .set (hs.set hq rfl rfl ?_ nofun (.inl hunpaid)) nofun
    intro _
    rcases hstatus with hstatus | hstatus
    · rw [hstatus]
      decide
    · rw [← hstatus]
      exact SpendStatus.noConfusion
  | _ => cases h

theorem find_good (hcall : call.Knows p s) (h : call.find s reply = some r) :
    Good p s call.spend? r.1 r.2 := by
  cases call with
  | looking req =>
    cases h
    refine .quiet hs fun m hm => ?_
    repeat' split at hm
    all_goals cases hm
    all_goals exact ⟨hcall, .inl rfl⟩
  | _ => cases h

theorem start_good (hcall : call.Knows p s) (h : call.start s = some r) :
    Good p s call.spend? r.1 r.2 := by
  cases call with
  | beginning req =>
    cases h
    refine .quiet hs fun m hm => ?_
    cases hm
    exact ⟨⟨hcall, le_rfl⟩, .inl rfl⟩
  | _ => cases h

theorem customer_good (hcall : call.Knows p s) (h : call.customer s reply = some r) :
    Good p s call.spend? r.1 r.2 := by
  cases call with
  | reserved =>
    cases h
    refine .quiet hs fun m hm => ?_
    cases reply <;> cases hm
    exact ⟨hcall, .inr rfl⟩
  | _ => cases h

theorem broadcast_good (hcall : call.Knows p s) (hsafe : Safe p (.broadcast reply))
    (h : call.broadcast s reply = some r) : Good p s call.spend? r.1 r.2 := by
  cases call with
  | broadcasting =>
    cases h
    obtain rfl : reply = .answered := hsafe
    refine .quiet hs fun m hm => ?_
    cases hm
    exact ⟨hcall, .inr rfl⟩
  | _ => cases h

/-- **Every safe step keeps the records sound, and what the calls know.** -/
theorem next_good {call : Option Call} {action : Action}
    (hcall : ∀ m, call = some m → m.Knows p s) (hsafe : Safe p action)
    (h : next p s call action = some r) : Good p s (call.bind Call.spend?) r.1 r.2 := by
  cases call with
  | none =>
    cases action with
    | transfer req =>
      cases h
      refine .quiet hs fun m hm => ?_
      cases hm
      split <;> exact ⟨hsafe, .inl rfl⟩
    | revoke =>
      cases h
      have hrows : (Agents.revoke s).spends = s.spends ∧ (Agents.revoke s).payments = s.payments ∧
          (Agents.revoke s).now = s.now := by
        unfold Agents.revoke
        split <;> exact ⟨rfl, rfl, rfl⟩
      exact .outside hs.revoke hrows.1 hrows.2.1 hrows.2.2.ge
    | tick microseconds =>
      cases h
      have hs' : Sound p { s with now := s.now + microseconds } :=
        ⟨hs.value_nonneg, hs.window, hs.backed, hs.once, hs.unexpired, hs.revoked⟩
      exact .outside hs' rfl rfl (by simp)
    | _ => cases h
  | some call =>
    have hcall := hcall call rfl
    cases action with
    | find reply => exact find_good hs hcall h
    | start => exact start_good hs hcall h
    | reserve reply => exact reserve_good hs hcall h
    | refuse reply => exact refuse_good hs h
    | customer reply => exact customer_good hs hcall h
    | sign outcome => exact sign_good hs hcall hsafe h
    | broadcast reply => exact broadcast_good hs hcall hsafe h
    | settle reply => exact settle_good hs hcall hsafe h
    | release reply => exact release_good hs hcall h
    | crash =>
      cases h
      exact .ends hs
    | _ => cases h

end

/-! ## Every run -/

theorem step_holds {s t : System Store Call} {e : Nat × Action} (h : (outline p).Holds s)
    (hsafe : Safe p e.2) (hstep : step (next p) s e = some t) : (outline p).Holds t := by
  obtain ⟨i, action⟩ := e
  obtain ⟨x, l, hnext, rfl⟩ := step_eq_some.mp hstep
  have hgood : Good p s.shared ((s.threads i).bind Call.spend?) x l :=
    next_good h.shared (fun m hm => h.thread hm) hsafe hnext
  -- a record of another call is neither the one of this call nor the next one
  have hother : ∀ j n k, j ≠ i → s.threads j = some n → n.spend? = some k →
      (s.threads i).bind Call.spend? ≠ some k := by
    intro j n k hj hn hk hown
    obtain ⟨m, hm, hmk⟩ := Option.bind_eq_some_iff.mp hown
    exact h.pair hj hn hm k hk hmk
  refine h.step id hgood.sound hgood.knows ?_ ?_
  · intro j n hj hn
    refine (h.thread hn).mono hgood.now_le ?_ ?_
    · intro k q hk hq
      exact hgood.rows k q (hother j n k hj hn hk) hq
    · intro k hk hunpaid
      exact hgood.unpaid k (hother j n k hj hn hk) hunpaid
  · intro m hm j n hj hn k hmk hnk
    rcases hgood.spend m k hm hmk with hown | hnew
    · exact hother j n k hj hn hnk hown
    have hlt := (h.thread hn).lt hnk
    omega

theorem sound_fresh (now : Int) : Sound p (.fresh now) where
  value_nonneg := nofun
  window := fun _ => (p.terms.limit_pos.trans_le p.terms.limit_le).le
  backed := nofun
  once := List.nodup_nil
  unexpired := nofun
  revoked := nofun

/--
**Agent budgets bound what is signed**, in every run whose steps are safe: any number of calls, in
any order, with failures, stops, a revocation and the passing of time.
-/
theorem run_withinBudget {p : Platform} {now : Int} {es : List (Nat × Action)}
    {t : System Store Call} (hrun : Machine.run (step (next p)) (.idle (.fresh now)) es = some t)
    (hsafe : ∀ e ∈ es, Safe p e.2) : WithinBudget p t.shared := by
  have hholds : (outline p).Holds t :=
    Machine.run_guarded_invariant
      (fun hs hG hstep => step_holds hs hG hstep) (Outline.holds_idle (sound_fresh now))
      (Machine.guarded_of_forall fun e he _ => hsafe e he) hrun
  exact hholds.shared.withinBudget

/-! ### A payment within the limits, and payments beyond them -/

/-- An agent with R100 for a transfer and R150 for a day, who may pay in one token. -/
def shopAgent : Platform where
  cfg := ⟨none, fun _ h => by cases h⟩
  js := ⟨fun _ => "", id, fun _ h => h, fun _ _ h => h⟩
  terms := {
    allowedTokens := ["MZAR"]
    allowedRecipients := none
    perTransferLimit := 10000
    dailyLimit := 15000
    expiresAt := 30 * day
    limit_pos := by decide
    limit_le := by decide }

def payRand (requestId : String) (amount : Nat) : TransferRequest where
  requestId := requestId
  idempotent := false
  platformPrepared := true
  facts := ⟨"MZAR", amount, 3, some "ZAR"⟩
  recipient := "0x2222222222222222222222222222222222222222"

def signedCall (i : Nat) (req : TransferRequest) : List (Nat × Action) :=
  [(i, .transfer req), (i, .start), (i, .reserve .answered), (i, .customer .answered),
    (i, .sign (.signed "0xabc"))]

/-- One that nothing happens to. -/
def paidCall (i : Nat) (req : TransferRequest) : List (Nat × Action) :=
  signedCall i req ++ [(i, .broadcast .answered), (i, .settle .answered)]

theorem run_withinBudget_paidCall :
    ∃ t, Machine.run (step (next shopAgent)) (.idle (.fresh 0)) (paidCall 0 (payRand "a" 100000))
        = some t ∧
      t.shared.payments.length = 1 ∧ WithinBudget shopAgent t.shared := by
  have hlength : (Machine.run (step (next shopAgent)) (.idle (.fresh 0))
      (paidCall 0 (payRand "a" 100000))).map (fun t => t.shared.payments.length) = some 1 := by
    decide +kernel
  obtain ⟨t, hrun, hpayments⟩ := Option.map_eq_some_iff.mp hlength
  refine ⟨t, hrun, hpayments, run_withinBudget hrun ?_⟩
  have hexact : Exact shopAgent (payRand "a" 100000) := by
    refine ⟨by decide, ?_⟩
    intro v hv
    have hvalue : exactZar shopAgent.cfg (payRand "a" 100000).facts = some 100 := by decide +kernel
    obtain rfl := Option.mem_unique hv hvalue
    exact ⟨10000, by norm_num⟩
  intro e he
  simp only [paidCall, signedCall, List.cons_append, List.nil_append, List.mem_cons,
    List.not_mem_nil, or_false] at he
  rcases he with rfl | rfl | rfl | rfl | rfl | rfl | rfl
  · exact hexact
  · trivial
  · trivial
  · trivial
  · trivial
  · rfl
  intro message h
  cases h

/-- The node refuses what was signed, or the answer of the ceremony is lost, or the settlement. -/
def brokenCalls : List (List (Nat × Action)) :=
  [signedCall 0 (payRand "a" 100000) ++ [(0, .broadcast (.failed "timeout"))],
    [(0, .transfer (payRand "a" 100000)), (0, .start), (0, .reserve .answered),
      (0, .customer .answered), (0, .sign (.lost "socket hang up"))],
    signedCall 0 (payRand "a" 100000) ++
      [(0, .broadcast .answered), (0, .settle (.failed "connection terminated"))]]

/-- After each of them the reservation is released, and the agent pays once more. -/
def overspending (broken : List (Nat × Action)) : List (Nat × Action) :=
  broken ++ [(0, .release .answered)] ++ paidCall 1 (payRand "b" 100000)

/--
R200 are signed in a day against a limit of R150, whatever fails after the first signature; and a
payment of R100.004 is within a limit of R100.
-/
theorem overspent :
    (∀ broken ∈ brokenCalls, ∃ t,
      Machine.run (step (next shopAgent)) (.idle (.fresh 0)) (overspending broken) = some t ∧
        t.shared.paidWithin shopAgent 0 = 200 ∧ ¬ WithinBudget shopAgent t.shared) ∧
    ∃ t, Machine.run (step (next shopAgent)) (.idle (.fresh 0))
        (paidCall 0 (payRand "a" 100004)) = some t ∧
      t.shared.payments.map (fun pay => exactZar shopAgent.cfg pay.facts) = [some (25001 / 250)] ∧
      ¬ WithinBudget shopAgent t.shared := by
  constructor
  · intro broken hbroken
    have hpaid : ∀ b ∈ brokenCalls, (Machine.run (step (next shopAgent)) (.idle (.fresh 0))
        (overspending b)).map (fun t => t.shared.paidWithin shopAgent 0) = some 200 := by
      decide +kernel
    obtain ⟨t, hrun, hvalue⟩ := Option.map_eq_some_iff.mp (hpaid broken hbroken)
    refine ⟨t, hrun, hvalue, fun hwithin => ?_⟩
    have hle := hwithin.daily 0
    rw [hvalue] at hle
    norm_num [shopAgent] at hle
  · have hpaid : (Machine.run (step (next shopAgent)) (.idle (.fresh 0))
        (paidCall 0 (payRand "a" 100004))).map (fun t => t.shared.payments)
          = some [⟨0, (payRand "a" 100004).facts, (payRand "a" 100004).recipient⟩] := by
      decide +kernel
    obtain ⟨t, hrun, hpayments⟩ := Option.map_eq_some_iff.mp hpaid
    have hvalue : exactZar shopAgent.cfg (payRand "a" 100004).facts = some (25001 / 250) := by
      decide +kernel
    refine ⟨t, hrun, by rw [hpayments, List.map_singleton, hvalue], fun hwithin => ?_⟩
    obtain ⟨v, hv, hle⟩ := hwithin.single _ (by rw [hpayments]; exact List.mem_singleton_self _)
    obtain rfl := Option.mem_unique hv hvalue
    norm_num [shopAgent] at hle

end OpenFireblocks.Agents
