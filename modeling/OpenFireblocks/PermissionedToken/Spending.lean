import OpenFireblocks.PermissionedToken.Supply

/-!
# Who can spend a holder's tokens

From whatever storage the calls so far have led to:

* a balance goes down only in a `burn` or `forceTransfer` by the owner, a `transfer` by the holder
  or a `transferFrom` of the holder's tokens;
* between two approvals of a spender, other than the unlimited one, the spender takes no more than
  was approved;
* no transfer goes through while the token is paused or a side is frozen or not admitted.
-/

namespace OpenFireblocks.PermissionedToken

/-! ## Who can lower a balance -/

/-- The calls that may lower the balance of `h`. -/
def MayLower (s : Token) (sender h : Address) : Call → Prop
  | .burn a _ => sender = s.owner ∧ a = h
  | .forceTransfer a _ _ => sender = s.owner ∧ a = h
  | .transfer _ _ => sender = h
  | .transferFrom a _ _ => a = h
  | _ => False

variable {s : Token} {h : Address} {amount : Uint256}

variable {t : Token} {a b spender : Address} {m : Message}

theorem credit_le (ht : s.credit a amount = .ok t) : s.balanceOf h ≤ t.balanceOf h := by
  obtain ⟨balance, hbalance, rfl⟩ := credit_eq_ok.mp ht
  show s.balanceOf h ≤ Function.update s.balanceOf a balance h
  by_cases hh : h = a
  · subst hh
    rw [Function.update_self, Fin.le_def]
    omega
  · rw [Function.update_of_ne hh]

theorem debit_of_ne (hh : h ≠ a) (ht : s.debit a amount = .ok t) :
    t.balanceOf h = s.balanceOf h := by
  obtain ⟨balance, -, rfl⟩ := debit_eq_ok.mp ht
  exact Function.update_of_ne hh _ _

theorem Paid.eq_of_lt (hpaid : Paid s a b amount t) (hlt : t.balanceOf h < s.balanceOf h) :
    a = h := by
  obtain ⟨u, hu, ht⟩ := hpaid
  by_contra hne
  rw [← debit_of_ne (Ne.symm hne) hu] at hlt
  exact absurd (credit_le ht) (not_le.mpr hlt)

theorem mayLower_of_effect {sender : Address} {call : Call} (heffect : Effect s sender call t)
    (hlt : t.balanceOf h < s.balanceOf h) : MayLower s sender h call := by
  cases heffect with
  | burn howner hu _ =>
    refine ⟨howner, ?_⟩
    by_contra hne
    exact absurd (debit_of_ne (Ne.symm hne) hu) (ne_of_lt hlt)
  | forceTransfer howner _ hpaid => exact ⟨howner, hpaid.eq_of_lt hlt⟩
  | transfer _ hpaid | transferFrom _ _ _ hpaid | transferFromUnlimited _ _ hpaid =>
    exact hpaid.eq_of_lt hlt
  | mint _ _ _ _ hu => exact absurd (credit_le hu) (not_le.mpr hlt)
  | proposeOwner | acceptOwnership _ | addHolder | removeHolder | freeze | unfreeze | pause
  | unpause | approve => exact absurd hlt (lt_irrefl _)

/-! ## What a spender takes -/

/-- The call sets what `spender` may take from `h`. -/
def Message.Approves (m : Message) (h spender : Address) : Prop :=
  m.sender = h ∧ ∃ amount, m.call = .approve spender amount

/-- What `spender` takes from `h` with this call, if it goes through. -/
def Message.takes (m : Message) (h spender : Address) : Nat :=
  match m.call with
  | .transferFrom a _ amount => if m.sender = spender ∧ a = h then amount.val else 0
  | _ => 0

/-- What `spender` takes from `h` with this call: nothing if it reverts. -/
def Token.taken (s : Token) (h spender : Address) (m : Message) : Nat :=
  match s.exec m.sender m.call with
  | .ok _ => m.takes h spender
  | .error _ => 0

/-- What `spender` takes from `h` with these calls. -/
def Token.takenBy (s : Token) (h spender : Address) : List Message → Nat
  | [] => 0
  | m :: ms => s.taken h spender m + (s.after m).takenBy h spender ms

theorem setAllowance_allowance (s : Token) (h spender a b : Address) (amount : Uint256) :
    (s.setAllowance h spender amount).allowance a b =
      if a = h ∧ b = spender then amount else s.allowance a b := by
  by_cases ha : a = h
  · subst ha
    by_cases hb : b = spender
    · simp [Token.setAllowance, hb]
    · simp [Token.setAllowance, hb]
  · simp [Token.setAllowance, ha]

/-- Only an approval and a `transferFrom` touch the allowances. -/
theorem allowance_effect (hm : ¬ m.Approves h spender) (hmax : s.allowance h spender ≠ Uint256.max)
    (heffect : Effect s m.sender m.call t) :
    (t.allowance h spender).val + m.takes h spender = (s.allowance h spender).val := by
  obtain ⟨sender, hsender, call⟩ := m
  cases heffect with
  | @approve other amount =>
    have hother : ¬ (h = sender ∧ spender = other) := by
      rintro ⟨rfl, rfl⟩
      exact hm ⟨rfl, amount, rfl⟩
    show ((s.setAllowance sender other amount).allowance h spender).val + 0 = _
    rw [setAllowance_allowance, if_neg hother, Nat.add_zero]
  | @transferFrom a b amount rest u _ hrest _ hpaid =>
    show (u.allowance h spender).val + (if sender = spender ∧ a = h then amount.val else 0) = _
    rw [hpaid.sameRules.allowance, setAllowance_allowance]
    by_cases hown : sender = spender ∧ a = h
    · obtain ⟨rfl, rfl⟩ := hown
      rw [if_pos ⟨rfl, rfl⟩, if_pos ⟨rfl, rfl⟩]
      exact hrest
    · rw [if_neg hown, if_neg (fun hc => hown ⟨hc.2.symm, hc.1.symm⟩), Nat.add_zero]
  | @transferFromUnlimited a b amount u hunlimited _ hpaid =>
    -- an unlimited allowance is not lowered, and the one of `spender` is not unlimited
    show (u.allowance h spender).val + (if sender = spender ∧ a = h then amount.val else 0) = _
    have hother : ¬ (sender = spender ∧ a = h) := by
      rintro ⟨rfl, rfl⟩
      exact hmax hunlimited
    rw [hpaid.sameRules.allowance, if_neg hother, Nat.add_zero]
  | mint _ _ _ _ hu =>
    show (Token.allowance _ h spender).val + 0 = _
    rw [Nat.add_zero, Token.emit, (sameRules_credit hu).allowance]
  | burn _ hu _ =>
    show (Token.allowance _ h spender).val + 0 = _
    rw [Nat.add_zero, Token.emit, (sameRules_debit hu).allowance]
  | forceTransfer _ _ hpaid =>
    show (Token.allowance _ h spender).val + 0 = _
    rw [Nat.add_zero, Token.emit, Token.emit, hpaid.sameRules.allowance]
  | transfer _ hpaid =>
    show (Token.allowance _ h spender).val + 0 = _
    rw [Nat.add_zero, Token.emit, hpaid.sameRules.allowance]
  | proposeOwner | acceptOwnership _ | addHolder | removeHolder | freeze | unfreeze | pause
  | unpause => rfl

theorem allowance_after (hm : ¬ m.Approves h spender) (hmax : s.allowance h spender ≠ Uint256.max) :
    ((s.after m).allowance h spender).val + s.taken h spender m = (s.allowance h spender).val := by
  unfold Token.after Token.taken
  cases hexec : s.exec m.sender m.call with
  | error e => rfl
  | ok t => exact allowance_effect hm hmax (exec_effect hexec)

theorem allowance_run {ms : List Message} (hms : ∀ m ∈ ms, ¬ m.Approves h spender)
    (hmax : s.allowance h spender < Uint256.max) :
    ((s.run ms).allowance h spender).val + s.takenBy h spender ms =
      (s.allowance h spender).val := by
  induction ms generalizing s with
  | nil => rfl
  | cons m ms ih =>
    have hstep := allowance_after (hms m List.mem_cons_self) (ne_of_lt hmax)
    have hlt : (s.after m).allowance h spender < Uint256.max := by
      refine lt_of_le_of_lt (Fin.le_def.mpr ?_) hmax
      omega
    have hrest := ih (fun n hn => hms n (List.mem_cons_of_mem m hn)) hlt
    show (((s.after m).run ms).allowance h spender).val +
      (s.taken h spender m + (s.after m).takenBy h spender ms) = _
    omega

/-! ## When a transfer goes through -/

/-- Tokens may move between `a` and `b`. -/
structure Open (s : Token) (a b : Address) : Prop where
  running : s.paused = false
  admitted : s.isHolder a = true ∧ s.isHolder b = true
  free : s.isFrozen a = false ∧ s.isFrozen b = false

theorem open_of_canTransfer (h : (s.canTransfer a b amount).1) : Open s a b := by
  obtain ⟨hpaused, ha, hb, hfa, hfb, -⟩ := canTransfer_iff.mp h
  exact ⟨hpaused, ⟨ha, hb⟩, ⟨hfa, hfb⟩⟩

def Message.transfers (m : Message) : Option (Address × Address × Uint256) :=
  match m.call with
  | .transfer b amount => some (m.sender, b, amount)
  | .transferFrom a b amount => some (a, b, amount)
  | _ => none

theorem open_of_effect (hm : m.transfers = some (a, b, amount)) (h : Effect s m.sender m.call t) :
    Open s a b := by
  obtain ⟨sender, hsender, call⟩ := m
  cases h with
  | transfer hcan _ | transferFrom _ _ hcan _ | transferFromUnlimited _ hcan _ =>
    cases hm
    exact open_of_canTransfer hcan
  | _ => cases hm

/--
**Spending authority.** `s` is the storage any sequence of calls may have led to, `h` a holder.
-/
theorem spending_authority (s : Token) (h : Address) :
    (∀ m : Message, (s.after m).balanceOf h < s.balanceOf h →
      MayLower s m.sender h m.call) ∧
    (∀ (approval : Message) (spender : Address) (amount : Uint256) (ms : List Message),
      approval.sender = h → approval.call = .approve spender amount → amount < Uint256.max →
      (∀ m ∈ ms, ¬ m.Approves h spender) →
      (s.after approval).takenBy h spender ms ≤ amount.val) ∧
    (∀ (m : Message) (a b : Address) (amount : Uint256),
      m.transfers = some (a, b, amount) → 0 < amount → (s.exec m.sender m.call).isOk = true →
      Open s a b) := by
  refine ⟨?_, ?_, ?_⟩
  · intro m hlt
    rcases after_cases s m with hm | hm
    · rw [hm] at hlt
      exact absurd hlt (lt_irrefl _)
    · exact mayLower_of_effect hm hlt
  · rintro ⟨sender, hsender, call⟩ spender amount ms rfl rfl hmax hms
    have hset : (s.after ⟨sender, hsender, .approve spender amount⟩).allowance sender spender =
        amount := by
      show (s.setAllowance sender spender amount).allowance sender spender = amount
      rw [setAllowance_allowance, if_pos ⟨rfl, rfl⟩]
    have hrun := allowance_run hms (hset.symm ▸ hmax)
    rw [hset] at hrun
    omega
  · intro m a b amount hm _ hok
    cases hexec : s.exec m.sender m.call with
    | error e =>
      rw [hexec] at hok
      cases hok
    | ok t => exact open_of_effect hm (exec_effect hexec)

/-- Holder 2 lets 4 take 300 tokens, and 4 asks for 200 twice. -/
theorem spending_authority_issue :
    ∃ s t, constructor "Bond" "BND" 6 1000 1 = .ok s ∧ s.run issue = t ∧
      MayLower t 2 2 (.transfer 3 100) ∧
      (t.after ⟨2, by decide, .approve 4 300⟩).takenBy 2 4
        (List.replicate 2 ⟨4, by decide, .transferFrom 2 3 200⟩) ≤ 300 ∧
      Open t 2 3 := by
  refine ⟨_, _, rfl, rfl, ?_, ?_, ?_⟩
  · exact (spending_authority _ 2).1 ⟨2, by decide, .transfer 3 100⟩ (by decide +kernel)
  · refine (spending_authority _ 2).2.1 _ 4 300 _ rfl rfl (by decide) fun m hm => ?_
    rw [(List.mem_replicate.mp hm).2]
    simp [Message.Approves]
  · exact (spending_authority _ 2).2.2 ⟨2, by decide, .transfer 3 100⟩ 2 3 100 rfl (by decide)
      (by decide +kernel)

end OpenFireblocks.PermissionedToken
