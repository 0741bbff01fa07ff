import OpenFireblocks.Lib.Sums
import OpenFireblocks.PermissionedToken.Contract

/-!
# Supply, holders and ownership of the token

What holds of the contract after construction and after every sequence of calls, by whoever:

* the balances add up to `totalSupply`, which is at most `supplyCap`;
* only admitted holders have a balance;
* the owner is not the zero address.

`burn` and `forceTransfer` do not ask for the sender to be a holder or to be free; they need not,
since a balance that is large enough is already the balance of a holder.
-/

namespace OpenFireblocks.PermissionedToken

def Token.balances (s : Token) : Nat := ∑ a, (s.balanceOf a).val

def Held (s : Token) : Prop := ∀ a, 0 < s.balanceOf a → s.isHolder a = true

structure Invariant (s : Token) : Prop where
  supply : s.balances = s.totalSupply.val
  capped : s.totalSupply ≤ s.supplyCap
  held : Held s
  owned : s.owner ≠ 0

/-! ## What the two updates of a balance do -/

variable {s t : Token} {a : Address}

theorem balances_update {balance : Uint256}
    (h : t.balanceOf = Function.update s.balanceOf a balance) :
    t.balances + (s.balanceOf a).val = s.balances + balance.val := by
  unfold Token.balances
  rw [h]
  exact Sums.sum_update_add Fin.val s.balanceOf a balance

variable {amount : Uint256}

theorem balances_credit (h : s.credit a amount = .ok t) : t.balances = s.balances + amount.val := by
  obtain ⟨balance, hbalance, ht⟩ := credit_eq_ok.mp h
  have hupdate : t.balanceOf = Function.update s.balanceOf a balance := by rw [ht]
  have hsum := balances_update hupdate
  omega

theorem balances_debit (h : s.debit a amount = .ok t) : t.balances + amount.val = s.balances := by
  obtain ⟨balance, hbalance, ht⟩ := debit_eq_ok.mp h
  have hupdate : t.balanceOf = Function.update s.balanceOf a balance := by rw [ht]
  have hsum := balances_update hupdate
  omega

theorem Held.credit (hs : Held s) (ha : s.isHolder a) (h : s.credit a amount = .ok t) :
    Held t := by
  obtain ⟨balance, -, rfl⟩ := credit_eq_ok.mp h
  intro b hb
  by_cases hab : b = a
  · rw [hab]
    exact ha
  · exact hs b (by simpa [Function.update_of_ne hab] using hb)

theorem Held.debit (hs : Held s) (h : s.debit a amount = .ok t) : Held t := by
  obtain ⟨balance, hbalance, rfl⟩ := debit_eq_ok.mp h
  intro b hb
  by_cases hab : b = a
  · subst hab
    simp only [Function.update_self] at hb
    refine hs b (Fin.lt_def.mpr ?_)
    have hb := Fin.lt_def.mp hb
    omega
  · exact hs b (by simpa [Function.update_of_ne hab] using hb)

/-- What a change of balances leaves alone. -/
structure SameRules (s t : Token) : Prop where
  totalSupply : t.totalSupply = s.totalSupply
  supplyCap : t.supplyCap = s.supplyCap
  isHolder : t.isHolder = s.isHolder
  isFrozen : t.isFrozen = s.isFrozen
  paused : t.paused = s.paused
  owner : t.owner = s.owner
  allowance : t.allowance = s.allowance

theorem sameRules_credit (h : s.credit a amount = .ok t) : SameRules s t := by
  obtain ⟨balance, -, rfl⟩ := credit_eq_ok.mp h
  exact ⟨rfl, rfl, rfl, rfl, rfl, rfl, rfl⟩

theorem sameRules_debit (h : s.debit a amount = .ok t) : SameRules s t := by
  obtain ⟨balance, -, rfl⟩ := debit_eq_ok.mp h
  exact ⟨rfl, rfl, rfl, rfl, rfl, rfl, rfl⟩

theorem Paid.sameRules {b : Address} (h : Paid s a b amount t) : SameRules s t := by
  obtain ⟨u, hu, ht⟩ := h
  have hu := sameRules_debit hu
  have ht := sameRules_credit ht
  exact ⟨ht.totalSupply.trans hu.totalSupply, ht.supplyCap.trans hu.supplyCap,
    ht.isHolder.trans hu.isHolder, ht.isFrozen.trans hu.isFrozen, ht.paused.trans hu.paused,
    ht.owner.trans hu.owner, ht.allowance.trans hu.allowance⟩

/-! ## The invariant -/

theorem Invariant.paid {b : Address} (hs : Invariant s) (hb : s.isHolder b)
    (h : Paid s a b amount t) : Invariant t := by
  have hrules := h.sameRules
  obtain ⟨u, hu, ht⟩ := h
  refine ⟨?_, by rw [hrules.totalSupply, hrules.supplyCap]; exact hs.capped, ?_,
    by rw [hrules.owner]; exact hs.owned⟩
  · rw [balances_credit ht, balances_debit hu, hrules.totalSupply, hs.supply]
  · refine Held.credit (Held.debit hs.held hu) ?_ ht
    rw [(sameRules_debit hu).isHolder]
    exact hb

/-- **One call keeps the invariant.** -/
theorem Invariant.effect {sender : Address} {call : Call} (hs : Invariant s) (hsender : sender ≠ 0)
    (h : Effect s sender call t) : Invariant t := by
  cases h with
  | acceptOwnership _ => exact ⟨hs.supply, hs.capped, hs.held, hsender⟩
  | proposeOwner | freeze | unfreeze | pause | unpause | approve =>
    exact ⟨hs.supply, hs.capped, hs.held, hs.owned⟩
  | @addHolder a _ _ _ =>
    refine ⟨hs.supply, hs.capped, fun b hb => ?_, hs.owned⟩
    show Function.update s.isHolder a true b
    by_cases hab : b = a
    · rw [hab, Function.update_self]
    rw [Function.update_of_ne hab]
    exact hs.held b hb
  | @removeHolder a _ _ hbalance =>
    refine ⟨hs.supply, hs.capped, fun b hb => ?_, hs.owned⟩
    show Function.update s.isHolder a false b
    have hab : b ≠ a := by
      rintro rfl
      have hb : 0 < s.balanceOf b := hb
      rw [hbalance] at hb
      exact absurd hb (lt_irrefl _)
    rw [Function.update_of_ne hab]
    exact hs.held b hb
  | @mint a amount supply u _ hholder hsupply hcap hu =>
    have hrules := sameRules_credit hu
    have hheld : Held u := Held.credit (s := { s with totalSupply := supply }) hs.held hholder hu
    refine ⟨?_, ?_, hheld, ?_⟩
    · show u.balances = u.totalSupply.val
      rw [balances_credit hu, hrules.totalSupply, hsupply, ← hs.supply]
      rfl
    · show u.totalSupply ≤ u.supplyCap
      rw [hrules.totalSupply, hrules.supplyCap]
      exact hcap
    · show u.owner ≠ 0
      rw [hrules.owner]
      exact hs.owned
  | @burn a amount supply u _ hu hsupply =>
    have hrules := sameRules_debit hu
    have hsum := balances_debit hu
    rw [hrules.totalSupply, ← hs.supply] at hsupply
    have hheld : Held u := Held.debit hs.held hu
    refine ⟨?_, ?_, hheld, ?_⟩
    · show u.balances = supply.val
      omega
    · show supply ≤ u.supplyCap
      have hcap := Fin.le_def.mp hs.capped
      rw [hrules.supplyCap, Fin.le_def]
      rw [← hs.supply] at hcap
      omega
    · show u.owner ≠ 0
      rw [hrules.owner]
      exact hs.owned
  | forceTransfer _ hholder hpaid =>
    have ht := hs.paid hholder hpaid
    exact ⟨ht.supply, ht.capped, ht.held, ht.owned⟩
  | transfer hcan hpaid =>
    have ht := hs.paid (canTransfer_iff.mp hcan).2.2.1 hpaid
    exact ⟨ht.supply, ht.capped, ht.held, ht.owned⟩
  | @transferFrom a b amount rest u _ _ hcan hpaid =>
    have hs' : Invariant (s.setAllowance a sender rest) :=
      ⟨hs.supply, hs.capped, hs.held, hs.owned⟩
    have ht := hs'.paid (canTransfer_iff.mp hcan).2.2.1 hpaid
    exact ⟨ht.supply, ht.capped, ht.held, ht.owned⟩
  | transferFromUnlimited _ hcan hpaid =>
    have ht := hs.paid (canTransfer_iff.mp hcan).2.2.1 hpaid
    exact ⟨ht.supply, ht.capped, ht.held, ht.owned⟩

theorem Invariant.after (hs : Invariant s) (m : Message) : Invariant (s.after m) := by
  rcases after_cases s m with h | h
  · rw [h]
    exact hs
  · exact hs.effect m.sender_ne_zero h

theorem Invariant.run (hs : Invariant s) (ms : List Message) : Invariant (s.run ms) := by
  induction ms generalizing s with
  | nil => exact hs
  | cons m ms ih => exact ih (hs.after m)

/-- **Supply, holders and ownership after every sequence of calls.** -/
theorem run_invariant {name symbol : String} {decimals : UInt8} {supplyCap : Uint256}
    {owner : Address} {s : Token} (h : constructor name symbol decimals supplyCap owner = .ok s)
    (ms : List Message) : Invariant (s.run ms) := by
  simp only [constructor, Outcome.bind_eq_ok, require_eq_ok, decide_eq_true_eq] at h
  obtain ⟨_, howner, _, hcap, h⟩ := h
  cases h
  refine Invariant.run ⟨?_, Fin.zero_le _, fun a ha => absurd ha (lt_irrefl _), howner⟩ ms
  simp [Token.balances, Token.emit]

/-- A holder is admitted, gets tokens, pays itself and then another holder. -/
def issue : List Message :=
  [⟨1, by decide, .addHolder 2⟩, ⟨1, by decide, .addHolder 3⟩, ⟨1, by decide, .mint 2 700⟩,
    ⟨2, by decide, .transfer 2 700⟩, ⟨2, by decide, .transfer 3 200⟩]

theorem run_invariant_issue :
    ∃ s, constructor "Bond" "BND" 6 1000 1 = .ok s ∧
      ((s.run issue).totalSupply, (s.run issue).balanceOf 2, (s.run issue).balanceOf 3) =
        (700, 500, 200) ∧ Invariant (s.run issue) :=
  ⟨_, rfl, by decide +kernel,
    run_invariant (show constructor "Bond" "BND" 6 1000 1 = .ok _ from rfl) issue⟩

-- nothing in `acceptOwnership` itself keeps the zero address out when no owner is proposed
example (s : Token) (h : s.pendingOwner = 0) :
    ∃ t, s.acceptOwnership 0 = .ok t ∧ t.owner = 0 := by
  simp [Token.acceptOwnership, h, require]

end OpenFireblocks.PermissionedToken
