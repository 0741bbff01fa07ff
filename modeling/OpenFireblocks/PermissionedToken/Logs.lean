import OpenFireblocks.PermissionedToken.Supply

/-!
# What the log of the token tells

Whoever reads the events of the contract in their order knows who holds how much, who may, and who
owns the contract. Allowances are not told: `transferFrom` lowers one without an event.
-/

namespace OpenFireblocks.PermissionedToken

/-- What a reader of the log keeps. The zero address stands for the issuer, and has no balance. -/
@[ext] structure View where
  balanceOf : Address → Int
  isHolder : Address → Bool
  isFrozen : Address → Bool
  paused : Bool
  owner : Address
  pendingOwner : Address

def View.read (v : View) : Event → View
  | .transfer a b amount =>
    { v with
      balanceOf := fun x => if x = 0 then 0 else
        v.balanceOf x + (if x = b then amount.val else 0) - (if x = a then amount.val else 0) }
  | .holderAdded a => { v with isHolder := Function.update v.isHolder a true }
  | .holderRemoved a => { v with isHolder := Function.update v.isHolder a false }
  | .frozen a => { v with isFrozen := Function.update v.isFrozen a true }
  | .unfrozen a => { v with isFrozen := Function.update v.isFrozen a false }
  | .paused => { v with paused := true }
  | .unpaused => { v with paused := false }
  | .ownershipProposed a => { v with pendingOwner := a }
  | .ownershipTransferred _ a => { v with owner := a, pendingOwner := 0 }
  -- a forced transfer is a transfer too, with an event of its own
  | .approval _ _ _ | .forcedTransfer _ _ _ => v

def View.ofLogs (logs : List Event) : View :=
  logs.foldl View.read ⟨fun _ => 0, fun _ => false, fun _ => false, false, 0, 0⟩

def Token.view (s : Token) : View where
  balanceOf x := if x = 0 then 0 else (s.balanceOf x).val
  isHolder := s.isHolder
  isFrozen := s.isFrozen
  paused := s.paused
  owner := s.owner
  pendingOwner := s.pendingOwner

def Logged (s : Token) : Prop := View.ofLogs s.logs = s.view

variable {s t : Token} {a b : Address} {amount : Uint256} {e : Event}

theorem Logged.emit (h : Logged s) (hlogs : t.logs = s.logs ++ [e]) (hview : s.view.read e = t.view) :
    Logged t := by
  unfold Logged
  rw [hlogs, View.ofLogs, List.foldl_append, ← View.ofLogs, h, ← hview]
  rfl

theorem credit_view (h : s.credit a amount = .ok t) :
    t.logs = s.logs ∧ t.view = s.view.read (.transfer 0 a amount) := by
  obtain ⟨sum, hsum, rfl⟩ := credit_eq_ok.mp h
  refine ⟨rfl, View.ext (funext fun x => ?_) rfl rfl rfl rfl rfl⟩
  simp only [Token.view, View.read, Function.update_apply]
  split_ifs with hx ha
  · rfl
  · rw [ha]
    omega
  · omega

theorem debit_view (h : s.debit a amount = .ok t) :
    t.logs = s.logs ∧ t.view = s.view.read (.transfer a 0 amount) := by
  obtain ⟨rest, hrest, rfl⟩ := debit_eq_ok.mp h
  refine ⟨rfl, View.ext (funext fun x => ?_) rfl rfl rfl rfl rfl⟩
  simp only [Token.view, View.read, Function.update_apply]
  split_ifs with hx ha
  · rfl
  · rw [ha]
    omega
  · omega

/-- A transfer is told as if the issuer took the tokens back and issued them again. -/
theorem Logged.paid (h : Logged s) (hpaid : Paid s a b amount t) :
    Logged (t.emit (.transfer a b amount)) := by
  obtain ⟨u, hu, ht⟩ := hpaid
  obtain ⟨hlogs, hview⟩ := debit_view hu
  obtain ⟨hlogs', hview'⟩ := credit_view ht
  refine h.emit (by rw [Token.emit, hlogs', hlogs]) (hview'.trans ?_).symm
  rw [hview]
  refine View.ext (funext fun x => ?_) rfl rfl rfl rfl rfl
  simp only [View.read]
  split_ifs <;> omega

theorem Logged.effect {sender : Address} {call : Call} (h : Logged s)
    (heffect : Effect s sender call t) : Logged t := by
  cases heffect with
  | mint _ _ _ _ hu =>
    obtain ⟨hlogs, hview⟩ := credit_view hu
    exact h.emit (by rw [Token.emit, hlogs]) hview.symm
  | burn _ hu _ =>
    obtain ⟨hlogs, hview⟩ := debit_view hu
    exact h.emit (by rw [Token.emit, hlogs]) hview.symm
  | forceTransfer _ _ hpaid => exact (h.paid hpaid).emit rfl rfl
  | transfer _ hpaid | transferFromUnlimited _ _ hpaid => exact h.paid hpaid
  | @transferFrom a _ _ rest _ _ _ _ hpaid =>
    have hs : Logged (s.setAllowance a sender rest) := h
    exact hs.paid hpaid
  | proposeOwner | acceptOwnership _ | addHolder | removeHolder | freeze | unfreeze | pause
  | unpause | approve => exact h.emit rfl rfl

theorem Logged.run (h : Logged s) (ms : List Message) : Logged (s.run ms) := by
  induction ms generalizing s with
  | nil => exact h
  | cons m ms ih =>
    refine ih ?_
    rcases after_cases s m with hm | hm
    · rw [hm]
      exact h
    · exact h.effect hm

/-- **After every sequence of calls, the log tells the storage.** -/
theorem logs_tell_storage {name symbol : String} {decimals : UInt8} {supplyCap : Uint256}
    {owner : Address} (h : constructor name symbol decimals supplyCap owner = .ok s)
    (ms : List Message) : View.ofLogs (s.run ms).logs = (s.run ms).view := by
  simp only [constructor, Outcome.bind_eq_ok] at h
  obtain ⟨_, -, _, -, h⟩ := h
  cases h
  refine Logged.run (View.ext (funext fun x => ?_) rfl rfl rfl rfl rfl) ms
  exact (ite_self _).symm

theorem logs_tell_storage_issue : ∃ s, constructor "Bond" "BND" 6 1000 1 = .ok s ∧
    View.ofLogs (s.run issue).logs = (s.run issue).view :=
  ⟨_, rfl, logs_tell_storage (show constructor "Bond" "BND" 6 1000 1 = .ok _ from rfl) issue⟩

/-! ## A token that is paused -/

theorem Effect.view_of_paused {sender : Address} {call : Call} (h : Effect s sender call t)
    (hpaused : s.paused) (howner : sender ≠ s.owner) (hproposed : sender ≠ s.pendingOwner) :
    t.view = s.view := by
  cases h with
  | approve => rfl
  | acceptOwnership h => exact absurd h hproposed
  | transfer hcan _ | transferFrom _ _ hcan _ | transferFromUnlimited _ hcan _ =>
    rw [(canTransfer_iff.mp hcan).1] at hpaused
    cases hpaused
  | _ h => exact absurd h howner

/-- **While the token is paused, only its owner changes what the log tells.** The one who is proposed
as the owner has only to accept. -/
theorem view_run_of_paused {ms : List Message} (hpaused : s.paused)
    (hms : ∀ m ∈ ms, m.sender ≠ s.owner ∧ m.sender ≠ s.pendingOwner) : (s.run ms).view = s.view := by
  induction ms generalizing s with
  | nil => rfl
  | cons m ms ih =>
    obtain ⟨⟨howner, hproposed⟩, hms⟩ := List.forall_mem_cons.mp hms
    have hview : (s.after m).view = s.view := by
      rcases after_cases s m with h | h
      · rw [h]
      · exact h.view_of_paused hpaused howner hproposed
    refine (ih ?_ ?_).trans hview
    · exact (congrArg View.paused hview).trans hpaused
    · rw [show (s.after m).owner = s.owner from congrArg View.owner hview,
        show (s.after m).pendingOwner = s.pendingOwner from congrArg View.pendingOwner hview]
      exact hms

theorem view_run_of_paused_issue : ∃ s t, constructor "Bond" "BND" 6 1000 1 = .ok s ∧
    s.run (issue ++ [⟨1, by decide, .pause⟩]) = t ∧
    (t.run [⟨2, by decide, .transfer 3 200⟩]).view = t.view :=
  ⟨_, _, rfl, rfl, view_run_of_paused (by decide +kernel) (by decide +kernel)⟩

end OpenFireblocks.PermissionedToken
