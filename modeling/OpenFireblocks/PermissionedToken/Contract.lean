import OpenFireblocks.Lib.Checked
import OpenFireblocks.Lib.Outcome
import Mathlib.Algebra.GroupWithZero.Nat
import Mathlib.Data.Fintype.Basic

/-!
# The permissioned token contract

`contracts/PermissionedToken.sol`: an ERC-20 whose transfers work only between holders the issuer
has admitted. One definition for each function of the contract, under its name and with its
checks in their order.

* `Uint256` and `Address` are the contract's own types. Arithmetic is the checked arithmetic of
  Solidity 0.8: what does not fit reverts.
* A function returns the storage after it, or what it reverts with. `Token.after` is a call as a
  transaction: one that reverts leaves everything as it was, the log included.
* A call comes from an account, and no account is the zero address: it has neither a key to sign
  with nor code to call from.
-/

namespace OpenFireblocks.PermissionedToken

open Outcome

abbrev Uint256 := Fin (2 ^ 256)

abbrev Address := Fin (2 ^ 160)

instance uint256_neZero : NeZero (2 ^ 256 : Nat) := ⟨by decide⟩

instance address_neZero : NeZero (2 ^ 160 : Nat) := ⟨by decide⟩

/-- `type(uint256).max`. -/
def Uint256.max : Uint256 := Fin.last (2 ^ 256 - 1)

/-- What a failed call reverts with. -/
inductive Revert
  | reason (text : String)
  | panic

inductive Event
  | transfer (source target : Address) (value : Uint256)
  | approval (owner spender : Address) (value : Uint256)
  | holderAdded (holder : Address)
  | holderRemoved (holder : Address)
  | frozen (holder : Address)
  | unfrozen (holder : Address)
  | paused
  | unpaused
  | forcedTransfer (source target : Address) (value : Uint256)
  | ownershipProposed (proposed : Address)
  | ownershipTransferred (previousOwner newOwner : Address)

/-- The storage of the contract and the events it has emitted. -/
structure Token where
  name : String
  symbol : String
  decimals : UInt8
  supplyCap : Uint256
  totalSupply : Uint256
  owner : Address
  pendingOwner : Address
  paused : Bool
  balanceOf : Address → Uint256
  allowance : Address → Address → Uint256
  isHolder : Address → Bool
  isFrozen : Address → Bool
  logs : List Event

abbrev Result := Except Revert Token

def require (condition : Bool) (text : String) : Except Revert Unit :=
  if condition then .ok () else .error (.reason text)

/-- An arithmetic operation outside its range. -/
def checked (result : Option Uint256) : Except Revert Uint256 :=
  match result with
  | some value => .ok value
  | none => .error .panic

def Token.emit (s : Token) (e : Event) : Token := { s with logs := s.logs ++ [e] }

/-- `balanceOf[account] += amount`. -/
def Token.credit (s : Token) (account : Address) (amount : Uint256) : Result := do
  let balance ← checked (Checked.add (s.balanceOf account) amount)
  return { s with balanceOf := Function.update s.balanceOf account balance }

/-- `balanceOf[account] -= amount`. -/
def Token.debit (s : Token) (account : Address) (amount : Uint256) : Result := do
  let balance ← checked (Checked.sub (s.balanceOf account) amount)
  return { s with balanceOf := Function.update s.balanceOf account balance }

def constructor (name symbol : String) (decimals : UInt8) (supplyCap : Uint256) (owner : Address) :
    Result := do
  require (owner ≠ 0) "owner is the zero address"
  require (supplyCap > 0) "supply cap must be positive"
  let s : Token :=
    { name, symbol, decimals, supplyCap, totalSupply := 0, owner, pendingOwner := 0, paused := false
      balanceOf := fun _ => 0, allowance := fun _ _ => 0, isHolder := fun _ => false
      isFrozen := fun _ => false, logs := [] }
  return s.emit (.ownershipTransferred 0 owner)

section

variable (s : Token) (sender : Address)

def Token.onlyOwner : Except Revert Unit :=
  require (sender = s.owner) "not the owner"

/-! ## Ownership -/

def Token.proposeOwner (next : Address) : Result := do
  s.onlyOwner sender
  require (next ≠ 0) "owner is the zero address"
  return { s with pendingOwner := next }.emit (.ownershipProposed next)

def Token.acceptOwnership : Result := do
  require (sender = s.pendingOwner) "not the proposed owner"
  let s := s.emit (.ownershipTransferred s.owner sender)
  return { s with owner := sender, pendingOwner := 0 }

/-! ## Who may hold it -/

def Token.addHolder (holder : Address) : Result := do
  s.onlyOwner sender
  require (holder ≠ 0) "zero address"
  require (!s.isHolder holder) "already a holder"
  return { s with isHolder := Function.update s.isHolder holder true }.emit (.holderAdded holder)

def Token.removeHolder (holder : Address) : Result := do
  s.onlyOwner sender
  require (s.isHolder holder) "not a holder"
  require (s.balanceOf holder = 0) "holder still has a balance"
  return { s with isHolder := Function.update s.isHolder holder false }.emit (.holderRemoved holder)

def Token.freeze (holder : Address) : Result := do
  s.onlyOwner sender
  require (!s.isFrozen holder) "already frozen"
  return { s with isFrozen := Function.update s.isFrozen holder true }.emit (.frozen holder)

def Token.unfreeze (holder : Address) : Result := do
  s.onlyOwner sender
  require (s.isFrozen holder) "not frozen"
  return { s with isFrozen := Function.update s.isFrozen holder false }.emit (.unfrozen holder)

def Token.pause : Result := do
  s.onlyOwner sender
  require (!s.paused) "already paused"
  return { s with paused := true }.emit .paused

def Token.unpause : Result := do
  s.onlyOwner sender
  require s.paused "not paused"
  return { s with paused := false }.emit .unpaused

/-! ## Supply -/

def Token.mint (toAddr : Address) (amount : Uint256) : Result := do
  s.onlyOwner sender
  require (s.isHolder toAddr) "recipient is not an admitted holder"
  let raised ← checked (Checked.add s.totalSupply amount)
  require (raised ≤ s.supplyCap) "exceeds the supply cap"
  let totalSupply ← checked (Checked.add s.totalSupply amount)
  let s ← { s with totalSupply }.credit toAddr amount
  return s.emit (.transfer 0 toAddr amount)

def Token.burn (fromAddr : Address) (amount : Uint256) : Result := do
  s.onlyOwner sender
  require (s.balanceOf fromAddr ≥ amount) "balance too low"
  let s ← s.debit fromAddr amount
  let totalSupply ← checked (Checked.sub s.totalSupply amount)
  return { s with totalSupply }.emit (.transfer fromAddr 0 amount)

def Token.forceTransfer (fromAddr toAddr : Address) (amount : Uint256) : Result := do
  s.onlyOwner sender
  require (s.isHolder toAddr) "recipient is not an admitted holder"
  require (s.balanceOf fromAddr ≥ amount) "balance too low"
  let s ← s.debit fromAddr amount
  let s ← s.credit toAddr amount
  return (s.emit (.transfer fromAddr toAddr amount)).emit (.forcedTransfer fromAddr toAddr amount)

end

/-! ## Ordinary transfers -/

def Token.canTransfer (s : Token) (fromAddr toAddr : Address) (amount : Uint256) : Bool × String :=
  if s.paused then (false, "the token is paused")
  else if !s.isHolder fromAddr then (false, "sender is not an admitted holder")
  else if !s.isHolder toAddr then (false, "recipient is not an admitted holder")
  else if s.isFrozen fromAddr then (false, "sender is frozen")
  else if s.isFrozen toAddr then (false, "recipient is frozen")
  else if s.balanceOf fromAddr < amount then (false, "balance too low")
  else (true, "")

/-- `_move`. -/
def Token.move (s : Token) (fromAddr toAddr : Address) (amount : Uint256) : Result := do
  let answer := s.canTransfer fromAddr toAddr amount
  require answer.1 answer.2
  -- the second balance is read after the first is written: a transfer to oneself is no exception
  let s ← s.debit fromAddr amount
  let s ← s.credit toAddr amount
  return s.emit (.transfer fromAddr toAddr amount)

def Token.transfer (s : Token) (sender toAddr : Address) (amount : Uint256) : Result :=
  s.move sender toAddr amount

/-- `allowance[owner][spender] = amount`. -/
def Token.setAllowance (s : Token) (owner spender : Address) (amount : Uint256) : Token :=
  { s with
    allowance :=
      Function.update s.allowance owner (Function.update (s.allowance owner) spender amount) }

def Token.approve (s : Token) (sender spender : Address) (amount : Uint256) : Result :=
  return (s.setAllowance sender spender amount).emit (.approval sender spender amount)

def Token.transferFrom (s : Token) (sender fromAddr toAddr : Address) (amount : Uint256) :
    Result := do
  let allowed := s.allowance fromAddr sender
  require (allowed ≥ amount) "allowance too low"
  if allowed ≠ Uint256.max then
    let rest ← checked (Checked.sub allowed amount)
    (s.setAllowance fromAddr sender rest).move fromAddr toAddr amount
  else
    s.move fromAddr toAddr amount

/-! ## Calls -/

/-- The functions that change the storage, with their arguments. -/
inductive Call
  | proposeOwner (next : Address)
  | acceptOwnership
  | addHolder (holder : Address)
  | removeHolder (holder : Address)
  | freeze (holder : Address)
  | unfreeze (holder : Address)
  | pause
  | unpause
  | mint (toAddr : Address) (amount : Uint256)
  | burn (fromAddr : Address) (amount : Uint256)
  | forceTransfer (fromAddr toAddr : Address) (amount : Uint256)
  | transfer (toAddr : Address) (amount : Uint256)
  | approve (spender : Address) (amount : Uint256)
  | transferFrom (fromAddr toAddr : Address) (amount : Uint256)

def Token.exec (s : Token) (sender : Address) : Call → Result
  | .proposeOwner next => s.proposeOwner sender next
  | .acceptOwnership => s.acceptOwnership sender
  | .addHolder holder => s.addHolder sender holder
  | .removeHolder holder => s.removeHolder sender holder
  | .freeze holder => s.freeze sender holder
  | .unfreeze holder => s.unfreeze sender holder
  | .pause => s.pause sender
  | .unpause => s.unpause sender
  | .mint toAddr amount => s.mint sender toAddr amount
  | .burn fromAddr amount => s.burn sender fromAddr amount
  | .forceTransfer fromAddr toAddr amount => s.forceTransfer sender fromAddr toAddr amount
  | .transfer toAddr amount => s.transfer sender toAddr amount
  | .approve spender amount => s.approve sender spender amount
  | .transferFrom fromAddr toAddr amount => s.transferFrom sender fromAddr toAddr amount

/-- A call and the account it comes from. -/
structure Message where
  sender : Address
  sender_ne_zero : sender ≠ 0
  call : Call

/-- The storage after a call. A call that reverts changes nothing. -/
def Token.after (s : Token) (m : Message) : Token :=
  match s.exec m.sender m.call with
  | .ok t => t
  | .error _ => s

def Token.run (s : Token) (ms : List Message) : Token := ms.foldl Token.after s

/-! ## What a call that returns has done -/

theorem require_eq_ok {b : Bool} {text : String} {u : Unit} : require b text = .ok u ↔ b := by
  cases b <;> simp [require]

theorem checked_eq_ok {x : Option Uint256} {v : Uint256} : checked x = .ok v ↔ x = some v := by
  cases x <;> simp [checked]

variable {amount : Uint256}

variable {s t : Token} {a b : Address}

theorem credit_eq_ok :
    s.credit a amount = .ok t ↔ ∃ balance : Uint256,
      balance.val = (s.balanceOf a).val + amount.val ∧
        t = { s with balanceOf := Function.update s.balanceOf a balance } := by
  unfold Token.credit
  simp [bind_eq_ok, checked_eq_ok, Checked.add_eq_some, pure, Except.pure,
    Except.ok.injEq, eq_comm (a := t)]

theorem debit_eq_ok :
    s.debit a amount = .ok t ↔ ∃ balance : Uint256,
      balance.val + amount.val = (s.balanceOf a).val ∧
        t = { s with balanceOf := Function.update s.balanceOf a balance } := by
  unfold Token.debit
  simp [bind_eq_ok, checked_eq_ok, Checked.sub_eq_some, pure, Except.pure,
    Except.ok.injEq, eq_comm (a := t)]

theorem canTransfer_iff :
    (s.canTransfer a b amount).1 ↔
      (s.paused = false ∧ s.isHolder a ∧ s.isHolder b ∧ s.isFrozen a = false ∧
        s.isFrozen b = false ∧ amount ≤ s.balanceOf a) := by
  unfold Token.canTransfer
  split_ifs <;> simp_all

/-- An amount has left one balance and entered the other. -/
def Paid (s : Token) (a b : Address) (amount : Uint256) (t : Token) : Prop :=
  ∃ u, s.debit a amount = .ok u ∧ u.credit b amount = .ok t

theorem move_eq_ok :
    s.move a b amount = .ok t ↔ (s.canTransfer a b amount).1 ∧
      ∃ u, Paid s a b amount u ∧ t = u.emit (.transfer a b amount) := by
  unfold Token.move Paid
  simp only [bind_eq_ok, require_eq_ok, pure, Except.pure, Except.ok.injEq]
  constructor
  · rintro ⟨_, hcan, v, hv, u, hu, rfl⟩
    exact ⟨hcan, u, ⟨v, hv, hu⟩, rfl⟩
  · rintro ⟨hcan, u, ⟨v, hv, hu⟩, rfl⟩
    exact ⟨(), hcan, v, hv, u, hu, rfl⟩

/-- What a call that does not revert has found and done, function by function. -/
inductive Effect (s : Token) (sender : Address) : Call → Token → Prop
  | proposeOwner {next : Address} : sender = s.owner → next ≠ 0 →
      Effect s sender (.proposeOwner next)
        ({ s with pendingOwner := next }.emit (.ownershipProposed next))
  | acceptOwnership : sender = s.pendingOwner →
      Effect s sender .acceptOwnership
        { s.emit (.ownershipTransferred s.owner sender) with owner := sender, pendingOwner := 0 }
  | addHolder {a : Address} : sender = s.owner → a ≠ 0 → s.isHolder a = false →
      Effect s sender (.addHolder a)
        ({ s with isHolder := Function.update s.isHolder a true }.emit (.holderAdded a))
  | removeHolder {a : Address} : sender = s.owner → s.isHolder a = true → s.balanceOf a = 0 →
      Effect s sender (.removeHolder a)
        ({ s with isHolder := Function.update s.isHolder a false }.emit (.holderRemoved a))
  | freeze {a : Address} : sender = s.owner → s.isFrozen a = false →
      Effect s sender (.freeze a)
        ({ s with isFrozen := Function.update s.isFrozen a true }.emit (.frozen a))
  | unfreeze {a : Address} : sender = s.owner → s.isFrozen a = true →
      Effect s sender (.unfreeze a)
        ({ s with isFrozen := Function.update s.isFrozen a false }.emit (.unfrozen a))
  | pause : sender = s.owner → s.paused = false →
      Effect s sender .pause ({ s with paused := true }.emit .paused)
  | unpause : sender = s.owner → s.paused = true →
      Effect s sender .unpause ({ s with paused := false }.emit .unpaused)
  | mint {a : Address} {amount supply : Uint256} {u : Token} : sender = s.owner →
      s.isHolder a = true → supply.val = s.totalSupply.val + amount.val → supply ≤ s.supplyCap →
      { s with totalSupply := supply }.credit a amount = .ok u →
      Effect s sender (.mint a amount) (u.emit (.transfer 0 a amount))
  | burn {a : Address} {amount supply : Uint256} {u : Token} : sender = s.owner →
      s.debit a amount = .ok u → supply.val + amount.val = u.totalSupply.val →
      Effect s sender (.burn a amount)
        ({ u with totalSupply := supply }.emit (.transfer a 0 amount))
  | forceTransfer {a b : Address} {amount : Uint256} {u : Token} : sender = s.owner →
      s.isHolder b = true → Paid s a b amount u →
      Effect s sender (.forceTransfer a b amount)
        ((u.emit (.transfer a b amount)).emit (.forcedTransfer a b amount))
  | transfer {b : Address} {amount : Uint256} {u : Token} :
      (s.canTransfer sender b amount).1 = true → Paid s sender b amount u →
      Effect s sender (.transfer b amount) (u.emit (.transfer sender b amount))
  | approve {spender : Address} {amount : Uint256} :
      Effect s sender (.approve spender amount)
        ((s.setAllowance sender spender amount).emit (.approval sender spender amount))
  | transferFrom {a b : Address} {amount rest : Uint256} {u : Token} :
      s.allowance a sender ≠ Uint256.max → rest.val + amount.val = (s.allowance a sender).val →
      (s.canTransfer a b amount).1 = true → Paid (s.setAllowance a sender rest) a b amount u →
      Effect s sender (.transferFrom a b amount) (u.emit (.transfer a b amount))
  | transferFromUnlimited {a b : Address} {amount : Uint256} {u : Token} :
      s.allowance a sender = Uint256.max →
      (s.canTransfer a b amount).1 = true → Paid s a b amount u →
      Effect s sender (.transferFrom a b amount) (u.emit (.transfer a b amount))

theorem transferFrom_effect {sender : Address} (h : s.transferFrom sender a b amount = .ok t) :
    Effect s sender (.transferFrom a b amount) t := by
  simp only [Token.transferFrom, bind_eq_ok] at h
  obtain ⟨_, -, h⟩ := h
  split at h
  · next hmax =>
    obtain ⟨rest, hrest, h⟩ := bind_eq_ok.mp h
    obtain ⟨hcan, u, hu, rfl⟩ := move_eq_ok.mp h
    exact .transferFrom hmax (Checked.sub_eq_some.mp (checked_eq_ok.mp hrest)) hcan hu
  · next hmax =>
    obtain ⟨hcan, u, hu, rfl⟩ := move_eq_ok.mp h
    exact .transferFromUnlimited (not_not.mp hmax) hcan hu

theorem exec_effect {sender : Address} {call : Call} (h : s.exec sender call = .ok t) :
    Effect s sender call t := by
  cases call with
  | transferFrom => exact transferFrom_effect h
  | transfer =>
    obtain ⟨hcan, u, hu, rfl⟩ := move_eq_ok.mp h
    exact .transfer hcan hu
  | approve =>
    cases h
    exact .approve
  | mint =>
    simp only [Token.exec, Token.mint, Token.onlyOwner, bind_eq_ok, require_eq_ok,
      checked_eq_ok, Checked.add_eq_some, decide_eq_true_eq] at h
    obtain ⟨_, howner, _, hholder, raised, hraised, _, hcap, supply, hsupply, u, hu, h⟩ := h
    cases h
    obtain rfl : supply = raised := Fin.ext (hsupply.trans hraised.symm)
    exact .mint howner hholder hsupply hcap hu
  | burn =>
    simp only [Token.exec, Token.burn, Token.onlyOwner, bind_eq_ok, require_eq_ok,
      checked_eq_ok, Checked.sub_eq_some, decide_eq_true_eq] at h
    obtain ⟨_, howner, _, _, u, hu, supply, hsupply, h⟩ := h
    cases h
    exact .burn howner hu hsupply
  | forceTransfer =>
    simp only [Token.exec, Token.forceTransfer, Token.onlyOwner, bind_eq_ok, require_eq_ok,
      decide_eq_true_eq] at h
    obtain ⟨_, howner, _, hholder, _, _, v, hv, u, hu, h⟩ := h
    cases h
    exact .forceTransfer howner hholder ⟨v, hv, hu⟩
  | proposeOwner next =>
    simp only [Token.exec, Token.proposeOwner, Token.onlyOwner, bind_eq_ok, require_eq_ok,
      decide_eq_true_eq] at h
    obtain ⟨_, howner, _, hnext, h⟩ := h
    cases h
    exact .proposeOwner howner hnext
  | acceptOwnership =>
    simp only [Token.exec, Token.acceptOwnership, bind_eq_ok, require_eq_ok,
      decide_eq_true_eq] at h
    obtain ⟨_, hsender, h⟩ := h
    cases h
    exact .acceptOwnership hsender
  | addHolder a =>
    simp only [Token.exec, Token.addHolder, Token.onlyOwner, bind_eq_ok, require_eq_ok,
      decide_eq_true_eq, Bool.not_eq_true'] at h
    obtain ⟨_, howner, _, hzero, _, hnew, h⟩ := h
    cases h
    exact .addHolder howner hzero hnew
  | removeHolder a =>
    simp only [Token.exec, Token.removeHolder, Token.onlyOwner, bind_eq_ok, require_eq_ok,
      decide_eq_true_eq] at h
    obtain ⟨_, howner, _, hholder, _, hbalance, h⟩ := h
    cases h
    exact .removeHolder howner hholder hbalance
  | freeze a =>
    simp only [Token.exec, Token.freeze, Token.onlyOwner, bind_eq_ok, require_eq_ok,
      decide_eq_true_eq, Bool.not_eq_true'] at h
    obtain ⟨_, howner, _, hfrozen, h⟩ := h
    cases h
    exact .freeze howner hfrozen
  | unfreeze a =>
    simp only [Token.exec, Token.unfreeze, Token.onlyOwner, bind_eq_ok, require_eq_ok,
      decide_eq_true_eq] at h
    obtain ⟨_, howner, _, hfrozen, h⟩ := h
    cases h
    exact .unfreeze howner hfrozen
  | pause =>
    simp only [Token.exec, Token.pause, Token.onlyOwner, bind_eq_ok, require_eq_ok,
      decide_eq_true_eq, Bool.not_eq_true'] at h
    obtain ⟨_, howner, _, hpaused, h⟩ := h
    cases h
    exact .pause howner hpaused
  | unpause =>
    simp only [Token.exec, Token.unpause, Token.onlyOwner, bind_eq_ok, require_eq_ok,
      decide_eq_true_eq] at h
    obtain ⟨_, howner, _, hpaused, h⟩ := h
    cases h
    exact .unpause howner hpaused

/-- A call either does what its function does, or reverts and changes nothing. -/
theorem after_cases (s : Token) (m : Message) :
    s.after m = s ∨ Effect s m.sender m.call (s.after m) := by
  unfold Token.after
  split
  · next t ht => exact .inr (exec_effect ht)
  · exact .inl rfl

end OpenFireblocks.PermissionedToken
