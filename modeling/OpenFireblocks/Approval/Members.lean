import OpenFireblocks.Approval.Database
import OpenFireblocks.Lib.RowLocks

/-!
# Changing the members of an organisation

`setMember` and `removeMember` of `approvals/approvals.service.ts`, behind the role check of
`TenantRoleGuard`. A call is a thread and each of its steps is one statement; calls take turns at the
statements, as they do under `READ COMMITTED`.

* A statement sees what was committed when it began. `SELECT ... FOR UPDATE` then waits for the
  row it saw, and returns it as it is by then, or nothing if it was deleted meanwhile. A row that
  was deleted and inserted again is another row, which `generation` tells apart.
* `INSERT ... ON CONFLICT DO UPDATE` waits for whoever holds the row or is inserting it, and then
  updates what is there.
* `SELECT COUNT(*)` waits for nobody and locks nothing.
* What a transaction wrote takes effect when it commits. It may also end early at any step.

`assertNotLastAdmin` counts the committed admins, also those whom another transaction is about to
remove. `Safe` says which calls must not overlap for an admin to be left.
-/

namespace OpenFireblocks.Approval.Members

open Threads Machine

variable {U : Type} [DecidableEq U]

/-! ## The table -/

/-- A row of `user_customer_roles`. -/
structure MemberRow (U : Type) where
  userID : U
  customerID : U
  role : Role
  generation : Nat

def MemberRow.key (row : MemberRow U) : U × U := (row.userID, row.customerID)

/-- The committed rows and the locks on them, with the accounts by their email. -/
structure MemberTable (U : Type) where
  rows : List (MemberRow U)
  primaryKey : (rows.map MemberRow.key).Nodup
  /-- an open transaction has locked or inserted the row of this user and customer -/
  locked : U × U → Bool
  nextGeneration : Nat
  /-- `SELECT id FROM users WHERE email = ... AND status = 'active'` -/
  accounts : String → Option U

namespace MemberTable

variable (x : MemberTable U) (key : U × U)

def find : Option (MemberRow U) :=
  x.rows.find? fun r => r.key = key

def roleOf : Option Role := (x.find key).map MemberRow.role

/-- `SELECT COUNT(*) ... WHERE customer_id = ... AND role = 'admin'`. -/
def countAdmins (customerID : U) : Nat :=
  (x.rows.filter fun r => r.customerID = customerID ∧ r.role = .admin).length

variable {x key} in
theorem find_eq_none : x.find key = none ↔ key ∉ x.rows.map MemberRow.key := by
  simp [find]

def erase : MemberTable U :=
  { x with
    rows := x.rows.filter fun r => r.key ≠ key
    primaryKey := (List.filter_sublist.map _).nodup x.primaryKey }

theorem find_erase_self : (x.erase key).find key = none := by
  rw [find_eq_none]
  simp [erase]

def append (row : MemberRow U) (h : x.find row.key = none) : MemberTable U :=
  { x with
    rows := x.rows ++ [row]
    primaryKey := by
      rw [List.map_append, List.nodup_append]
      refine ⟨x.primaryKey, by simp, ?_⟩
      rintro key hkey _ hrow rfl
      rw [List.map_singleton, List.mem_singleton] at hrow
      exact find_eq_none.mp h (hrow ▸ hkey) }

variable {x key} in
theorem find_key {row : MemberRow U} (h : x.find key = some row) : row.key = key := by
  simpa using List.find?_some h

def put (role : Role) : MemberTable U :=
  match h : x.find key with
  | some row =>
    (x.erase key).append { row with role := role } (by
      have hkey : row.key = key := find_key h
      have hkey : MemberRow.key { row with role := role } = key := hkey
      rw [hkey, find_erase_self])
  | none =>
    { x.append ⟨key.1, key.2, role, x.nextGeneration⟩ h with
      nextGeneration := x.nextGeneration + 1 }

def setLock (held : Bool) : MemberTable U :=
  { x with locked := Function.update x.locked key held }

end MemberTable

/-! ## Calls -/

/-- What a transaction does to a row. -/
inductive Change where
  | set (role : Role)
  | remove
deriving DecidableEq

/-- The row is not an admin's afterwards. -/
def Change.Demotes (change : Change) : Prop := change ≠ .set .admin

instance (change : Change) : Decidable change.Demotes := inferInstanceAs (Decidable (_ ≠ _))

structure Target (U : Type) where
  userID : U
  customerID : U
  change : Change

def Target.key (t : Target U) : U × U := (t.userID, t.customerID)

/-- What an admin asks for. -/
inductive MemberRequest (U : Type) where
  | setMember (email : String) (role : Role)
  | removeMember (userID : U)

inductive MemberCall (U : Type) where
  /-- `TenantRoleGuard` reads the role of the caller. -/
  | guarding (caller customerID : U) (request : MemberRequest U)
  /-- `setMember` looks up the account. -/
  | lookingUp (customerID : U) (email : String) (role : Role)
  /-- The transaction is open and `SELECT ... FOR UPDATE` begins. -/
  | selecting (t : Target U)
  /-- `SELECT ... FOR UPDATE` has seen a row and waits for its lock. -/
  | waiting (t : Target U) (generation : Nat)
  /-- `assertNotLastAdmin`. -/
  | counting (t : Target U)
  /-- The row is written; `seen` is what the `SELECT` returned. -/
  | writing (t : Target U) (seen : Option Role)
  /-- The transaction has written; `old` is the committed role. -/
  | written (t : Target U) (old : Option Role)

/-- What follows the `SELECT`. A `removeMember` that finds no row is rolled back. -/
def Target.afterSelect (t : Target U) (current : Option Role) : Option (MemberCall U) :=
  match t.change with
  | .set role =>
    if current = some .admin ∧ role ≠ .admin then some (.counting t) else some (.writing t current)
  | .remove =>
    match current with
    | none => none
    | some role => if role = .admin then some (.counting t) else some (.writing t (some role))

/-- What a transaction does when it commits. -/
def Target.apply (t : Target U) (x : MemberTable U) : MemberTable U :=
  match t.change with
  | .set role => x.put t.key role
  | .remove => x.erase t.key

def MemberCall.advance (x : MemberTable U) :
    MemberCall U → Option (MemberTable U × Option (MemberCall U))
  | .guarding caller customerID request =>
    if x.roleOf (caller, customerID) = some .admin then
      match request with
      | .setMember email role => some (x, some (.lookingUp customerID email role))
      | .removeMember userID => some (x, some (.selecting ⟨userID, customerID, .remove⟩))
    else some (x, none)
  | .lookingUp customerID email role =>
    match x.accounts email.toLower with
    | some userID => some (x, some (.selecting ⟨userID, customerID, .set role⟩))
    | none => some (x, none)
  | .selecting t =>
    match x.find t.key with
    | some row => some (x, some (.waiting t row.generation))
    | none => some (x, t.afterSelect none)
  | .waiting t generation =>
    if x.locked t.key then none
    else
      match x.find t.key with
      | some row =>
        if row.generation = generation then
          some (x.setLock t.key true, t.afterSelect (some row.role))
        else some (x, t.afterSelect none)
      | none => some (x, t.afterSelect none)
  | .counting t =>
    if x.countAdmins t.customerID ≤ 1 then some (x.setLock t.key false, none)
    else some (x, some (.writing t (some .admin)))
  | .writing t seen =>
    if seen.isNone ∧ x.locked t.key then none
    else some (x.setLock t.key true, some (.written t (x.roleOf t.key)))
  | .written t _ => some ((t.apply x).setLock t.key false, none)

def MemberCall.heldKey : MemberCall U → Option (U × U)
  | .counting t => some t.key
  | .writing t (some _) => some t.key
  | .written t _ => some t.key
  | _ => none

/-- The call ends early and its transaction is rolled back. -/
def MemberCall.abort (x : MemberTable U) (call : MemberCall U) : MemberTable U :=
  match call.heldKey with
  | some key => x.setLock key false
  | none => x

inductive MemberAction (U : Type) where
  | call (caller customerID : U) (request : MemberRequest U)
  | advance
  | abort

def memberNext (x : MemberTable U) :
    Option (MemberCall U) → MemberAction U → Option (MemberTable U × Option (MemberCall U))
  | none, .call caller customerID request => some (x, some (.guarding caller customerID request))
  | some call, .advance => call.advance x
  | some call, .abort => some (call.abort x, none)
  | _, _ => none

abbrev MemberSystem (U : Type) := Threads.System (MemberTable U) (MemberCall U)

/-! ## What a step does -/

inductive Moves (x : MemberTable U) : Option (MemberCall U) → MemberAction U → MemberTable U →
    Option (MemberCall U) → Prop
  /-- The call holds no lock, before and after. -/
  | free {l a l'} (hl : ∀ m, l = some m → m.heldKey = none) (hl' : ∀ m, l' = some m → m.heldKey = none) :
    Moves x l a x l'
  /-- `SELECT ... FOR UPDATE` gets its row. -/
  | lock {t generation role m} (hfree : x.locked t.key = false)
    (hrole : x.roleOf t.key = some role)
    (hm : (m = .counting t ∧ role = .admin) ∨
      (m = .writing t (some role) ∧ ¬(role = .admin ∧ t.change.Demotes))) :
    Moves x (some (.waiting t generation)) .advance (x.setLock t.key true) (some m)
  /-- The check passes. -/
  | pass {t} (hcount : 1 < x.countAdmins t.customerID) :
    Moves x (some (.counting t)) .advance x (some (.writing t (some .admin)))
  | write {t seen} (hfree : seen = none → x.locked t.key = false) :
    Moves x (some (.writing t seen)) .advance (x.setLock t.key true)
      (some (.written t (x.roleOf t.key)))
  | commit {t old} :
    Moves x (some (.written t old)) .advance ((t.apply x).setLock t.key false) none
  /-- The transaction is rolled back. -/
  | rollback {m a key} (hm : m.heldKey = some key) : Moves x (some m) a (x.setLock key false) none

variable {t : Target U} {m : MemberCall U} {l : Option (MemberCall U)} {a : MemberAction U}
  {s : MemberSystem U} {i : Nat} {customerID : U}

omit [DecidableEq U] in
theorem heldKey_afterSelect_none (h : t.afterSelect none = some m) : m.heldKey = none := by
  unfold Target.afterSelect at h
  split at h
  · simp only [reduceCtorEq, false_and, if_false, Option.some.injEq] at h
    rw [← h]
    rfl
  · cases h

omit [DecidableEq U] in
theorem afterSelect_some (t : Target U) (role : Role) :
    ∃ m, t.afterSelect (some role) = some m ∧
      ((m = .counting t ∧ role = .admin) ∨
        (m = .writing t (some role) ∧ ¬(role = .admin ∧ t.change.Demotes))) := by
  unfold Target.afterSelect
  split
  · next new hchange =>
    split
    · next h => exact ⟨_, rfl, .inl ⟨rfl, by simpa using h.1⟩⟩
    next h =>
    refine ⟨_, rfl, .inr ⟨rfl, ?_⟩⟩
    rintro ⟨rfl, hdemotes⟩
    refine h ⟨rfl, ?_⟩
    rintro rfl
    exact hdemotes hchange
  · simp only
    split
    · next h => exact ⟨_, rfl, .inl ⟨rfl, h⟩⟩
    · next h => exact ⟨_, rfl, .inr ⟨rfl, fun h' => h h'.1⟩⟩

variable {x y : MemberTable U} {l' : Option (MemberCall U)}

theorem moves_of_advance {call : MemberCall U} (h : call.advance x = some (y, l')) :
    Moves x (some call) .advance y l' := by
  cases call with
  | guarding | lookingUp | selecting =>
    -- no row is locked yet
    simp only [MemberCall.advance] at h
    repeat' split at h
    all_goals
      cases h
      refine .free (by rintro m ⟨⟩; rfl) fun m hm => ?_
      first | exact heldKey_afterSelect_none hm | (cases hm; rfl) | cases hm
  | waiting t generation =>
    simp only [MemberCall.advance] at h
    split at h
    · cases h
    next hfree =>
    split at h
    · next row hrow =>
      split at h
      · obtain ⟨m, hm, hcases⟩ := afterSelect_some t row.role
        rw [hm] at h
        cases h
        exact .lock (by simpa using hfree) (by rw [MemberTable.roleOf, hrow]; rfl) hcases
      · cases h
        exact .free (by rintro m ⟨⟩; rfl) fun m hm => heldKey_afterSelect_none hm
    · cases h
      exact .free (by rintro m ⟨⟩; rfl) fun m hm => heldKey_afterSelect_none hm
  | counting t =>
    simp only [MemberCall.advance] at h
    split at h
    · cases h
      exact .rollback rfl
    · next hcount =>
      cases h
      exact .pass (by omega)
  | writing =>
    simp only [MemberCall.advance] at h
    split at h
    · cases h
    next hfree =>
    cases h
    refine .write fun hseen => ?_
    simpa [hseen] using hfree
  | written =>
    cases h
    exact .commit

theorem moves_of_next (h : memberNext x l a = some (y, l')) : Moves x l a y l' := by
  match l, a with
  | none, .call caller customerID request =>
    cases h
    exact .free (by rintro m ⟨⟩) (by rintro m ⟨⟩; rfl)
  | some call, .advance => exact moves_of_advance h
  | some call, .abort =>
    cases h
    unfold MemberCall.abort
    split
    · next key hkey => exact .rollback hkey
    · next hkey => exact .free (by rintro m ⟨⟩; exact hkey) (by rintro m ⟨⟩)
  | none, .advance | none, .abort | some _, .call _ _ _ => cases h

/-! ## The table after a step -/

namespace MemberTable

variable (x) (key key' : U × U)

@[simp] theorem roleOf_setLock (held : Bool) :
    (x.setLock key held).roleOf key' = x.roleOf key' := rfl

theorem find_append {row : MemberRow U} (h : x.find row.key = none) :
    (x.append row h).find key = if key = row.key then some row else x.find key := by
  by_cases hkey : key = row.key
  · subst hkey
    have hnone : x.rows.find? (fun r => r.key = row.key) = none := h
    rw [find, append, List.find?_append, hnone]
    simp
  · rw [if_neg hkey, find, append]
    simp [find, Ne.symm hkey]

variable {key key'} in
theorem find_erase_of_ne (h : key' ≠ key) :
    (x.erase key).find key' = x.find key' := by
  simp only [find, erase, List.find?_filter]
  congr 1
  funext r
  by_cases hr : r.key = key'
  · simp [hr, h]
  · simp [hr]

theorem roleOf_put (role : Role) :
    (x.put key role).roleOf key' = if key' = key then some role else x.roleOf key' := by
  unfold put
  split
  · next row hrow =>
    have hkey : row.key = key := find_key hrow
    have hkey : MemberRow.key { row with role := role } = key := hkey
    rw [roleOf, find_append, hkey]
    split
    · rfl
    · next hne => rw [find_erase_of_ne x hne, roleOf]
  · next hrow =>
    have hkey : MemberRow.key ⟨key.1, key.2, role, x.nextGeneration⟩ = key := rfl
    have hfind := @find_append U _ x key' ⟨key.1, key.2, role, x.nextGeneration⟩ hrow
    rw [hkey] at hfind
    simp only [roleOf, find] at hfind ⊢
    rw [hfind]
    split <;> rfl

variable {x} in
theorem roleOf_of_mem {row : MemberRow U} (h : row ∈ x.rows) :
    x.roleOf row.key = some row.role := by
  cases hfind : x.find row.key with
  | none => exact absurd (List.mem_map_of_mem h) (find_eq_none.mp hfind)
  | some row' =>
    have hmem : row' ∈ x.rows := List.mem_of_find?_eq_some hfind
    rw [roleOf, hfind, List.inj_on_of_nodup_map x.primaryKey hmem h (find_key hfind)]
    rfl

end MemberTable

theorem roleOf_apply_of_ne (t : Target U) (x : MemberTable U) {key : U × U} (h : key ≠ t.key) :
    (t.apply x).roleOf key = x.roleOf key := by
  unfold Target.apply
  split
  · rw [MemberTable.roleOf_put, if_neg h]
  · rw [MemberTable.roleOf, MemberTable.find_erase_of_ne x h, MemberTable.roleOf]

theorem roleOf_apply_of_not_demotes (x : MemberTable U) (h : ¬t.change.Demotes) :
    (t.apply x).roleOf t.key = some .admin := by
  have hchange : t.change = .set .admin := not_not.mp h
  unfold Target.apply
  rw [hchange]
  simp only [MemberTable.roleOf_put, if_true]

/-! ## The admins that will be left -/

/-- The call takes away an admin's role when it commits. -/
def MemberCall.Dooms (call : MemberCall U) (key : U × U) : Prop :=
  ∃ t, t.key = key ∧ t.change.Demotes ∧
    (call = .writing t (some .admin) ∨ call = .written t (some .admin))

/--
Which calls may not overlap. When the check passes, no other open transaction has passed its own and
takes an admin of the organisation away. When a member is demoted whom the `SELECT` did not find, no
other call has made that member an admin meanwhile.
-/
def Safe (s : MemberSystem U) (e : Nat × MemberAction U) : Prop :=
  match s.threads e.1, e.2 with
  | some (.counting t), .advance => 1 < s.shared.countAdmins t.customerID →
      s.Others e.1 fun call => ∀ userID, ¬call.Dooms (userID, t.customerID)
  | some (.writing t none), .advance => t.change.Demotes → s.shared.roleOf t.key ≠ some .admin
  | _, _ => True

/-- The organisation has an admin whom no open transaction takes away. -/
def KeepsAdmin (customerID : U) (s : MemberSystem U) : Prop :=
  ∃ userID, s.shared.roleOf (userID, customerID) = some .admin ∧
    ∀ j call, s.threads j = some call → ¬call.Dooms (userID, customerID)

/-! ## Locks -/

def MemberCall.relied : MemberCall U → Option (Option Role)
  | .counting _ => some (some .admin)
  | .writing _ (some role) => some (some role)
  | .written _ old => some old
  | _ => none

def locking : Locking (MemberTable U) (MemberCall U) (U × U) where
  locked := fun x key => x.locked key = true
  holds := fun m key => m.heldKey = some key
  relies := fun x m key => ∀ role, m.relied = some role → x.roleOf key = role

theorem steps_of_moves
    (hown : ∀ m key, l = some m → locking.holds m key → locking.locked x key ∧ locking.relies x m key)
    (h : Moves x l a y l') : locking.Steps x l y l' := by
  cases h with
  | free hl hl' =>
    refine ⟨?_, fun m key _ hlocked hrelies => ⟨hlocked, hrelies⟩, ?_⟩
    · intro m key hm hkey
      cases (hl' m hm).symm.trans hkey
    · intro m key hm hkey
      cases (hl' m hm).symm.trans hkey
  | @lock t generation role n hfree hrole hn =>
    have hkey : n.heldKey = some t.key := by
      rcases hn with ⟨rfl, -⟩ | ⟨rfl, -⟩ <;> rfl
    have hrelied : n.relied = some (some role) := by
      rcases hn with ⟨rfl, rfl⟩ | ⟨rfl, -⟩ <;> rfl
    refine ⟨?_, ?_, ?_⟩
    · rintro m key ⟨⟩ hm
      obtain rfl := Option.mem_unique hkey hm
      refine ⟨Function.update_self _ _ _, fun r hr => ?_⟩
      rw [← Option.mem_unique hrelied hr]
      exact hrole
    · intro m key _ hlocked hrelies
      have hne : key ≠ t.key := by
        rintro rfl
        exact Bool.false_ne_true (hfree.symm.trans hlocked)
      exact ⟨(Function.update_of_ne hne _ _).trans hlocked, hrelies⟩
    · rintro m key ⟨⟩ hm
      obtain rfl := Option.mem_unique hkey hm
      exact .inr fun hlocked => Bool.false_ne_true (hfree.symm.trans hlocked)
  | @pass t hcount =>
    refine ⟨?_, fun m key _ hlocked hrelies => ⟨hlocked, hrelies⟩, ?_⟩
    · rintro m key ⟨⟩ hm
      exact hown (.counting t) key rfl hm
    · rintro m key ⟨⟩ hm
      exact .inl ⟨_, rfl, hm⟩
  | @write t seen hfree =>
    refine ⟨?_, ?_, ?_⟩
    · rintro m key ⟨⟩ hm
      cases hm
      exact ⟨Function.update_self _ _ _, fun r hr => Option.some.inj hr⟩
    · intro m key hothers hlocked hrelies
      have hne : key ≠ t.key := by
        rintro rfl
        cases seen with
        | none => exact Bool.false_ne_true ((hfree rfl).symm.trans hlocked)
        | some role => exact hothers _ rfl rfl
      exact ⟨(Function.update_of_ne hne _ _).trans hlocked, hrelies⟩
    · rintro m key ⟨⟩ hm
      cases hm
      cases seen with
      | none => exact .inr fun hlocked => Bool.false_ne_true ((hfree rfl).symm.trans hlocked)
      | some role => exact .inl ⟨_, rfl, rfl⟩
  | @commit t old =>
    refine ⟨by rintro m key ⟨⟩, ?_, by rintro m key ⟨⟩⟩
    intro m key hothers hlocked hrelies
    have hne : key ≠ t.key := fun h => hothers _ rfl (congrArg some h.symm)
    refine ⟨?_, fun r hr => ?_⟩
    · have hsame : (t.apply x).locked = x.locked := by
        unfold Target.apply MemberTable.put
        split
        · split <;> rfl
        · rfl
      exact (Function.update_of_ne hne _ _).trans ((congrFun hsame key).trans hlocked)
    · rw [MemberTable.roleOf_setLock, roleOf_apply_of_ne t x hne]
      exact hrelies r hr
  | @rollback n a' key' hn =>
    refine ⟨by rintro m key ⟨⟩, ?_, by rintro m key ⟨⟩⟩
    intro m key hothers hlocked hrelies
    have hne : key ≠ key' := fun h => hothers _ rfl (hn.trans (congrArg some h.symm))
    exact ⟨(Function.update_of_ne hne _ _).trans hlocked, hrelies⟩

/-! ## An admin is left -/

omit [DecidableEq U] in
theorem heldKey_of_dooms {key : U × U} (h : m.Dooms key) : m.heldKey = some key := by
  obtain ⟨t, rfl, -, rfl | rfl⟩ := h <;> rfl

theorem keepsAdmin_update {userID : U} (hrole : y.roleOf (userID, customerID) = some .admin)
    (hold : ∀ j call, s.threads j = some call → ¬call.Dooms (userID, customerID))
    (hnew : ∀ m, l' = some m → ¬m.Dooms (userID, customerID)) :
    KeepsAdmin customerID ⟨y, Function.update s.threads i l'⟩ := by
  refine ⟨userID, hrole, fun j call hj => ?_⟩
  rcases update_eq_some hj with ⟨-, hl⟩ | ⟨-, hj⟩
  · exact hnew call hl
  · exact hold j call hj

/-- Of two admins one is not the member the call is about. -/
theorem exists_other_admin (h : 1 < x.countAdmins customerID) (userID : U) :
    ∃ other, other ≠ userID ∧ x.roleOf (other, customerID) = some .admin := by
  have hnodup : ((x.rows.filter fun r => r.customerID = customerID ∧ r.role = .admin).map
      MemberRow.key).Nodup := (List.filter_sublist.map _).nodup x.primaryKey
  have hadmin : ∀ row ∈ x.rows.filter fun r => r.customerID = customerID ∧ r.role = .admin,
      x.roleOf (row.userID, customerID) = some .admin ∧ row.key = (row.userID, customerID) := by
    intro row hrow
    obtain ⟨hmem, hof⟩ := List.mem_filter.mp hrow
    obtain ⟨rfl, hrole⟩ := of_decide_eq_true hof
    exact ⟨hrole ▸ MemberTable.roleOf_of_mem hmem, rfl⟩
  unfold MemberTable.countAdmins at h
  match hrows : x.rows.filter fun r => r.customerID = customerID ∧ r.role = .admin with
  | [] | [_] =>
    rw [hrows] at h
    simp at h
  | first :: second :: rest =>
    rw [hrows] at hnodup hadmin
    obtain ⟨hfirst, hkey⟩ := hadmin first (by simp)
    obtain ⟨hsecond, hkey'⟩ := hadmin second (by simp)
    by_cases hne : first.userID = userID
    · refine ⟨second.userID, fun he => ?_, hsecond⟩
      simp [hkey, hkey', hne, he] at hnodup
    · exact ⟨first.userID, hne, hfirst⟩

/-- **The check leaves an admin.** It has counted two, and nobody else takes one away. -/
theorem keepsAdmin_of_count (hi : s.threads i = some (.counting t))
    (hcount : 1 < s.shared.countAdmins t.customerID)
    (hothers : s.Others i fun call => ∀ userID, ¬call.Dooms (userID, t.customerID))
    (hkeeps : KeepsAdmin customerID s) :
    KeepsAdmin customerID ⟨s.shared, Function.update s.threads i (some (.writing t (some .admin)))⟩ := by
  by_cases hc : customerID = t.customerID
  · subst hc
    obtain ⟨userID, hne, hrole⟩ := exists_other_admin hcount t.userID
    refine keepsAdmin_update hrole (fun j call hj => ?_) ?_
    · by_cases hji : j = i
      · subst hji
        obtain rfl := Option.mem_unique hi hj
        rintro ⟨_, -, -, h | h⟩ <;> cases h
      · exact hothers j call hji hj userID
    · rintro _ ⟨⟩ hdooms
      exact hne (congrArg Prod.fst (Option.some.inj (heldKey_of_dooms hdooms))).symm
  · -- the check does not concern other organisations
    obtain ⟨userID, hrole, hold⟩ := hkeeps
    refine keepsAdmin_update hrole hold ?_
    rintro _ ⟨⟩ hdooms
    exact hc (congrArg Prod.snd (Option.some.inj (heldKey_of_dooms hdooms))).symm

theorem keepsAdmin_step (hlocks : locking.outline.Holds s) (hkeeps : KeepsAdmin customerID s)
    (hsafe : Safe s (i, a)) (hl : s.threads i = l) (h : Moves s.shared l a y l') :
    KeepsAdmin customerID ⟨y, Function.update s.threads i l'⟩ := by
  obtain ⟨userID, hrole, hold⟩ := hkeeps
  cases h with
  | free _ hl' =>
    refine keepsAdmin_update hrole hold fun m hm hdooms => ?_
    cases (hl' m hm).symm.trans (heldKey_of_dooms hdooms)
  | @lock t generation role m hfree hrole' hm =>
    refine keepsAdmin_update hrole hold ?_
    rintro _ ⟨⟩ ⟨t', -, hdemotes, hcall⟩
    rcases hm with ⟨rfl, -⟩ | ⟨rfl, hnot⟩
    · rcases hcall with hcall | hcall <;> cases hcall
    rcases hcall with hcall | hcall
    · cases hcall
      exact hnot ⟨rfl, hdemotes⟩
    · cases hcall
  | @pass t hcount =>
    simp only [Safe, hl] at hsafe
    exact keepsAdmin_of_count hl hcount (hsafe hcount) ⟨userID, hrole, hold⟩
  | @write t seen hfree =>
    by_cases hadmin : s.shared.roleOf t.key = some .admin ∧ t.change.Demotes
    · cases seen with
      | none =>
        simp only [Safe, hl] at hsafe
        exact absurd hadmin.1 (hsafe hadmin.2)
      | some role =>
        -- the row is locked, so it is still the admin's that was seen
        have hseen := (hlocks.thread hl t.key rfl).2 (some role) rfl
        obtain rfl : role = .admin := Option.mem_unique hseen hadmin.1
        refine keepsAdmin_update hrole hold ?_
        rintro _ ⟨⟩ ⟨t', hkey, hdemotes, hcall⟩
        rcases hcall with hcall | hcall
        · cases hcall
        injection hcall with ht _
        subst ht
        exact hold i _ hl ⟨t, hkey, hdemotes, .inl rfl⟩
    · refine keepsAdmin_update hrole hold ?_
      rintro _ ⟨⟩ ⟨t', -, hdemotes, hcall⟩
      rcases hcall with hcall | hcall
      · cases hcall
      injection hcall with ht hold'
      subst ht
      exact hadmin ⟨hold', hdemotes⟩
  | @commit t old =>
    refine keepsAdmin_update ?_ hold (by rintro _ ⟨⟩)
    rw [MemberTable.roleOf_setLock]
    by_cases hkey : (userID, customerID) = t.key
    · by_cases hdemotes : t.change.Demotes
      · have hseen := (hlocks.thread hl t.key rfl).2 old rfl
        rw [← hkey, hrole] at hseen
        subst hseen
        exact absurd ⟨t, hkey.symm, hdemotes, .inr rfl⟩ (hold i _ hl)
      · rw [hkey]
        exact roleOf_apply_of_not_demotes _ hdemotes
    · rw [roleOf_apply_of_ne t _ hkey]
      exact hrole
  | rollback _ => exact keepsAdmin_update hrole hold (by rintro _ ⟨⟩)

structure Initial (customerID : U) (s : MemberSystem U) : Prop where
  idle : ∀ i, s.threads i = none
  admin : ∃ row ∈ s.shared.rows, row.customerID = customerID ∧ row.role = .admin

/--
**An organisation that has an admin keeps one**, in every state that a run reaches whose steps are
all safe.
-/
theorem exists_admin_of_run {customerID : U} {s t : MemberSystem U}
    {es : List (Nat × MemberAction U)} (hs : Initial customerID s)
    (hsafe : Guarded (Threads.step memberNext) Safe s es)
    (h : run (Threads.step memberNext) s es = some t) :
    ∃ row ∈ t.shared.rows, row.customerID = customerID ∧ row.role = .admin := by
  have hinv : locking.outline.Holds t ∧ KeepsAdmin customerID t := by
    refine run_guarded_invariant (P := fun s => locking.outline.Holds s ∧ KeepsAdmin customerID s)
      ?_ ?_ hsafe h
    · rintro s t ⟨i, a⟩ ⟨hlocks, hkeeps⟩ hsafe hstep
      obtain ⟨y, l', hnext, rfl⟩ := step_eq_some.mp hstep
      have hmoves := moves_of_next hnext
      exact ⟨(steps_of_moves (fun m key hm => hlocks.thread hm key) hmoves).holds hlocks,
        keepsAdmin_step hlocks hkeeps hsafe rfl hmoves⟩
    · obtain ⟨row, hrow, rfl, hadmin⟩ := hs.admin
      have hnone : ∀ {j call}, s.threads j = some call → False := by
        intro j call hj
        cases (hs.idle j).symm.trans hj
      refine ⟨⟨trivial, fun hj => (hnone hj).elim, fun _ hj => (hnone hj).elim⟩, row.userID, ?_,
        fun j call hj => (hnone hj).elim⟩
      rw [← hadmin]
      exact MemberTable.roleOf_of_mem hrow
  obtain ⟨-, userID, hrole, -⟩ := hinv
  obtain ⟨row, hrow, hadmin⟩ := Option.map_eq_some_iff.mp hrole
  exact ⟨row, List.mem_of_find?_eq_some hrow, congrArg Prod.snd (MemberTable.find_key hrow), hadmin⟩

/-! ## Two admins -/

def twoAdmins : MemberSystem Nat :=
  System.idle
    { rows := [⟨1, 0, .admin, 0⟩, ⟨2, 0, .admin, 1⟩]
      primaryKey := by decide
      locked := fun _ => false
      nextGeneration := 2
      accounts := fun _ => none }

theorem initial_twoAdmins : Initial 0 twoAdmins :=
  ⟨fun _ => rfl, ⟨1, 0, .admin, 0⟩, by simp [twoAdmins, System.idle]⟩

/-- One of them removes the other, and nobody else is at it. -/
def removal : List (Nat × MemberAction Nat) :=
  [.call 1 0 (.removeMember 2), .advance, .advance, .advance, .advance, .advance, .advance].map
    (Prod.mk 0)

theorem guarded_removal : Guarded (Threads.step memberNext) Safe twoAdmins removal := by
  refine guarded_cons rfl trivial (guarded_cons rfl trivial (guarded_cons rfl trivial
    (guarded_cons rfl trivial (guarded_cons rfl ?_ (guarded_cons rfl trivial
      (guarded_cons rfl trivial trivial))))))
  -- when the check passes, nobody else is at it
  rintro - j call hj hcall
  rcases j with _ | j
  · exact absurd rfl hj
  · cases hcall

theorem exists_admin_of_run_removal :
    ∃ t, run (Threads.step memberNext) twoAdmins removal = some t ∧ t.shared.rows = [⟨1, 0, .admin, 0⟩] ∧
      ∃ row ∈ t.shared.rows, row.customerID = 0 ∧ row.role = .admin :=
  ⟨_, rfl, rfl, exists_admin_of_run initial_twoAdmins guarded_removal rfl⟩

/-- Each removes the other, and both count before either has removed. -/
def mutualRemoval : List (Nat × MemberAction Nat) :=
  [(0, .call 1 0 (.removeMember 2)), (1, .call 2 0 (.removeMember 1)), (0, .advance),
    (1, .advance), (0, .advance), (1, .advance), (0, .advance), (1, .advance), (0, .advance),
    (1, .advance), (0, .advance), (1, .advance), (0, .advance), (1, .advance)]

/-- Nobody is left. -/
theorem no_admin_after_mutualRemoval :
    Initial 0 twoAdmins ∧
      ∃ t, run (Threads.step memberNext) twoAdmins mutualRemoval = some t ∧
        ¬∃ row ∈ t.shared.rows, row.customerID = 0 ∧ row.role = .admin := by
  refine ⟨initial_twoAdmins, _, rfl, ?_⟩
  rintro ⟨row, hrow, -⟩
  cases hrow

end OpenFireblocks.Approval.Members
