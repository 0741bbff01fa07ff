import OpenFireblocks.Party.Sections

/-!
# What the process does to one ceremony

Everything the party keeps for a ceremony id is under that id, so an argument about one ceremony
looks at one `View` of the manager, and a critical section that writes under another id leaves
that view alone (`view_apply_of_target_ne`). A task has a `Role` for the ceremony: it generates
its key, refreshes it, restores it, retires it, or has nothing to do with it.
-/

namespace OpenFireblocks.Party

open Threads

variable {S : Type}

/-! ## Views -/

structure View (S : Type) where
  current : Option Nat
  get : Nat → Option (KeygenCeremony S)
  sealedShare : Option (SealedShare S)

section

variable (m : Manager S) (c : String)

def Manager.view : View S :=
  ⟨m.ceremonies.current c, m.ceremonies.get c, m.store c⟩

@[simp] theorem view_current : (m.view c).current = m.ceremonies.current c := rfl

@[simp] theorem view_sealedShare : (m.view c).sealedShare = m.store c := rfl

end

theorem view_congr {m m' : Manager S} {c : String}
    (h1 : m'.ceremonies.current c = m.ceremonies.current c)
    (h2 : ∀ n, m'.ceremonies.get c n = m.ceremonies.get c n) (h3 : m'.store c = m.store c) :
    m'.view c = m.view c := by
  unfold Manager.view
  rw [h1, funext h2, h3]

def Effect.target : Effect S → Option String
  | .registerKeygen id _ | .failKeygen id _ _ | .recordKeygen id _ _ _ _ _
  | .replaceShare id _ _ _ _ | .forget id | .writeSealed id _ | .destroySealed id => some id
  | _ => none

/-- **A write under another id leaves the view of a ceremony alone.** -/
theorem view_apply_of_target_ne {e : Effect S} {m : Manager S} {c : String}
    (h : e.target ≠ some c) : (e.apply m).view c = m.view c := by
  cases e with
  | registerKeygen id x =>
    have hc : c ≠ id := fun he => h (by rw [he]; rfl)
    refine view_congr ?_ (fun n => ?_) rfl
    · simp [Effect.apply, Registry.current_register, hc]
    · simp [Effect.apply, Registry.get_register, hc]
  | failKeygen id n msg | recordKeygen id n share pubKeyHex address isSealed
  | replaceShare id n share sortedIDs epoch =>
    have hc : c ≠ id := fun he => h (by rw [he]; rfl)
    refine view_congr rfl (fun n => ?_) rfl
    simp [Effect.apply, Registry.get_modify, hc]
  | forget id =>
    have hc : c ≠ id := fun he => h (by rw [he]; rfl)
    simp only [Effect.apply]
    split
    · rfl
    refine view_congr ?_ (fun n => ?_) rfl
    · simp [Registry.current_delete, hc]
    · simp [Registry.get_modify, hc]
  | writeSealed id x | destroySealed id =>
    have hc : c ≠ id := fun he => h (by rw [he]; rfl)
    refine view_congr rfl (fun n => rfl) ?_
    simp [Effect.apply, hc]
  | _ => rfl

theorem Effect.Elsewhere.target {e : Effect S} (he : e.Elsewhere) : e.target = none := by
  cases e <;> first | rfl | cases he

theorem resharing_apply {m : Manager S} (e : Effect S) {reshareID : String} {k : Nat}
    {y : ResharingCeremony S} (h : m.resharings.get reshareID k = some y) :
    ∃ y', (e.apply m).resharings.get reshareID k = some y' ∧ y'.plan = y.plan := by
  cases e with
  | registerResharing => exact ⟨y, Registry.get_register_of_get h, rfl⟩
  | failResharing | acceptResharing | markResharing =>
    simp only [Effect.apply, Registry.get_modify]
    split
    · next hk =>
      obtain ⟨rfl, rfl⟩ := hk
      rw [h]
      exact ⟨_, rfl, rfl⟩
    · exact ⟨y, h, rfl⟩
  | forget id =>
    simp only [Effect.apply]
    split <;> exact ⟨y, h, rfl⟩
  | _ => exact ⟨y, h, rfl⟩

def View.Completed (v : View S) : Prop :=
  ∃ n x, v.current = some n ∧ v.get n = some x ∧ x.status = .completed

/-! ## Roles -/

/-- What a task does for one ceremony. -/
inductive Role where
  | bystander
  /-- It runs the key generation of record `n`. -/
  | keygen (n : Nat)
  /-- It has been asked for a refresh and holds record `n`, unread. -/
  | reader (n : Nat)
  /-- It refreshes the key. -/
  | refresh
  | restore
  | retire
deriving DecidableEq

def Task.role (c : String) : Task S → Role
  | .keygen id n | .keygenSeal id n _ _ _ | .keygenRecord id n _ _ _ _ | .keygenFail id n _
  | .keygenFailed id n _ => if id = c then .keygen n else .bystander
  | .reshareRead _ source _ n => if source = c then .reader n else .bystander
  | .reshareRegister _ plan _ | .reshareStart _ _ plan _ | .reshare _ _ plan
  | .reshareAccept _ _ plan _ _ _ | .reshareSeal _ _ plan _ _ _ | .reshareMark _ _ plan _ _
  | .reshareFind plan _ | .reshareReplace plan _ _ =>
    if plan.sourceCeremonyID = c then .refresh else .bystander
  | .restoreLoad id _ | .restoreRegister id _ => if id = c then .restore else .bystander
  | .retire id => if id = c then .retire else .bystander
  | _ => .bystander

theorem Task.Elsewhere.role {t : Task S} (ht : t.Elsewhere) (c : String) : t.role c = .bystander := by
  cases t <;> first | rfl | cases ht

/-- A task that has nothing to do with `c` writes nothing under the id, registers no refresh of its
key, and goes on like that. -/
theorem Section.bystander [TssLib] {cfg : Config S} {c : String} {m : Manager S} {label : Label S}
    {e : Effect S} {old : Task S} {task : Option (Task S)}
    (hsec : Section cfg m (some old) label e task)
    (h : old.role c = .bystander) :
    e.target ≠ some c ∧ (∀ r y, e = .registerResharing r y → y.plan.sourceCeremonyID ≠ c) ∧
      ∀ u, task = some u → u.role c = .bystander := by
  cases hsec with
  | elsewhere he _ ht =>
    refine ⟨by rw [he.target]; simp, ?_, fun u hu => (ht u hu).role c⟩
    rintro r y rfl
    cases he
  | reshareReads hx hr =>
    obtain ⟨-, -, -, -, hplan⟩ := readSource_eq_ok.mp hr
    simp [Task.role] at h
    refine ⟨by simp [Effect.target], by rintro r y ⟨⟩, ?_⟩
    rintro u ⟨⟩
    exact if_neg (by rw [hplan]; exact h)
  | reshareRegisters =>
    simp [Task.role] at h
    refine ⟨by simp [Effect.target], ?_, ?_⟩
    · rintro r y ⟨⟩
      exact h
    · rintro u ⟨⟩
      exact if_neg h
  | keygenDelivers | keygenFails | keygenSealed | keygenUnsealed | keygenNotSealed
  | keygenFailFinds | reshareStarts | reshareDelivers | reshareAccepts
  | reshareSealed | reshareNotSealed | reshareMarks | reshareFinds | restoreLoads =>
    simp [Task.role] at h
    refine ⟨by simp [Effect.target, h], by rintro r y ⟨⟩, ?_⟩
    rintro u ⟨⟩
    exact if_neg h
  | keygenRecords | keygenFailed | reshareReplaces | reshareLost | restoreRegisters
  | retireDestroys =>
    simp [Task.role] at h
    exact ⟨by simp [Effect.target, h], by rintro r y ⟨⟩, by rintro u ⟨⟩⟩

end OpenFireblocks.Party
