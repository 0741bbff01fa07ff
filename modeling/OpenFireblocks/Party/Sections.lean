import OpenFireblocks.Party.Process

/-!
# What a critical section can do

`Section` lists the critical sections of the party process with what each one has checked. Every
invariant of the process is proved by cases on it; `act_section` is the only proof that looks
into `act`.

The sections that touch no share are one case, `elsewhere`: a refused or failed run ends, the
status of a refresh becomes `failed`, a signing goes on, a mutex is left locked. The list leaves out
that a section which waits for such a mutex cannot happen.
-/

namespace OpenFireblocks.Party

open Go Outcome Threads

variable {S : Type} {cfg : Config S}

/-- The write changes no ceremony, nothing sealed, and no share of a refresh. -/
def Effect.Elsewhere : Effect S → Prop
  | .idle | .failResharing _ _ _ | .registerSigning _ _ | .failSigning _ _ _
  | .completeSigning _ _ _ | .leaveLocked _ _ | .freeze => True
  | _ => False

def Task.Elsewhere : Task S → Prop
  | .reshareFail _ _ | .reshareFailed _ _ _ | .signRead _ _ _ _ _ | .signRegister _ _
  | .sign _ _ | .signFail _ _ | .signFailed _ _ _ | .forgetting _ => True
  | _ => False

namespace Effect.Elsewhere

variable {e : Effect S} {m : Manager S}

theorem ceremonies (he : e.Elsewhere) : (e.apply m).ceremonies = m.ceremonies := by
  cases e <;> first | rfl | cases he

theorem store (he : e.Elsewhere) : (e.apply m).store = m.store := by
  cases e <;> first | rfl | cases he

end Effect.Elsewhere

theorem afterSeal_eq_some {answer : Label S} {done : Bool → Task S} {refused : String → Task S}
    {id : String} {e : SealedShare S} {r : Effect S × Option (Task S)}
    (h : afterSeal cfg answer done refused id e = some r) :
    (cfg.sealing ∧ answer = .stored ∧ r = (.writeSealed id e, some (done true))) ∨
      (∃ msg, answer = .notStored msg ∧ r = (.idle, some (refused msg))) ∨
      (cfg.sealing = false ∧ answer = .advance ∧ r = (.idle, some (done false))) := by
  unfold afterSeal at h
  split at h
  · next hs =>
    cases h
    exact .inl ⟨hs, rfl, rfl⟩
  · next msg _ =>
    cases h
    exact .inr (.inl ⟨msg, rfl, rfl⟩)
  · next hs =>
    cases h
    exact .inr (.inr ⟨hs, rfl, rfl⟩)
  · cases h

/-- A refresh that has been sealed and is not yet in place. -/
def Task.isReplacing : Task S → Bool
  | .reshareMark _ _ _ _ _ | .reshareFind _ _ | .reshareReplace _ _ _ => true
  | _ => false

/-- When a section may leave a mutex locked: a signing request with a digest of the wrong length
keeps that of the key generation, and a retirement that waits for such a mutex keeps that of the
maps. -/
def Effect.Locks (m : Manager S) (task : Option (Task S)) : Effect S → Prop
  | .leaveLocked id n => ∃ signID messageHash committee x,
      task = some (.signRead signID id messageHash committee n) ∧
        m.ceremonies.get id n = some x ∧ x.returnsLocked messageHash
  | .freeze => m.stuck ≠ []
  | _ => True

variable [TssLib]

inductive Section (cfg : Config S) (m : Manager S) :
    Option (Task S) → Label S → Effect S → Option (Task S) → Prop where
  | startKeygen {id threshold peers curve blockchain x}
      (h : startKeygen cfg threshold peers curve blockchain = .ok x) :
      Section cfg m none (.startKeygen id threshold peers curve blockchain)
        (.registerKeygen id x) (some (.keygen id (m.ceremonies.fresh id)))
  | startResharing {reshareID source peers n} (h : m.ceremonies.current source = some n) :
      Section cfg m none (.startResharing reshareID source peers)
        .idle (some (.reshareRead reshareID source peers n))
  | restore {id peers} (h : m.ceremonies.current id = none) :
      Section cfg m none (.restore id peers) .idle (some (.restoreLoad id peers))
  | retire {id} : Section cfg m none (.retire id) (.forget id) (some (.retire id))
  | keygenDelivers {id n save x pubKeyHex address} (hx : m.ceremonies.get id n = some x)
      (h : completeCeremony cfg x ⟨x.curve, save⟩ = .ok (pubKeyHex, address)) :
      Section cfg m (some (.keygen id n)) (.deliver save)
        .idle (some (.keygenSeal id n ⟨x.curve, save⟩ pubKeyHex address))
  | keygenFails {id n label msg} :
      Section cfg m (some (.keygen id n)) label .idle (some (.keygenFail id n msg))
  | keygenSealed {id n share pubKeyHex address x} (hs : cfg.sealing = true)
      (hx : m.ceremonies.get id n = some x) :
      Section cfg m (some (.keygenSeal id n share pubKeyHex address)) .stored
        (.writeSealed id (x.sealedShare share pubKeyHex address))
        (some (.keygenRecord id n share pubKeyHex address true))
  | keygenUnsealed {id n share pubKeyHex address} (hs : cfg.sealing = false) :
      Section cfg m (some (.keygenSeal id n share pubKeyHex address)) .advance
        .idle (some (.keygenRecord id n share pubKeyHex address false))
  | keygenNotSealed {id n share pubKeyHex address label msg} :
      Section cfg m (some (.keygenSeal id n share pubKeyHex address)) label
        .idle (some (.keygenFail id n msg))
  | keygenRecords {id n share pubKeyHex address isSealed} :
      Section cfg m (some (.keygenRecord id n share pubKeyHex address isSealed)) .advance
        (.recordKeygen id n share pubKeyHex address isSealed) none
  | keygenFailFinds {id n n' msg} (h : m.ceremonies.current id = some n') :
      Section cfg m (some (.keygenFail id n msg)) .advance
        .idle (some (.keygenFailed id n' msg))
  | keygenFailed {id n msg} :
      Section cfg m (some (.keygenFailed id n msg)) .advance (.failKeygen id n msg) none
  | reshareReads {reshareID source peers n x plan share} (hx : m.ceremonies.get source n = some x)
      (h : readSource cfg x reshareID source peers = .ok (plan, share)) :
      Section cfg m (some (.reshareRead reshareID source peers n)) .advance
        .idle (some (.reshareRegister reshareID plan share))
  | reshareRegisters {reshareID plan share} :
      Section cfg m (some (.reshareRegister reshareID plan share)) .advance
        (.registerResharing reshareID { plan })
        (some (.reshareStart reshareID (m.resharings.fresh reshareID) plan share))
  | reshareStarts {reshareID k plan share r} (h : runResharing cfg plan share reshareID = .ok r) :
      Section cfg m (some (.reshareStart reshareID k plan share)) .advance
        .idle (some (.reshare reshareID k plan))
  | reshareDelivers {reshareID k plan save publicKey address}
      (h : completeResharing cfg plan ⟨plan.curve, save⟩ = .ok (publicKey, address)) :
      Section cfg m (some (.reshare reshareID k plan)) (.deliver save)
        .idle (some (.reshareAccept reshareID k plan ⟨plan.curve, save⟩ publicKey address))
  | reshareAccepts {reshareID k plan share publicKey address} :
      Section cfg m (some (.reshareAccept reshareID k plan share publicKey address)) .advance
        (.acceptResharing reshareID k share)
        (some (.reshareSeal reshareID k plan share publicKey address))
  | reshareSealed {reshareID k plan share publicKey address} (hs : cfg.sealing = true) :
      Section cfg m (some (.reshareSeal reshareID k plan share publicKey address)) .stored
        (.writeSealed plan.sourceCeremonyID (plan.sealedShare share publicKey address))
        (some (.reshareMark reshareID k plan share true))
  | reshareNotSealed {reshareID k plan share publicKey address label}
      (h : cfg.sealing = true → ∃ msg, label = .notStored msg) :
      Section cfg m (some (.reshareSeal reshareID k plan share publicKey address)) label
        .idle (some (.reshareMark reshareID k plan share false))
  | reshareMarks {reshareID k plan share isSealed} :
      Section cfg m (some (.reshareMark reshareID k plan share isSealed)) .advance
        (.markResharing reshareID k isSealed) (some (.reshareFind plan share))
  | reshareFinds {plan share n} (h : m.ceremonies.current plan.sourceCeremonyID = some n) :
      Section cfg m (some (.reshareFind plan share)) .advance
        .idle (some (.reshareReplace plan share n))
  | reshareLost {plan share} (h : m.ceremonies.current plan.sourceCeremonyID = none) :
      Section cfg m (some (.reshareFind plan share)) .advance .idle none
  | reshareReplaces {plan share n} :
      Section cfg m (some (.reshareReplace plan share n)) .advance
        (.replaceShare plan.sourceCeremonyID n share plan.newSorted plan.newEpoch) none
  | restoreLoads {id peers e x} (hl : loadSealedShare cfg m id = .ok e)
      (h : restoreCeremony cfg id peers e = .ok x) :
      Section cfg m (some (.restoreLoad id peers)) .advance
        .idle (some (.restoreRegister id x))
  | restoreRegisters {id x} :
      Section cfg m (some (.restoreRegister id x)) .advance (.registerKeygen id x) none
  | retireDestroys {id} (hs : cfg.sealing = true) :
      Section cfg m (some (.retire id)) .stored (.destroySealed id) none
  | elsewhere {task label effect task'} (he : effect.Elsewhere) (hl : effect.Locks m task)
      (ht : ∀ t, task' = some t → t.Elsewhere) (hr : task.any Task.isReplacing = false) :
      Section cfg m task label effect task'

variable {m : Manager S} {label : Label S}

variable {task : Option (Task S)}

variable {e : Effect S}

theorem Section.ends (he : e.Elsewhere) (hl : e.Locks m task)
    (hr : task.any Task.isReplacing = false) : Section cfg m task label e none :=
  .elsewhere he hl (by intro t h; cases h) hr

theorem Section.leaves {t : Task S} (he : e.Elsewhere) (hl : e.Locks m task) (ht : t.Elsewhere)
    (hr : task.any Task.isReplacing = false) : Section cfg m task label e (some t) :=
  .elsewhere he hl (by rintro _ ⟨⟩; exact ht) hr

variable {t : Option (Task S)}

theorem accept_section (h : accept cfg m label = some (e, t)) : Section cfg m none label e t := by
  unfold accept at h
  split at h
  · -- startKeygen
    split at h <;> cases h
    next hx => exact .startKeygen hx
  · -- startSigning
    split at h <;> cases h
    exact .leaves trivial trivial trivial rfl
  · -- startResharing
    split at h <;> cases h
    next hn => exact .startResharing (lookupSource_eq_ok hn)
  · -- restore
    split at h <;> cases h
    next hc =>
      unfold checkNotLoaded at hc
      split at hc
      · simp at hc
      · next hcur => exact .restore (by simpa using hcur)
  · -- retire
    split at h <;> cases h
    · next hany =>
      refine .leaves trivial (fun hnil => ?_) trivial rfl
      simp [hnil] at hany
    · exact .retire
  · cases h

theorem resume_keygenSeal {id : String} {n : Nat} {share : KeyShare S} {pubKeyHex address : String}
    (h : resume cfg m (.keygenSeal id n share pubKeyHex address) label = some (e, t)) :
    Section cfg m (some (.keygenSeal id n share pubKeyHex address)) label e t := by
  simp only [resume] at h
  split at h
  · cases h
  next x hx =>
  obtain ⟨hs, rfl, hr⟩ | ⟨msg, -, hr⟩ | ⟨hs, rfl, hr⟩ := afterSeal_eq_some h
  · cases hr
    exact .keygenSealed hs hx
  · cases hr
    exact .keygenNotSealed
  · cases hr
    exact .keygenUnsealed hs

theorem resume_reshareSeal {reshareID : String} {k : Nat} {plan : ResharePlan} {share : KeyShare S}
    {publicKey address : String}
    (h : resume cfg m (.reshareSeal reshareID k plan share publicKey address) label = some (e, t)) :
    Section cfg m (some (.reshareSeal reshareID k plan share publicKey address)) label e t := by
  obtain ⟨hs, rfl, hr⟩ | ⟨msg, hl, hr⟩ | ⟨hs, rfl, hr⟩ := afterSeal_eq_some h
  · cases hr
    exact .reshareSealed hs
  · cases hr
    exact .reshareNotSealed fun _ => ⟨msg, hl⟩
  · cases hr
    exact .reshareNotSealed (by rw [hs]; nofun)

theorem resume_section {task : Task S} (h : resume cfg m task label = some (e, t)) :
    Section cfg m (some task) label e t := by
  cases task
  case keygenSeal => exact resume_keygenSeal h
  case reshareSeal => exact resume_reshareSeal h
  -- a task goes on at one or two labels
  all_goals cases label <;> simp only [resume] at h <;> try cases h
  case keygen.fail.refl => exact .keygenFails
  case keygen.deliver =>
    split at h
    · cases h
    · next x hx =>
      split at h <;> cases h
      · next hc => exact .keygenDelivers hx hc
      · exact .keygenFails
  case keygenRecord.advance.refl => exact .keygenRecords
  case keygenFail.advance =>
    split at h <;> cases h
    · exact .ends trivial trivial rfl
    · next hn => exact .keygenFailFinds hn
  case keygenFailed.advance.refl => exact .keygenFailed
  case reshareRead.advance =>
    split at h
    · cases h
    next x hx =>
    split at h <;> cases h
    · next hr => exact .reshareReads hx hr
    · exact .ends trivial trivial rfl
  case reshareRegister.advance.refl => exact .reshareRegisters
  case reshareStart.advance =>
    split at h <;> cases h
    · next hr => exact .reshareStarts hr
    · exact .leaves trivial trivial trivial rfl
  case reshare.fail.refl => exact .leaves trivial trivial trivial rfl
  case reshare.deliver =>
    split at h <;> cases h
    · next hr => exact .reshareDelivers hr
    · exact .leaves trivial trivial trivial rfl
  case reshareAccept.advance.refl => exact .reshareAccepts
  case reshareMark.advance.refl => exact .reshareMarks
  case reshareFind.advance =>
    split at h <;> cases h
    · next hn => exact .reshareLost hn
    · next hn => exact .reshareFinds hn
  case reshareReplace.advance.refl => exact .reshareReplaces
  case restoreLoad.advance =>
    split at h <;> cases h
    · next hr =>
      obtain ⟨e, hl, hr⟩ := bind_eq_ok.mp hr
      exact .restoreLoads hl hr
    · exact .ends trivial trivial rfl
  case restoreLoad.fail.refl => exact .ends trivial trivial rfl
  case restoreRegister.advance.refl => exact .restoreRegisters
  case retire.stored =>
    split at h <;> cases h
    next hs => exact .retireDestroys hs
  case retire.notStored | retire.advance =>
    split at h <;> cases h
    exact .ends trivial trivial rfl
  case reshareFail.advance | signFail.advance =>
    split at h <;> cases h
    · exact .ends trivial trivial rfl
    · exact .leaves trivial trivial trivial rfl
  case reshareFailed.advance.refl | signFailed.advance.refl =>
    exact .ends trivial trivial rfl
  case signRead.advance =>
    split at h
    · cases h
    next x hx =>
    split at h
    · cases h
      exact .leaves trivial trivial trivial rfl
    · split at h <;> cases h
      · next hl => exact .ends trivial ⟨_, _, _, x, rfl, hx, hl⟩ rfl
      · exact .ends trivial trivial rfl
  case signRegister.advance.refl | sign.fail.refl => exact .leaves trivial trivial trivial rfl
  case sign.signed.refl => exact .ends trivial trivial rfl

/-- **Every critical section is one of the list.** -/
theorem act_section (h : act cfg m task label = some (e, t)) : Section cfg m task label e t := by
  unfold act at h
  split at h
  · cases h
  cases task with
  | none => exact accept_section h
  | some task => exact resume_section h

/-! ## Sections by what they compute -/

theorem next_request {r : Manager S × Option (Task S)} :
    next cfg m none label = some r ↔ m.frozen = false ∧
      ∃ e t, accept cfg m label = some (e, t) ∧ r = (e.apply m, t) := by
  cases hf : m.frozen <;>
    simp [next, act, waits, takesMaps, takesCeremony, hf, eq_comm]

theorem next_task {task : Task S} {r : Manager S × Option (Task S)} :
    next cfg m (some task) label = some r ↔ waits m (some task) = false ∧
      ∃ e t, resume cfg m task label = some (e, t) ∧ r = (e.apply m, t) := by
  cases hw : waits m (some task) <;> simp [next, act, hw, eq_comm]

theorem step_task {s t : Process S} {i : Nat} {task : Task S} (hi : s.threads i = some task)
    (h : step cfg s (i, label) = some t) :
    ∃ e task', resume cfg s.shared task label = some (e, task') ∧
      t = (s.after i e task') := by
  obtain ⟨x, l, hn, rfl⟩ := step_eq_some.mp h
  rw [hi] at hn
  obtain ⟨_, e, task', hr, hx⟩ := next_task.mp hn
  exact ⟨e, task', hr, by cases hx; rfl⟩

theorem step_section {s t : Process S} {i : Nat} (h : step cfg s (i, label) = some t) :
    ∃ e task, Section cfg s.shared (s.threads i) label e task ∧
      t = (s.after i e task) := by
  obtain ⟨x, l, hn, rfl⟩ := step_eq_some.mp h
  simp only [next, Option.map_eq_some_iff] at hn
  obtain ⟨⟨e, task⟩, ha, rfl, rfl⟩ := hn
  exact ⟨e, task, act_section ha, rfl⟩

end OpenFireblocks.Party
