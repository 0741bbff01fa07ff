import OpenFireblocks.Lib.Threads
import OpenFireblocks.Worker.Ceremony
import OpenFireblocks.Worker.KeyTables

/-!
# Provisioning a key

`ProvisionKeyWorkflow` of `workflows/provision_key.go`: a ceremony, then the key pair, then the
ceremony's own row. Any number of workflows run; each try of an activity may fail, with or without its
update.

`dkg_ceremonies` has no columns for the key. What a ceremony has produced is kept beside the tables
(`Store.keys`): the result of its last run.

The key is activated before its ceremony is recorded as completed, and neither a failed write of
that status nor a reported failure of the activation takes the activation back. So an active key is
found by the gateway in the runs of `signable_of_run`; from new rows it is not, until the completed
write (`signable_iff_of_run`, `signable_completed_iff`).
-/

namespace OpenFireblocks.Worker

open Threads Machine

/-! ## The workflow -/

structure ProvisionKeyRequest where
  ceremony : DKGCeremonyRequest
  keyID : String

structure ProvisionKeyResult where
  ceremony : DKGCeremonyResult
  status : String
  error : String

def noCeremony : DKGCeremonyResult := ⟨"", "", "", "", ""⟩

/-- The activities of the workflow. -/
inductive Activity where
  | markInProgress
  | activate (ceremony : DKGCeremonyResult)
  | markCompleted (ceremony : DKGCeremonyResult)
  | markFailed (result : ProvisionKeyResult)

/-- Where a workflow is. An activity has so many tries left, the next one included. -/
inductive Phase where
  | trying (activity : Activity) (left : Nat)
  | ceremony
  | returned (result : ProvisionKeyResult)

structure Flow where
  req : ProvisionKeyRequest
  phase : Phase

/-- The tables, and the public key and address that each ceremony has produced. -/
structure Store where
  db : Database
  keys : String → Option (String × String)

inductive Action where
  | start (req : ProvisionKeyRequest)
  /-- one try of an activity, and whether another one may follow a failure -/
  | activity (reply : Reply) (now : Nat) (retry : Bool)
  /-- the child workflow returns -/
  | child (result : Except String DKGCeremonyResult)

section

variable (req : ProvisionKeyRequest)

def Activity.update (db : Database) (now : Nat) : Activity → Except String Database
  | .markInProgress => setCeremonyStatus db req.ceremony.ceremonyID .inProgress "" now
  | .activate ceremony =>
    activateKeyPair db req.keyID ceremony.thresholdAddress ceremony.thresholdPubKey
  | .markCompleted _ => setCeremonyStatus db req.ceremony.ceremonyID .completed "" now
  | .markFailed result => setCeremonyStatus db req.ceremony.ceremonyID .failed result.error now

/-- `markCeremonyFailed`, and then the result. -/
def failWith (result : ProvisionKeyResult) : Phase :=
  if req.ceremony.ceremonyID = "" then .returned result
  else .trying (.markFailed result) maximumAttempts

def complete (ceremony : DKGCeremonyResult) : Phase :=
  if req.ceremony.ceremonyID = "" then .returned ⟨ceremony, "completed", ""⟩
  else .trying (.markCompleted ceremony) maximumAttempts

/-- What follows an activity. The writes of a ceremony's status go on whether they failed or not. -/
def Activity.after : Activity → Option String → Phase
  | .markInProgress, _ => .ceremony
  | .activate ceremony, none => complete req ceremony
  | .activate ceremony, some err => failWith req ⟨ceremony, "failed", err⟩
  | .markCompleted ceremony, _ => .returned ⟨ceremony, "completed", ""⟩
  | .markFailed result, _ => .returned result

def afterCeremony (result : Except String DKGCeremonyResult) : Phase :=
  match result with
  | .error err => failWith req ⟨noCeremony, "failed", err⟩
  | .ok ceremony =>
    if ceremony.status = "completed" then
      if req.keyID = "" then complete req ceremony
      else .trying (.activate ceremony) maximumAttempts
    else failWith req ⟨ceremony, "failed", ceremony.error⟩

end

def produce (keys : String → Option (String × String)) (ceremonyID : String)
    (result : Except String DKGCeremonyResult) : String → Option (String × String) :=
  match result with
  | .error _ => keys
  | .ok ceremony =>
    if ceremony.status = "completed" then
      Function.update keys ceremonyID
        (some (ceremony.thresholdPubKey, ceremony.thresholdAddress))
    else keys

def provisionNext (s : Store) : Option Flow → Action → Option (Store × Option Flow)
  | none, .start req =>
    let phase : Phase :=
      if req.ceremony.ceremonyID = "" then .ceremony else .trying .markInProgress maximumAttempts
    some (s, some ⟨req, phase⟩)
  | some ⟨req, .trying activity left⟩, .activity reply now retry =>
    let result := reply.apply s.db (activity.update req s.db now)
    let phase : Phase :=
      if result.2.isSome ∧ retry ∧ 1 < left then .trying activity (left - 1)
      else activity.after req result.2
    some ({ s with db := result.1 }, some ⟨req, phase⟩)
  | some ⟨req, .ceremony⟩, .child result =>
    some ({ s with keys := produce s.keys req.ceremony.ceremonyID result },
      some ⟨req, afterCeremony req result⟩)
  | _, _ => none

/-! ## A key that can sign -/

def Database.Active (db : Database) (keyID : String) : Prop :=
  ∃ row ∈ db.keyPairs, row.keyID = keyID ∧ row.status = .active

/-- The gateway finds a ceremony for every active key, and whichever it finds has produced the key's
public key and address. -/
def Signable (s : Store) : Prop :=
  ∀ key ∈ s.db.keyPairs, key.status = .active →
    (∃ row, row ∈ s.db.getCompletedCeremonyForKey key.keyID) ∧
    ∀ row ∈ s.db.getCompletedCeremonyForKey key.keyID,
      ∃ publicKey address, key.publicKey = some publicKey ∧ key.address = some address ∧
        s.keys row.ceremonyID = some (publicKey, address)

/-- A key may be activated: its ceremony is already the one that the gateway finds for it, and has
produced what is written. -/
def ActivationSafe (s : Store) (req : ProvisionKeyRequest) (ceremony : DKGCeremonyResult) : Prop :=
  (∃ row, row ∈ s.db.getCompletedCeremonyForKey req.keyID) ∧
  (∀ row ∈ s.db.getCompletedCeremonyForKey req.keyID, row.ceremonyID = req.ceremony.ceremonyID) ∧
  s.keys req.ceremony.ceremonyID = some (ceremony.thresholdPubKey, ceremony.thresholdAddress)

/-- A status may be written to a ceremony of a key that is active: `completed` only to the one that
the gateway finds, and not with an earlier time, and any other only to one that it does not find. -/
def StatusSafe (db : Database) (ceremonyID : String) (status : CeremonyStatus) (now : Nat) : Prop :=
  ∀ row ∈ db.ceremonies, row.ceremonyID = ceremonyID → db.Active row.keyID →
    ∀ found ∈ db.getCompletedCeremonyForKey row.keyID,
      if status = .completed then found.ceremonyID = ceremonyID ∧ found.completedAt ≤ now
      else found.ceremonyID ≠ ceremonyID

def RunSafe (s : Store) (ceremonyID : String) (ceremony : DKGCeremonyResult) : Prop :=
  ∀ key ∈ s.db.keyPairs, key.status = .active →
    ∀ found ∈ s.db.getCompletedCeremonyForKey key.keyID, found.ceremonyID = ceremonyID →
      s.keys ceremonyID = some (ceremony.thresholdPubKey, ceremony.thresholdAddress)

def Activity.Safe (s : Store) (req : ProvisionKeyRequest) (now : Nat) : Activity → Prop
  | .markInProgress => StatusSafe s.db req.ceremony.ceremonyID .inProgress now
  | .activate ceremony => ActivationSafe s req ceremony
  | .markCompleted _ => StatusSafe s.db req.ceremony.ceremonyID .completed now
  | .markFailed _ => StatusSafe s.db req.ceremony.ceremonyID .failed now

def SafeStep (s : System Store Flow) (e : Nat × Action) : Prop :=
  match s.threads e.1, e.2 with
  | some ⟨req, .trying activity _⟩, .activity reply now _ =>
    reply.Commits → activity.Safe s.shared req now
  | some ⟨req, .ceremony⟩, .child (.ok ceremony) =>
    ceremony.status = "completed" → RunSafe s.shared req.ceremony.ceremonyID ceremony
  | _, _ => True

/-! ## Steps -/

variable {db : Database}

variable {s : Store} {db' : Database} {err : String} {now : Nat}

theorem signable_activate {req : ProvisionKeyRequest} {ceremony : DKGCeremonyResult}
    (hs : Signable s) (hsafe : ActivationSafe s req ceremony)
    (h : activateKeyPair s.db req.keyID ceremony.thresholdAddress ceremony.thresholdPubKey = .ok db) :
    Signable { s with db := db } := by
  unfold activateKeyPair at h
  split at h
  · cases h
    intro key hkey hactive
    obtain ⟨old, hold, rfl⟩ := List.mem_map.mp hkey
    obtain ⟨hfound, hthis, hproduced⟩ := hsafe
    by_cases hid : old.keyID = req.keyID
    · simp only [if_pos hid]
      rw [hid]
      refine ⟨hfound, fun row hrow => ⟨_, _, rfl, rfl, ?_⟩⟩
      rw [hthis row hrow]
      exact hproduced
    · simp only [if_neg hid] at hactive ⊢
      exact hs old hold hactive
  · cases h

variable {ceremonyID : String} {status : CeremonyStatus}

section

variable (h : setCeremonyStatus db ceremonyID status err now = .ok db')
include h

theorem mem_completedFor_setStatus (keyID : String) (row : Ceremony) :
    row ∈ db'.completedFor keyID ↔
      (row ∈ db.completedFor keyID ∧ row.ceremonyID ≠ ceremonyID) ∨
      (status = .completed ∧ ∃ old ∈ db.ceremonies, old.ceremonyID = ceremonyID ∧
        old.keyID = keyID ∧ row = old.setStatus status err now) := by
  unfold setCeremonyStatus at h
  split at h
  · cases h
    rw [mem_completedFor, mem_completedFor, List.mem_map]
    constructor
    · rintro ⟨⟨old, hold, rfl⟩, hkey, hstatus⟩
      by_cases hid : old.ceremonyID = ceremonyID
      · rw [if_pos hid] at hkey hstatus ⊢
        exact .inr ⟨hstatus, old, hold, hid, hkey, rfl⟩
      · rw [if_neg hid] at hkey hstatus ⊢
        exact .inl ⟨⟨hold, hkey, hstatus⟩, hid⟩
    · rintro (⟨⟨hrow, hkey, hstatus⟩, hid⟩ | ⟨hstatus, old, hold, hid, hkey, rfl⟩)
      · exact ⟨⟨row, hrow, if_neg hid⟩, hkey, hstatus⟩
      · exact ⟨⟨old, hold, if_pos hid⟩, hkey, hstatus⟩
  · cases h

theorem keyPairs_setCeremonyStatus : db'.keyPairs = db.keyPairs := by
  unfold setCeremonyStatus at h
  split at h
  · cases h
    rfl
  · cases h

theorem found_setCeremonyStatus {keyID : String} {newest : Ceremony}
    (hsafe : StatusSafe db ceremonyID status now) (hactive : db.Active keyID)
    (hnewest : newest ∈ db.getCompletedCeremonyForKey keyID) :
    (∃ row, row ∈ db'.getCompletedCeremonyForKey keyID) ∧
      ∀ row ∈ db'.getCompletedCeremonyForKey keyID,
        ∃ old ∈ db.getCompletedCeremonyForKey keyID, old.ceremonyID = row.ceremonyID := by
  have hafter := mem_completedFor_setStatus h keyID
  obtain ⟨hcompleted, hmax⟩ := mem_getCompletedCeremonyForKey.mp hnewest
  obtain ⟨hmem, hkey, -⟩ := mem_completedFor.mp hcompleted
  by_cases hid : newest.ceremonyID = ceremonyID
  · -- the newest is written, so it is completed again, no earlier than before
    have hsafe' := hsafe newest hmem hid (hkey ▸ hactive)
    rw [hkey] at hsafe'
    have hstatus : status = .completed := by
      by_contra hne
      have := hsafe' newest hnewest
      rw [if_neg hne] at this
      exact this hid
    subst hstatus
    have hwritten : newest.setStatus .completed err now ∈ db'.completedFor keyID :=
      (hafter _).mpr (.inr ⟨rfl, newest, hmem, hid, hkey, rfl⟩)
    have hlate : newest.completedAt ≤ now := by
      have := hsafe' newest hnewest
      exact this.2
    refine ⟨exists_mem_getCompletedCeremonyForKey hwritten, fun row hrow => ?_⟩
    obtain ⟨hrow, hrowmax⟩ := mem_getCompletedCeremonyForKey.mp hrow
    rcases (hafter row).mp hrow with ⟨hold, hne⟩ | ⟨-, old, -, hoid, -, rfl⟩
    · -- a row that was not written would have been as new as the newest
      have hfound : row ∈ db.getCompletedCeremonyForKey keyID := by
        refine mem_getCompletedCeremonyForKey.mpr ⟨hold, fun other hother => ?_⟩
        exact (hmax other hother).trans (hlate.trans (hrowmax _ hwritten))
      exact ⟨row, hfound, rfl⟩
    · exact ⟨newest, hnewest, hid.trans hoid.symm⟩
  · have hkept : newest ∈ db'.completedFor keyID := (hafter newest).mpr (.inl ⟨hcompleted, hid⟩)
    refine ⟨exists_mem_getCompletedCeremonyForKey hkept, fun row hrow => ?_⟩
    obtain ⟨hrow, hrowmax⟩ := mem_getCompletedCeremonyForKey.mp hrow
    rcases (hafter row).mp hrow with ⟨hold, -⟩ | ⟨hstatus, old, hold, hoid, hokey, rfl⟩
    · refine ⟨row, mem_getCompletedCeremonyForKey.mpr ⟨hold, fun other hother => ?_⟩, rfl⟩
      exact (hmax other hother).trans (hrowmax newest hkept)
    · -- another ceremony is completed only if the gateway finds it, and then it is the newest
      have := hsafe old hold hoid (hokey ▸ hactive) newest (hokey ▸ hnewest)
      rw [if_pos hstatus] at this
      exact absurd this.1 hid

end

theorem signable_setCeremonyStatus (hs : Signable s) (hsafe : StatusSafe s.db ceremonyID status now)
    (h : setCeremonyStatus s.db ceremonyID status err now = .ok db) :
    Signable { s with db := db } := by
  intro key hkey hactive
  rw [keyPairs_setCeremonyStatus h] at hkey
  obtain ⟨⟨newest, hnewest⟩, hproduced⟩ := hs key hkey hactive
  obtain ⟨hexists, hfound⟩ := found_setCeremonyStatus h hsafe ⟨key, hkey, rfl, hactive⟩ hnewest
  refine ⟨hexists, fun row hrow => ?_⟩
  obtain ⟨old, hold, hid⟩ := hfound row hrow
  rw [← hid]
  exact hproduced old hold

theorem signable_produce {ceremony : DKGCeremonyResult} (hs : Signable s)
    (hsafe : RunSafe s ceremonyID ceremony) :
    Signable { s with
      keys := Function.update s.keys ceremonyID
        (some (ceremony.thresholdPubKey, ceremony.thresholdAddress)) } := by
  intro key hkey hactive
  obtain ⟨hexists, hproduced⟩ := hs key hkey hactive
  refine ⟨hexists, fun row hrow => ?_⟩
  obtain ⟨publicKey, address, hpub, haddr, hkeys⟩ := hproduced row hrow
  refine ⟨publicKey, address, hpub, haddr, ?_⟩
  dsimp only
  by_cases hid : row.ceremonyID = ceremonyID
  · have hsame := hsafe key hkey hactive row hrow hid
    rw [hid] at hkeys ⊢
    rw [Function.update_self, ← hsame]
    exact hkeys
  · rw [Function.update_of_ne hid]
    exact hkeys

theorem signable_step {s t : System Store Flow} {e : Nat × Action} (hs : Signable s.shared)
    (hsafe : SafeStep s e) (h : step provisionNext s e = some t) : Signable t.shared := by
  obtain ⟨i, action⟩ := e
  obtain ⟨x, l, hnext, rfl⟩ := step_eq_some.mp h
  unfold SafeStep at hsafe
  unfold provisionNext at hnext
  split at hnext
  · cases hnext
    exact hs
  · next req activity left reply now retry hthread =>
    cases hnext
    rw [hthread] at hsafe
    rcases reply.apply_cases s.shared.db (activity.update req s.shared.db now) with
      hsame | ⟨hcommits, hok⟩
    · dsimp only
      rw [hsame]
      exact hs
    · have hsafe := hsafe hcommits
      cases activity with
      | markInProgress => exact signable_setCeremonyStatus hs hsafe hok
      | activate ceremony => exact signable_activate hs hsafe hok
      | markCompleted ceremony | markFailed result => exact signable_setCeremonyStatus hs hsafe hok
  · next req result hthread =>
    cases hnext
    rw [hthread] at hsafe
    cases result with
    | error err => exact hs
    | ok ceremony =>
      rw [produce]
      split
      · next hstatus => exact signable_produce hs (hsafe hstatus)
      · exact hs
  · cases hnext

/-- **In every run whose steps are safe, an active key can sign in every state.** -/
theorem signable_of_run {s t : System Store Flow} {es : List (Nat × Action)}
    (hs : Signable s.shared) (hsafe : Guarded (step provisionNext) SafeStep s es)
    (h : run (step provisionNext) s es = some t) : Signable t.shared :=
  run_guarded_invariant (P := fun s => Signable s.shared) signable_step hs hsafe h

/-! ## From the gateway's rows to the completed write

The gateway creates a key that is not active and a ceremony that is not completed. -/

def Database.NoneCompleted (db : Database) : Prop := ∀ keyID row, row ∉ db.completedFor keyID

theorem signable_iff_of_noneCompleted (hnone : s.db.NoneCompleted) :
    Signable s ↔ ∀ keyID, ¬s.db.Active keyID := by
  constructor
  · rintro h keyID ⟨key, hkey, -, hactive⟩
    obtain ⟨⟨row, hrow⟩, -⟩ := h key hkey hactive
    exact hnone key.keyID row (mem_getCompletedCeremonyForKey.mp hrow).1
  · intro h key hkey hactive
    exact absurd ⟨key, hkey, rfl, hactive⟩ (h key.keyID)

def Activity.Activates : Activity → Prop
  | .activate _ => True
  | _ => False

def Activity.Completes : Activity → Prop
  | .markCompleted _ => True
  | _ => False

/-- The step is a try of such an activity, and its update takes effect. -/
def Commits (p : Activity → Prop) (s : System Store Flow) (e : Nat × Action) : Prop :=
  match s.threads e.1, e.2 with
  | some ⟨req, .trying activity _⟩, .activity reply now _ =>
    p activity ∧ reply.Commits ∧ ∃ db, activity.update req s.shared.db now = .ok db
  | _, _ => False

theorem db_step {s t : System Store Flow} {e : Nat × Action}
    (h : step provisionNext s e = some t) :
    (t.shared.db = s.shared.db ∧ ∀ p, ¬Commits p s e) ∨
      ∃ req activity now, activity.update req s.shared.db now = .ok t.shared.db ∧
        ∀ p, Commits p s e ↔ p activity := by
  obtain ⟨i, action⟩ := e
  obtain ⟨x, l, hnext, rfl⟩ := step_eq_some.mp h
  unfold provisionNext at hnext
  split at hnext
  · next hthread =>
    cases hnext
    exact .inl ⟨rfl, fun p hp => by simp [Commits, hthread] at hp⟩
  · next req activity left reply now retry hthread =>
    cases hnext
    simp only [Commits, hthread]
    by_cases hcommits : reply.Commits ∧ ∃ db, activity.update req s.shared.db now = .ok db
    · refine .inr ⟨req, activity, now, ?_, fun p => and_iff_left hcommits⟩
      obtain ⟨hreply, db, hdb⟩ := hcommits
      rw [hdb]
      cases reply with
      | ok | lost err => rfl
      | failed err => exact hreply.elim
    · refine .inl ⟨?_, fun p hp => hcommits hp.2⟩
      rcases reply.apply_cases s.shared.db (activity.update req s.shared.db now) with
        hsame | ⟨hreply, hok⟩
      · exact hsame
      · exact absurd ⟨hreply, _, hok⟩ hcommits
  · next hthread =>
    cases hnext
    exact .inl ⟨rfl, fun p hp => by simp [Commits, hthread] at hp⟩
  · cases hnext

section

variable {keyID address publicKey : String}
variable (h : activateKeyPair db keyID address publicKey = .ok db')
include h

theorem active_activateKeyPair : db'.Active keyID := by
  unfold activateKeyPair at h
  split at h
  · next hrow =>
    cases h
    obtain ⟨row, hrow, hid⟩ := hrow
    exact ⟨_, List.mem_map_of_mem hrow, by simp [hid]⟩
  · cases h

theorem completedFor_activateKeyPair (id : String) : db'.completedFor id = db.completedFor id := by
  unfold activateKeyPair at h
  split at h
  · cases h
    rfl
  · cases h

end

theorem not_active_step {s t : System Store Flow} {e : Nat × Action}
    (h : step provisionNext s e = some t) :
    (∀ keyID, ¬t.shared.db.Active keyID) ↔
      (∀ keyID, ¬s.shared.db.Active keyID) ∧ ¬Commits Activity.Activates s e := by
  rcases db_step h with ⟨hsame, hnone⟩ | ⟨req, activity, now, hupdate, hcommits⟩
  · rw [hsame]
    exact (and_iff_left (hnone _)).symm
  · rw [hcommits]
    cases activity with
    | activate ceremony =>
      exact ⟨fun hno => absurd (active_activateKeyPair hupdate) (hno _),
        fun hno => absurd trivial hno.2⟩
    | markInProgress | markCompleted ceremony | markFailed result =>
      simp only [Database.Active, keyPairs_setCeremonyStatus hupdate, Activity.Activates,
        not_false_eq_true, and_true]

theorem noneCompleted_step {s t : System Store Flow} {e : Nat × Action}
    (hs : s.shared.db.NoneCompleted) (he : ¬Commits Activity.Completes s e)
    (h : step provisionNext s e = some t) : t.shared.db.NoneCompleted := by
  rcases db_step h with ⟨hsame, -⟩ | ⟨req, activity, now, hupdate, hcommits⟩
  · rw [hsame]
    exact hs
  · rw [hcommits] at he
    intro keyID row hrow
    cases activity with
    | activate ceremony => exact hs keyID row (completedFor_activateKeyPair hupdate keyID ▸ hrow)
    | markCompleted ceremony => exact he trivial
    | markInProgress | markFailed result =>
      rcases (mem_completedFor_setStatus hupdate keyID row).mp hrow with ⟨hold, -⟩ | ⟨hstatus, -⟩
      · exact hs keyID row hold
      · cases hstatus

/-- **From the gateway's rows, and until a ceremony is recorded as completed, the active keys can sign
exactly as long as no key has been activated.** -/
theorem signable_iff_of_run {s t : System Store Flow} {es : List (Nat × Action)}
    (hs : s.shared.db.NoneCompleted)
    (hopen : Guarded (step provisionNext) (fun s e => ¬Commits Activity.Completes s e) s es)
    (h : run (step provisionNext) s es = some t) :
    Signable t.shared ↔ (∀ keyID, ¬s.shared.db.Active keyID) ∧
      Guarded (step provisionNext) (fun s e => ¬Commits Activity.Activates s e) s es := by
  induction es generalizing s with
  | nil =>
    cases h
    rw [signable_iff_of_noneCompleted hs]
    exact (and_iff_left trivial).symm
  | cons e es ih =>
    obtain ⟨u, hu, h⟩ := run_cons_eq_some.mp h
    rw [ih (noneCompleted_step hs hopen.1 hu) (hopen.2 u hu) h, not_active_step hu, and_assoc]
    refine and_congr_right fun _ => and_congr_right fun _ => ?_
    exact ⟨fun hg v hv => Option.some.inj (hu.symm.trans hv) ▸ hg, fun hg => hg u hu⟩

/-- After the first completed write every active key can sign exactly when it is a key of that
ceremony, with the public key and the address that the ceremony has produced. -/
theorem signable_completed_iff (hs : s.db.NoneCompleted)
    (h : setCeremonyStatus s.db ceremonyID .completed err now = .ok db) :
    Signable { s with db := db } ↔ ∀ key ∈ s.db.keyPairs, key.status = .active →
      (∃ row ∈ s.db.ceremonies, row.ceremonyID = ceremonyID ∧ row.keyID = key.keyID) ∧
      ∃ publicKey address, key.publicKey = some publicKey ∧ key.address = some address ∧
        s.keys ceremonyID = some (publicKey, address) := by
  have hafter : ∀ keyID row, row ∈ db.completedFor keyID ↔ ∃ old ∈ s.db.ceremonies,
      old.ceremonyID = ceremonyID ∧ old.keyID = keyID ∧ row = old.setStatus .completed err now := by
    intro keyID row
    rw [mem_completedFor_setStatus h]
    simp [hs keyID row]
  rw [Signable, keyPairs_setCeremonyStatus h]
  refine forall₃_congr fun key hkey hactive => ?_
  constructor
  · rintro ⟨⟨row, hrow⟩, hproduced⟩
    obtain ⟨old, hold, hid, hkeyID, rfl⟩ :=
      (hafter _ _).mp (mem_getCompletedCeremonyForKey.mp hrow).1
    refine ⟨⟨old, hold, hid, hkeyID⟩, ?_⟩
    have := hproduced _ hrow
    rwa [show (old.setStatus .completed err now).ceremonyID = ceremonyID from hid] at this
  · rintro ⟨⟨old, hold, hid, hkeyID⟩, hproduced⟩
    refine ⟨exists_mem_getCompletedCeremonyForKey ((hafter _ _).mpr ⟨old, hold, hid, hkeyID, rfl⟩),
      fun row hrow => ?_⟩
    obtain ⟨other, -, hother, -, rfl⟩ := (hafter _ _).mp (mem_getCompletedCeremonyForKey.mp hrow).1
    rwa [show (other.setStatus .completed err now).ceremonyID = ceremonyID from hother]

/-! ## One key -/

/-- A key and its ceremony as the gateway creates them, or with the ceremony run before. -/
def keyStore (status : CeremonyStatus) (completedAt : WithBot Nat) : Store where
  db :=
    { keyPairs := [⟨"key-1", .pendingDkg, none, none⟩]
      ceremonies := [⟨"ceremony-1", "key-1", status, none, completedAt⟩] }
  keys _ := none

def keyRequest : ProvisionKeyRequest where
  ceremony := ⟨"ceremony-1", "ethereum", 1, [1, 2, 3], ["http://p1", "http://p2", "http://p3"]⟩
  keyID := "key-1"

def keyGenerated : DKGCeremonyResult := ⟨"ceremony-1", "completed", "0xa1", "04b2", ""⟩

/-- The workflow up to the activation, which may be reported as failed. -/
def untilActive (reply : Reply) : List (Nat × Action) :=
  [(0, .start keyRequest), (0, .activity .ok 10 true), (0, .child (.ok keyGenerated)),
    (0, .activity reply 20 false)]

/-- A ceremony that was completed before is run again, and its row is not reopened: every write of
`in_progress` fails. Then the key is found as soon as it is active. -/
def rerun : List (Nat × Action) :=
  [(0, .start keyRequest), (0, .activity (.failed "timeout") 10 true),
    (0, .activity (.failed "timeout") 11 true), (0, .activity (.failed "timeout") 12 true),
    (0, .child (.ok keyGenerated)), (0, .activity .ok 20 true), (0, .activity .ok 21 true)]

theorem signable_of_run_rerun :
    ∃ t, run (step provisionNext) (System.idle (keyStore .completed 5)) rerun = some t ∧
      t.shared.db.Active "key-1" ∧ Signable t.shared := by
  have hsignable : Signable (keyStore .completed 5) := by
    intro key hkey hactive
    obtain rfl := List.mem_singleton.mp hkey
    cases hactive
  have hsafe : Guarded (step provisionNext) SafeStep (System.idle (keyStore .completed 5))
      rerun := by
    refine guarded_cons rfl trivial (guarded_cons rfl (fun h => h.elim)
      (guarded_cons rfl (fun h => h.elim) (guarded_cons rfl (fun h => h.elim)
      (guarded_cons rfl ?_ (guarded_cons rfl ?_ (guarded_cons rfl ?_ trivial))))))
    · intro _ key hkey hactive
      obtain rfl := List.mem_singleton.mp hkey
      cases hactive
    · intro _
      exact ⟨⟨_, List.mem_singleton.mpr rfl⟩, by decide, rfl⟩
    · intro _ row hrow hid hactive found hfound
      obtain rfl := List.mem_singleton.mp hrow
      obtain rfl := List.mem_singleton.mp hfound
      exact ⟨rfl, by decide⟩
  exact ⟨_, rfl, ⟨_, List.mem_singleton.mpr rfl, rfl, rfl⟩, signable_of_run hsignable hsafe rfl⟩

/-- **The key is active before its ceremony is completed.** It stays so when the workflow cannot write
that status, and returns `completed`, and when the activation is reported as failed. -/
theorem not_signable_provisioning :
    Signable (keyStore .initiated ⊥) ∧
    (∃ t, run (step provisionNext) (System.idle (keyStore .initiated ⊥)) (untilActive .ok) = some t ∧
      ¬Signable t.shared) ∧
    (∃ t, run (step provisionNext) (System.idle (keyStore .initiated ⊥))
        (untilActive .ok ++ [(0, .activity (.failed "timeout") 30 false)]) = some t ∧
      (t.threads 0).map Flow.phase = some (.returned ⟨keyGenerated, "completed", ""⟩) ∧
      ¬Signable t.shared) ∧
    ∃ t, run (step provisionNext) (System.idle (keyStore .initiated ⊥))
        (untilActive (.lost "timeout") ++ [(0, .activity .ok 30 false)]) = some t ∧
      (t.threads 0).map Flow.phase = some (.returned ⟨keyGenerated, "failed", "timeout"⟩) ∧
      ¬Signable t.shared := by
  have hactive : ∀ {s : Store} {ceremonyStatus : CeremonyStatus} {err : Option String}
      {completedAt : WithBot Nat}, ceremonyStatus ≠ .completed →
      s.db = { keyPairs := [⟨"key-1", .active, some "0xa1", some "04b2"⟩]
               ceremonies := [⟨"ceremony-1", "key-1", ceremonyStatus, err, completedAt⟩] } →
      ¬Signable s := by
    intro s ceremonyStatus err completedAt hne hdb
    have hnone : s.db.NoneCompleted := by
      intro keyID row hrow
      obtain ⟨hmem, -, hcompleted⟩ := mem_completedFor.mp hrow
      rw [hdb] at hmem
      obtain rfl := List.mem_singleton.mp hmem
      exact hne hcompleted
    rw [signable_iff_of_noneCompleted hnone, hdb]
    exact fun h => h "key-1" ⟨_, List.mem_singleton.mpr rfl, rfl, rfl⟩
  refine ⟨?_, ⟨_, rfl, hactive (by decide) rfl⟩, ⟨_, rfl, rfl, hactive (by decide) rfl⟩,
    ⟨_, rfl, rfl, hactive (by decide) rfl⟩⟩
  intro key hkey hstatus
  obtain rfl := List.mem_singleton.mp hkey
  cases hstatus

end OpenFireblocks.Worker
