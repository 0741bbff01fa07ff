import OpenFireblocks.Worker.Provision

/-!
# Rotating a key

`KeyRotationWorkflow` of `workflows/dkg_ceremony.go` and the activity `DeactivateOldKeyShares`: a new
ceremony, the two key pairs, the retention time, and then the old shares, through the parties or in
one Vault.

* An `Environment` is one failure pattern: the result of the ceremony, how each try of an activity
  goes, and what each old party answers in it. A try may be lost after any number of parties.
* The log of the `World` has the time of everything the rotation is about. A share that is destroyed
  in a try is logged with the time the try began.

The workflow reports the old shares deactivated when one party has acknowledged, and it does not
need a new key to retire the old one.
-/

namespace OpenFireblocks.Worker

/-! ## Requests and results -/

structure KeyRotationRequest where
  newCeremony : DKGCeremonyRequest
  oldKeyID : String
  newKeyID : String
  oldCeremonyID : String
  oldPartyIDs : List Int
  oldPartyEndpoints : List String
  /-- in nanoseconds -/
  shareRetention : Int

structure KeyRotationResult where
  newCeremony : DKGCeremonyResult
  oldSharesDeactivated : Bool
  status : String
  error : String

structure DeactivateSharesResult where
  deactivatedCount : Nat
  errors : List String

def KeyRotationRequest.retention (req : KeyRotationRequest) : Nat :=
  if req.shareRetention ≤ 0 then 720 * 3600 * 10 ^ 9 else req.shareRetention.toNat

/-! ## The world -/

inductive Event where
  | ceremonyCompleted
  | keyActivated
  | shareDestroyed (partyID : Int)
deriving DecidableEq

structure World where
  now : Nat
  db : Database
  log : List (Nat × Event)

def World.pass (w : World) (took : Nat) : World := { w with now := w.now + took }

def World.record (w : World) (events : List Event) : World :=
  { w with log := w.log ++ events.map fun event => (w.now, event) }

structure TableTry where
  took : Nat
  reply : Reply

inductive PartyFailure where
  | badURL (err : String)
  | transport (err : String)
  | http (status : Nat) (message : String)

/-- What comes of asking for one share: it is destroyed, or there is an error and it may be. -/
inductive Answer (φ : Type) where
  | ok
  | failed (failure : φ) (destroyed : Bool)

inductive VaultClient where
  /-- `VAULT_ADDR` is not set -/
  | unset
  | failed (err : String)
  /-- `VAULT_KEY_SHARE_PATH` -/
  | ready (basePath : String)

/-- One try of `DeactivateOldKeyShares`. -/
structure RetireTry where
  took : Nat
  /-- the error of the co-signer -/
  authorize : Option String
  vault : VaultClient
  /-- the answer of the `i`-th party -/
  party : Nat → Answer PartyFailure
  /-- the answer of Vault for the `i`-th party -/
  sealedShare : Nat → Answer String
  /-- the worker is lost after so many parties -/
  lost : Option (Nat × String)

structure Environment where
  ceremonyTook : Nat
  ceremony : Except String DKGCeremonyResult
  activate : List TableTry
  setOldStatus : List TableTry
  interrupted : Option String
  overslept : Nat
  retire : List RetireTry

/-! ## Activities with their tries -/

def scheduleToClose : String := "activity ScheduleToClose timeout"

def Reply.commits (reply : Reply) (update : Except String Database) : Bool :=
  match reply, update with
  | .failed _, _ => false
  | _, .ok _ => true
  | _, .error _ => false

/-- Tries one after the other, until one is acknowledged. -/
def retrying (update : Database → Except String Database) (events : List Event) :
    List TableTry → World → String → World × Option String
  | [], w, err => (w, some err)
  | t :: rest, w, _ =>
    let w := w.pass t.took
    let result := t.reply.apply w.db (update w.db)
    let w := { w.record (if t.reply.commits (update w.db) then events else []) with db := result.1 }
    match result.2 with
    | none => (w, none)
    | some err => retrying update events rest w err

/-! ## The old shares -/

section

variable (t : RetireTry) (req : KeyRotationRequest)

/-- The parties whose answer counts in a try that asks them in order. -/
def RetireTry.asked : List (Int × Nat) :=
  match t.lost with
  | none => req.oldPartyIDs.zipIdx
  | some (parties, _) => req.oldPartyIDs.zipIdx.take parties

/-- `strings.TrimRight(endpoint, "/")`. -/
def trimSlashes (endpoint : String) : String :=
  String.ofList (endpoint.toList.reverse.dropWhile (· = '/')).reverse

def PartyFailure.text (partyID : Int) (url : String) : PartyFailure → String
  | .badURL err => s!"party {partyID}: {err}"
  | .transport err => s!"party {partyID} ({url}): {err}"
  | .http status message => s!"party {partyID} ({url}): HTTP {status}: {message}"

def retireLoop {φ : Type} (answer : Nat → Answer φ) (text : Int → Nat → φ → String) :
    List (Int × Nat) → DeactivateSharesResult × List Int
  | [] => (⟨0, []⟩, [])
  | (partyID, i) :: rest =>
    let (result, destroyed) := retireLoop answer text rest
    match answer i with
    | .ok => (⟨result.deactivatedCount + 1, result.errors⟩, partyID :: destroyed)
    | .failed failure gone =>
      (⟨result.deactivatedCount, text partyID i failure :: result.errors⟩,
        if gone then partyID :: destroyed else destroyed)

def retireThroughParties : Except String DeactivateSharesResult × List Int :=
  if req.oldPartyEndpoints.length ≠ req.oldPartyIDs.length then
    let endpoints := req.oldPartyEndpoints.length
    let parties := req.oldPartyIDs.length
    (.error s!"partyEndpoints ({endpoints}) must be parallel to partyIds ({parties})", [])
  else
    match t.authorize with
    | some err => (.error err, [])
    | none =>
      let url (i : Nat) := trimSlashes (req.oldPartyEndpoints.getD i "") ++ "/tss/shares/retire"
      let (result, destroyed) :=
        retireLoop t.party (fun partyID i => PartyFailure.text partyID (url i)) (t.asked req)
      (.ok result, destroyed)

/-- `DeactivateOldKeyShares`, if the worker is not lost. -/
def deactivateOldKeyShares : Except String DeactivateSharesResult × List Int :=
  if req.oldPartyEndpoints ≠ [] then retireThroughParties t req
  else
    match t.vault with
    | .unset => (.ok ⟨0, []⟩, [])
    | .failed err => (.error s!"vault client: {err}", [])
    | .ready basePath =>
      let base := if basePath = "" then "openfireblocks/mpc-party" else basePath
      let path (partyID : Int) := s!"{base}/party-{partyID}/{req.oldCeremonyID}"
      let (result, destroyed) := retireLoop t.sealedShare
        (fun partyID _ err => s!"party {partyID} ({path partyID}): {err}") (t.asked req)
      (.ok result, destroyed)

def RetireTry.run : Except String DeactivateSharesResult × List Int :=
  let r := deactivateOldKeyShares t req
  match t.lost, r.1 with
  | some (_, err), .ok _ => (.error err, r.2)
  | _, _ => r

end

def World.afterTry (req : KeyRotationRequest) (w : World) (t : RetireTry) : World :=
  (w.record ((t.run req).2.map .shareDestroyed)).pass t.took

def retiring (req : KeyRotationRequest) :
    List RetireTry → World → String → World × Except String DeactivateSharesResult
  | [], w, err => (w, .error err)
  | t :: rest, w, _ =>
    match (t.run req).1 with
    | .ok result => (w.afterTry req t, .ok result)
    | .error err => retiring req rest (w.afterTry req t) err

/-! ## The workflow -/

def failedRotation (newCeremony : DKGCeremonyResult) (err : String) : KeyRotationResult :=
  ⟨newCeremony, false, "failed", err⟩

section

variable (env : Environment) (req : KeyRotationRequest) (ceremony : DKGCeremonyResult) (w : World)

def afterRetention : World × KeyRotationResult :=
  match retiring req (env.retire.take maximumAttempts) w scheduleToClose with
  | (w, .error err) => (w, failedRotation ceremony s!"deactivate old shares: {err}")
  | (w, .ok result) => (w, ⟨ceremony, 0 < result.deactivatedCount, "completed", ""⟩)

def retireOldShares : World × KeyRotationResult :=
  if req.oldCeremonyID ≠ "" ∧ req.oldPartyIDs ≠ [] then
    match env.interrupted with
    | some err => (w, failedRotation ceremony s!"retention sleep interrupted: {err}")
    | none => afterRetention env req ceremony (w.pass (req.retention + env.overslept))
  else (w, ⟨ceremony, false, "completed", ""⟩)

def deactivateOldKey : World × KeyRotationResult :=
  if req.oldKeyID ≠ "" then
    match retrying (setKeyPairStatus · req.oldKeyID .inactive) []
      (env.setOldStatus.take maximumAttempts) w scheduleToClose with
    | (w, some err) => (w, failedRotation ceremony s!"deactivate old key: {err}")
    | (w, none) => retireOldShares env req ceremony w
  else retireOldShares env req ceremony w

def activateNewKey : World × KeyRotationResult :=
  if req.newKeyID ≠ "" then
    match retrying
      (activateKeyPair · req.newKeyID ceremony.thresholdAddress ceremony.thresholdPubKey)
      [.keyActivated] (env.activate.take maximumAttempts) w scheduleToClose with
    | (w, some err) => (w, failedRotation ceremony s!"activate new key: {err}")
    | (w, none) => deactivateOldKey env req ceremony w
  else deactivateOldKey env req ceremony w

end

/-- `KeyRotationWorkflow` on a database. -/
def keyRotationWorkflow (env : Environment) (req : KeyRotationRequest) (db : Database) :
    World × KeyRotationResult :=
  let w := World.pass ⟨0, db, []⟩ env.ceremonyTook
  match env.ceremony with
  | .error err => (w, failedRotation noCeremony err)
  | .ok ceremony =>
    if ceremony.status ≠ "completed" then (w, failedRotation ceremony ceremony.error)
    else activateNewKey env req ceremony (w.record [.ceremonyCompleted])

/-! ## Honesty -/

def Answer.acks {φ : Type} : Answer φ → Bool
  | .ok => true
  | .failed _ _ => false

def Answer.destroys {φ : Type} : Answer φ → Bool
  | .ok => true
  | .failed _ gone => gone

section

variable (t : RetireTry) (env : Environment) (req : KeyRotationRequest) (db : Database)

/-- The parties that are asked in a try: whether each one acknowledges (or its share is deleted from
Vault), and whether its share is gone. -/
def RetireTry.answers : List (Int × Bool × Bool) :=
  if req.oldPartyEndpoints ≠ [] then
    if req.oldPartyEndpoints.length = req.oldPartyIDs.length ∧ t.authorize = none then
      (t.asked req).map fun p => (p.1, (t.party p.2).acks, (t.party p.2).destroys)
    else []
  else
    match t.vault with
    | .ready _ =>
      (t.asked req).map fun p => (p.1, (t.sealedShare p.2).acks, (t.sealedShare p.2).destroys)
    | _ => []

def RetireTry.Acks (partyID : Int) : Prop :=
  ∃ gone, (partyID, true, gone) ∈ t.answers req

def RetireTry.Destroys (partyID : Int) : Prop :=
  ∃ acked, (partyID, acked, true) ∈ t.answers req

def RetireTry.returns : Bool :=
  t.lost.isNone &&
    if req.oldPartyEndpoints ≠ [] then
      req.oldPartyEndpoints.length = req.oldPartyIDs.length ∧ t.authorize = none
    else
      match t.vault with
      | .failed _ => false
      | _ => true

/-- The tries that are made: up to the first that returns a result. -/
def executed : List RetireTry → List RetireTry
  | [] => []
  | t :: rest => if t.returns req then [t] else t :: executed rest

def Environment.tries : List RetireTry :=
  executed req (env.retire.take maximumAttempts)

def AllAcked : Prop :=
  ∀ partyID ∈ req.oldPartyIDs, ∃ t ∈ env.tries req, t.Acks req partyID

structure Honest : Prop where
  reported : (keyRotationWorkflow env req db).2.oldSharesDeactivated = true → AllAcked env req
  ordered : ∀ time partyID,
    (time, .shareDestroyed partyID) ∈ (keyRotationWorkflow env req db).1.log →
      (∃ t ≤ time, (t, .ceremonyCompleted) ∈ (keyRotationWorkflow env req db).1.log) ∧
      (∃ t, (t, .keyActivated) ∈ (keyRotationWorkflow env req db).1.log) ∧
      ∀ t, (t, .keyActivated) ∈ (keyRotationWorkflow env req db).1.log → t + req.retention ≤ time

/-- The rotation is reported completed only if there was nothing to retire or all have
acknowledged. -/
def CompletedHonestly : Prop :=
  (keyRotationWorkflow env req db).2.status = "completed" → req.oldCeremonyID ≠ "" →
    AllAcked env req

def Database.HasKey (keyID : String) : Prop := ∃ row ∈ db.keyPairs, row.keyID = keyID

def Acknowledged (tries : List TableTry) : Prop :=
  ∃ t ∈ tries.take maximumAttempts, t.reply = .ok

/-- The old shares are asked for. -/
structure Reaches : Prop where
  ceremony : ∃ ceremony, env.ceremony = .ok ceremony ∧ ceremony.status = "completed"
  activated : req.newKeyID ≠ "" → Acknowledged env.activate ∧ db.HasKey req.newKeyID
  deactivated : req.oldKeyID ≠ "" → Acknowledged env.setOldStatus ∧ db.HasKey req.oldKeyID
  committee : req.oldCeremonyID ≠ "" ∧ req.oldPartyIDs ≠ []
  uninterrupted : env.interrupted = none

/-! ## One try -/

theorem deactivatedCount_retireLoop {φ : Type} (answer : Nat → Answer φ)
    (text : Int → Nat → φ → String) (asked : List (Int × Nat)) :
    (retireLoop answer text asked).1.deactivatedCount =
      asked.countP fun p => (answer p.2).acks := by
  induction asked with
  | nil => rfl
  | cons p rest ih =>
    rw [retireLoop, List.countP_cons, ← ih]
    cases answer p.2 with
    | ok | failed => rfl

theorem destroyed_retireLoop {φ : Type} (answer : Nat → Answer φ)
    (text : Int → Nat → φ → String) (asked : List (Int × Nat)) :
    (retireLoop answer text asked).2 =
      (asked.filter fun p => (answer p.2).destroys).map Prod.fst := by
  induction asked with
  | nil => rfl
  | cons p rest ih =>
    rw [retireLoop]
    cases hanswer : answer p.2 with
    | ok => simp [hanswer, Answer.destroys, ih]
    | failed failure gone =>
      cases gone with
      | true | false => simp [hanswer, Answer.destroys, ih]

theorem deactivateOldKeyShares_spec :
    (∀ result, (deactivateOldKeyShares t req).1 = .ok result →
      result.deactivatedCount = (t.answers req).countP fun a => a.2.1) ∧
    (deactivateOldKeyShares t req).2 =
      ((t.answers req).filter fun a => a.2.2).map Prod.fst := by
  unfold deactivateOldKeyShares RetireTry.answers
  split
  · unfold retireThroughParties
    split
    · next hlength =>
      rw [if_neg (fun h => hlength h.1)]
      simp
    · next hlength =>
      cases hauth : t.authorize with
      | some err => simp
      | none =>
        rw [if_pos ⟨not_not.mp hlength, rfl⟩]
        simp [deactivatedCount_retireLoop, destroyed_retireLoop, List.filter_map,
          Function.comp_def]
  · cases t.vault with
    | unset | failed err => simp
    | ready basePath =>
      simp [deactivatedCount_retireLoop, destroyed_retireLoop, List.filter_map,
        Function.comp_def]

theorem run_spec :
    (∀ result, (t.run req).1 = .ok result →
      result.deactivatedCount = (t.answers req).countP fun a => a.2.1) ∧
    (t.run req).2 = ((t.answers req).filter fun a => a.2.2).map Prod.fst := by
  obtain ⟨hcount, hgone⟩ := deactivateOldKeyShares_spec t req
  rw [RetireTry.run]
  split
  · exact ⟨fun _ hok => (by cases hok), hgone⟩
  · exact ⟨hcount, hgone⟩

theorem exists_run_eq_ok :
    (∃ result, (t.run req).1 = .ok result) ↔ t.returns req := by
  have hok : (∃ result, (deactivateOldKeyShares t req).1 = .ok result) ↔
      (if req.oldPartyEndpoints ≠ [] then
        (decide (req.oldPartyEndpoints.length = req.oldPartyIDs.length ∧ t.authorize = none))
      else
        match t.vault with
        | .failed _ => false
        | _ => true) := by
    unfold deactivateOldKeyShares
    split
    · unfold retireThroughParties
      split
      · next hlength => simp [hlength]
      next hlength =>
      cases t.authorize with
      | some err => simp
      | none => simp [not_not.mp hlength]
    · cases t.vault with
      | unset | failed err | ready basePath => simp
  rw [RetireTry.run, RetireTry.returns]
  cases hlost : t.lost with
  | none =>
    simpa using hok
  | some lost =>
    cases hresult : (deactivateOldKeyShares t req).1 with
    | ok result => simp
    | error err => simp [hresult]

end

/-! ## The tries of the old shares -/

variable {w : World} {t : RetireTry}

theorem mem_record {events : List Event} {p : Nat × Event} :
    p ∈ (w.record events).log ↔ p ∈ w.log ∨ p.1 = w.now ∧ p.2 ∈ events := by
  simp only [World.record, List.mem_append, List.mem_map]
  constructor
  · rintro (h | ⟨event, hevent, rfl⟩)
    · exact .inl h
    · exact .inr ⟨rfl, hevent⟩
  · rintro (h | ⟨hnow, hevent⟩)
    · exact .inl h
    · exact .inr ⟨p.2, hevent, by rw [← hnow]⟩

variable {req : KeyRotationRequest}

theorem mem_run_destroyed {partyID : Int} : partyID ∈ (t.run req).2 ↔ t.Destroys req partyID := by
  rw [(run_spec t req).2]
  simp [RetireTry.Destroys]

theorem acks_of_run_eq_ok {result : DeactivateSharesResult} (h : (t.run req).1 = .ok result) :
    0 < result.deactivatedCount ↔ ∃ partyID, t.Acks req partyID := by
  rw [(run_spec t req).1 result h, List.countP_pos_iff]
  constructor
  · rintro ⟨⟨partyID, acked, gone⟩, hmem, hacked⟩
    obtain rfl : acked := hacked
    exact ⟨partyID, gone, hmem⟩
  · rintro ⟨partyID, gone, hmem⟩
    exact ⟨_, hmem, rfl⟩

theorem mem_log_afterTry {p : Nat × Event} :
    p ∈ (w.afterTry req t).log ↔ p ∈ w.log ∨ p.1 = w.now ∧
      ∃ partyID, t.Destroys req partyID ∧ p.2 = .shareDestroyed partyID := by
  have hlog : (w.afterTry req t).log = (w.record ((t.run req).2.map .shareDestroyed)).log := rfl
  rw [hlog, mem_record, List.mem_map]
  simp only [mem_run_destroyed, eq_comm]

theorem mem_log_foldl_afterTry (req : KeyRotationRequest) :
    ∀ (tries : List RetireTry) (w : World),
      (∀ p ∈ w.log, p ∈ (tries.foldl (World.afterTry req) w).log) ∧
      (∀ p ∈ (tries.foldl (World.afterTry req) w).log, p ∈ w.log ∨ w.now ≤ p.1 ∧
        ∃ t ∈ tries, ∃ partyID, t.Destroys req partyID ∧ p.2 = .shareDestroyed partyID) ∧
      ∀ t ∈ tries, ∀ partyID, t.Destroys req partyID →
        ∃ time, (time, .shareDestroyed partyID) ∈ (tries.foldl (World.afterTry req) w).log
  | [], w => ⟨fun p hp => hp, fun p hp => .inl hp, fun t ht => (by cases ht)⟩
  | t :: rest, w => by
    obtain ⟨hkept, hnew, hall⟩ := mem_log_foldl_afterTry req rest (w.afterTry req t)
    have hnow : w.now ≤ (w.afterTry req t).now := Nat.le_add_right _ _
    refine ⟨fun p hp => hkept p (mem_log_afterTry.mpr (.inl hp)), fun p hp => ?_,
      fun u hu partyID hd => ?_⟩
    · rcases hnew p hp with hp | ⟨hle, u, hu, hd⟩
      · rcases mem_log_afterTry.mp hp with hp | ⟨heq, hd⟩
        · exact .inl hp
        · exact .inr ⟨heq.ge, t, List.mem_cons_self, hd⟩
      · exact .inr ⟨hnow.trans hle, u, List.mem_cons_of_mem t hu, hd⟩
    · rcases List.mem_cons.mp hu with rfl | hu
      · exact ⟨w.now, hkept _ (mem_log_afterTry.mpr (.inr ⟨rfl, partyID, hd, rfl⟩))⟩
      · exact hall u hu partyID hd

theorem retiring_spec (req : KeyRotationRequest) :
    ∀ (tries : List RetireTry) (w : World) (err : String),
      (retiring req tries w err).1 = (executed req tries).foldl (World.afterTry req) w ∧
      ((∃ result, (retiring req tries w err).2 = .ok result) ↔
        ∃ t ∈ executed req tries, t.returns req) ∧
      ((∃ result, (retiring req tries w err).2 = .ok result ∧ 0 < result.deactivatedCount) ↔
        ∃ t ∈ executed req tries, t.returns req ∧ ∃ partyID, t.Acks req partyID)
  | [], w, err => by simp [retiring, executed]
  | t :: rest, w, err => by
    have hreturns := exists_run_eq_ok t req
    rw [retiring, executed]
    cases hrun : (t.run req).1 with
    | ok result =>
      have ht : t.returns req := hreturns.mp ⟨result, hrun⟩
      simp [ht, acks_of_run_eq_ok hrun]
    | error errRun =>
      have ht : ¬t.returns req := by
        intro ht
        obtain ⟨result, hok⟩ := hreturns.mpr ht
        cases hrun.symm.trans hok
      obtain ⟨hworld, hok, hpos⟩ := retiring_spec req rest (w.afterTry req t) errRun
      rw [if_neg ht]
      refine ⟨hworld, ?_, ?_⟩
      · simp [hok, ht]
      · simp [hpos, ht]

/-! ## The tries on the tables -/

section

variable (update : Database → Except String Database)

/-- An update that needs the row of a key and keeps every row. -/
structure Updates (keyID : String) : Prop where
  exists_ok : ∀ db, (∃ db', update db = .ok db') ↔ db.HasKey keyID
  hasKey : ∀ db db', update db = .ok db' → ∀ other, db'.HasKey other ↔ db.HasKey other

theorem hasKey_map {db : Database} {f : KeyPair → KeyPair} (hf : ∀ row, (f row).keyID = row.keyID)
    (keyID : String) :
    Database.HasKey { db with keyPairs := db.keyPairs.map f } keyID ↔ db.HasKey keyID := by
  constructor
  · rintro ⟨row, hrow, hid⟩
    obtain ⟨old, hold, rfl⟩ := List.mem_map.mp hrow
    exact ⟨old, hold, (hf old).symm.trans hid⟩
  · rintro ⟨row, hrow, hid⟩
    exact ⟨f row, List.mem_map_of_mem hrow, (hf row).trans hid⟩

theorem updates_rows {keyID : String} {f : KeyPair → KeyPair} {err : String}
    (hf : ∀ row, (f row).keyID = row.keyID) :
    Updates (fun db => if ∃ row ∈ db.keyPairs, row.keyID = keyID
      then .ok { db with keyPairs := db.keyPairs.map f } else .error err) keyID where
  exists_ok db := by
    split
    · next h => exact iff_of_true ⟨_, rfl⟩ h
    · next h => exact iff_of_false (by simp) h
  hasKey db db' h := by
    split at h
    · cases h
      exact hasKey_map hf
    · cases h

theorem updates_activateKeyPair (keyID address publicKey : String) :
    Updates (activateKeyPair · keyID address publicKey) keyID :=
  updates_rows fun row => by split <;> rfl

theorem updates_setKeyPairStatus (keyID : String) (status : KeyStatus) :
    Updates (setKeyPairStatus · keyID status) keyID :=
  updates_rows fun row => by split <;> rfl

def World.afterTable (events : List Event) (w : World) (t : TableTry) : World :=
  let w := w.pass t.took
  { w.record (if t.reply.commits (update w.db) then events else []) with
    db := (t.reply.apply w.db (update w.db)).1 }

theorem retrying_cons (events : List Event) (t : TableTry) (rest : List TableTry) (w : World)
    (err : String) :
    retrying update events (t :: rest) w err =
      match (t.reply.apply w.db (update w.db)).2 with
      | none => (w.afterTable update events t, none)
      | some err => retrying update events rest (w.afterTable update events t) err := rfl

end

theorem apply_eq_none {reply : Reply} {db : Database} {update : Except String Database} :
    (reply.apply db update).2 = none ↔ reply = .ok ∧ ∃ db', update = .ok db' := by
  cases reply with
  | ok => cases update <;> simp [Reply.apply]
  | failed err => simp [Reply.apply]
  | lost err => cases update <;> simp [Reply.apply]

section

variable {update : Database → Except String Database} {keyID : String} (events : List Event)

theorem hasKey_afterTable (h : Updates update keyID) (w : World) (t : TableTry) (other : String) :
    (w.afterTable update events t).db.HasKey other ↔ w.db.HasKey other := by
  rcases t.reply.apply_cases w.db (update w.db) with hsame | ⟨-, hok⟩
  · have : (w.afterTable update events t).db = w.db := hsame
    rw [this]
  · exact h.hasKey _ _ hok other

/-- What the tries of an activity come to. -/
structure TableRun (events : List Event) (keyID : String) (acked : Prop) (w : World)
    (r : World × Option String) : Prop where
  hasKey : ∀ other, r.1.db.HasKey other ↔ w.db.HasKey other
  now_le : w.now ≤ r.1.now
  kept : ∀ p ∈ w.log, p ∈ r.1.log
  new : ∀ p ∈ r.1.log, p ∈ w.log ∨ p.2 ∈ events ∧ p.1 ≤ r.1.now
  logged : r.2 = none → ∀ event ∈ events, ∃ time, (time, event) ∈ r.1.log
  acknowledged : r.2 = none ↔ acked ∧ w.db.HasKey keyID

theorem mem_log_afterTable {w : World} {t : TableTry} {p : Nat × Event} :
    p ∈ (w.afterTable update events t).log ↔ p ∈ w.log ∨
      p.1 = w.now + t.took ∧ t.reply.commits (update w.db) ∧ p.2 ∈ events := by
  have hlog : (w.afterTable update events t).log =
      ((w.pass t.took).record (if t.reply.commits (update w.db) then events else [])).log := rfl
  rw [hlog, mem_record]
  cases t.reply.commits (update w.db) <;> simp [World.pass]

theorem tableRun_retrying (h : Updates update keyID) :
    ∀ (tries : List TableTry) (w : World) (err : String),
      TableRun events keyID (∃ t ∈ tries, t.reply = .ok) w (retrying update events tries w err)
  | [], w, err =>
    { hasKey := fun _ => Iff.rfl
      now_le := le_rfl
      kept := fun _ hp => hp
      new := fun _ hp => .inl hp
      logged := fun hnone => (by cases hnone)
      acknowledged := by simp [retrying] }
  | t :: rest, w, err => by
    have hnow : (w.afterTable update events t).now = w.now + t.took := rfl
    rw [retrying_cons]
    cases happly : (t.reply.apply w.db (update w.db)).2 with
    | none =>
      obtain ⟨hreply, db', hupdate⟩ := apply_eq_none.mp happly
      have hcommits : t.reply.commits (update w.db) := by rw [hreply, hupdate]; rfl
      exact {
        hasKey := hasKey_afterTable events h w t
        now_le := hnow ▸ Nat.le_add_right _ _
        kept := fun p hp => (mem_log_afterTable events).mpr (.inl hp)
        new := by
          intro p hp
          rcases (mem_log_afterTable events).mp hp with hp | ⟨htime, -, hevent⟩
          · exact .inl hp
          · exact .inr ⟨hevent, htime.le⟩
        logged := fun _ event hevent =>
          ⟨_, (mem_log_afterTable events).mpr (.inr ⟨rfl, hcommits, hevent⟩)⟩
        acknowledged := by
          refine iff_of_true rfl ⟨⟨t, List.mem_cons_self, hreply⟩, ?_⟩
          exact (h.exists_ok w.db).mp ⟨db', hupdate⟩ }
    | some errTry =>
      have ih := tableRun_retrying h rest (w.afterTable update events t) errTry
      exact {
        hasKey := fun other => (ih.hasKey other).trans (hasKey_afterTable events h w t other)
        now_le := (hnow ▸ Nat.le_add_right _ _).trans ih.now_le
        kept := fun p hp => ih.kept p ((mem_log_afterTable events).mpr (.inl hp))
        new := by
          intro p hp
          rcases ih.new p hp with hp | hnew
          · rcases (mem_log_afterTable events).mp hp with hp | ⟨htime, -, hevent⟩
            · exact .inl hp
            · exact .inr ⟨hevent, htime.le.trans ih.now_le⟩
          · exact .inr hnew
        logged := ih.logged
        acknowledged := by
          rw [ih.acknowledged, hasKey_afterTable events h, List.exists_mem_cons_iff]
          constructor
          · exact fun hboth => ⟨.inr hboth.1, hboth.2⟩
          · rintro ⟨hreply | hrest, hkey⟩
            · -- this try was not acknowledged, so its row is missing
              have : (t.reply.apply w.db (update w.db)).2 = none :=
                apply_eq_none.mpr ⟨hreply, (h.exists_ok w.db).mpr hkey⟩
              rw [happly] at this
              cases this
            · exact ⟨hrest, hkey⟩ }

end

/-! ## The workflow -/

structure Ready (req : KeyRotationRequest) (w : World) : Prop where
  completed : ∃ t ≤ w.now, (t, .ceremonyCompleted) ∈ w.log
  activated : (∃ t, (t, .keyActivated) ∈ w.log) ↔ req.newKeyID ≠ ""
  past : ∀ t, (t, .keyActivated) ∈ w.log → t ≤ w.now
  intact : ∀ t partyID, (t, .shareDestroyed partyID) ∉ w.log

structure Untouched (req : KeyRotationRequest) (r : World × KeyRotationResult) : Prop where
  intact : ∀ t partyID, (t, .shareDestroyed partyID) ∉ r.1.log
  notReported : r.2.oldSharesDeactivated = false
  notCompleted : req.oldCeremonyID ≠ "" → req.oldPartyIDs ≠ [] → r.2.status ≠ "completed"

theorem untouched_failed (ceremony : DKGCeremonyResult) (err : String)
    (h : ∀ t partyID, (t, .shareDestroyed partyID) ∉ w.log) :
    Untouched req (w, failedRotation ceremony err) where
  intact := h
  notReported := rfl
  notCompleted := fun _ _ (h : "failed" = "completed") => absurd h (by decide)

/-- The old shares are not asked for, or under these conditions they are, when the world is ready
and the retention time has passed. -/
def Outcome (env : Environment) (req : KeyRotationRequest) (reached : Prop)
    (r : World × KeyRotationResult) : Prop :=
  (¬reached ∧ Untouched req r) ∨
  (reached ∧ ∃ ceremony w, Ready req w ∧
    r = afterRetention env req ceremony (w.pass (req.retention + env.overslept)))

theorem Outcome.congr {env : Environment} {p q : Prop} {r : World × KeyRotationResult}
    (h : Outcome env req p r) (hpq : p ↔ q) : Outcome env req q r := by
  rwa [Outcome, ← hpq]

section

variable {env : Environment} {req : KeyRotationRequest} {w : World}

theorem outcome_retireOldShares (ceremony : DKGCeremonyResult) (hready : Ready req w) :
    Outcome env req ((req.oldCeremonyID ≠ "" ∧ req.oldPartyIDs ≠ []) ∧ env.interrupted = none)
      (retireOldShares env req ceremony w) := by
  unfold retireOldShares
  split
  · next hcommittee =>
    cases hsleep : env.interrupted with
    | some err => exact .inl ⟨fun h => (by cases h.2), untouched_failed _ _ hready.intact⟩
    | none => exact .inr ⟨⟨hcommittee, rfl⟩, ceremony, w, hready, rfl⟩
  · next hcommittee =>
    exact .inl ⟨fun h => hcommittee h.1, hready.intact, rfl, fun h1 h2 => absurd ⟨h1, h2⟩ hcommittee⟩

theorem outcome_deactivateOldKey (ceremony : DKGCeremonyResult) (hready : Ready req w) :
    Outcome env req
      ((req.oldKeyID ≠ "" → Acknowledged env.setOldStatus ∧ w.db.HasKey req.oldKeyID) ∧
        (req.oldCeremonyID ≠ "" ∧ req.oldPartyIDs ≠ []) ∧ env.interrupted = none)
      (deactivateOldKey env req ceremony w) := by
  unfold deactivateOldKey
  split
  · next hkey =>
    have htries := tableRun_retrying [] (updates_setKeyPairStatus req.oldKeyID .inactive)
      (env.setOldStatus.take maximumAttempts) w scheduleToClose
    generalize retrying (setKeyPairStatus · req.oldKeyID .inactive) []
      (env.setOldStatus.take maximumAttempts) w scheduleToClose = r at htries
    obtain ⟨w', err⟩ := r
    have hsame : ∀ p, p ∈ w'.log ↔ p ∈ w.log := by
      intro p
      refine ⟨fun hp => ?_, htries.kept p⟩
      rcases htries.new p hp with hp | ⟨hevent, -⟩
      · exact hp
      · cases hevent
    have hready' : Ready req w' := by
      obtain ⟨⟨t, ht, hcompleted⟩, hactivated, hpast, hintact⟩ := hready
      refine ⟨⟨t, ht.trans htries.now_le, (hsame _).mpr hcompleted⟩, ?_, ?_, ?_⟩
      · simp only [hsame, hactivated]
      · exact fun t ht => (hpast t ((hsame _).mp ht)).trans htries.now_le
      · exact fun t partyID ht => hintact t partyID ((hsame _).mp ht)
    have hack := htries.acknowledged
    cases err with
    | none =>
      refine (outcome_retireOldShares ceremony hready').congr ?_
      exact ⟨fun h => ⟨fun _ => hack.mp rfl, h⟩, fun h => h.2⟩
    | some err =>
      refine .inl ⟨fun h => ?_, untouched_failed _ _ hready'.intact⟩
      cases hack.mpr (h.1 hkey)
  · next hkey =>
    refine (outcome_retireOldShares ceremony hready).congr ?_
    simp [hkey]

theorem outcome_activateNewKey (ceremony : DKGCeremonyResult)
    (hlog : w.log = [(w.now, .ceremonyCompleted)]) :
    Outcome env req
      ((req.newKeyID ≠ "" → Acknowledged env.activate ∧ w.db.HasKey req.newKeyID) ∧
        (req.oldKeyID ≠ "" → Acknowledged env.setOldStatus ∧ w.db.HasKey req.oldKeyID) ∧
        (req.oldCeremonyID ≠ "" ∧ req.oldPartyIDs ≠ []) ∧ env.interrupted = none)
      (activateNewKey env req ceremony w) := by
  have hmem : ∀ p, p ∈ w.log ↔ p = (w.now, .ceremonyCompleted) := by simp [hlog]
  unfold activateNewKey
  split
  · next hkey =>
    have htries := tableRun_retrying [.keyActivated]
      (updates_activateKeyPair req.newKeyID ceremony.thresholdAddress ceremony.thresholdPubKey)
      (env.activate.take maximumAttempts) w scheduleToClose
    generalize retrying
      (activateKeyPair · req.newKeyID ceremony.thresholdAddress ceremony.thresholdPubKey)
      [.keyActivated] (env.activate.take maximumAttempts) w scheduleToClose = r at htries
    obtain ⟨w', err⟩ := r
    have hnew : ∀ p ∈ w'.log, p = (w.now, .ceremonyCompleted) ∨
        p.2 = .keyActivated ∧ p.1 ≤ w'.now := by
      intro p hp
      rcases htries.new p hp with hp | ⟨hevent, htime⟩
      · exact .inl ((hmem p).mp hp)
      · exact .inr ⟨List.mem_singleton.mp hevent, htime⟩
    have hintact : ∀ t partyID, (t, .shareDestroyed partyID) ∉ w'.log := by
      intro t partyID ht
      rcases hnew _ ht with heq | ⟨heq, -⟩
      · cases heq
      · cases heq
    have hack := htries.acknowledged
    cases err with
    | none =>
      have hready : Ready req w' := by
        refine ⟨⟨w.now, htries.now_le, htries.kept _ ((hmem _).mpr rfl)⟩, ?_, ?_, hintact⟩
        · exact iff_of_true (htries.logged rfl _ (List.mem_singleton.mpr rfl)) hkey
        · intro t ht
          rcases hnew _ ht with heq | ⟨-, hle⟩
          · cases heq
          · exact hle
      refine (outcome_deactivateOldKey ceremony hready).congr ?_
      rw [htries.hasKey]
      exact ⟨fun h => ⟨fun _ => hack.mp rfl, h⟩, fun h => h.2⟩
    | some err =>
      refine .inl ⟨fun h => ?_, untouched_failed _ _ hintact⟩
      cases hack.mpr (h.1 hkey)
  · next hkey =>
    have hready : Ready req w := by
      refine ⟨⟨w.now, le_rfl, (hmem _).mpr rfl⟩, ?_, ?_, ?_⟩
      · simpa [hmem] using hkey
      · simp [hmem]
      · simp [hmem]
    refine (outcome_deactivateOldKey ceremony hready).congr ?_
    simp [hkey]

end

theorem outcome_keyRotationWorkflow (env : Environment) (req : KeyRotationRequest)
    (db : Database) : Outcome env req (Reaches env req db) (keyRotationWorkflow env req db) := by
  have hreaches : ∀ {ceremony}, env.ceremony = .ok ceremony → ceremony.status = "completed" →
      (Reaches env req db ↔
        ((req.newKeyID ≠ "" → Acknowledged env.activate ∧ db.HasKey req.newKeyID) ∧
        (req.oldKeyID ≠ "" → Acknowledged env.setOldStatus ∧ db.HasKey req.oldKeyID) ∧
        (req.oldCeremonyID ≠ "" ∧ req.oldPartyIDs ≠ []) ∧ env.interrupted = none)) := by
    intro ceremony hceremony hstatus
    constructor
    · exact fun h => ⟨h.activated, h.deactivated, h.committee, h.uninterrupted⟩
    · exact fun h => ⟨⟨ceremony, hceremony, hstatus⟩, h.1, h.2.1, h.2.2.1, h.2.2.2⟩
  unfold keyRotationWorkflow
  cases hceremony : env.ceremony with
  | error err =>
    refine .inl ⟨fun h => ?_, untouched_failed _ _ (by simp [World.pass])⟩
    obtain ⟨ceremony, hok, -⟩ := h.ceremony
    cases hceremony.symm.trans hok
  | ok ceremony =>
    dsimp only
    split
    · next hstatus =>
      refine .inl ⟨fun h => ?_, untouched_failed _ _ (by simp [World.pass])⟩
      obtain ⟨other, hok, hcompleted⟩ := h.ceremony
      obtain rfl : ceremony = other := Except.ok.inj (hceremony.symm.trans hok)
      exact hstatus hcompleted
    · next hstatus =>
      exact (outcome_activateNewKey ceremony rfl).congr
        (hreaches hceremony (not_not.mp hstatus)).symm

/-! ## When it is honest -/

/-- The report and the log when the old shares are asked for. -/
theorem afterRetention_spec (env : Environment) (req : KeyRotationRequest)
    (ceremony : DKGCeremonyResult) (w : World) :
    (afterRetention env req ceremony w).1 = (env.tries req).foldl (World.afterTry req) w ∧
    ((afterRetention env req ceremony w).2.oldSharesDeactivated ↔
      ∃ t ∈ env.tries req, t.returns req ∧ ∃ partyID, t.Acks req partyID) ∧
    ((afterRetention env req ceremony w).2.status = "completed" ↔
      ∃ t ∈ env.tries req, t.returns req) := by
  obtain ⟨hworld, hok, hpos⟩ :=
    retiring_spec req (env.retire.take maximumAttempts) w scheduleToClose
  rw [afterRetention, Environment.tries, ← hworld, ← hok, ← hpos]
  generalize retiring req (env.retire.take maximumAttempts) w scheduleToClose = r
  obtain ⟨w', err | result⟩ := r
  · simp [failedRotation]
  · simp

/-- Nothing is destroyed before its time, apart from the new key. -/
theorem ordered_afterRetention {env : Environment} (ceremony : DKGCeremonyResult)
    (hready : Ready req w) {r : World × KeyRotationResult}
    (hr : r = afterRetention env req ceremony (w.pass (req.retention + env.overslept))) :
    (∀ time partyID, (time, .shareDestroyed partyID) ∈ r.1.log →
      (∃ t ≤ time, (t, .ceremonyCompleted) ∈ r.1.log) ∧
      ∀ t, (t, .keyActivated) ∈ r.1.log → t + req.retention ≤ time) ∧
    ((∃ t, (t, .keyActivated) ∈ r.1.log) ↔ req.newKeyID ≠ "") ∧
    ((∃ time partyID, (time, .shareDestroyed partyID) ∈ r.1.log) ↔
      ∃ t ∈ env.tries req, ∃ partyID, t.Destroys req partyID) := by
  obtain ⟨hkept, hnew, hall⟩ :=
    mem_log_foldl_afterTry req (env.tries req) (w.pass (req.retention + env.overslept))
  rw [← (afterRetention_spec env req ceremony _).1, ← hr] at hkept hnew hall
  have hactivated : ∀ t, (t, .keyActivated) ∈ r.1.log ↔ (t, .keyActivated) ∈ w.log := by
    refine fun t => ⟨fun ht => ?_, hkept _⟩
    rcases hnew _ ht with ht | ⟨-, u, hu, partyID, hd, heq⟩
    · exact ht
    · cases heq
  refine ⟨fun time partyID hdestroyed => ?_, ?_, ?_⟩
  · obtain hdestroyed | ⟨htime, -⟩ := hnew _ hdestroyed
    · exact absurd hdestroyed (hready.intact time partyID)
    have hnow : w.now + (req.retention + env.overslept) ≤ time := htime
    constructor
    · obtain ⟨t, ht, hcompleted⟩ := hready.completed
      exact ⟨t, by omega, hkept _ hcompleted⟩
    · intro t ht
      have := hready.past t ((hactivated t).mp ht)
      omega
  · simp only [hactivated, hready.activated]
  · constructor
    · rintro ⟨time, partyID, hdestroyed⟩
      rcases hnew _ hdestroyed with hdestroyed | ⟨-, t, ht, other, hd, -⟩
      · exact absurd hdestroyed (hready.intact time partyID)
      · exact ⟨t, ht, other, hd⟩
    · rintro ⟨t, ht, partyID, hd⟩
      obtain ⟨time, hdestroyed⟩ := hall t ht partyID hd
      exact ⟨time, partyID, hdestroyed⟩

/--
**The rotation is honest exactly if two things hold once the old shares are asked for.** If one party
acknowledges in the try whose result is used, then all have acknowledged in one of the tries; and if
a share is destroyed at all, then there is a new key. Its status `completed` is as honest exactly if
all have acknowledged whenever a try returns a result.
-/
theorem rotation_honest_iff (env : Environment) (req : KeyRotationRequest) (db : Database) :
    (Honest env req db ↔ (Reaches env req db →
      ((∃ t ∈ env.tries req, t.returns req = true ∧ ∃ partyID, t.Acks req partyID) →
        AllAcked env req) ∧
      ((∃ t ∈ env.tries req, ∃ partyID, t.Destroys req partyID) → req.newKeyID ≠ ""))) ∧
    (CompletedHonestly env req db ↔ (Reaches env req db →
      (∃ t ∈ env.tries req, t.returns req = true) → AllAcked env req)) := by
  rcases outcome_keyRotationWorkflow env req db with
    ⟨hreached, hintact, hreported, hcompleted⟩ | ⟨hreached, ceremony, w, hready, hr⟩
  · refine ⟨iff_of_true ⟨?_, ?_⟩ fun h => absurd h hreached,
      iff_of_true ?_ fun h => absurd h hreached⟩
    · intro h
      rw [hreported] at h
      cases h
    · exact fun time partyID h => absurd h (hintact time partyID)
    · intro hstatus hceremony partyID hparty
      exact absurd hstatus (hcompleted hceremony (List.ne_nil_of_mem hparty))
  · obtain ⟨-, hdeactivated, hstatus⟩ := afterRetention_spec env req ceremony
      (w.pass (req.retention + env.overslept))
    obtain ⟨hordered, hactivated, hdestroyed⟩ := ordered_afterRetention ceremony hready hr
    rw [← hr] at hdeactivated hstatus
    refine ⟨⟨fun h _ => ⟨fun hacked => ?_, fun hgone => ?_⟩, fun h => ⟨fun htrue => ?_, ?_⟩⟩, ?_⟩
    · exact h.reported (hdeactivated.mpr hacked)
    · obtain ⟨time, partyID, hlog⟩ := hdestroyed.mpr hgone
      exact hactivated.mp (h.ordered time partyID hlog).2.1
    · exact (h hreached).1 (hdeactivated.mp htrue)
    · intro time partyID hlog
      obtain ⟨hdone, hpast⟩ := hordered time partyID hlog
      exact ⟨hdone, hactivated.mpr ((h hreached).2 (hdestroyed.mp ⟨time, partyID, hlog⟩)), hpast⟩
    · constructor
      · exact fun h _ hreturned => h (hstatus.mpr hreturned) hreached.committee.1
      · exact fun h hdone _ => h hreached (hstatus.mp hdone)

/-! ## An old committee of three -/

def rotationTables : Database where
  keyPairs := [⟨"key-1", .active, some "0xa1", some "04b2"⟩, ⟨"key-2", .pendingDkg, none, none⟩]
  ceremonies := []

def rotationRequest (newKeyID : String) : KeyRotationRequest where
  newCeremony := ⟨"ceremony-2", "ethereum", 1, [1, 2, 3], ["http://p1", "http://p2", "http://p3"]⟩
  oldKeyID := "key-1"
  newKeyID := newKeyID
  oldCeremonyID := "ceremony-1"
  oldPartyIDs := [1, 2, 3]
  oldPartyEndpoints := ["http://p1", "http://p2", "http://p3"]
  shareRetention := 0

/-- Everything goes well but for the parties that cannot be reached. -/
def rotationEnvironment (reachable : Nat → Bool) : Environment where
  ceremonyTook := 60
  ceremony := .ok ⟨"ceremony-2", "completed", "0xc3", "04d4", ""⟩
  activate := [⟨1, .ok⟩]
  setOldStatus := [⟨1, .ok⟩]
  interrupted := none
  overslept := 0
  retire :=
    [{ took := 15
       authorize := none
       vault := .unset
       party := fun i => if reachable i then .ok else .failed (.transport "connection refused") false
       sealedShare := fun _ => .ok
       lost := none }]

/-- **One party of three acknowledges, and the shares are reported deactivated. Without a new key
the old shares are destroyed as well.** -/
theorem rotation_not_honest :
    (keyRotationWorkflow (rotationEnvironment (· = 0)) (rotationRequest "key-2")
      rotationTables).2 = ⟨⟨"ceremony-2", "completed", "0xc3", "04d4", ""⟩, true, "completed", ""⟩ ∧
    ¬Honest (rotationEnvironment (· = 0)) (rotationRequest "key-2") rotationTables ∧
    ¬Honest (rotationEnvironment fun _ => true) (rotationRequest "") rotationTables := by
  refine ⟨rfl, fun h => ?_, fun h => ?_⟩
  · obtain ⟨t, ht, gone, hacked⟩ := h.reported rfl 2 (by decide)
    obtain rfl := List.mem_singleton.mp ht
    have hanswers : (2, true, gone) ∈ [((1 : Int), true, true), (2, false, false), (3, false, false)] :=
      hacked
    simp at hanswers
  · have hdestroyed : ((720 * 3600 * 10 ^ 9 + 61, .shareDestroyed 1) : Nat × Event) ∈
        (keyRotationWorkflow (rotationEnvironment fun _ => true) (rotationRequest "")
          rotationTables).1.log := by
      decide
    have hnone : ∀ p ∈ (keyRotationWorkflow (rotationEnvironment fun _ => true)
        (rotationRequest "") rotationTables).1.log, p.2 ≠ .keyActivated := by
      decide
    obtain ⟨-, ⟨t, ht⟩, -⟩ := h.ordered _ _ hdestroyed
    exact hnone _ ht rfl

end OpenFireblocks.Worker
