import OpenFireblocks.Lib.Threads
import OpenFireblocks.Party.Manager

/-!
# The party process

Handlers and goroutines of one party, cut at the locks they take. A `Task` is where a handler or
goroutine stands between two critical sections, with the variables it still needs. A `Label` is a
request, or what the outside answers to a running task: the protocol delivers or fails, the sealed
store accepts a write or does not. An `Effect` is the one write a critical section makes.

A request that is refused writes nothing and is not a step. A section that waits for a mutex nobody
will release is not a step either. There are such sections because one return of `StartSigning`
forgets to release the mutex of the key generation; a `Forget` that waits for that mutex holds the
one of the maps.
-/

namespace OpenFireblocks.Party

open Go Threads

variable {S : Type}

/-- Where a handler or goroutine stands. -/
inductive Task (S : Type) where
  /-- `runKeygen`: the protocol is running for record `n`. -/
  | keygen (id : String) (n : Nat)
  /-- `completeCeremony`, about to seal. -/
  | keygenSeal (id : String) (n : Nat) (share : KeyShare S) (pubKeyHex address : String)
  /-- `completeCeremony`, about to record the share. -/
  | keygenRecord (id : String) (n : Nat) (share : KeyShare S) (pubKeyHex address : String)
      (isSealed : Bool)
  /-- `failCeremony`, called by the run of record `n`, about to look the id up. -/
  | keygenFail (id : String) (n : Nat) (msg : String)
  /-- `failCeremony`, holding the record it found. -/
  | keygenFailed (id : String) (n : Nat) (msg : String)
  /-- `StartResharing`, holding the source it found. -/
  | reshareRead (reshareID source : String) (peers : Peers) (n : Nat)
  /-- `StartResharing`, about to register. -/
  | reshareRegister (reshareID : String) (plan : ResharePlan) (share : KeyShare S)
  /-- `runResharing`, about to resolve its identities. -/
  | reshareStart (reshareID : String) (k : Nat) (plan : ResharePlan) (share : KeyShare S)
  /-- `driveResharing`: the protocol is running. -/
  | reshare (reshareID : String) (k : Nat) (plan : ResharePlan)
  /-- `completeResharing`, about to record the new share in the refresh's own record. -/
  | reshareAccept (reshareID : String) (k : Nat) (plan : ResharePlan) (share : KeyShare S)
      (publicKey address : String)
  /-- `completeResharing`, about to seal. -/
  | reshareSeal (reshareID : String) (k : Nat) (plan : ResharePlan) (share : KeyShare S)
      (publicKey address : String)
  /-- `completeResharing`, about to note whether it sealed. -/
  | reshareMark (reshareID : String) (k : Nat) (plan : ResharePlan) (share : KeyShare S)
      (isSealed : Bool)
  /-- `completeResharing`, about to look the source up. -/
  | reshareFind (plan : ResharePlan) (share : KeyShare S)
  /-- `completeResharing`, holding the source it found. -/
  | reshareReplace (plan : ResharePlan) (share : KeyShare S) (n : Nat)
  /-- `failResharing`, about to look the id up, and holding what it found. -/
  | reshareFail (reshareID msg : String)
  | reshareFailed (reshareID : String) (k : Nat) (msg : String)
  /-- `RestoreCeremony`, about to load. -/
  | restoreLoad (id : String) (peers : Peers)
  /-- `RestoreCeremony`, about to register. -/
  | restoreRegister (id : String) (x : KeygenCeremony S)
  /-- `HandleTSSRetire` after `Forget`, about to destroy the sealed share. -/
  | retire (id : String)
  /-- `Forget`, waiting for the mutex of the key generation. -/
  | forgetting (id : String)
  /-- `StartSigning`, holding the key generation it found. -/
  | signRead (signID keygenCeremonyID : String) (messageHash : BigEndian.Bytes)
      (committee : List Int) (n : Nat)
  /-- `StartSigning`, about to register. -/
  | signRegister (signID : String) (z : SigningCeremony)
  /-- `driveSigning`: the protocol is running. -/
  | sign (signID : String) (k : Nat)
  /-- `failSigning`, about to look the id up, and holding what it found. -/
  | signFail (signID msg : String)
  | signFailed (signID : String) (k : Nat) (msg : String)

/-- A request, or what the outside answers to a running task. -/
inductive Label (S : Type) where
  | startKeygen (id : String) (threshold : Int) (peers : Peers) (curve : Curve)
      (blockchain : String)
  | startSigning (signID keygenCeremonyID : String) (messageHash : BigEndian.Bytes)
      (committee : List Int)
  | startResharing (reshareID source : String) (peers : Peers)
  | restore (id : String) (peers : Peers)
  | retire (id : String)
  /-- The task takes its next lock. -/
  | advance
  /-- The protocol, the relay or a read of the store fails. -/
  | fail (msg : String)
  /-- The protocol delivers this party's save data. -/
  | deliver (save : S)
  /-- The store accepts a write. -/
  | stored
  /-- The store refuses a write. -/
  | notStored (msg : String)
  /-- The protocol delivers a signature. -/
  | signed (signature : String)

/-- The write of one critical section. -/
inductive Effect (S : Type) where
  | idle
  | registerKeygen (id : String) (x : KeygenCeremony S)
  | failKeygen (id : String) (n : Nat) (msg : String)
  | recordKeygen (id : String) (n : Nat) (share : KeyShare S) (pubKeyHex address : String)
      (isSealed : Bool)
  | replaceShare (id : String) (n : Nat) (share : KeyShare S) (sortedIDs : List PartyID)
      (epoch : Int)
  | forget (id : String)
  | writeSealed (id : String) (e : SealedShare S)
  | destroySealed (id : String)
  | registerResharing (reshareID : String) (y : ResharingCeremony S)
  | failResharing (reshareID : String) (k : Nat) (msg : String)
  | acceptResharing (reshareID : String) (k : Nat) (share : KeyShare S)
  | markResharing (reshareID : String) (k : Nat) (isSealed : Bool)
  | registerSigning (signID : String) (z : SigningCeremony)
  | failSigning (signID : String) (k : Nat) (msg : String)
  | completeSigning (signID : String) (k : Nat) (signature : String)
  | leaveLocked (id : String) (n : Nat)
  | freeze

namespace Effect

/-- The maps and the store after the write. -/
def apply (m : Manager S) : Effect S → Manager S
  | idle => m
  | registerKeygen id x => { m with ceremonies := m.ceremonies.register id x }
  | failKeygen id n msg =>
    { m with ceremonies := m.ceremonies.modify id n fun x =>
        { x with status := .failed, errorMessage := msg } }
  | recordKeygen id n share pubKeyHex address isSealed =>
    { m with ceremonies := m.ceremonies.modify id n fun x =>
        { x with status := .completed, saveData := some share, publicKeyHex := pubKeyHex,
                 address := address, isSealed := isSealed } }
  | replaceShare id n share sortedIDs epoch =>
    { m with ceremonies := m.ceremonies.modify id n fun x =>
        { x with saveData := some share, sortedIDs := sortedIDs, epoch := epoch } }
  | forget id =>
    match m.ceremonies.current id with
    | none => m
    | some n =>
      { m with ceremonies :=
          (m.ceremonies.modify id n fun x => { x with saveData := none }).delete id }
  | writeSealed id e => { m with store := Function.update m.store id (some e) }
  | destroySealed id => { m with store := Function.update m.store id none }
  | registerResharing reshareID y => { m with resharings := m.resharings.register reshareID y }
  | failResharing reshareID k msg =>
    { m with resharings := m.resharings.modify reshareID k fun y =>
        { y with status := .failed, errorMessage := msg } }
  | acceptResharing reshareID k share =>
    { m with resharings := m.resharings.modify reshareID k fun y =>
        { y with saveData := some share, status := .completed } }
  | markResharing reshareID k isSealed =>
    { m with resharings := m.resharings.modify reshareID k fun y =>
        { y with isSealed := isSealed } }
  | registerSigning signID z => { m with signings := m.signings.register signID z }
  | failSigning signID k msg =>
    { m with signings := m.signings.modify signID k fun z =>
        { z with status := .failed, errorMessage := msg } }
  | completeSigning signID k signature =>
    { m with signings := m.signings.modify signID k fun z =>
        { z with status := .completed, signature := signature } }
  | leaveLocked id n => { m with stuck := (id, n) :: m.stuck }
  | freeze => { m with frozen := true }

end Effect

/-! ## The critical sections -/

variable [TssLib] (cfg : Config S)

/-- The task after a write to the sealed store, `none` if the store's answer does not fit. -/
def afterSeal (answer : Label S) (done : Bool → Task S) (refused : String → Task S)
    (id : String) (e : SealedShare S) : Option (Effect S × Option (Task S)) :=
  match cfg.sealing, answer with
  | true, .stored => some (.writeSealed id e, some (done true))
  | true, .notStored msg => some (.idle, some (refused msg))
  | false, .advance => some (.idle, some (done false))
  | _, _ => none

/-- What an idle thread does with a request. -/
def accept (m : Manager S) : Label S → Option (Effect S × Option (Task S))
  | .startKeygen id threshold peers curve blockchain =>
    match startKeygen cfg threshold peers curve blockchain with
    | .ok x => some (.registerKeygen id x, some (.keygen id (m.ceremonies.fresh id)))
    | .error _ => none
  | .startSigning signID keygenCeremonyID messageHash committee =>
    match lookupKeygen m keygenCeremonyID messageHash with
    | .ok n => some (.idle, some (.signRead signID keygenCeremonyID messageHash committee n))
    | .error _ => none
  | .startResharing reshareID source peers =>
    match lookupSource m reshareID source with
    | .ok n => some (.idle, some (.reshareRead reshareID source peers n))
    | .error _ => none
  | .restore id peers =>
    match checkNotLoaded m id with
    | .ok () => some (.idle, some (.restoreLoad id peers))
    | .error _ => none
  | .retire id =>
    if (m.ceremonies.current id).any fun n => (id, n) ∈ m.stuck then
      some (.freeze, some (.forgetting id))
    else some (.forget id, some (.retire id))
  | _ => none

def resume (m : Manager S) : Task S → Label S → Option (Effect S × Option (Task S))
  -- key generation
  | .keygen id n, .fail msg => some (.idle, some (.keygenFail id n msg))
  | .keygen id n, .deliver save =>
    match m.ceremonies.get id n with
    | none => none
    | some x =>
      match completeCeremony cfg x ⟨x.curve, save⟩ with
      | .ok (pubKeyHex, address) =>
        some (.idle, some (.keygenSeal id n ⟨x.curve, save⟩ pubKeyHex address))
      | .error (.error msg) => some (.idle, some (.keygenFail id n msg))
      | .error _ => none
  | .keygenSeal id n share pubKeyHex address, answer =>
    match m.ceremonies.get id n with
    | none => none
    | some x =>
      afterSeal cfg answer (.keygenRecord id n share pubKeyHex address)
        (fun msg => .keygenFail id n
          ("keygen succeeded but sealing the key share in Vault failed: " ++ msg))
        id (x.sealedShare share pubKeyHex address)
  | .keygenRecord id n share pubKeyHex address isSealed, .advance =>
    some (.recordKeygen id n share pubKeyHex address isSealed, none)
  -- `failCeremony` finds the record by the id and not by the run
  | .keygenFail id _ msg, .advance =>
    match m.ceremonies.current id with
    | none => some (.idle, none)
    | some n => some (.idle, some (.keygenFailed id n msg))
  | .keygenFailed id n msg, .advance => some (.failKeygen id n msg, none)
  -- refresh
  | .reshareRead reshareID source peers n, .advance =>
    match m.ceremonies.get source n with
    | none => none
    | some x =>
      match readSource cfg x reshareID source peers with
      | .ok (plan, share) => some (.idle, some (.reshareRegister reshareID plan share))
      | .error _ => some (.idle, none)
  | .reshareRegister reshareID plan share, .advance =>
    some (.registerResharing reshareID { plan },
      some (.reshareStart reshareID (m.resharings.fresh reshareID) plan share))
  | .reshareStart reshareID k plan share, .advance =>
    match runResharing cfg plan share reshareID with
    | .ok _ => some (.idle, some (.reshare reshareID k plan))
    | .error (.error msg) => some (.idle, some (.reshareFail reshareID msg))
    | .error _ => none
  | .reshare reshareID _ _, .fail msg => some (.idle, some (.reshareFail reshareID msg))
  | .reshare reshareID k plan, .deliver save =>
    match completeResharing cfg plan ⟨plan.curve, save⟩ with
    | .ok (publicKey, address) =>
      some (.idle, some (.reshareAccept reshareID k plan ⟨plan.curve, save⟩ publicKey address))
    | .error (.error msg) => some (.idle, some (.reshareFail reshareID msg))
    | .error _ => none
  | .reshareAccept reshareID k plan share publicKey address, .advance =>
    some (.acceptResharing reshareID k share,
      some (.reshareSeal reshareID k plan share publicKey address))
  -- a refresh goes on when the store refuses the write
  | .reshareSeal reshareID k plan share publicKey address, answer =>
    afterSeal cfg answer (.reshareMark reshareID k plan share)
      (fun _ => .reshareMark reshareID k plan share false)
      plan.sourceCeremonyID (plan.sealedShare share publicKey address)
  | .reshareMark reshareID k plan share isSealed, .advance =>
    some (.markResharing reshareID k isSealed, some (.reshareFind plan share))
  | .reshareFind plan share, .advance =>
    match m.ceremonies.current plan.sourceCeremonyID with
    | none => some (.idle, none)
    | some n => some (.idle, some (.reshareReplace plan share n))
  | .reshareReplace plan share n, .advance =>
    some (.replaceShare plan.sourceCeremonyID n share plan.newSorted plan.newEpoch, none)
  | .reshareFail reshareID msg, .advance =>
    match m.resharings.current reshareID with
    | none => some (.idle, none)
    | some k => some (.idle, some (.reshareFailed reshareID k msg))
  | .reshareFailed reshareID k msg, .advance => some (.failResharing reshareID k msg, none)
  -- recovery
  | .restoreLoad id peers, .advance =>
    match loadSealedShare cfg m id >>= restoreCeremony cfg id peers with
    | .ok x => some (.idle, some (.restoreRegister id x))
    | .error _ => some (.idle, none)
  | .restoreLoad _ _, .fail _ => some (.idle, none)
  | .restoreRegister id x, .advance => some (.registerKeygen id x, none)
  -- retirement: the last section answers the request
  | .retire id, .stored => if cfg.sealing then some (.destroySealed id, none) else none
  | .retire _, .notStored _ => if cfg.sealing then some (.idle, none) else none
  | .retire _, .advance => if cfg.sealing then none else some (.idle, none)
  -- signing
  | .signRead signID keygenCeremonyID messageHash committee n, .advance =>
    match m.ceremonies.get keygenCeremonyID n with
    | none => none
    | some x =>
      match readKeygen cfg x keygenCeremonyID messageHash committee with
      | .ok (z, _) => some (.idle, some (.signRegister signID z))
      | .error _ =>
        if x.returnsLocked messageHash then some (.leaveLocked keygenCeremonyID n, none)
        else some (.idle, none)
  | .signRegister signID z, .advance =>
    some (.registerSigning signID z, some (.sign signID (m.signings.fresh signID)))
  | .sign signID k, .signed signature => some (.completeSigning signID k signature, none)
  | .sign signID _, .fail msg => some (.idle, some (.signFail signID msg))
  | .signFail signID msg, .advance =>
    match m.signings.current signID with
    | none => some (.idle, none)
    | some k => some (.idle, some (.signFailed signID k msg))
  | .signFailed signID k msg, .advance => some (.failSigning signID k msg, none)
  | _, _ => none

/-- The next section takes the mutex of the maps. Every request begins with it. -/
def takesMaps : Option (Task S) → Bool
  | none | some (.keygenFail _ _ _) | some (.reshareRegister _ _ _) | some (.reshareFind _ _)
  | some (.reshareFail _ _) | some (.restoreRegister _ _) => true
  | _ => false

/-- The key generation whose mutex the next section takes. -/
def takesCeremony : Option (Task S) → Option (String × Nat)
  | some (.keygenRecord id n _ _ _ _) | some (.keygenFailed id n _) | some (.reshareRead _ id _ n)
  | some (.signRead _ id _ _ n) => some (id, n)
  | some (.reshareReplace plan _ n) => some (plan.sourceCeremonyID, n)
  | _ => none

section

variable (m : Manager S) (task : Option (Task S))

/-- The next section waits for a mutex that nobody will release. -/
def waits : Bool :=
  m.frozen && takesMaps task || (takesCeremony task).any fun r => r ∈ m.stuck

/-- One critical section of a thread. -/
def act (label : Label S) : Option (Effect S × Option (Task S)) :=
  if waits m task then none
  else match task with
    | none => accept cfg m label
    | some task => resume cfg m task label

def next (label : Label S) : Option (Manager S × Option (Task S)) :=
  (act cfg m task label).map fun r => (r.1.apply m, r.2)

end

abbrev Process (S : Type) := System (Manager S) (Task S)

/-- Thread `i` has made the write `e` and goes on with `task`. -/
abbrev Process.after (s : Process S) (i : Nat) (e : Effect S) (task : Option (Task S)) : Process S :=
  ⟨e.apply s.shared, Function.update s.threads i task⟩

/-- Thread `e.1` runs its next critical section under the label `e.2`. -/
abbrev step (s : Process S) (e : Nat × Label S) : Option (Process S) := Threads.step (next cfg) s e

/-! ## A small party

Party 1 of a committee of three, with save data that is the public key itself. -/

def sampleConfig (sealing : Bool) : Config String where
  partyID := 1
  sealing := sealing
  publicKey share := .ok (share.save, share.save)
  addressFor _ _ address := .ok address
  equalFold a b := a == b
  quote s := s
  noSealedShare id := id

def samplePeers : Peers where
  entries := [(1, "http://party1"), (2, "http://party2"), (3, "http://party3")]
  nodup := by decide
  inInt64 := by decide
  length_lt := by decide

def sampleStart : Process String := .idle (.start fun _ => none)

/-- A key generation that delivers `save` and is sealed, up to its last critical section. -/
def sampleKeygen (i : Nat) (id save : String) : List (Nat × Label String) :=
  [(i, .startKeygen id 1 samplePeers .secp256k1 ""), (i, .deliver save), (i, .stored)]

/-- A refresh up to the moment the protocol is running. -/
def sampleBegin (i : Nat) (reshareID id : String) : List (Nat × Label String) :=
  [(i, .startResharing reshareID id samplePeers), (i, .advance), (i, .advance), (i, .advance)]

/-- The refresh delivers `save`, and is recorded, sealed and put in place. -/
def sampleFinish (i : Nat) (save : String) : List (Nat × Label String) :=
  [(i, .deliver save), (i, .advance), (i, .stored), (i, .advance), (i, .advance), (i, .advance)]

end OpenFireblocks.Party
