import OpenFireblocks.Party.Authorization
import OpenFireblocks.Party.Refresh

/-!
# The handlers that start a ceremony

`HandleTSSKeygenStart`, `HandleTSSSignStart`, `HandleTSSReshareStart` and `HandleTSSRestore`
(`tss_handlers.go`), from the decoded body to the answer. A handler runs its critical sections one
after the other on the manager it finds.
-/

namespace OpenFireblocks.Party

open Go Outcome BigEndian Machine

variable [TssLib] {S : Type}

/-! ## Answers -/

inductive Refusal where
  | answered (status : Nat) (error : String)
  | fault (f : Fault)

/-- `writeJSON(w, status, {"error": ...})`. -/
def refuse {α : Type} (status : Nat) (error : String) : Except Refusal α :=
  .error (.answered status error)

def orRefuse {α : Type} (status : Nat) : Result α → Except Refusal α
  | .ok a => .ok a
  | .error (.error msg) => refuse status msg
  | .error f => .error (.fault f)

omit [TssLib] in
@[simp] theorem orRefuse_eq_ok {α : Type} {status : Nat} {x : Result α} {a : α} :
    orRefuse status x = .ok a ↔ x = .ok a := by
  rcases x with (msg | msg | _ | _) | b <;> simp [orRefuse, refuse]

omit [TssLib] in
@[simp] theorem refuse_ne_ok {α : Type} {status : Nat} {error : String} {a : α} :
    refuse status error ≠ .ok a := by
  simp [refuse]

/-! ## The manager's calls, without interruption -/

namespace Manager

variable (cfg : Config S) (m : Manager S)

/-- `m.mu.Lock()`. -/
def lockMaps : Result Unit := if m.frozen then .error .deadlock else .ok ()

/-- The record behind a reference, with its mutex taken. -/
def lockCeremony (id : String) (n : Nat) : Result (KeygenCeremony S) :=
  if m.stuck.contains (id, n) then .error .deadlock
  else match m.ceremonies.get id n with
    | none => .error (.panic "invalid memory address or nil pointer dereference")
    | some x => .ok x

/-- `StartKeygen` and `StartKeygenForChain` once the curve is known. -/
def startKeygen (threshold : Int) (peers : Peers) (curve : Curve) (blockchain : String) :
    Result (KeygenCeremony S) := do
  let x ← Party.startKeygen cfg threshold peers curve blockchain
  m.lockMaps
  .ok x

def startKeygenForChain (threshold : Int) (peers : Peers) (blockchain : String) :
    Result (KeygenCeremony S) := do
  let curve ← curveForChain cfg blockchain
  m.startKeygen cfg threshold peers curve blockchain

def startSigning (keygenCeremonyID : String) (messageHash : Bytes) (committee : List Int) :
    Result (SigningCeremony × KeyShare S) := do
  -- an empty message is refused before any mutex is taken
  if messageHash.length ≠ 0 then m.lockMaps
  let n ← lookupKeygen m keygenCeremonyID messageHash
  let x ← m.lockCeremony keygenCeremonyID n
  readKeygen cfg x keygenCeremonyID messageHash committee

def startResharing (reshareID sourceCeremonyID : String) (peers : Peers) :
    Result (ResharePlan × KeyShare S) := do
  m.lockMaps
  let n ← lookupSource m reshareID sourceCeremonyID
  let source ← m.lockCeremony sourceCeremonyID n
  readSource cfg source reshareID sourceCeremonyID peers

def restoreCeremony (ceremonyID : String) (peers : Peers) : Result (KeygenCeremony S) := do
  m.lockMaps
  checkNotLoaded m ceremonyID
  let e ← loadSealedShare cfg m ceremonyID
  Party.restoreCeremony cfg ceremonyID peers e

/-! ## What a call that succeeds has seen -/

variable {cfg m} {id reshareID : String} {peers : Peers} {n : Nat}

omit [TssLib] in
@[simp] theorem lockMaps_eq_ok {u : Unit} : m.lockMaps = .ok u ↔ m.frozen = false := by
  unfold lockMaps
  cases m.frozen <;> simp

variable {x : KeygenCeremony S}

omit [TssLib] in
theorem lockCeremony_eq_ok :
    m.lockCeremony id n = .ok x ↔ (id, n) ∉ m.stuck ∧ m.ceremonies.get id n = some x := by
  unfold lockCeremony
  by_cases hs : (id, n) ∈ m.stuck
  · simp [hs]
  · cases m.ceremonies.get id n <;> simp [hs]

theorem startKeygen_eq_ok {threshold : Int} {curve : Curve} {blockchain : String} :
    m.startKeygen cfg threshold peers curve blockchain = .ok x ↔
      m.frozen = false ∧ Party.startKeygen cfg threshold peers curve blockchain = .ok x := by
  rw [startKeygen, bind_eq_ok]
  constructor
  · rintro ⟨y, hy, h⟩
    obtain ⟨_, hl, h⟩ := bind_eq_ok.mp h
    cases h
    exact ⟨lockMaps_eq_ok.mp hl, hy⟩
  · rintro ⟨hf, hx⟩
    exact ⟨x, hx, bind_eq_ok.mpr ⟨(), lockMaps_eq_ok.mpr hf, rfl⟩⟩

theorem startSigning_eq_ok {messageHash : Bytes} {committee : List Int}
    {z : SigningCeremony × KeyShare S} :
    m.startSigning cfg id messageHash committee = .ok z ↔
      m.frozen = false ∧ ∃ n x, lookupKeygen m id messageHash = .ok n ∧ (id, n) ∉ m.stuck ∧
        m.ceremonies.get id n = some x ∧ readKeygen cfg x id messageHash committee = .ok z := by
  by_cases hm : messageHash.length = 0
  · simp [startSigning, lookupKeygen, hm, bind_eq_ok]
  simp only [startSigning, ne_eq, hm, not_false_eq_true, if_true, bind_eq_ok, lockCeremony_eq_ok,
    lockMaps_eq_ok]
  constructor
  · rintro ⟨_, hf, n, hn, x, ⟨hs, hx⟩, h⟩
    exact ⟨hf, n, x, hn, hs, hx, h⟩
  · rintro ⟨hf, n, x, hn, hs, hx, h⟩
    exact ⟨(), hf, n, hn, x, ⟨hs, hx⟩, h⟩

theorem startResharing_eq_ok {y : ResharePlan × KeyShare S} :
    m.startResharing cfg reshareID id peers = .ok y ↔
      m.frozen = false ∧ ∃ n x, lookupSource m reshareID id = .ok n ∧ (id, n) ∉ m.stuck ∧
        m.ceremonies.get id n = some x ∧ readSource cfg x reshareID id peers = .ok y := by
  simp only [startResharing, bind_eq_ok, lockCeremony_eq_ok, lockMaps_eq_ok]
  constructor
  · rintro ⟨_, hf, n, hn, x, ⟨hs, hx⟩, h⟩
    exact ⟨hf, n, x, hn, hs, hx, h⟩
  · rintro ⟨hf, n, x, hn, hs, hx, h⟩
    exact ⟨(), hf, n, hn, x, ⟨hs, hx⟩, h⟩

theorem restoreCeremony_eq_ok :
    m.restoreCeremony cfg id peers = .ok x ↔
      m.frozen = false ∧ checkNotLoaded m id = .ok () ∧ ∃ e, loadSealedShare cfg m id = .ok e ∧
        Party.restoreCeremony cfg id peers e = .ok x := by
  simp only [restoreCeremony, bind_eq_ok, lockMaps_eq_ok]
  constructor
  · rintro ⟨_, hf, _, hc, e, he, h⟩
    exact ⟨hf, hc, e, he, h⟩
  · rintro ⟨hf, hc, e, he, h⟩
    exact ⟨(), hf, (), hc, e, he, h⟩

end Manager

/-- `KeygenStatusResult`. -/
structure KeygenStatusResult where
  ceremonyID : String
  partyID : Int
  status : CeremonyStatus
  error : String
  isSealed : Bool
  publicKey : String
  address : String

def Manager.getStatus (m : Manager S) (ceremonyID : String) : Result KeygenStatusResult := do
  m.lockMaps
  match m.ceremonies.current ceremonyID with
  | none => errorf ("unknown ceremony " ++ ceremonyID)
  | some n =>
    let x ← m.lockCeremony ceremonyID n
    .ok ⟨ceremonyID, x.selfPartyID, x.status, x.errorMessage, x.isSealed, x.publicKeyHex, x.address⟩

/-! ## Requests -/

/-- `map[string]string`, in the order in which the handler ranges over it. -/
structure NamedPeers where
  entries : List (String × String)
  nodup : (entries.map Prod.fst).Nodup
  length_lt : entries.length < 2 ^ 63

/-- `tssKeygenStartRequest`. -/
structure KeygenStartRequest where
  ceremonyID : String
  threshold : Int
  peers : NamedPeers
  curve : String := ""
  blockchain : String := ""
  authorization : String := ""
  authorizationSignature : String := ""

/-- `tssSignStartRequest`. -/
structure SignStartRequest where
  signID : String
  keygenCeremonyID : String
  messageHashHex : String
  committeePartyIDs : List Int
  authorization : String := ""
  authorizationSignature : String := ""

/-- `tssReshareStartRequest`. -/
structure ReshareStartRequest where
  reshareID : String
  sourceCeremonyID : String
  peers : Peers
  authorization : String := ""
  authorizationSignature : String := ""

/-- `tssRestoreRequest`. -/
structure RestoreRequest where
  ceremonyID : String
  peers : Peers
  authorization : String := ""
  authorizationSignature : String := ""

/-! ## The handlers -/

section Handlers

variable (ps : PartyServer S) (m : Manager S)

/-- The loop over `req.Peers`: the numbers that the keys of the map stand for, or the first key that
is none. -/
def scanPeers : List (String × String) → Except String (List (Int64 × String))
  | [] => .ok []
  | (idStr, url) :: rest =>
    match ps.sscanf idStr with
    | none => .error idStr
    | some id => do
      let scanned ← scanPeers rest
      .ok ((id, url) :: scanned)

omit [TssLib] in
theorem scanPeers_length {ps : PartyServer S} {entries : List (String × String)}
    {scanned : List (Int64 × String)} (h : scanPeers ps entries = .ok scanned) :
    scanned.length = entries.length := by
  induction entries generalizing scanned with
  | nil =>
    cases h
    rfl
  | cons entry rest ih =>
    rw [scanPeers] at h
    split at h
    · cases h
    obtain ⟨l, hl, h⟩ := bind_eq_ok.mp h
    cases h
    rw [List.length_cons, List.length_cons, ih hl]

/-- The map after `peers[id] = url` for each of these in turn. -/
def assignPeers (scanned : List (Int64 × String)) (h : scanned.length < 2 ^ 63) : Peers where
  entries := (scanned.map Prod.fst).dedup.map fun id =>
    (id.toInt, (scanned.reverse.lookup id).getD "")
  nodup := by
    rw [List.map_map]
    exact (List.nodup_dedup _).map fun a b hab => Int64.toInt_inj.mp hab
  inInt64 := by
    intro id hid
    simp only [List.map_map, List.mem_map, Function.comp_apply] at hid
    obtain ⟨x, _, rfl⟩ := hid
    exact ⟨x.le_toInt, x.toInt_lt⟩
  length_lt := by
    rw [List.length_map]
    refine lt_of_le_of_lt (List.dedup_sublist _).length_le ?_
    rwa [List.length_map]

def peersOf (peers : NamedPeers) : Except Refusal Peers :=
  match h : scanPeers ps peers.entries with
  | .error idStr => refuse 400 ("invalid peer id " ++ ps.config.quote idStr)
  | .ok scanned => .ok (assignPeers scanned (by rw [scanPeers_length h]; exact peers.length_lt))

/-- The record it registers, with the answer 202. -/
def handleTSSKeygenStart (req : KeygenStartRequest) : Except Refusal (KeygenCeremony S) :=
  if req.ceremonyID = "" ∨ req.threshold ≤ 0 ∨ req.peers.entries.length = 0 then
    refuse 400 "ceremony_id, threshold, and peers are required"
  else do
    let peers ← peersOf ps req.peers
    let curve := if req.curve = "" then .secp256k1 else Curve.ofString req.curve
    orRefuse 403 (requireAuthorization ps "keygen" req.ceremonyID "" req.authorization
      req.authorizationSignature)
    if req.blockchain ≠ "" then
      let want ← orRefuse 400 (curveForChain ps.config req.blockchain)
      if req.curve ≠ "" ∧ Curve.ofString req.curve ≠ want then
        refuse 400 ("blockchain " ++ ps.config.quote req.blockchain ++ " needs curve " ++
          want.toString ++ " but the request asked for " ++ req.curve)
      else orRefuse 500 (m.startKeygenForChain ps.config req.threshold peers req.blockchain)
    else orRefuse 500 (m.startKeygen ps.config req.threshold peers curve "")

/-- The record it registers and the share it signs with, with the answer 202. -/
def handleTSSSignStart (req : SignStartRequest) : Except Refusal (SigningCeremony × KeyShare S) :=
  if req.signID = "" ∨ req.keygenCeremonyID = "" ∨ req.committeePartyIDs.length = 0 then
    refuse 400 "sign_id, keygen_ceremony_id, and committee_party_ids are required"
  else match hexDecodeString req.messageHashHex with
    | none => refuse 400 "message_hash_hex must be valid hex"
    | some hash => do
      orRefuse 403 (requireAuthorization ps "sign" req.signID req.messageHashHex req.authorization
        req.authorizationSignature)
      orRefuse 500 (m.startSigning ps.config req.keygenCeremonyID hash req.committeePartyIDs)

/-- The plan it registers and the share it refreshes, with the answer 202. -/
def handleTSSReshareStart (req : ReshareStartRequest) :
    Except Refusal (ResharePlan × KeyShare S) :=
  if req.reshareID = "" ∨ req.sourceCeremonyID = "" then
    refuse 400 "reshare_id and source_ceremony_id are required"
  else do
    orRefuse 403 (requireAuthorization ps "reshare" req.reshareID "" req.authorization
      req.authorizationSignature)
    orRefuse 400 (m.startResharing ps.config req.reshareID req.sourceCeremonyID req.peers)

def handleTSSRestore (req : RestoreRequest) : Except Refusal KeygenStatusResult := do
  orRefuse 403 (requireAuthorization ps "restore" req.ceremonyID "" req.authorization
    req.authorizationSignature)
  let x ← orRefuse 400 (m.restoreCeremony ps.config req.ceremonyID req.peers)
  orRefuse 500 (((Effect.registerKeygen req.ceremonyID x).apply m).getStatus req.ceremonyID)

end Handlers

inductive StartRequest where
  | keygen (req : KeygenStartRequest)
  | sign (req : SignStartRequest)
  | reshare (req : ReshareStartRequest)
  | restore (req : RestoreRequest)

namespace StartRequest

def operation : StartRequest → String
  | keygen _ => "keygen"
  | sign _ => "sign"
  | reshare _ => "reshare"
  | restore _ => "restore"

def ceremonyID : StartRequest → String
  | keygen req => req.ceremonyID
  | sign req => req.signID
  | reshare req => req.reshareID
  | restore req => req.ceremonyID

def pair : StartRequest → String × String
  | keygen req => (req.authorization, req.authorizationSignature)
  | sign req => (req.authorization, req.authorizationSignature)
  | reshare req => (req.authorization, req.authorizationSignature)
  | restore req => (req.authorization, req.authorizationSignature)

def Accepted (ps : PartyServer S) (m : Manager S) : StartRequest → Prop
  | keygen req => ∃ x, handleTSSKeygenStart ps m req = .ok x
  | sign req => ∃ z, handleTSSSignStart ps m req = .ok z
  | reshare req => ∃ y, handleTSSReshareStart ps m req = .ok y
  | restore req => ∃ r, handleTSSRestore ps m req = .ok r

end StartRequest

end OpenFireblocks.Party
