import OpenFireblocks.Lib.Registry
import OpenFireblocks.Party.Committee

/-!
# What one party keeps

The records of `TSSPartyManager` and the sealed store, and the functions that decide what a
request or a finished protocol run writes into them. None of these functions writes anything:
each takes what one critical section reads and returns the record to write, or the error.

The sources are `tss_party.go`, `tss_resharing.go`, `vault_seal.go` and `tss_signing.go`.
The save data of the threshold library is a type `S` that the party only carries around.
-/

namespace OpenFireblocks.Party

open Go Outcome

/-! ## Curves -/

/-- `Curve`: a string of which two values are known. -/
inductive Curve where
  | secp256k1
  | ed25519
  | other (name : String) (h : name ≠ "secp256k1" ∧ name ≠ "ed25519")
deriving DecidableEq

namespace Curve

def toString : Curve → String
  | secp256k1 => "secp256k1"
  | ed25519 => "ed25519"
  | other name _ => name

/-- `Curve(s)`. -/
def ofString (s : String) : Curve :=
  if h1 : s = "secp256k1" then secp256k1
  else if h2 : s = "ed25519" then ed25519
  else other s ⟨h1, h2⟩

end Curve

/-- The two curves of the threshold library. -/
inductive EllipticCurve where
  | s256
  | edwards

def secp256k1Chains : List String :=
  ["ethereum", "polygon", "arbitrum", "optimism", "base", "bsc", "avalanche",
    "bitcoin", "bitcoin-testnet", "bitcoin-regtest", "cosmos", "cosmos-hub", "osmosis"]

/-! ## Records -/

/-- `KeyShare`: save data tagged with the curve it was generated on. -/
structure KeyShare (S : Type) where
  curve : Curve
  save : S

inductive CeremonyStatus where
  | pending
  | inProgress
  | completed
  | failed
deriving DecidableEq

def CeremonyStatus.toString : CeremonyStatus → String
  | pending => "pending"
  | inProgress => "in_progress"
  | completed => "completed"
  | failed => "failed"

/-- `tssKeygenCeremony`. -/
structure KeygenCeremony (S : Type) where
  status : CeremonyStatus
  errorMessage : String := ""
  selfPartyID : Int
  threshold : Int
  sortedIDs : List PartyID
  peers : Peers
  curve : Curve
  blockchain : String := ""
  epoch : Int := 0
  saveData : Option (KeyShare S) := none
  publicKeyHex : String := ""
  address : String := ""
  isSealed : Bool := false

/-- The fields of `tssResharingCeremony` that are set when it is made and never change. -/
structure ResharePlan where
  selfPartyID : Int
  threshold : Int
  curve : Curve
  peers : Peers
  oldSorted : List PartyID
  newSorted : List PartyID
  newEpoch : Int
  sourceCeremonyID : String
  expectedPublicKey : String
  expectedAddress : String

/-- `tssResharingCeremony`. -/
structure ResharingCeremony (S : Type) where
  plan : ResharePlan
  status : CeremonyStatus := .inProgress
  errorMessage : String := ""
  saveData : Option (KeyShare S) := none
  isSealed : Bool := false

/-- `tssSigningCeremony`. -/
structure SigningCeremony where
  status : CeremonyStatus := .inProgress
  errorMessage : String := ""
  selfPartyID : Int
  committee : List PartyID
  peers : List (Int × String)
  curve : Curve
  signature : String := ""

/-- `CeremonyContext`: what is sealed next to a share. -/
structure CeremonyContext where
  threshold : Int
  totalParties : Int
  curve : String
  epoch : Int
  publicKeyHex : String
  address : String

structure SealedShare (S : Type) where
  share : KeyShare S
  context : Option CeremonyContext

/-- `TSSPartyManager` with this party's part of the sealed store. -/
structure Manager (S : Type) where
  ceremonies : Registry String (KeygenCeremony S)
  resharings : Registry String (ResharingCeremony S)
  signings : Registry String SigningCeremony
  store : String → Option (SealedShare S)
  /-- The key generations whose mutex was taken and will not be released. -/
  stuck : List (String × Nat)
  /-- The mutex of the maps is held by a call that waits for one of those. -/
  frozen : Bool

/-- A process that has just started, with what an earlier one left in the store. -/
def Manager.start {S : Type} (store : String → Option (SealedShare S)) : Manager S :=
  ⟨.empty, .empty, .empty, store, [], false⟩

/-- What stays the same while a process runs, and what it takes from other packages. -/
structure Config (S : Type) where
  partyID : Int
  /-- `VAULT_ADDR` or `SHARE_STORE_DIR` is set. -/
  sealing : Bool
  /-- `KeyShare.PublicKey`: the group public key in hex, and the address of the curve. -/
  publicKey : KeyShare S → Result (String × String)
  /-- `KeyShare.AddressFor`. -/
  addressFor : KeyShare S → String → String → Result String
  /-- `strings.EqualFold`. -/
  equalFold : String → String → Bool
  /-- The verb `%q` of `fmt`. -/
  quote : String → String
  /-- The store's error for an id it has no entry for. -/
  noSealedShare : String → String

variable {S : Type} (cfg : Config S)

/-- `CurveForChain`. -/
def curveForChain (blockchain : String) : Result Curve :=
  if blockchain ∈ secp256k1Chains then .ok .secp256k1
  else if blockchain = "solana" then .ok .ed25519
  else errorf ("no signing curve is defined for blockchain " ++ cfg.quote blockchain)

/-- `Curve.ellipticCurve`. -/
def ellipticCurve : Curve → Result EllipticCurve
  | .secp256k1 => .ok .s256
  | .ed25519 => .ok .edwards
  | .other name _ => errorf ("unknown curve " ++ cfg.quote name)

/-! ## Key generation -/

/-- `startKeygen`: the record it registers. There is no look at what the id already names. -/
def startKeygen [TssLib] (threshold : Int) (peers : Peers) (curve : Curve) (blockchain : String) :
    Result (KeygenCeremony S) := do
  if cfg.partyID ∉ peers.ids then
    errorf ("peers map does not include this party's own id " ++ toString cfg.partyID)
  else if 2 ≤ peers.size ∧ wrap64 (threshold + 1) < peers.size / 2 + 1 then
    errorf ("threshold " ++ toString threshold ++ " (" ++ toString (wrap64 (threshold + 1)) ++
      "-of-" ++ toString peers.size ++ ") is not a majority: at least " ++
      toString (peers.size / 2 + 1) ++ " parties must be required to sign")
  else
    let _ ← wrapError "cannot start a ceremony: " (ellipticCurve cfg curve)
    let sorted := deterministicPartyIDs peers
    match findPartyID sorted cfg.partyID with
    | none => errorf ("failed to resolve own party ID " ++ toString cfg.partyID ++ " after sorting")
    | some _ =>
      .ok { status := .inProgress, selfPartyID := cfg.partyID, threshold, sortedIDs := sorted,
            peers, curve, blockchain }

/-- `completeCeremony` up to the sealing: the public key and the address of the share. -/
def completeCeremony (x : KeygenCeremony S) (share : KeyShare S) : Result (String × String) :=
  wrapError "keygen succeeded but the public key could not be derived: " do
    let (pubKeyHex, address) ← cfg.publicKey share
    let address ← cfg.addressFor share x.blockchain address
    .ok (pubKeyHex, address)

/-- What `completeCeremony` seals. -/
def KeygenCeremony.sealedShare (x : KeygenCeremony S) (share : KeyShare S)
    (pubKeyHex address : String) : SealedShare S where
  share := share
  context := some
    { threshold := x.threshold, totalParties := x.sortedIDs.length, curve := x.curve.toString,
      epoch := x.epoch, publicKeyHex := pubKeyHex, address }

/-! ## Refresh -/

/-- The first critical section of `StartResharing`: a reference to the source ceremony. -/
def lookupSource (m : Manager S) (reshareID sourceCeremonyID : String) : Result Nat :=
  if (m.resharings.current reshareID).isSome then
    errorf ("resharing " ++ reshareID ++ " already exists")
  else match m.ceremonies.current sourceCeremonyID with
    | none => errorf ("unknown ceremony " ++ sourceCeremonyID ++ ": nothing to refresh")
    | some n => .ok n

/-- The second critical section of `StartResharing`: what it reads from the source. -/
def readSource [TssLib] (source : KeygenCeremony S) (reshareID sourceCeremonyID : String) (peers : Peers) :
    Result (ResharePlan × KeyShare S) :=
  match source.status, source.saveData with
  | .completed, some share =>
    if peers.size = 0 then errorf ("no peers supplied for resharing " ++ reshareID)
    else
      let newEpoch := wrap64 (source.epoch + 1)
      let oldSorted := committeePartyIDs peers source.epoch
      let newSorted := committeePartyIDs peers newEpoch
      match findPartyIDByKey oldSorted (committeeKey cfg.partyID source.epoch) with
      | none => errorf ("this party (" ++ toString cfg.partyID ++ ") is not a member of resharing " ++
          reshareID)
      | some _ => .ok
        ({ selfPartyID := cfg.partyID, threshold := source.threshold, curve := source.curve, peers,
           oldSorted, newSorted, newEpoch, sourceCeremonyID,
           expectedPublicKey := source.publicKeyHex, expectedAddress := source.address }, share)
  | status, _ => errorf ("ceremony " ++ sourceCeremonyID ++ " is " ++ status.toString ++
      "; only a completed ceremony can be refreshed")

section

variable (plan : ResharePlan) (share : KeyShare S)

/--
The beginning of `runResharing`: this party's identity in the old and in the new committee. The
old one is looked up by the party's number and not by its key.
-/
def runResharing (reshareID : String) : Result (PartyID × PartyID) := do
  let _ ← ellipticCurve cfg plan.curve
  match findPartyID plan.oldSorted plan.selfPartyID,
      findPartyIDByKey plan.newSorted (committeeKey plan.selfPartyID plan.newEpoch) with
  | some oldSelf, some newSelf =>
    if share.curve = plan.curve then .ok (oldSelf, newSelf)
    else match plan.curve with
      | .secp256k1 => errorf "secp256k1 ceremony carries no ECDSA share"
      | .ed25519 => errorf "ed25519 ceremony carries no EdDSA share"
      | .other name _ => errorf ("unknown curve " ++ cfg.quote name)
  | _, _ => errorf ("this party is not in both committees of resharing " ++ reshareID)

/-- `completeResharing` up to the first write: the new share is a share of the same key. -/
def completeResharing : Result (String × String) := do
  let (publicKey, address) ←
    wrapError "refreshed share has no usable public key: " (cfg.publicKey share)
  if publicKey ≠ plan.expectedPublicKey then
    errorf ("refusing the refreshed share: it controls " ++ publicKey ++
      ", but the key being refreshed is " ++ plan.expectedPublicKey ++
      ". A refresh must not change the key; the existing share has been left untouched")
  else .ok (publicKey, if plan.expectedAddress ≠ "" then plan.expectedAddress else address)

/-- What `completeResharing` seals under the source's id. -/
def ResharePlan.sealedShare (publicKey address : String) : SealedShare S where
  share := share
  context := some
    { threshold := plan.threshold, totalParties := plan.newSorted.length,
      curve := plan.curve.toString, epoch := plan.newEpoch, publicKeyHex := publicKey, address }

end

/-! ## Recovery -/

/-- The first critical section of `RestoreCeremony`. -/
def checkNotLoaded (m : Manager S) (ceremonyID : String) : Result Unit :=
  if (m.ceremonies.current ceremonyID).isSome then
    errorf ("ceremony " ++ ceremonyID ++ " is already loaded; nothing to restore")
  else .ok ()

/-- `LoadSealedShare`, from a store that answers. -/
def loadSealedShare (m : Manager S) (ceremonyID : String) : Result (SealedShare S) :=
  if cfg.sealing = false then
    errorf ("neither VAULT_ADDR nor SHARE_STORE_DIR is set; there is nothing sealed to restore from")
  else match m.store ceremonyID with
    | none => errorf (cfg.noSealedShare ceremonyID)
    | some e => .ok e

/-- The address a restored ceremony reports, once the share has been checked against `cc`. -/
def restoredAddress (cc : CeremonyContext) (pubKeyHex address : String) : Result String :=
  if cc.publicKeyHex ≠ "" then
    if cfg.equalFold pubKeyHex cc.publicKeyHex then
      .ok (if cc.address ≠ "" then cc.address else address)
    else errorf ("the restored share controls public key " ++ pubKeyHex ++
      " but was sealed against " ++ cc.publicKeyHex ++ "; refusing to load it")
  else if cc.address ≠ "" ∧ address ≠ cc.address then
    errorf ("the restored share controls " ++ address ++ " but was sealed against " ++ cc.address ++
      "; refusing to load it")
  else .ok address

/-- `RestoreCeremony` between the load and the write: the record it registers. -/
def restoreCeremony [TssLib] (ceremonyID : String) (peers : Peers) (e : SealedShare S) :
    Result (KeygenCeremony S) :=
  match e.context with
  | none => errorf ("the sealed share for " ++ ceremonyID ++ " carries no ceremony context; it was " ++
      "sealed before contexts were stored and cannot be restored into a signing party. " ++
      "Re-seal it from a running party, or recover via the break-glass path")
  | some cc =>
    if peers.size ≠ cc.totalParties then
      errorf ("ceremony " ++ ceremonyID ++ " had " ++ toString cc.totalParties ++ " parties; " ++
        toString peers.size ++ " endpoints were supplied")
    else match findPartyIDByNode (committeePartyIDs peers cc.epoch) cfg.partyID with
      | none => errorf ("this party (" ++ toString cfg.partyID ++
          ") is not among the supplied endpoints")
      | some _ => do
        let (pubKeyHex, address) ←
          wrapError "the restored share has no usable public key: " (cfg.publicKey e.share)
        let address ← restoredAddress cfg cc pubKeyHex address
        .ok
          { status := .completed, selfPartyID := cfg.partyID, threshold := cc.threshold,
            sortedIDs := committeePartyIDs peers cc.epoch, peers, curve := .ofString cc.curve,
            epoch := cc.epoch, saveData := some e.share, publicKeyHex := pubKeyHex, address,
            isSealed := true }

/-! ## Signing -/

/-- The first critical section of `StartSigning`. -/
def lookupKeygen (m : Manager S) (keygenCeremonyID : String) (messageHash : BigEndian.Bytes) :
    Result Nat :=
  if messageHash.length = 0 then errorf "nothing to sign"
  else match m.ceremonies.current keygenCeremonyID with
    | none => errorf ("unknown keygen ceremony " ++ keygenCeremonyID)
    | some n => .ok n

/-- The members of the key generation that are asked to sign, as fresh identities. -/
def signingCommittee [TssLib] (sortedIDs : List PartyID) (committeePartyIDs : List Int) : List PartyID :=
  sortPartyIDs <| (sortedIDs.filter fun id => (nodeForPartyKey id).1 ∈ committeePartyIDs).map fun id =>
    newPartyID id.id id.moniker id.key

/-- The second critical section of `StartSigning`: the record it registers and the share. -/
def readKeygen [TssLib] (x : KeygenCeremony S) (keygenCeremonyID : String) (messageHash : BigEndian.Bytes)
    (committeePartyIDs : List Int) : Result (SigningCeremony × KeyShare S) :=
  match x.status, x.saveData with
  | .completed, some share =>
    if share.curve = .secp256k1 ∧ messageHash.length ≠ 32 then
      errorf ("a secp256k1 signature is over a 32-byte digest, got " ++
        toString messageHash.length ++ " bytes")
    else if (committeePartyIDs.length : Int) ≠ wrap64 (x.threshold + 1) then
      errorf ("signing committee must have exactly threshold+1=" ++
        toString (wrap64 (x.threshold + 1)) ++ " members, got " ++ toString committeePartyIDs.length)
    else if cfg.partyID ∉ committeePartyIDs then
      errorf ("this party (" ++ toString cfg.partyID ++
        ") is not a member of the requested signing committee")
    else
      let committee := signingCommittee x.sortedIDs committeePartyIDs
      if committee.length ≠ committeePartyIDs.length then
        errorf ("one or more requested committee party IDs were not part of the original DKG " ++
          "ceremony " ++ keygenCeremonyID)
      else match findPartyIDByKey committee (committeeKey cfg.partyID x.epoch) with
        | none => errorf ("failed to resolve own party ID " ++ toString cfg.partyID ++
            " within signing committee")
        | some _ => .ok
          ({ selfPartyID := cfg.partyID, committee,
             peers := (committee.map fun id => (nodeForPartyKey id).1).dedup.map fun id =>
               (id, x.peers.url id),
             curve := share.curve }, share)
  | status, _ => errorf ("keygen ceremony " ++ keygenCeremonyID ++ " has not completed (status: " ++
      status.toString ++ ")")

/-- `StartSigning` returns from its second critical section without releasing the mutex: the digest
for a secp256k1 key does not have 32 bytes. -/
def KeygenCeremony.returnsLocked (x : KeygenCeremony S) (messageHash : BigEndian.Bytes) : Bool :=
  match x.status, x.saveData with
  | .completed, some share => decide (share.curve = .secp256k1 ∧ messageHash.length ≠ 32)
  | _, _ => false

/-! ## What a success says -/

variable {cfg}

variable {peers : Peers} {x : KeygenCeremony S} {share : KeyShare S} {m : Manager S}

/-- An accepted key generation has this party in a committee that signs by a majority. -/
theorem startKeygen_eq_ok [TssLib] {threshold : Int} {curve : Curve} {blockchain : String} :
    startKeygen cfg threshold peers curve blockchain = .ok x ↔
      cfg.partyID ∈ peers.ids ∧ (2 ≤ peers.size → peers.size / 2 + 1 ≤ wrap64 (threshold + 1)) ∧
      (∃ ec, ellipticCurve cfg curve = .ok ec) ∧
      (findPartyID (deterministicPartyIDs peers) cfg.partyID).isSome ∧
      x = { status := .inProgress, selfPartyID := cfg.partyID, threshold, peers, curve, blockchain,
            sortedIDs := deterministicPartyIDs peers } := by
  simp only [startKeygen, ite_errorf_eq_ok, bind_eq_ok, wrapError_eq_ok, not_not, not_and, not_lt,
    exists_and_right]
  refine and_congr_right fun _ => and_congr_right fun _ => and_congr_right fun _ => ?_
  cases findPartyID (deterministicPartyIDs peers) cfg.partyID with
  | none => simp
  | some => exact ⟨fun h => ⟨rfl, (Except.ok.inj h).symm⟩, fun h => h.2 ▸ rfl⟩

theorem completeCeremony_eq_ok {pubKeyHex address : String}
    (h : completeCeremony cfg x share = .ok (pubKeyHex, address)) :
    ∃ a, cfg.publicKey share = .ok (pubKeyHex, a) := by
  rw [completeCeremony, wrapError_eq_ok] at h
  obtain ⟨⟨p, a⟩, hp, h⟩ := bind_eq_ok.mp h
  obtain ⟨b, _, h⟩ := bind_eq_ok.mp h
  cases h
  exact ⟨a, hp⟩

theorem lookupSource_eq_ok {reshareID sourceCeremonyID : String} {n : Nat}
    (h : lookupSource m reshareID sourceCeremonyID = .ok n) :
    m.ceremonies.current sourceCeremonyID = some n := by
  unfold lookupSource at h
  split at h
  · simp at h
  split at h <;> cases h
  next hcur => exact hcur

theorem readSource_eq_ok [TssLib] {source : KeygenCeremony S} {reshareID sourceCeremonyID : String}
    {plan : ResharePlan} :
    readSource cfg source reshareID sourceCeremonyID peers = .ok (plan, share) ↔
      source.status = .completed ∧ source.saveData = some share ∧ peers.size ≠ 0 ∧
      (findPartyIDByKey (committeePartyIDs peers source.epoch)
        (committeeKey cfg.partyID source.epoch)).isSome ∧
      plan =
        { selfPartyID := cfg.partyID, threshold := source.threshold, curve := source.curve, peers,
          oldSorted := committeePartyIDs peers source.epoch,
          newSorted := committeePartyIDs peers (wrap64 (source.epoch + 1)),
          newEpoch := wrap64 (source.epoch + 1), sourceCeremonyID,
          expectedPublicKey := source.publicKeyHex, expectedAddress := source.address } := by
  constructor
  · intro h
    unfold readSource at h
    split at h
    · next hstatus hsave =>
      obtain ⟨hsize, h⟩ := ite_errorf_eq_ok.mp h
      dsimp only at h
      split at h
      · simp at h
      next hfind =>
      cases h
      exact ⟨hstatus, hsave, hsize, by rw [hfind]; rfl, rfl⟩
    · simp at h
  · rintro ⟨hstatus, hsave, hsize, hfind, rfl⟩
    obtain ⟨p, hp⟩ := Option.isSome_iff_exists.mp hfind
    simp [readSource, hstatus, hsave, hsize, hp]

theorem ellipticCurve_isOk {curve : Curve} :
    (∃ ec, ellipticCurve cfg curve = .ok ec) ↔ curve = .secp256k1 ∨ curve = .ed25519 := by
  cases curve <;> simp [ellipticCurve]

theorem runResharing_eq_ok {plan : ResharePlan} {reshareID : String} {oldSelf newSelf : PartyID} :
    runResharing cfg plan share reshareID = .ok (oldSelf, newSelf) ↔
      (plan.curve = .secp256k1 ∨ plan.curve = .ed25519) ∧ share.curve = plan.curve ∧
      findPartyIDByKey plan.oldSorted plan.selfPartyID = some oldSelf ∧
      findPartyIDByKey plan.newSorted (committeeKey plan.selfPartyID plan.newEpoch)
        = some newSelf := by
  unfold runResharing
  rw [bind_eq_ok, ← @ellipticCurve_isOk S cfg, findPartyID_eq]
  constructor
  · rintro ⟨ec, hec, h⟩
    split at h
    · next o n ho hn =>
      split at h
      · next hcurve =>
        cases h
        exact ⟨⟨ec, hec⟩, hcurve, ho, hn⟩
      · split at h <;> simp at h
    · simp at h
  · rintro ⟨⟨ec, hec⟩, hcurve, ho, hn⟩
    exact ⟨ec, hec, by simp [ho, hn, hcurve]⟩

theorem completeResharing_eq_ok {plan : ResharePlan} {publicKey address : String}
    (h : completeResharing cfg plan share = .ok (publicKey, address)) :
    publicKey = plan.expectedPublicKey ∧ ∃ a, cfg.publicKey share = .ok (publicKey, a) := by
  obtain ⟨⟨p, a⟩, hp, h⟩ := bind_eq_ok.mp h
  simp only at h
  split at h
  · simp at h
  next he =>
  cases h
  exact ⟨not_not.mp he, a, wrapError_eq_ok.mp hp⟩

theorem lookupKeygen_eq_ok {keygenCeremonyID : String} {messageHash : BigEndian.Bytes} {n : Nat} :
    lookupKeygen m keygenCeremonyID messageHash = .ok n ↔
      messageHash.length ≠ 0 ∧ m.ceremonies.current keygenCeremonyID = some n := by
  unfold lookupKeygen
  split
  · next h => simp [h]
  · next h => cases m.ceremonies.current keygenCeremonyID <;> simp [h]

/-- What `StartSigning` checks of a record, and what it makes of it. -/
theorem readKeygen_eq_ok [TssLib] {c : String} {hash : BigEndian.Bytes} {list : List Int}
    {z : SigningCeremony} :
    readKeygen cfg x c hash list = .ok (z, share) ↔
      x.status = .completed ∧ x.saveData = some share ∧
      ¬(share.curve = .secp256k1 ∧ hash.length ≠ 32) ∧
      (list.length : Int) = wrap64 (x.threshold + 1) ∧ cfg.partyID ∈ list ∧
      (signingCommittee x.sortedIDs list).length = list.length ∧
      (findPartyIDByKey (signingCommittee x.sortedIDs list)
        (committeeKey cfg.partyID x.epoch)).isSome ∧
      z =
        { selfPartyID := cfg.partyID, committee := signingCommittee x.sortedIDs list,
          peers := ((signingCommittee x.sortedIDs list).map fun id =>
            (nodeForPartyKey id).1).dedup.map fun id => (id, x.peers.url id),
          curve := share.curve } := by
  constructor
  · intro h
    unfold readKeygen at h
    split at h
    · next hstatus hsave =>
      simp only [ite_errorf_eq_ok, not_not] at h
      obtain ⟨hhash, hlist, hself, hlength, h⟩ := h
      split at h
      · simp at h
      next hfind =>
      cases h
      exact ⟨hstatus, hsave, hhash, hlist, hself, hlength, by rw [hfind]; rfl, rfl⟩
    · simp at h
  · rintro ⟨hstatus, hsave, hhash, hlist, hself, hlength, hfind, rfl⟩
    obtain ⟨p, hp⟩ := Option.isSome_iff_exists.mp hfind
    simp only [readKeygen, hstatus, hsave, if_neg hhash, hlist, hself, hlength, hp]
    simp

theorem loadSealedShare_eq_ok {ceremonyID : String} {e : SealedShare S}
    (h : loadSealedShare cfg m ceremonyID = .ok e) :
    cfg.sealing ∧ m.store ceremonyID = some e := by
  unfold loadSealedShare at h
  split at h
  · simp at h
  next hs =>
  split at h
  · simp at h
  next he =>
  cases h
  exact ⟨by simpa using hs, he⟩

/-- What `RestoreCeremony` has checked of a sealed share, and the record it makes of it. -/
theorem restoreCeremony_eq_ok_iff [TssLib] {ceremonyID : String} {e : SealedShare S} :
    restoreCeremony cfg ceremonyID peers e = .ok x ↔
      ∃ cc pubKeyHex a address, e.context = some cc ∧ peers.size = cc.totalParties ∧
        (findPartyIDByNode (committeePartyIDs peers cc.epoch) cfg.partyID).isSome ∧
        cfg.publicKey e.share = .ok (pubKeyHex, a) ∧
        restoredAddress cfg cc pubKeyHex a = .ok address ∧
        x = { status := .completed, selfPartyID := cfg.partyID, threshold := cc.threshold,
              sortedIDs := committeePartyIDs peers cc.epoch, peers, curve := .ofString cc.curve,
              epoch := cc.epoch, saveData := some e.share, publicKeyHex := pubKeyHex, address,
              isSealed := true } := by
  constructor
  · intro h
    unfold restoreCeremony at h
    split at h
    · simp at h
    next cc hcc =>
    obtain ⟨hsize, h⟩ := ite_errorf_eq_ok.mp h
    split at h
    · simp at h
    next hself =>
    obtain ⟨⟨p, a⟩, hp, h⟩ := bind_eq_ok.mp h
    obtain ⟨b, hb, h⟩ := bind_eq_ok.mp h
    cases h
    exact ⟨cc, p, a, b, hcc, not_not.mp hsize, by rw [hself]; rfl, wrapError_eq_ok.mp hp, hb, rfl⟩
  · rintro ⟨cc, p, a, b, hcc, hsize, hself, hp, hb, rfl⟩
    obtain ⟨q, hq⟩ := Option.isSome_iff_exists.mp hself
    simp [restoreCeremony, hcc, hsize, hq, hp, hb, wrapError]

theorem restoreCeremony_eq_ok [TssLib] {ceremonyID : String} {e : SealedShare S}
    (h : restoreCeremony cfg ceremonyID peers e = .ok x) :
    x.status = .completed ∧ x.saveData = some e.share ∧
      (∃ cc, e.context = some cc ∧ x.epoch = cc.epoch ∧ x.threshold = cc.threshold) ∧
      (∃ a, cfg.publicKey e.share = .ok (x.publicKeyHex, a)) ∧ x.peers = peers ∧
      x.sortedIDs = committeePartyIDs peers x.epoch := by
  obtain ⟨cc, p, a, b, hcc, -, -, hp, -, rfl⟩ := restoreCeremony_eq_ok_iff.mp h
  exact ⟨rfl, rfl, ⟨cc, hcc, rfl, rfl⟩, ⟨a, hp⟩, rfl, rfl⟩

end OpenFireblocks.Party
