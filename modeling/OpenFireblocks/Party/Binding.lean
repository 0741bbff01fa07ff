import OpenFireblocks.Party.Handlers
import Mathlib.Data.Int.Interval

/-!
# What a ceremony authorisation binds

An authorisation names an operation, the id of the ceremony and, for a signature, the message. A
request that is accepted on it can be changed in everything else: which key signs, who takes part,
on which curve a key is made, from which parties a key is restored (`authorization_reusable`). It does
not get another operation or another id through (`accepted_same_ceremony`).
-/

namespace OpenFireblocks.Party

open Go Outcome BigEndian Machine

section

variable [TssLib] {S : Type}

/-! ## What a request asks for -/

def KeygenStartRequest.Asks (cfg : Config S) (req : KeygenStartRequest) (curve : Curve) : Prop :=
  if req.blockchain = "" then curve = if req.curve = "" then .secp256k1 else .ofString req.curve
  else curveForChain cfg req.blockchain = .ok curve ∧
    (req.curve = "" ∨ Curve.ofString req.curve = curve)

def SameParties (peers peers' : Peers) : Prop := ∀ id, id ∈ peers.ids ↔ id ∈ peers'.ids

/-- Two requests of one operation agree on everything that changes what the ceremony does. -/
def StartRequest.Agrees (ps : PartyServer S) : StartRequest → StartRequest → Prop
  | keygen req, keygen req' =>
    req.threshold = req'.threshold ∧ req.blockchain = req'.blockchain ∧
      (∀ peers peers', peersOf ps req.peers = .ok peers → peersOf ps req'.peers = .ok peers' →
        SameParties peers peers') ∧
      ∀ curve curve', req.Asks ps.config curve → req'.Asks ps.config curve' → curve = curve'
  | sign req, sign req' =>
    req.keygenCeremonyID = req'.keygenCeremonyID ∧
      hexDecodeString req.messageHashHex = hexDecodeString req'.messageHashHex ∧
      ∀ id, id ∈ req.committeePartyIDs ↔ id ∈ req'.committeePartyIDs
  | reshare req, reshare req' =>
    req.sourceCeremonyID = req'.sourceCeremonyID ∧ SameParties req.peers req'.peers
  | restore req, restore req' => SameParties req.peers req'.peers
  | _, _ => False

/-! ## Other sets of parties -/

namespace Peers

variable {peers : Peers}

/-- The map with one or two members. -/
def single (id : Int) (h : InInt64 id) : Peers where
  entries := [(id, "")]
  nodup := by simp
  inInt64 := by simpa using h
  length_lt := by simp

def two (id id' : Int) (hne : id ≠ id') (h : InInt64 id) (h' : InInt64 id') : Peers where
  entries := [(id, ""), (id', "")]
  nodup := by simpa using hne
  inInt64 := by simpa using ⟨h, h'⟩
  length_lt := by simp

/-- The map with the number `f` in the place of `j`. -/
def rename (peers : Peers) (j f : Int) (h : InInt64 f) (hf : f ∉ peers.ids) : Peers where
  entries := peers.entries.map fun p => (if p.1 = j then f else p.1, p.2)
  nodup := by
    rw [List.map_map]
    show (peers.entries.map ((fun id => if id = j then f else id) ∘ Prod.fst)).Nodup
    rw [← List.map_map]
    refine peers.nodup.map_on fun a ha b hb hab => ?_
    by_cases haj : a = j
    · by_cases hbj : b = j
      · rw [haj, hbj]
      · rw [if_pos haj, if_neg hbj] at hab
        exact absurd (hab ▸ hb) hf
    · by_cases hbj : b = j
      · rw [if_neg haj, if_pos hbj] at hab
        exact absurd (hab ▸ ha) hf
      · rwa [if_neg haj, if_neg hbj] at hab
  inInt64 := by
    intro id hid
    simp only [List.map_map, List.mem_map, Function.comp_apply] at hid
    obtain ⟨p, hp, rfl⟩ := hid
    split
    · exact h
    · exact peers.inInt64 _ (List.mem_map_of_mem hp)
  length_lt := by
    rw [List.length_map]
    exact peers.length_lt

omit [TssLib] in
theorem mem_ids_rename {j f id : Int} {h : InInt64 f} {hf : f ∉ peers.ids} :
    id ∈ (peers.rename j f h hf).ids ↔ ∃ i ∈ peers.ids, (if i = j then f else i) = id := by
  simp [ids, rename]

omit [TssLib] in
theorem size_rename {j f : Int} {h : InInt64 f} {hf : f ∉ peers.ids} :
    (peers.rename j f h hf).size = peers.size := by
  simp [size, rename]

omit [TssLib] in
theorem not_sameParties_rename {j f : Int} {h : InInt64 f} {hf : f ∉ peers.ids}
    (hj : j ∈ peers.ids) : ¬ SameParties peers (peers.rename j f h hf) := by
  intro hs
  exact hf ((hs f).mpr (mem_ids_rename.mpr ⟨j, hj, if_pos rfl⟩))

omit [TssLib] in
theorem exists_fresh (peers : Peers) : ∃ f, InInt64 f ∧ f ∉ peers.ids := by
  have hcard : peers.ids.toFinset.card < (Finset.Ico (-2 ^ 63 : Int) (2 ^ 63)).card := by
    refine lt_of_le_of_lt (List.toFinset_card_le _) ?_
    have := peers.length_lt
    rw [Int.card_Ico, ids, List.length_map]
    omega
  obtain ⟨f, hf, hm⟩ := Finset.exists_mem_notMem_of_card_lt_card hcard
  rw [Finset.mem_Ico] at hf
  exact ⟨f, hf, by simpa using hm⟩

omit [TssLib] in
/-- With any member kept, another set of parties is possible. -/
theorem exists_other (peers : Peers) {id : Int} (h : id ∈ peers.ids) :
    ∃ peers' : Peers, id ∈ peers'.ids ∧ ¬ SameParties peers peers' := by
  have hid := peers.inInt64 id h
  by_cases hall : ∃ j ∈ peers.ids, j ≠ id
  · obtain ⟨j, hj, hne⟩ := hall
    refine ⟨single id hid, by simp [ids, single], fun hs => hne ?_⟩
    simpa [ids, single] using (hs j).mp hj
  · obtain ⟨f, hf, hm⟩ := exists_fresh peers
    have hne : id ≠ f := fun he => hm (he ▸ h)
    refine ⟨two id f hne hid hf, by simp [ids, two], fun hs => hm ?_⟩
    exact (hs f).mpr (by simp [ids, two])

end Peers

/-! ## Another member of the same node

A number that is a member's at some epoch is read off the member's key modulo the stride, so more
than one `int` stands for it. -/

omit [TssLib] in
theorem nodeOf_pos {key : Int} (h0 : 0 < key) (h : key < 2 ^ 63) :
    nodeOf key.natAbs = key % committeeEpochStride := by
  rw [nodeOf, Int.natAbs_of_nonneg h0.le, wrap64_of_nonneg h0.le h, if_neg (not_le.mpr h0)]

omit [TssLib] in
/-- The numbers that a key can stand for; `-1` is none. -/
theorem nodeOf_range (key : Nat) :
    nodeOf key = -1 ∨ 0 ≤ nodeOf key ∧ nodeOf key < committeeEpochStride := by
  rw [nodeOf]
  split
  · exact .inl rfl
  · exact .inr ⟨Int.emod_nonneg _ (by decide), Int.emod_lt_of_pos _ (by decide)⟩

omit [TssLib] in
theorem exists_other_key (key : Int) :
    ∃ k, InInt64 k ∧ k ≠ key ∧ nodeOf k.natAbs = nodeOf key.natAbs := by
  generalize hnode : nodeOf key.natAbs = node
  rcases nodeOf_range key.natAbs with hnone | ⟨h0, hlt⟩
  · -- the keys of no node are 0 and the least `int64`
    rw [hnone] at hnode
    subst hnode
    by_cases hk : key = 0
    · exact ⟨-2 ^ 63, by decide, by rw [hk]; decide, by decide⟩
    · exact ⟨0, by decide, fun h => hk h.symm, by decide⟩
  · rw [committeeEpochStride] at hlt
    have hstride (n : Int) (hn0 : 0 < n) (hn : n ≤ 2) :
        nodeOf (n * 1000000 + node).natAbs = node := by
      rw [nodeOf_pos (by omega) (by omega), committeeEpochStride]
      omega
    by_cases hk : key = 1 * 1000000 + node
    · exact ⟨2 * 1000000 + node, ⟨by omega, by omega⟩, by omega, hstride 2 (by decide) (by decide)⟩
    exact ⟨1 * 1000000 + node, ⟨by omega, by omega⟩, fun h => hk h.symm,
      hstride 1 (by decide) (by decide)⟩

omit [TssLib] in
theorem exists_other_node (id epoch : Int) :
    ∃ id', InInt64 id' ∧ id' ≠ id ∧
      nodeOf (committeeKey id' epoch).natAbs = nodeOf (committeeKey id epoch).natAbs := by
  obtain ⟨k, hk, hne, hnode⟩ := exists_other_key (committeeKey id epoch)
  have hkey : committeeKey (wrap64 (k - epoch * committeeEpochStride)) epoch = k := by
    rw [committeeKey_eq, wrap64_add_wrap64, add_sub_cancel, wrap64_of_inInt64 hk]
  refine ⟨_, inInt64_wrap64 _, ?_, by rw [hkey, hnode]⟩
  rintro rfl
  exact hne hkey.symm

theorem exists_other_endpoints {peers : Peers} {epoch node : Int}
    (h : (findPartyIDByNode (committeePartyIDs peers epoch) node).isSome) :
    ∃ peers' : Peers, peers'.size = peers.size ∧ ¬ SameParties peers peers' ∧
      (findPartyIDByNode (committeePartyIDs peers' epoch) node).isSome := by
  obtain ⟨id, hid, hnode⟩ := findPartyIDByNode_isSome.mp h
  by_cases hall : ∃ j ∈ peers.ids, j ≠ id
  · -- another member gives way to a new one
    obtain ⟨j, hj, hne⟩ := hall
    obtain ⟨f, hf, hm⟩ := peers.exists_fresh
    refine ⟨peers.rename j f hf hm, Peers.size_rename, Peers.not_sameParties_rename hj,
      findPartyIDByNode_isSome.mpr ⟨id, ?_, hnode⟩⟩
    exact Peers.mem_ids_rename.mpr ⟨id, hid, if_neg fun he => hne he.symm⟩
  · -- the only member gives way to another number for the same node
    obtain ⟨id', hid', hne, hsame⟩ := exists_other_node id epoch
    have hm : id' ∉ peers.ids := fun hm => hall ⟨id', hm, hne⟩
    refine ⟨peers.rename id id' hid' hm, Peers.size_rename, Peers.not_sameParties_rename hid,
      findPartyIDByNode_isSome.mpr ⟨id', ?_, hsame.trans hnode⟩⟩
    exact Peers.mem_ids_rename.mpr ⟨id, hid, if_pos rfl⟩

/-! ## What decides whether a request is accepted -/

section Accepted

variable {ps : PartyServer S} {m : Manager S}

theorem accepted_keygen {req : KeygenStartRequest} :
    (StartRequest.keygen req).Accepted ps m ↔
      ¬ (req.ceremonyID = "" ∨ req.threshold ≤ 0 ∨ req.peers.entries.length = 0) ∧
      requireAuthorization ps "keygen" req.ceremonyID "" req.authorization
        req.authorizationSignature = .ok () ∧ m.frozen = false ∧
      ∃ peers curve, peersOf ps req.peers = .ok peers ∧ req.Asks ps.config curve ∧
        ∃ x : KeygenCeremony S,
          startKeygen ps.config req.threshold peers curve req.blockchain = .ok x := by
  simp only [StartRequest.Accepted, handleTSSKeygenStart]
  by_cases hreq : req.ceremonyID = "" ∨ req.threshold ≤ 0 ∨ req.peers.entries.length = 0
  · simp only [hreq, if_true, refuse_ne_ok, exists_false, not_true, false_and]
  rw [if_neg hreq]
  by_cases hb : req.blockchain = ""
  · simp only [KeygenStartRequest.Asks, hb, ne_eq, not_true, if_false, bind_eq_ok,
      orRefuse_eq_ok, Manager.startKeygen_eq_ok]
    constructor
    · rintro ⟨x, peers, hp, _, ha, hf, hx⟩
      exact ⟨hreq, ha, hf, peers, _, hp, rfl, x, hx⟩
    · rintro ⟨_, ha, hf, peers, curve, hp, rfl, x, hx⟩
      exact ⟨x, peers, hp, (), ha, hf, hx⟩
  · simp only [KeygenStartRequest.Asks, hb, ne_eq, not_false_eq_true, if_true, bind_eq_ok,
      orRefuse_eq_ok, Manager.startKeygenForChain]
    constructor
    · rintro ⟨x, peers, hp, _, ha, curve, hc, h⟩
      split at h
      · simp at h
      next hsame =>
      obtain ⟨curve', hc', h⟩ := bind_eq_ok.mp (orRefuse_eq_ok.mp h)
      cases hc.symm.trans hc'
      obtain ⟨hf, hx⟩ := Manager.startKeygen_eq_ok.mp h
      refine ⟨hreq, ha, hf, peers, curve, hp, ⟨hc, ?_⟩, x, hx⟩
      by_cases hcurve : req.curve = ""
      · exact .inl hcurve
      · exact .inr (by_contra fun hne => hsame ⟨hcurve, hne⟩)
    · rintro ⟨_, ha, hf, peers, curve, hp, ⟨hc, hsame⟩, x, hx⟩
      refine ⟨x, peers, hp, (), ha, curve, hc, ?_⟩
      rw [if_neg (by tauto), orRefuse_eq_ok, bind_eq_ok]
      exact ⟨curve, hc, Manager.startKeygen_eq_ok.mpr ⟨hf, hx⟩⟩

theorem accepted_sign {req : SignStartRequest} :
    (StartRequest.sign req).Accepted ps m ↔
      ¬ (req.signID = "" ∨ req.keygenCeremonyID = "" ∨ req.committeePartyIDs.length = 0) ∧
      ∃ hash, hexDecodeString req.messageHashHex = some hash ∧
        requireAuthorization ps "sign" req.signID req.messageHashHex req.authorization
          req.authorizationSignature = .ok () ∧
        ∃ z, m.startSigning ps.config req.keygenCeremonyID hash req.committeePartyIDs = .ok z := by
  simp only [StartRequest.Accepted, handleTSSSignStart]
  by_cases hreq : req.signID = "" ∨ req.keygenCeremonyID = "" ∨ req.committeePartyIDs.length = 0
  · simp only [hreq, if_true, refuse_ne_ok, exists_false, not_true, false_and]
  rw [if_neg hreq]
  cases hhash : hexDecodeString req.messageHashHex with
  | none => simp
  | some hash =>
    simp only [bind_eq_ok, orRefuse_eq_ok]
    constructor
    · rintro ⟨z, _, ha, hz⟩
      exact ⟨hreq, hash, rfl, ha, z, hz⟩
    · rintro ⟨_, hash', hh, ha, z, hz⟩
      cases hh
      exact ⟨z, (), ha, hz⟩

theorem accepted_reshare {req : ReshareStartRequest} :
    (StartRequest.reshare req).Accepted ps m ↔
      ¬ (req.reshareID = "" ∨ req.sourceCeremonyID = "") ∧
      requireAuthorization ps "reshare" req.reshareID "" req.authorization
        req.authorizationSignature = .ok () ∧
      ∃ y, m.startResharing ps.config req.reshareID req.sourceCeremonyID req.peers = .ok y := by
  simp only [StartRequest.Accepted, handleTSSReshareStart]
  by_cases hreq : req.reshareID = "" ∨ req.sourceCeremonyID = ""
  · simp only [hreq, if_true, refuse_ne_ok, exists_false, not_true, false_and]
  rw [if_neg hreq]
  simp only [bind_eq_ok, orRefuse_eq_ok]
  constructor
  · rintro ⟨y, _, ha, hy⟩
    exact ⟨hreq, ha, y, hy⟩
  · rintro ⟨_, ha, y, hy⟩
    exact ⟨y, (), ha, hy⟩

omit [TssLib] in
theorem getStatus_register {id : String} {x : KeygenCeremony S} :
    (∃ r, ((Effect.registerKeygen id x).apply m).getStatus id = .ok r) ↔
      m.frozen = false ∧ (id, m.ceremonies.fresh id) ∉ m.stuck := by
  have hcur : ((Effect.registerKeygen id x).apply m).ceremonies.current id
      = some (m.ceremonies.fresh id) := by
    simp [Effect.apply, Registry.current_register]
  have hget : ((Effect.registerKeygen id x).apply m).ceremonies.get id (m.ceremonies.fresh id)
      = some x := Registry.get_register_fresh ..
  simp only [Manager.getStatus, hcur, bind_eq_ok, Manager.lockMaps_eq_ok,
    Manager.lockCeremony_eq_ok, hget]
  constructor
  · rintro ⟨r, _, hf, y, ⟨hs, _⟩, _⟩
    exact ⟨hf, hs⟩
  · rintro ⟨hf, hs⟩
    exact ⟨_, (), hf, x, ⟨hs, rfl⟩, rfl⟩

theorem accepted_restore {req : RestoreRequest} :
    (StartRequest.restore req).Accepted ps m ↔
      requireAuthorization ps "restore" req.ceremonyID "" req.authorization
        req.authorizationSignature = .ok () ∧
      (req.ceremonyID, m.ceremonies.fresh req.ceremonyID) ∉ m.stuck ∧
      ∃ x, m.restoreCeremony ps.config req.ceremonyID req.peers = .ok x := by
  simp only [StartRequest.Accepted, handleTSSRestore, bind_eq_ok, orRefuse_eq_ok]
  constructor
  · rintro ⟨r, _, ha, x, hx, hr⟩
    exact ⟨ha, (getStatus_register.mp ⟨r, hr⟩).2, x, hx⟩
  · rintro ⟨ha, hs, x, hx⟩
    obtain ⟨hf, _⟩ := Manager.restoreCeremony_eq_ok.mp hx
    obtain ⟨r, hr⟩ := getStatus_register.mpr ⟨hf, hs⟩
    exact ⟨r, (), ha, x, hx, hr⟩

end Accepted

/-! ## Other requests on the same authorisation -/

section Reuse

variable {ps : PartyServer S} {m : Manager S}

/-- The other of the two curves. -/
theorem keygen_reusable {req : KeygenStartRequest} (h : (StartRequest.keygen req).Accepted ps m) :
    ∃ req' : KeygenStartRequest, (StartRequest.keygen req').pair = (StartRequest.keygen req).pair ∧
      (StartRequest.keygen req').Accepted ps m ∧
      ¬ (StartRequest.keygen req).Agrees ps (.keygen req') := by
  obtain ⟨hreq, ha, hf, peers, curve, hp, hasks, x, hx⟩ := accepted_keygen.mp h
  obtain ⟨hmem, hmaj, hcurve, hself, -⟩ := startKeygen_eq_ok.mp hx
  rw [ellipticCurve_isOk] at hcurve
  let other : Curve := if curve = .secp256k1 then .ed25519 else .secp256k1
  have hne : curve ≠ other := by
    rcases hcurve with rfl | rfl <;> decide
  have hother : other = .secp256k1 ∨ other = .ed25519 := by
    rcases hcurve with rfl | rfl
    · exact .inr rfl
    · exact .inl rfl
  let req' : KeygenStartRequest := { req with curve := other.toString, blockchain := "" }
  have hasks' : req'.Asks ps.config other := by
    show other = if other.toString = "" then .secp256k1 else .ofString other.toString
    rcases hcurve with rfl | rfl <;> decide
  refine ⟨req', rfl, accepted_keygen.mpr ⟨hreq, ha, hf, peers, other, hp, hasks', ?_⟩, ?_⟩
  · exact ⟨_, startKeygen_eq_ok.mpr ⟨hmem, hmaj, ellipticCurve_isOk.mpr hother, hself, rfl⟩⟩
  · rintro ⟨_, _, _, hsame⟩
    exact hne (hsame curve other hasks hasks')

/-- Another key with the same committee. -/
theorem sign_reusable {req : SignStartRequest} (h : (StartRequest.sign req).Accepted ps m) :
    ∃ (m' : Manager S) (req' : SignStartRequest),
      (StartRequest.sign req').pair = (StartRequest.sign req).pair ∧
      (StartRequest.sign req').Accepted ps m' ∧
      ¬ (StartRequest.sign req).Agrees ps (.sign req') := by
  obtain ⟨hreq, hash, hhash, ha, z, hz⟩ := accepted_sign.mp h
  obtain ⟨hf, n, x, hn, hs, hx, hr⟩ := Manager.startSigning_eq_ok.mp hz
  let id := req.keygenCeremonyID ++ "'"
  have hid : id ≠ req.keygenCeremonyID := by simp [id]
  let m' : Manager S := { m with ceremonies := m.ceremonies.register id x, stuck := [] }
  have hcur : m'.ceremonies.current id = some (m.ceremonies.fresh id) := by
    simp [m', Registry.current_register]
  refine ⟨m', { req with keygenCeremonyID := id },
    rfl, accepted_sign.mpr ⟨?_, hash, hhash, ha, z, ?_⟩, ?_⟩
  · rintro (h0 | h0 | h0)
    · exact hreq (.inl h0)
    · simp [id] at h0
    · exact hreq (.inr (.inr h0))
  · refine Manager.startSigning_eq_ok.mpr ⟨hf, m.ceremonies.fresh id, x, ?_, List.not_mem_nil,
      Registry.get_register_fresh .., readKeygen_eq_ok.mpr (readKeygen_eq_ok.mp hr)⟩
    exact lookupKeygen_eq_ok.mpr ⟨(lookupKeygen_eq_ok.mp hn).1, hcur⟩
  · rintro ⟨hsame, _⟩
    exact hid hsame.symm

/-- Another set of parties that this party is in. -/
theorem reshare_reusable {req : ReshareStartRequest} (h : (StartRequest.reshare req).Accepted ps m) :
    ∃ req' : ReshareStartRequest,
      (StartRequest.reshare req').pair = (StartRequest.reshare req).pair ∧
      (StartRequest.reshare req').Accepted ps m ∧
      ¬ (StartRequest.reshare req).Agrees ps (.reshare req') := by
  obtain ⟨hreq, ha, ⟨plan, share⟩, hy⟩ := accepted_reshare.mp h
  obtain ⟨hf, n, x, hn, hs, hx, hr⟩ := Manager.startResharing_eq_ok.mp hy
  obtain ⟨hstatus, hsave, -, hfind, -⟩ := readSource_eq_ok.mp hr
  obtain ⟨id, hid, hkey⟩ := findPartyIDByKey_isSome.mp hfind
  obtain ⟨peers', hid', hne⟩ := req.peers.exists_other hid
  have hsize : peers'.size ≠ 0 := by
    intro h0
    simp only [Peers.size, Nat.cast_eq_zero, List.length_eq_zero_iff] at h0
    simp [Peers.ids, h0] at hid'
  refine ⟨{ req with peers := peers' }, rfl, accepted_reshare.mpr ⟨hreq, ha, _,
    Manager.startResharing_eq_ok.mpr ⟨hf, n, x, hn, hs, hx, readSource_eq_ok.mpr ⟨hstatus, hsave,
      hsize, findPartyIDByKey_isSome.mpr ⟨id, hid', hkey⟩, rfl⟩⟩⟩, ?_⟩
  rintro ⟨_, hsame⟩
  exact hne hsame

/-- Another set of parties of the same size. -/
theorem restore_reusable {req : RestoreRequest} (h : (StartRequest.restore req).Accepted ps m) :
    ∃ req' : RestoreRequest, (StartRequest.restore req').pair = (StartRequest.restore req).pair ∧
      (StartRequest.restore req').Accepted ps m ∧
      ¬ (StartRequest.restore req).Agrees ps (.restore req') := by
  obtain ⟨ha, hs, x, hx⟩ := accepted_restore.mp h
  obtain ⟨hf, hc, e, he, hr⟩ := Manager.restoreCeremony_eq_ok.mp hx
  obtain ⟨cc, p, a, b, hcc, hsize, hfind, hp, hb, -⟩ := restoreCeremony_eq_ok_iff.mp hr
  obtain ⟨peers', hsize', hne, hfind'⟩ := exists_other_endpoints hfind
  exact ⟨{ req with peers := peers' }, rfl, accepted_restore.mpr ⟨ha, hs, _,
    Manager.restoreCeremony_eq_ok.mpr ⟨hf, hc, e, he, restoreCeremony_eq_ok_iff.mpr ⟨cc, p, a, b,
      hcc, hsize'.trans hsize, hfind', hp, hb, rfl⟩⟩⟩, hne⟩

/--
**No authorisation binds a whole request.** Whatever the authorising key, whenever a request is
accepted, there is another request of the same operation, accepted on the same authorisation and
signature, that asks for something else.
-/
theorem authorization_reusable {req : StartRequest} (h : req.Accepted ps m) :
    ∃ (m' : Manager S) (req' : StartRequest), req'.operation = req.operation ∧
      req'.pair = req.pair ∧ req'.Accepted ps m' ∧ ¬ req.Agrees ps req' := by
  cases req with
  | keygen req =>
    obtain ⟨req', h'⟩ := keygen_reusable h
    exact ⟨m, .keygen req', rfl, h'⟩
  | sign req =>
    obtain ⟨m', req', h'⟩ := sign_reusable h
    exact ⟨m', .sign req', rfl, h'⟩
  | reshare req =>
    obtain ⟨req', h'⟩ := reshare_reusable h
    exact ⟨m, .reshare req', rfl, h'⟩
  | restore req =>
    obtain ⟨req', h'⟩ := restore_reusable h
    exact ⟨m, .restore req', rfl, h'⟩

end Reuse

/-! ## What is bound -/

section Bound

variable {ps : PartyServer S} {m m' : Manager S} {a : Authorizer}

theorem accepted_authorized (ha : ps.authorizer = some a) {req : StartRequest}
    (h : req.Accepted ps m) :
    ∃ auth, ps.unmarshal req.pair.1 = .ok auth ∧ auth.operation = req.operation ∧
      auth.ceremonyID = req.ceremonyID ∧ a.verify ps auth req.pair.2 = .ok () := by
  have hrequired : ∃ messageHash, requireAuthorization ps req.operation req.ceremonyID messageHash
      req.pair.1 req.pair.2 = .ok () := by
    cases req with
    | keygen req => exact ⟨_, (accepted_keygen.mp h).2.1⟩
    | sign req =>
      obtain ⟨_, _, _, hauth, _⟩ := accepted_sign.mp h
      exact ⟨_, hauth⟩
    | reshare req => exact ⟨_, (accepted_reshare.mp h).2.1⟩
    | restore req => exact ⟨_, (accepted_restore.mp h).1⟩
  obtain ⟨messageHash, hrequired⟩ := hrequired
  obtain ⟨_, _, auth, hj, hop, hid, _, hv⟩ := (requireAuthorization_eq_ok ha).mp hrequired
  exact ⟨auth, hj, hop, hid, hv⟩

/-- **An authorisation gets one operation under one id through.** -/
theorem accepted_same_ceremony (ha : ps.authorizer = some a) {req req' : StartRequest}
    (h : req.Accepted ps m) (h' : req'.Accepted ps m') (hpair : req'.pair = req.pair) :
    req'.operation = req.operation ∧ req'.ceremonyID = req.ceremonyID := by
  obtain ⟨auth, hj, hop, hid, _⟩ := accepted_authorized ha h
  obtain ⟨auth', hj', hop', hid', _⟩ := accepted_authorized ha h'
  rw [hpair, hj] at hj'
  cases hj'
  exact ⟨hop'.symm.trans hop, hid'.symm.trans hid⟩

/-- **An authorisation to sign gets one message through.** Strings that are equal under case folding
are hex for the same bytes. -/
theorem accepted_same_message (ha : ps.authorizer = some a)
    (hfold : ∀ s t u, ps.config.equalFold s t → ps.config.equalFold s u →
      hexDecodeString t = hexDecodeString u) {req req' : SignStartRequest}
    (h : (StartRequest.sign req).Accepted ps m) (h' : (StartRequest.sign req').Accepted ps m')
    (hpair : (StartRequest.sign req').pair = (StartRequest.sign req).pair) :
    hexDecodeString req'.messageHashHex = hexDecodeString req.messageHashHex := by
  have hmessage {req : SignStartRequest} {m : Manager S} (h : (StartRequest.sign req).Accepted ps m) :
      ∃ auth, ps.unmarshal req.authorization = .ok auth ∧
        ps.config.equalFold auth.messageHash req.messageHashHex := by
    obtain ⟨_, hash, hhash, hauth, z, hz⟩ := accepted_sign.mp h
    obtain ⟨_, n, x, hn, _⟩ := Manager.startSigning_eq_ok.mp hz
    obtain ⟨_, _, auth, hj, _, _, hm, _⟩ := (requireAuthorization_eq_ok ha).mp hauth
    refine ⟨auth, hj, hm ?_⟩
    rintro he
    rw [he] at hhash
    cases hhash
    exact (lookupKeygen_eq_ok.mp hn).1 rfl
  obtain ⟨auth, hj, hm⟩ := hmessage h
  obtain ⟨auth', hj', hm'⟩ := hmessage h'
  simp only [StartRequest.pair, Prod.mk.injEq] at hpair
  rw [hpair.1, hj] at hj'
  cases hj'
  exact hfold _ _ _ hm' hm

end Bound

end

open scoped Insertion

/-! ## A small server

The authorising key accepts the signature `01`, and there is an authorisation for each operation on
ceremony `c`. -/

def sampleAuthorization (op : String) : String :=
  "\x7b\"operation\":\"" ++ op ++ "\",\"ceremony_id\":\"c\",\"message_hash\":\"00\"\x7d"

def sampleServer : PartyServer String where
  config := sampleConfig true
  authorizer := some
    { algorithm := .ed25519, ed25519 := fun _ sig => sig == [1], p256 := fun _ _ => false,
      maxAge := 300000000000 }
  unmarshal text :=
    match ["keygen", "sign", "reshare", "restore"].find? (text = sampleAuthorization ·) with
    | some op => .ok ⟨op, "c", "00", 0⟩
    | none => errorf "invalid character"
  sha256 b := b
  since _ := 0
  duration d := toString d
  sscanf s := if s = "1" then some 1 else if s = "2" then some 2 else some 3

/-- Two keys, `k` and `q`, of one committee. -/
def sampleKeys : List (Nat × Label String) :=
  [(0, .startKeygen "k" 1 samplePeers .ed25519 ""), (0, .deliver "A"), (0, .stored), (0, .advance),
    (0, .startKeygen "q" 1 samplePeers .ed25519 ""), (0, .deliver "B"), (0, .stored), (0, .advance)]

/-- The party after a restart, with the share of ceremony `c` of a committee of three sealed. -/
def sampleRestarted : Manager String :=
  .start fun id => if id = "c" then some ⟨⟨.ed25519, "A"⟩, some ⟨1, 3, "ed25519", 0, "A", "A"⟩⟩ else none

def sampleNamedPeers : NamedPeers where
  entries := [("1", "http://party1"), ("2", "http://party2"), ("3", "http://party3")]
  nodup := by decide
  length_lt := by decide

/-- A committee with another party in the place of the third. -/
def sampleOtherPeers : Peers where
  entries := [(1, "http://party1"), (2, "http://party2"), (4, "http://party4")]
  nodup := by decide
  inInt64 := by decide
  length_lt := by decide

def sampleKeygenRequest (curve : String) : StartRequest := .keygen
  { ceremonyID := "c", threshold := 1, peers := sampleNamedPeers, curve,
    authorization := sampleAuthorization "keygen", authorizationSignature := "01" }

def sampleSignRequest (keygenCeremonyID : String) : StartRequest := .sign
  { signID := "c", keygenCeremonyID, messageHashHex := "00", committeePartyIDs := [1, 2],
    authorization := sampleAuthorization "sign", authorizationSignature := "01" }

def sampleReshareRequest (sourceCeremonyID : String) : StartRequest := .reshare
  { reshareID := "c", sourceCeremonyID, peers := samplePeers,
    authorization := sampleAuthorization "reshare", authorizationSignature := "01" }

def sampleRestoreRequest (peers : Peers) : StartRequest := .restore
  { ceremonyID := "c", peers, authorization := sampleAuthorization "restore",
    authorizationSignature := "01" }

theorem authorization_reusable_sign :
    ∃ s m' req', run (step (sampleConfig true)) sampleStart sampleKeys = some s ∧
      (sampleSignRequest "k").Accepted sampleServer s.shared ∧
      req'.operation = "sign" ∧ req'.pair = (sampleAuthorization "sign", "01") ∧
      req'.Accepted sampleServer m' ∧
      ¬ (sampleSignRequest "k").Agrees sampleServer req' := by
  obtain ⟨s, hs, haccepted⟩ : ∃ s, run (step (sampleConfig true)) sampleStart sampleKeys = some s ∧
      (sampleSignRequest "k").Accepted sampleServer s.shared := ⟨_, rfl, _, rfl⟩
  obtain ⟨m', req', h⟩ := authorization_reusable haccepted
  exact ⟨s, m', req', hs, haccepted, h⟩

/--
One authorisation, two ceremonies. To generate a key on either curve, to sign with either of two
keys, to refresh either of two keys, and to restore a key with one party or another.
-/
theorem authorization_reused :
    (∃ s, run (step (sampleConfig true)) sampleStart sampleKeys = some s ∧
      ∀ req req', (req, req') ∈
        [(sampleKeygenRequest "ed25519", sampleKeygenRequest "secp256k1"),
          (sampleSignRequest "k", sampleSignRequest "q"),
          (sampleReshareRequest "k", sampleReshareRequest "q")] →
        req'.operation = req.operation ∧ req'.pair = req.pair ∧ req.Accepted sampleServer s.shared ∧
        req'.Accepted sampleServer s.shared ∧ ¬ req.Agrees sampleServer req') ∧
    (sampleRestoreRequest samplePeers).Accepted sampleServer sampleRestarted ∧
    (sampleRestoreRequest sampleOtherPeers).Accepted sampleServer sampleRestarted ∧
    ¬ (sampleRestoreRequest samplePeers).Agrees sampleServer
      (sampleRestoreRequest sampleOtherPeers) := by
  refine ⟨⟨_, rfl, ?_⟩, ⟨_, rfl⟩, ⟨_, rfl⟩, ?_⟩
  · simp only [List.mem_cons, List.not_mem_nil, or_false]
    rintro req req' (⟨rfl, rfl⟩ | ⟨rfl, rfl⟩ | ⟨rfl, rfl⟩)
    · refine ⟨rfl, rfl, ⟨_, rfl⟩, ⟨_, rfl⟩, ?_⟩
      rintro ⟨_, _, _, hcurve⟩
      cases hcurve .ed25519 .secp256k1 ((if_pos rfl).mpr (by decide)) ((if_pos rfl).mpr (by decide))
    · refine ⟨rfl, rfl, ⟨_, rfl⟩, ⟨_, rfl⟩, ?_⟩
      rintro ⟨hkey, _⟩
      exact absurd hkey (by decide)
    · refine ⟨rfl, rfl, ⟨_, rfl⟩, ⟨_, rfl⟩, ?_⟩
      rintro ⟨hkey, _⟩
      exact absurd hkey (by decide)
  · intro hsame
    exact absurd ((hsame 3).mp (by decide)) (by decide)

theorem accepted_same_ceremony_restore :
    (sampleRestoreRequest sampleOtherPeers).operation = (sampleRestoreRequest samplePeers).operation ∧
      (sampleRestoreRequest sampleOtherPeers).ceremonyID =
        (sampleRestoreRequest samplePeers).ceremonyID := by
  have h : (sampleRestoreRequest samplePeers).Accepted sampleServer sampleRestarted := ⟨_, rfl⟩
  have h' : (sampleRestoreRequest sampleOtherPeers).Accepted sampleServer sampleRestarted := ⟨_, rfl⟩
  exact accepted_same_ceremony rfl h h' rfl

theorem accepted_same_message_sign :
    ∃ s req req', run (step (sampleConfig true)) sampleStart sampleKeys = some s ∧
      sampleSignRequest "k" = .sign req ∧ sampleSignRequest "q" = .sign req' ∧
      hexDecodeString req'.messageHashHex = hexDecodeString req.messageHashHex := by
  obtain ⟨s, hs, h, h'⟩ : ∃ s, run (step (sampleConfig true)) sampleStart sampleKeys = some s ∧
      (sampleSignRequest "k").Accepted sampleServer s.shared ∧
      (sampleSignRequest "q").Accepted sampleServer s.shared := ⟨_, rfl, ⟨_, rfl⟩, ⟨_, rfl⟩⟩
  refine ⟨s, _, _, hs, rfl, rfl, accepted_same_message rfl (fun s t u ht hu => ?_) h h' rfl⟩
  rw [← eq_of_beq ht, ← eq_of_beq hu]

end OpenFireblocks.Party
