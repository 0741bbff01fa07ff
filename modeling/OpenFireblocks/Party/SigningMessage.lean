import OpenFireblocks.Party.Binding

/-!
# What a signing protocol is run on

`StartSigning` is given a string of bytes. `runSigning` (`tss_signing.go`) reads it as an integer
and hands the integer to a signing party of the threshold library. The ECDSA party signs the digest
of 32 bytes that the integer stands for. The EdDSA party signs the integer's own big-endian bytes,
and an integer has no leading zero bytes.
-/

namespace OpenFireblocks.Party

open Go Outcome BigEndian

section

variable [TssLib] {S : Type}

/-- The signing party of the threshold library, with the integer it is made for. -/
inductive LocalParty where
  | ecdsa (msg : Nat)
  | eddsa (msg : Nat)

def LocalParty.message : LocalParty → Bytes
  | ecdsa msg => fixed 32 msg
  | eddsa msg => toBytes msg

/-- `runSigning` up to `localParty.Start()`. -/
def runSigning (cfg : Config S) (share : KeyShare S) (messageHash : Bytes) : Result LocalParty := do
  let _ ← ellipticCurve cfg share.curve
  -- `new(big.Int).SetBytes(messageHash)`
  let msg := toNat messageHash
  match share.curve with
  | .secp256k1 => .ok (.ecdsa msg)
  | .ed25519 => .ok (.eddsa msg)
  | .other name _ => errorf ("unknown curve " ++ cfg.quote name)

/-! ## Bytes through an integer -/

omit [TssLib] in
/-- The integer forgets the leading zeros and nothing else. -/
theorem toBytes_toNat_eq (bs : Bytes) : toBytes (toNat bs) = bs.dropWhile (· = 0) := by
  induction bs with
  | nil => simp
  | cons b bs ih =>
    by_cases hb : b = 0
    · rw [List.dropWhile_cons_of_pos (by simp [hb]), ← ih, toNat_cons, hb]
      simp
    · rw [List.dropWhile_cons_of_neg (by simp [hb]), toBytes_toNat hb]

/-! ## From the request to the local party -/

/-- A request that the handler accepts gives `StartSigning` the bytes that its hex text stands
for. -/
theorem startSigning_of_handleTSSSignStart {ps : PartyServer S} {m : Manager S}
    {req : SignStartRequest} {z : SigningCeremony × KeyShare S}
    (h : handleTSSSignStart ps m req = .ok z) :
    ∃ hash, hexDecodeString req.messageHashHex = some hash ∧
      m.startSigning ps.config req.keygenCeremonyID hash req.committeePartyIDs = .ok z := by
  unfold handleTSSSignStart at h
  split at h
  · simp at h
  split at h
  · simp at h
  next hash hhash =>
  obtain ⟨_, -, h⟩ := bind_eq_ok.mp h
  exact ⟨hash, hhash, orRefuse_eq_ok.mp h⟩

section

variable (cfg : Config S) (share : KeyShare S) (messageHash : Bytes)

def SignsGiven : Prop :=
  ∀ ec, ellipticCurve cfg share.curve = .ok ec →
    ∃ p, runSigning cfg share messageHash = .ok p ∧ p.message = messageHash

variable {cfg share messageHash}

omit [TssLib] in
theorem runSigning_ed25519 (h : share.curve = .ed25519) :
    runSigning cfg share messageHash = .ok (.eddsa (toNat messageHash)) := by
  simp [runSigning, h, ellipticCurve, ok_bind]

omit [TssLib] in
theorem runSigning_eq_eddsa {msg : Nat} (h : runSigning cfg share messageHash = .ok (.eddsa msg)) :
    share.curve = .ed25519 ∧ msg = toNat messageHash := by
  obtain ⟨_, -, h⟩ := bind_eq_ok.mp h
  split at h
  · cases h
  · next hcurve =>
    cases h
    exact ⟨hcurve, rfl⟩
  · simp at h

/-- One message, as `StartSigning` accepts it. -/
theorem signsGiven_iff {m : Manager S} {id : String} {committee : List Int} {c : SigningCeremony}
    (h : m.startSigning cfg id messageHash committee = .ok (c, share)) :
    SignsGiven cfg share messageHash ↔ (share.curve = .ed25519 → messageHash.head? ≠ some 0) := by
  cases hcurve : share.curve with
  | secp256k1 =>
    refine iff_of_true (fun _ _ => ⟨.ecdsa (toNat messageHash), ?_, ?_⟩) (by simp)
    · simp [runSigning, hcurve, ellipticCurve, ok_bind]
    obtain ⟨-, n, x, -, -, -, h⟩ := Manager.startSigning_eq_ok.mp h
    obtain ⟨-, -, hlen, -⟩ := readKeygen_eq_ok.mp h
    have hlen : messageHash.length = 32 := by_contra fun hne => hlen ⟨hcurve, hne⟩
    rw [LocalParty.message, ← hlen, fixed_toNat]
  | ed25519 =>
    rw [← toBytes_toNat_eq_iff]
    constructor
    · intro hsigns _
      obtain ⟨p, hp, hmessage⟩ := hsigns .edwards (by rw [hcurve]; rfl)
      rw [runSigning_ed25519 hcurve] at hp
      cases hp
      exact hmessage
    · intro hbytes _ _
      exact ⟨_, runSigning_ed25519 hcurve, hbytes rfl⟩
  | other =>
    refine iff_of_true (fun ec hec => ?_) (by simp)
    rw [hcurve] at hec
    simp [ellipticCurve] at hec

end

section

variable {cfg cfg' : Config S} {share share' : KeyShare S} {hash hash' : Bytes}

omit [TssLib] in
/-- **Two messages become one exactly if they differ in leading zeros.** -/
theorem message_eq_iff (h : share.curve = .ed25519) (h' : share'.curve = .ed25519) :
    runSigning cfg share hash = runSigning cfg' share' hash' ↔
      hash.dropWhile (· = 0) = hash'.dropWhile (· = 0) := by
  rw [runSigning_ed25519 h, runSigning_ed25519 h', ← toBytes_toNat_eq, ← toBytes_toNat_eq]
  constructor
  · intro heq
    rw [LocalParty.eddsa.inj (Except.ok.inj heq)]
  · intro heq
    rw [toBytes_injective heq]

/-- **The bytes signed are the bytes given**, and different ones are never signed as the same
Ed25519 message, unless an Ed25519 message begins with a zero byte. For any two messages that
`StartSigning` accepts, of any parties and keys. -/
theorem signs_given_iff {m m' : Manager S} {id id' : String} {committee committee' : List Int}
    {c c' : SigningCeremony} (h : m.startSigning cfg id hash committee = .ok (c, share))
    (h' : m'.startSigning cfg' id' hash' committee' = .ok (c', share')) :
    (SignsGiven cfg share hash ∧ SignsGiven cfg' share' hash' ∧
      ∀ msg, runSigning cfg share hash = .ok (.eddsa msg) →
        runSigning cfg' share' hash' = .ok (.eddsa msg) → hash = hash') ↔
    (share.curve = .ed25519 → hash.head? ≠ some 0) ∧
      (share'.curve = .ed25519 → hash'.head? ≠ some 0) := by
  rw [signsGiven_iff h, signsGiven_iff h']
  constructor
  · rintro ⟨hgiven, hgiven', -⟩
    exact ⟨hgiven, hgiven'⟩
  · rintro ⟨hgiven, hgiven'⟩
    refine ⟨hgiven, hgiven', fun msg hp hp' => ?_⟩
    obtain ⟨hcurve, rfl⟩ := runSigning_eq_eddsa hp
    obtain ⟨hcurve', heq⟩ := runSigning_eq_eddsa hp'
    rw [← toBytes_toNat_eq_iff.mpr (hgiven hcurve), heq,
      toBytes_toNat_eq_iff.mpr (hgiven' hcurve')]

end

end

open scoped Insertion

/-! ## Two messages for one key -/

def sampleSign (messageHashHex : String) : SignStartRequest where
  signID := "c"
  keygenCeremonyID := "k"
  messageHashHex := messageHashHex
  committeePartyIDs := [1, 2]
  authorization := "sign"
  authorizationSignature := "01"

def sampleOpenServer : PartyServer String := { sampleServer with authorizer := none }

/-- A message of two bytes, and one that begins with a zero. -/
theorem signs_given_iff_sample :
    ∃ s share, Machine.run (step (sampleConfig true)) sampleStart sampleKeys = some s ∧
      (∃ c, handleTSSSignStart sampleOpenServer s.shared (sampleSign "0100") = .ok (c, share)) ∧
      (∃ c, handleTSSSignStart sampleOpenServer s.shared (sampleSign "000100") = .ok (c, share)) ∧
      SignsGiven (sampleConfig true) share [1, 0] ∧
      ¬ SignsGiven (sampleConfig true) share [0, 1, 0] := by
  obtain ⟨s, hs, c, hc, c', hc'⟩ : ∃ s,
      Machine.run (step (sampleConfig true)) sampleStart sampleKeys = some s ∧
      ∃ c, handleTSSSignStart sampleOpenServer s.shared (sampleSign "0100")
        = .ok (c, ⟨.ed25519, "A"⟩) ∧
      ∃ c', handleTSSSignStart sampleOpenServer s.shared (sampleSign "000100")
        = .ok (c', ⟨.ed25519, "A"⟩) := ⟨_, rfl, _, rfl, _, rfl⟩
  obtain ⟨hash, hhash, hstart⟩ := startSigning_of_handleTSSSignStart hc
  obtain ⟨hash', hhash', hstart'⟩ := startSigning_of_handleTSSSignStart hc'
  obtain rfl : [1, 0] = hash := Option.some.inj hhash
  obtain rfl : [0, 1, 0] = hash' := Option.some.inj hhash'
  refine ⟨s, ⟨.ed25519, "A"⟩, hs, ⟨c, hc⟩, ⟨c', hc'⟩, ?_, fun hsigns => ?_⟩
  · exact ((signs_given_iff hstart hstart).mpr ⟨fun _ => by decide, fun _ => by decide⟩).1
  · exact ((signs_given_iff hstart' hstart').mp ⟨hsigns, hsigns, fun _ _ _ => rfl⟩).1 rfl rfl

/-- The messages `0001` and `01` are both accepted for one Ed25519 key, and signed as `01`. -/
theorem signed_as_same :
    ∃ s share, Machine.run (step (sampleConfig true)) sampleStart sampleKeys = some s ∧
      (∃ c, handleTSSSignStart sampleOpenServer s.shared (sampleSign "0001") = .ok (c, share)) ∧
      (∃ c, handleTSSSignStart sampleOpenServer s.shared (sampleSign "01") = .ok (c, share)) ∧
      hexDecodeString "0001" = some [0, 1] ∧ hexDecodeString "01" = some [1] ∧
      ∃ p, runSigning (sampleConfig true) share [0, 1] = .ok p ∧
        runSigning (sampleConfig true) share [1] = .ok p ∧ p.message = [1] :=
  ⟨_, ⟨.ed25519, "A"⟩, rfl, ⟨_, rfl⟩, ⟨_, rfl⟩, rfl, rfl, .eddsa 1, rfl, rfl,
    by simp [LocalParty.message, toBytes]⟩

theorem message_eq_iff_zeros :
    runSigning (sampleConfig true) ⟨.ed25519, "A"⟩ [0, 1] =
      runSigning (sampleConfig true) ⟨.ed25519, "A"⟩ [1] :=
  (message_eq_iff rfl rfl).mpr rfl

end OpenFireblocks.Party
