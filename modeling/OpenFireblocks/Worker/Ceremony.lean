import OpenFireblocks.Go.Basic

/-!
# Driving a ceremony

`ExecuteRealDKG` and `ExecuteRealSigning` of `activities/real_tss.go`. Both tell every party to
start and then ask them all for their status, round after round, until all have completed, one has
failed or could not be asked, or the context is done.

* What the parties answer is a `Network`: any answer or error to each request, in every round. The
  endpoint asked is the one that the party ids map to, where a later entry replaces an earlier one.
* The loop need not end. `executeRealDKG net req rounds` is what the activity has returned by then,
  so it returns in round `n` if it has returned after `n + 1` rounds and not after `n`.

A round of key generation keeps the key of the last party it asked, and a round of signing compares
a signature only with one that is not empty.
-/

namespace OpenFireblocks.Worker

open BigEndian Go

/-! ## Requests, answers and results -/

structure DKGCeremonyRequest where
  ceremonyID : String
  chainID : String
  k : Int
  partyIDs : List Int
  partyEndpoints : List String

structure DKGCeremonyResult where
  ceremonyID : String
  status : String
  thresholdAddress : String
  thresholdPubKey : String
  error : String

structure ThresholdSigningRequest where
  ceremonyID : String
  message : String
  partyIDs : List Int
  partyEndpoints : List String

structure ThresholdSigningResult where
  signature : String
  status : String
  error : String

/-- `tssKeygenStatusBody`. -/
structure KeygenStatus where
  status : String
  error : String
  publicKey : String
  address : String
  isSealed : Bool

/-- `tssSignStatusBody`. -/
structure SignStatus where
  status : String
  error : String
  signature : String

/-- `tssKeygenStartBody`. -/
structure KeygenStart where
  ceremonyID : String
  threshold : Int
  peers : List (Int × String)
  authorization : String
  authorizationSignature : String
  blockchain : String

/-- `tssSignStartBody`. -/
structure SignStart where
  signID : String
  keygenCeremonyID : String
  messageHashHex : String
  committeePartyIDs : List Int
  authorization : String
  authorizationSignature : String

/-- What comes back from the co-signer and from the parties. `β` is the body of a start request
and `σ` that of a status. -/
structure Network (β σ : Type) where
  /-- `ceremonyAuth.authorize` of an operation on a ceremony and a message. -/
  authorize : String → String → String → Except String (String × String)
  /-- the answer to the `i`-th start request -/
  start : Nat → String → β → Except String Unit
  /-- the answer to the `i`-th status request of a round -/
  status : Nat → Nat → String → Except String σ
  /-- the error of the context after a round, if it is done -/
  done : Nat → Option String
  sha256 : Bytes → Bytes

/-! ## Asking every party -/

/-- `endpointByParty[id]`: the last entry for the id. -/
def endpointOf (partyIDs : List Int) (partyEndpoints : List String) (id : Int) : String :=
  (((partyIDs.zip partyEndpoints).reverse.find? fun p => p.1 = id).map Prod.snd).getD ""

section

variable {β σ τ : Type}

/-- Starts every party, in order, up to the first that refuses. -/
def startAll (net : Network β σ) (url : Int → String) (body : β) :
    List (Nat × Int) → Except String Unit
  | [] => .ok ()
  | (i, id) :: rest =>
    match net.start i (url id) body with
    | .error err => .error s!"party {id}: {err}"
    | .ok () => startAll net url body rest

/-- How the answers of a round are read. -/
structure Poll (σ τ : Type) where
  status : σ → String
  error : σ → String
  /-- what a party that has completed adds to the round, or why the ceremony has failed -/
  complete : τ → Int → σ → Except String τ

def pollRound (p : Poll σ τ) : List (Int × Except String σ) → Bool → τ → Except String (Bool × τ)
  | [], allDone, acc => .ok (allDone, acc)
  | (id, .error err) :: _, _, _ => .error s!"party {id} status check: {err}"
  | (id, .ok st) :: rest, allDone, acc =>
    if p.status st = "failed" then .error s!"party {id}: {p.error st}"
    else if p.status st = "completed" then
      match p.complete acc id st with
      | .error msg => .error msg
      | .ok acc => pollRound p rest allDone acc
    else pollRound p rest false acc

/-- The loop from round `n` on: `.error` for a failed ceremony, and a Go error for a context that
is done. -/
def pollLoop (p : Poll σ τ) (init : τ) (reports : Nat → List (Int × Except String σ))
    (done : Nat → Option String) : Nat → Nat → Option (Result (Except String τ))
  | 0, _ => none
  | rounds + 1, n =>
    match pollRound p (reports n) true init with
    | .error msg => some (.ok (.error msg))
    | .ok (true, acc) => some (.ok (.ok acc))
    | .ok (false, _) =>
      match done n with
      | some err => some (errorf err)
      | none => pollLoop p init reports done rounds (n + 1)

end

/-! ## Key generation -/

structure KeygenRound where
  address : String
  pubKey : String
  sealedCount : Nat

/-- The last party that has completed decides the address and the key. -/
def keygenPoll : Poll KeygenStatus KeygenRound where
  status := KeygenStatus.status
  error := KeygenStatus.error
  complete acc _ st := .ok
    { address := st.address
      pubKey := st.publicKey
      sealedCount := if st.isSealed then acc.sealedCount + 1 else acc.sealedCount }

def keygenReports (net : Network KeygenStart KeygenStatus) (req : DKGCeremonyRequest) (n : Nat) :
    List (Int × Except String KeygenStatus) :=
  req.partyIDs.mapIdx fun i id => (id, net.status n i
    (endpointOf req.partyIDs req.partyEndpoints id ++ "/tss/keygen/status?ceremony_id="
      ++ req.ceremonyID))

def failedCeremony (req : DKGCeremonyRequest) (msg : String) : DKGCeremonyResult :=
  { ceremonyID := req.ceremonyID, status := "failed", thresholdAddress := "",
    thresholdPubKey := "", error := msg }

/-- What `ExecuteRealDKG` has returned after some rounds. -/
def executeRealDKG (net : Network KeygenStart KeygenStatus) (req : DKGCeremonyRequest)
    (rounds : Nat) : Option (Result DKGCeremonyResult) :=
  if req.partyIDs.length ≠ req.partyEndpoints.length then
    some (errorf s!"partyIds ({req.partyIDs.length}) and partyEndpoints ({req.partyEndpoints.length}) length mismatch")
  else if req.partyIDs.length = 0 then some (errorf "no parties specified")
  else
    match net.authorize "keygen" req.ceremonyID "" with
    | .error err => some (.ok (failedCeremony req err))
    | .ok (auth, authSig) =>
      let body : KeygenStart :=
        { ceremonyID := req.ceremonyID
          threshold := req.k
          peers := req.partyIDs.dedup.map fun id =>
            (id, endpointOf req.partyIDs req.partyEndpoints id)
          authorization := auth
          authorizationSignature := authSig
          blockchain := req.chainID }
      match startAll net
          (fun id => endpointOf req.partyIDs req.partyEndpoints id ++ "/tss/keygen/start") body
          (req.partyIDs.mapIdx Prod.mk) with
      | .error msg => some (.ok (failedCeremony req msg))
      | .ok () =>
        (pollLoop keygenPoll ⟨"", "", 0⟩ (keygenReports net req) net.done rounds 0).map fun r =>
          r.map fun
            | .error msg => failedCeremony req msg
            | .ok round =>
              { ceremonyID := req.ceremonyID
                status := "completed"
                thresholdAddress := round.address
                thresholdPubKey := round.pubKey
                error := "" }

/-! ## Signing -/

def maxSigningMessageBytes : Nat := 4096

/-- A signature that is not empty must be that of the party before. -/
def signPoll : Poll SignStatus String where
  status := SignStatus.status
  error := SignStatus.error
  complete signature id st :=
    if signature ≠ "" ∧ signature ≠ st.signature then
      .error s!"party {id} produced a different signature than the rest of the committee -- signing did not converge"
    else .ok st.signature

def signIDOf (sha256 : Bytes → Bytes) (ceremonyID : String) (message : Bytes) : String :=
  let sum := sha256 ((ceremonyID ++ ":").toUTF8.toList ++ message)
  ceremonyID ++ "-sign-" ++ hexEncodeToString (sum.take 8)

section

variable (net : Network SignStart SignStatus) (req : ThresholdSigningRequest)

def signReports (signID : String) (n : Nat) : List (Int × Except String SignStatus) :=
  req.partyIDs.mapIdx fun i id => (id, net.status n i
    (endpointOf req.partyIDs req.partyEndpoints id ++ "/tss/sign/status?sign_id=" ++ signID))

def failedSigning (msg : String) : ThresholdSigningResult :=
  { signature := "", status := "failed", error := msg }

/-- What `ExecuteRealSigning` has returned after some rounds. The text that `hex.DecodeString` adds
to its error is left out. -/
def executeRealSigning (rounds : Nat) : Option (Result ThresholdSigningResult) :=
  if req.partyIDs.length ≠ req.partyEndpoints.length then
    some (errorf s!"partyIds ({req.partyIDs.length}) and partyEndpoints ({req.partyEndpoints.length}) length mismatch")
  else if req.partyIDs.length = 0 then some (errorf "no signing committee specified")
  else
    match hexDecodeString req.message with
    | none => some (errorf "message must be hex-encoded")
    | some message =>
      if message.length = 0 ∨ maxSigningMessageBytes < message.length then
        some (errorf s!"message must be between 1 and {maxSigningMessageBytes} bytes, got {message.length}")
      else
        let signID := signIDOf net.sha256 req.ceremonyID message
        match net.authorize "sign" signID req.message with
        | .error err => some (.ok (failedSigning err))
        | .ok (auth, authSig) =>
          let body : SignStart :=
            { signID := signID
              keygenCeremonyID := req.ceremonyID
              messageHashHex := req.message
              committeePartyIDs := req.partyIDs
              authorization := auth
              authorizationSignature := authSig }
          match startAll net
              (fun id => endpointOf req.partyIDs req.partyEndpoints id ++ "/tss/sign/start") body
              (req.partyIDs.mapIdx Prod.mk) with
          | .error msg => some (.ok (failedSigning msg))
          | .ok () =>
            (pollLoop signPoll "" (signReports net req signID) net.done rounds 0).map fun r =>
              r.map fun
                | .error msg => failedSigning msg
                | .ok signature => { signature := signature, status := "completed", error := "" }

def ThresholdSigningRequest.signID : String :=
  signIDOf net.sha256 req.ceremonyID ((hexDecodeString req.message).getD [])

end

/-! ## A round in which everybody is done -/

section

variable {σ τ : Type} {p : Poll σ τ}

/-- Every party has completed, and the round went from `acc` to `acc'`. -/
inductive Completes (p : Poll σ τ) : List (Int × Except String σ) → τ → τ → Prop
  | nil {acc} : Completes p [] acc acc
  | cons {id st rest acc acc' acc''} (hstatus : p.status st = "completed")
    (hst : p.complete acc id st = .ok acc') (hrest : Completes p rest acc' acc'') :
    Completes p ((id, .ok st) :: rest) acc acc''

theorem completes_of_pollRound {reports : List (Int × Except String σ)} {b : Bool} {acc acc' : τ}
    (h : pollRound p reports b acc = .ok (true, acc')) : b ∧ Completes p reports acc acc' := by
  induction reports generalizing b acc with
  | nil =>
    cases h
    exact ⟨rfl, .nil⟩
  | cons a rest ih =>
    obtain ⟨id, answer⟩ := a
    cases answer with
    | error err => cases h
    | ok st =>
      simp only [pollRound] at h
      split at h
      · cases h
      split at h
      · next hstatus =>
        split at h
        · cases h
        next acc1 hst =>
        obtain ⟨rfl, hrest⟩ := ih h
        exact ⟨rfl, .cons hstatus hst hrest⟩
      · cases (ih h).1

theorem Completes.completed {reports : List (Int × Except String σ)} {acc acc' : τ}
    (h : Completes p reports acc acc') :
    ∀ a ∈ reports, ∃ st, a.2 = .ok st ∧ p.status st = "completed" := by
  induction h with
  | nil => simp
  | cons hstatus _ _ ih => exact List.forall_mem_cons.mpr ⟨⟨_, rfl, hstatus⟩, ih⟩

theorem pollRound_of_pollLoop {init acc : τ} {reports : Nat → List (Int × Except String σ)}
    {done : Nat → Option String} {n m : Nat}
    (h : pollLoop p init reports done (n + 1) m = some (.ok (.ok acc)))
    (hlast : pollLoop p init reports done n m = none) : Completes p (reports (m + n)) init acc := by
  induction n generalizing m with
  | zero =>
    rw [pollLoop] at h
    split at h
    · cases h
    · next acc' hround =>
      cases h
      exact (completes_of_pollRound hround).2
    · split at h
      · cases h
      · cases h
  | succ n ih =>
    rw [pollLoop] at h hlast
    split at h
    · cases h
    · next acc' hround => rw [hround] at hlast; cases hlast
    next acc' hround =>
    rw [hround] at hlast
    split at h
    · cases h
    next hdone =>
    rw [hdone] at hlast
    have := ih h hlast
    rwa [Nat.add_right_comm, Nat.add_assoc] at this

end

def KeygenAgrees (reports : List (Int × Except String KeygenStatus)) (pubKey address : String) :
    Prop :=
  ∀ a ∈ reports, ∃ st, a.2 = .ok st ∧ st.status = "completed" ∧ st.publicKey = pubKey ∧
    st.address = address

/-- No two parties report different keys or addresses. -/
def SameKey (reports : List (Int × Except String KeygenStatus)) : Prop :=
  ∀ a ∈ reports, ∀ b ∈ reports, ∀ st st', a.2 = .ok st → b.2 = .ok st' →
    st.publicKey = st'.publicKey ∧ st.address = st'.address

def SigningAgrees (reports : List (Int × Except String SignStatus)) (signature : String) : Prop :=
  signature ≠ "" ∧
    ∀ a ∈ reports, ∃ st, a.2 = .ok st ∧ st.status = "completed" ∧ st.signature = signature

def NonemptySignatures (reports : List (Int × Except String SignStatus)) : Prop :=
  ∀ a ∈ reports, ∀ st, a.2 = .ok st → st.signature ≠ ""

theorem Completes.keygen_last {reports : List (Int × Except String KeygenStatus)}
    {acc acc' : KeygenRound} (h : Completes keygenPoll reports acc acc') (hne : reports ≠ []) :
    ∃ a ∈ reports, ∃ st, a.2 = .ok st ∧ st.publicKey = acc'.pubKey ∧ st.address = acc'.address := by
  induction h with
  | nil => exact absurd rfl hne
  | @cons id st rest acc acc1 acc' hstatus hst hrest ih =>
    cases rest with
    | nil =>
      cases hrest
      cases hst
      exact ⟨_, List.mem_cons_self, st, rfl, rfl, rfl⟩
    | cons =>
      obtain ⟨a, ha, hlast⟩ := ih (by simp)
      exact ⟨a, List.mem_cons_of_mem _ ha, hlast⟩

theorem keygenAgrees_iff {reports : List (Int × Except String KeygenStatus)}
    {acc acc' : KeygenRound} (h : Completes keygenPoll reports acc acc') (hne : reports ≠ []) :
    KeygenAgrees reports acc'.pubKey acc'.address ↔ SameKey reports := by
  constructor
  · intro hagrees a ha b hb st st' hst hst'
    obtain ⟨st1, h1, -, hkey, haddress⟩ := hagrees a ha
    obtain ⟨st2, h2, -, hkey', haddress'⟩ := hagrees b hb
    cases h1.symm.trans hst
    cases h2.symm.trans hst'
    exact ⟨hkey.trans hkey'.symm, haddress.trans haddress'.symm⟩
  · intro hsame a ha
    obtain ⟨st, hst, hstatus⟩ := h.completed a ha
    obtain ⟨b, hb, st', hst', hkey, haddress⟩ := h.keygen_last hne
    obtain ⟨h1, h2⟩ := hsame a ha b hb st st' hst hst'
    exact ⟨st, hst, hstatus, h1.trans hkey, h2.trans haddress⟩

/-- Signatures that are not empty are compared, so they are all the same. -/
theorem Completes.signatures {reports : List (Int × Except String SignStatus)} {acc acc' : String}
    (h : Completes signPoll reports acc acc') (hne : NonemptySignatures reports) :
    (acc ≠ "" → acc = acc') ∧ ∀ a ∈ reports, ∀ st, a.2 = .ok st → st.signature = acc' := by
  induction h with
  | nil => exact ⟨fun _ => rfl, by simp⟩
  | @cons id st rest acc acc1 acc' hstatus hst hrest ih =>
    obtain ⟨hfirst, hrest⟩ := List.forall_mem_cons.mp hne
    obtain ⟨hacc, hall⟩ := ih hrest
    simp only [signPoll] at hst
    split at hst
    · cases hst
    next hcompare =>
    cases hst
    have hst' : st.signature = acc' := hacc (hfirst st rfl)
    refine ⟨fun hacc0 => ?_, List.forall_mem_cons.mpr ⟨?_, hall⟩⟩
    · rw [← hst']
      by_contra hdiffer
      exact hcompare ⟨hacc0, hdiffer⟩
    · rintro st' ⟨⟩
      exact hst'

theorem signingAgrees_iff {reports : List (Int × Except String SignStatus)} {signature : String}
    (h : Completes signPoll reports "" signature) (hne : reports ≠ []) :
    SigningAgrees reports signature ↔ NonemptySignatures reports := by
  constructor
  · rintro ⟨hsig, hagrees⟩ a ha st hst
    obtain ⟨st', hst', -, rfl⟩ := hagrees a ha
    cases hst'.symm.trans hst
    exact hsig
  · intro hnonempty
    obtain ⟨-, hall⟩ := h.signatures hnonempty
    refine ⟨?_, fun a ha => ?_⟩
    · obtain ⟨a, ha⟩ := List.exists_mem_of_ne_nil reports hne
      obtain ⟨st, hst, -⟩ := h.completed a ha
      rw [← hall a ha st hst]
      exact hnonempty a ha st hst
    · obtain ⟨st, hst, hstatus⟩ := h.completed a ha
      exact ⟨st, hst, hstatus, hall a ha st hst⟩

/-! ## The activities -/

theorem executeRealDKG_completed {net : Network KeygenStart KeygenStatus} {req : DKGCeremonyRequest}
    {n : Nat} {r : DKGCeremonyResult} (h : executeRealDKG net req (n + 1) = some (.ok r))
    (hlast : executeRealDKG net req n = none) (hr : r.status = "completed") :
    keygenReports net req n ≠ [] ∧ ∃ round : KeygenRound,
      Completes keygenPoll (keygenReports net req n) ⟨"", "", 0⟩ round ∧
        r.thresholdPubKey = round.pubKey ∧ r.thresholdAddress = round.address := by
  unfold executeRealDKG at h hlast
  split at hlast
  · cases hlast
  next hlength =>
  rw [if_neg hlength] at h
  split at hlast
  · cases hlast
  next hparties =>
  rw [if_neg hparties] at h
  split at hlast
  · cases hlast
  next auth authSig hauth =>
  rw [hauth] at h
  simp only at h hlast
  split at hlast
  · cases hlast
  next hstart =>
  rw [hstart] at h
  simp only [Option.map_eq_some_iff, Option.map_eq_none_iff] at h hlast
  obtain ⟨result, hloop, hresult⟩ := h
  refine ⟨?_, ?_⟩
  · intro hnil
    exact hparties (by simpa [keygenReports] using congrArg List.length hnil)
  · rcases result with fault | failed | round
    · cases hresult
    · cases hresult
      exact absurd hr (by simp [failedCeremony])
    · cases hresult
      have hround := pollRound_of_pollLoop hloop hlast
      rw [Nat.zero_add] at hround
      exact ⟨round, hround, rfl, rfl⟩

theorem executeRealSigning_completed {net : Network SignStart SignStatus}
    {req : ThresholdSigningRequest} {n : Nat} {r : ThresholdSigningResult}
    (h : executeRealSigning net req (n + 1) = some (.ok r))
    (hlast : executeRealSigning net req n = none) (hr : r.status = "completed") :
    signReports net req (req.signID net) n ≠ [] ∧
      Completes signPoll (signReports net req (req.signID net) n) "" r.signature := by
  unfold executeRealSigning at h hlast
  split at hlast
  · cases hlast
  next hlength =>
  rw [if_neg hlength] at h
  split at hlast
  · cases hlast
  next hparties =>
  rw [if_neg hparties] at h
  split at hlast
  · cases hlast
  next message hmessage =>
  have hsignID : req.signID net = signIDOf net.sha256 req.ceremonyID message := by
    rw [ThresholdSigningRequest.signID, hmessage]
    rfl
  rw [hmessage] at h
  simp only [← hsignID] at h hlast
  split at hlast
  · cases hlast
  next hsize =>
  rw [if_neg hsize] at h
  split at hlast
  · cases hlast
  next auth authSig hauth =>
  rw [hauth] at h
  simp only at h
  split at hlast
  · cases hlast
  next hstart =>
  rw [hstart] at h
  simp only [Option.map_eq_some_iff, Option.map_eq_none_iff] at h hlast
  obtain ⟨result, hloop, hresult⟩ := h
  refine ⟨?_, ?_⟩
  · intro hnil
    exact hparties (by simpa [signReports] using congrArg List.length hnil)
  · rcases result with fault | failed | signature
    · cases hresult
    · cases hresult
      exact absurd hr (by simp [failedSigning])
    · cases hresult
      have hround := pollRound_of_pollLoop hloop hlast
      rwa [Nat.zero_add] at hround

/--
**What a ceremony reports is what every party reported, exactly if**

* for key generation, no two parties report different keys or addresses in the round it ends with,
* for signing, nobody reports an empty signature in that round.
-/
theorem ceremony_agreement_iff (n : Nat) :
    (∀ (net : Network KeygenStart KeygenStatus) (req : DKGCeremonyRequest) (r : DKGCeremonyResult),
      executeRealDKG net req (n + 1) = some (.ok r) → executeRealDKG net req n = none →
      r.status = "completed" →
      (KeygenAgrees (keygenReports net req n) r.thresholdPubKey r.thresholdAddress ↔
        SameKey (keygenReports net req n))) ∧
    (∀ (net : Network SignStart SignStatus) (req : ThresholdSigningRequest)
        (r : ThresholdSigningResult),
      executeRealSigning net req (n + 1) = some (.ok r) → executeRealSigning net req n = none →
      r.status = "completed" →
      (SigningAgrees (signReports net req (req.signID net) n) r.signature ↔
        NonemptySignatures (signReports net req (req.signID net) n))) := by
  refine ⟨?_, ?_⟩
  · intro net req r h hlast hr
    obtain ⟨hne, round, hround, hkey, haddress⟩ := executeRealDKG_completed h hlast hr
    rw [hkey, haddress]
    exact keygenAgrees_iff hround hne
  · intro net req r h hlast hr
    obtain ⟨hne, hround⟩ := executeRealSigning_completed h hlast hr
    exact signingAgrees_iff hround hne

/-! ## Two parties -/

/-- Everything is accepted, and each party reports what is given for it. -/
def reporting {β σ : Type} (report : Nat → σ) : Network β σ where
  authorize _ _ _ := .ok ("", "")
  start _ _ _ := .ok ()
  status _ i _ := .ok (report i)
  done _ := none
  sha256 _ := List.replicate 32 0

def twoParties : DKGCeremonyRequest where
  ceremonyID := "c"
  chainID := "ethereum"
  k := 1
  partyIDs := [1, 2]
  partyEndpoints := ["http://party-1", "http://party-2"]

def committeeOfTwo : ThresholdSigningRequest where
  ceremonyID := "c"
  message := "00"
  partyIDs := [1, 2]
  partyEndpoints := ["http://party-1", "http://party-2"]

def oneKey : Network KeygenStart KeygenStatus := reporting fun _ => ⟨"completed", "", "k", "a", true⟩

def oneSignature : Network SignStart SignStatus := reporting fun _ => ⟨"completed", "", "s"⟩

theorem ceremony_agreement_iff_oneKey :
    executeRealDKG oneKey twoParties 1 = some (.ok ⟨"c", "completed", "a", "k", ""⟩) ∧
      KeygenAgrees (keygenReports oneKey twoParties 0) "k" "a" ∧
      executeRealSigning oneSignature committeeOfTwo 1 = some (.ok ⟨"s", "completed", ""⟩) ∧
      SigningAgrees (signReports oneSignature committeeOfTwo (committeeOfTwo.signID oneSignature) 0)
        "s" := by
  have hkey : executeRealDKG oneKey twoParties 1 = some (.ok ⟨"c", "completed", "a", "k", ""⟩) :=
    rfl
  have hsignature :
      executeRealSigning oneSignature committeeOfTwo 1 = some (.ok ⟨"s", "completed", ""⟩) := rfl
  refine ⟨hkey, ((ceremony_agreement_iff 0).1 oneKey twoParties _ hkey rfl rfl).mpr ?_, hsignature,
    ((ceremony_agreement_iff 0).2 oneSignature committeeOfTwo _ hsignature rfl rfl).mpr ?_⟩
  · have hsame : ∀ a ∈ keygenReports oneKey twoParties 0,
        a.2 = .ok ⟨"completed", "", "k", "a", true⟩ := by
      simp [keygenReports, twoParties, oneKey, reporting]
    intro a ha b hb st st' hst hst'
    cases (hsame a ha).symm.trans hst
    cases (hsame b hb).symm.trans hst'
    exact ⟨rfl, rfl⟩
  · intro a ha st hst
    have hsame : a.2 = .ok ⟨"completed", "", "s"⟩ := by
      simp only [signReports, committeeOfTwo, List.mapIdx_cons, List.mapIdx_nil, List.mem_cons,
        List.not_mem_nil, or_false] at ha
      rcases ha with rfl | rfl <;> rfl
    cases hsame.symm.trans hst
    decide

def twoKeys : Network KeygenStart KeygenStatus :=
  reporting fun i => if i = 0 then ⟨"completed", "", "k1", "a1", true⟩
    else ⟨"completed", "", "k2", "a2", true⟩

def emptySignature : Network SignStart SignStatus :=
  reporting fun i => if i = 0 then ⟨"completed", "", ""⟩ else ⟨"completed", "", "s"⟩

/-- The last party alone decides. -/
theorem ceremony_not_agreed :
    executeRealDKG twoKeys twoParties 1 = some (.ok ⟨"c", "completed", "a2", "k2", ""⟩) ∧
      ¬KeygenAgrees (keygenReports twoKeys twoParties 0) "k2" "a2" ∧
      executeRealSigning emptySignature committeeOfTwo 1 = some (.ok ⟨"s", "completed", ""⟩) ∧
      ¬SigningAgrees
        (signReports emptySignature committeeOfTwo (committeeOfTwo.signID emptySignature) 0) "s" := by
  refine ⟨rfl, ?_, rfl, ?_⟩
  · intro h
    obtain ⟨st, hst, -, hkey, -⟩ := h _ List.mem_cons_self
    cases hst
    exact absurd hkey (by decide)
  · rintro ⟨-, h⟩
    obtain ⟨st, hst, -, hsig⟩ := h _ List.mem_cons_self
    cases hst
    exact absurd hsig (by decide)

end OpenFireblocks.Worker
