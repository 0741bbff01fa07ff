import OpenFireblocks.Party.Manager

/-!
# Ceremony authorisations

A party with an authorising key configured takes part in a ceremony only if the request comes with
a signature of that key (`authorizer.go`).

What `encoding/json`, `crypto`, `time` and `fmt` of the standard library compute enters as parameters.
-/

namespace OpenFireblocks.Party

open Go Outcome BigEndian

/-- `AuthorizerAlgorithm`: a string of which two values are known. -/
inductive AuthorizerAlgorithm where
  | ed25519
  | p256
  | other (name : String)

/-- `Authorizer`, with the configured key inside the two verifications. -/
structure Authorizer where
  algorithm : AuthorizerAlgorithm
  /-- `ed25519.Verify` of a message and a signature. -/
  ed25519 : Bytes → Bytes → Bool
  /-- `ecdsa.VerifyASN1` of a digest and a signature. -/
  p256 : Bytes → Bytes → Bool
  /-- In nanoseconds. -/
  maxAge : Int

structure AuthorizationRequest where
  operation : String
  ceremonyID : String
  messageHash : String
  /-- Seconds since 1970. -/
  issuedAt : Int

/-- `PartyServer`, and what its handlers take from the standard library. -/
structure PartyServer (S : Type) where
  config : Config S
  authorizer : Option Authorizer
  /-- `json.Unmarshal` into an `AuthorizationRequest`. -/
  unmarshal : String → Result AuthorizationRequest
  sha256 : Bytes → Bytes
  /-- `time.Since(time.Unix(sec, 0))`, in nanoseconds. -/
  since : Int → Int
  /-- `time.Duration.String`. -/
  duration : Int → String
  /-- `fmt.Sscanf` with the verb `%d` into an `int`. -/
  sscanf : String → Option Int64

variable {S : Type} (ps : PartyServer S)

namespace AuthorizationRequest

def canonical (r : AuthorizationRequest) : Bytes :=
  ("\n".intercalate ["openfireblocks-authorization-v1", r.operation, r.ceremonyID, r.messageHash,
    toString r.issuedAt]).toUTF8.data.toList

end AuthorizationRequest

/-- `strings.TrimPrefix(s, "0x")`. -/
def trim0x (s : String) : String :=
  match s.toList with
  | '0' :: 'x' :: rest => String.ofList rest
  | _ => s

/-- `d.Truncate(time.Second)`. -/
def truncateToSecond (d : Int) : Int := d - d.tmod 1000000000

/-- `Verify` of a configured authoriser. -/
def Authorizer.verify (a : Authorizer) (req : AuthorizationRequest) (signatureHex : String) :
    Result Unit :=
  if req.operation = "" ∨ req.ceremonyID = "" then
    errorf "an authorisation must name an operation and a ceremony"
  else
    let age := ps.since req.issuedAt
    if a.maxAge < age then
      errorf ("the authorisation is " ++ ps.duration (truncateToSecond age) ++
        " old; the limit is " ++ ps.duration a.maxAge)
    else if age < -30000000000 then
      errorf ("the authorisation is dated " ++ ps.duration (truncateToSecond (wrap64 (-age))) ++
        " in the future")
    else match hexDecodeString (trim0x signatureHex) with
      | none => errorf "the authorisation signature is not hex"
      | some sig =>
        let refused := errorf
          "the authorisation signature does not verify against the configured authorising key"
        match a.algorithm with
        | .ed25519 => if a.ed25519 req.canonical sig then .ok () else refused
        | .p256 => if a.p256 (ps.sha256 req.canonical) sig then .ok () else refused
        | .other name => errorf ("unknown authoriser algorithm " ++ ps.config.quote name)

def requireAuthorization (op ceremonyID messageHash authJSON signature : String) : Result Unit :=
  match ps.authorizer with
  | none => .ok ()
  | some a =>
    if authJSON = "" ∨ signature = "" then
      errorf ("this party requires an authorisation signature for every ceremony; " ++
        "none was supplied")
    else do
      let req ← wrapError "the authorisation is not readable: " (ps.unmarshal authJSON)
      if req.operation ≠ op then
        errorf ("the authorisation is for " ++ ps.config.quote req.operation ++ ", this is a " ++
          ps.config.quote op)
      else if req.ceremonyID ≠ ceremonyID then
        errorf ("the authorisation is for ceremony " ++ req.ceremonyID ++ ", this is " ++ ceremonyID)
      else if messageHash ≠ "" ∧ ps.config.equalFold req.messageHash messageHash = false then
        errorf "the authorisation is for a different message"
      else a.verify ps req signature

/-! ## What a success says -/

variable {ps}

/-- **What an authorisation is for.** It names the operation, the ceremony and, if the request has
one, the message; nothing else of the request is looked at. -/
theorem requireAuthorization_eq_ok {a : Authorizer} (ha : ps.authorizer = some a)
    {op ceremonyID messageHash authJSON signature : String} :
    requireAuthorization ps op ceremonyID messageHash authJSON signature = .ok () ↔
      authJSON ≠ "" ∧ signature ≠ "" ∧ ∃ req, ps.unmarshal authJSON = .ok req ∧
        req.operation = op ∧ req.ceremonyID = ceremonyID ∧
        (messageHash ≠ "" → ps.config.equalFold req.messageHash messageHash) ∧
        a.verify ps req signature = .ok () := by
  simp only [requireAuthorization, ha]
  simp only [ite_errorf_eq_ok, bind_eq_ok, wrapError_eq_ok, not_or, not_not, not_and,
    Bool.not_eq_false, and_assoc, ne_eq]

end OpenFireblocks.Party
