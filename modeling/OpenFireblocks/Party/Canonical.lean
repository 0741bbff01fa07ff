import OpenFireblocks.Go.Json
import OpenFireblocks.Party.Binding
import Mathlib.Algebra.Order.BigOperators.Group.List

/-!
# What a signed authorisation says

The authorising key signs the fields of a request joined by newlines. The worker joins them before
it asks for the signature (`ceremony_authorization.go`), and the party joins them again to verify
it (`authorizer.go`).
-/

namespace OpenFireblocks.Party

open Go Outcome BigEndian

variable {S : Type}

/-! ## Joined lists -/

section Joined

variable {α : Type} [DecidableEq α] {x : α} {ls ls' : List (List α)}

theorem count_intercalate (hne : ls ≠ []) :
    ([x].intercalate ls).count x + 1 = ls.length + (ls.map (List.count x)).sum := by
  induction ls with
  | nil => exact absurd rfl hne
  | cons l ls ih =>
    cases ls with
    | nil => simp [Nat.add_comm]
    | cons =>
      have ih := ih (List.cons_ne_nil _ _)
      rw [List.intercalate_cons_cons, List.count_append, List.count_append, List.count_singleton_self,
        List.length_cons, List.map_cons, List.sum_cons]
      omega

/-- A list that is joined from parts without the separator is joined from these parts only. -/
theorem eq_of_intercalate_eq (hlen : ls'.length = ls.length) (hfree : ∀ l ∈ ls, x ∉ l)
    (h : [x].intercalate ls' = [x].intercalate ls) : ls' = ls := by
  by_cases hne : ls = []
  · subst hne
    exact List.length_eq_zero_iff.mp hlen
  have hne' : ls' ≠ [] := by
    rintro rfl
    exact hne (List.length_eq_zero_iff.mp hlen.symm)
  -- the text has as many separators as it has gaps, so the other parts have none either
  have hfree' : ∀ l ∈ ls', x ∉ l := by
    have hcount := count_intercalate (x := x) hne
    have hcount' := count_intercalate (x := x) hne'
    have hzero : (ls.map (List.count x)).sum = 0 := by
      rw [List.sum_eq_zero_iff]
      intro k hk
      obtain ⟨l, hl, rfl⟩ := List.mem_map.mp hk
      exact List.count_eq_zero.mpr (hfree l hl)
    have hzero' : (ls'.map (List.count x)).sum = 0 := by
      rw [h] at hcount'
      omega
    intro l hl
    exact List.count_eq_zero.mp (List.sum_eq_zero_iff.mp hzero' _ (List.mem_map_of_mem hl))
  rw [← List.splitOn_intercalate x hfree hne, ← List.splitOn_intercalate x hfree' hne', h]

end Joined

/-! ## The canonical bytes -/

/-- `canonicalAuthorizationBytes`, the worker's encoder. -/
def canonicalAuthorizationBytes (r : AuthorizationRequest) : Bytes :=
  ("\n".intercalate ["openfireblocks-authorization-v1", r.operation, r.ceremonyID, r.messageHash,
    toString r.issuedAt]).toUTF8.data.toList

/-- The text has a line for itself in the canonical bytes. -/
def OneLine (s : String) : Prop := '\n' ∉ s.toList

instance (s : String) : Decidable (OneLine s) := inferInstanceAs (Decidable ('\n' ∉ s.toList))

theorem isDigit_of_mem_repr {n : Nat} {c : Char} (h : c ∈ n.repr.toList) : c.isDigit := by
  rw [Nat.toList_repr] at h
  exact Nat.isDigit_of_mem_toDigits (by decide) (by decide) h

/-- A whole number as `%d` prints it. -/
theorem toList_toString_int (t : Int) :
    (toString t).toList = (if t < 0 then ['-'] else []) ++ t.natAbs.repr.toList := by
  rw [Int.toString_eq_repr]
  cases t with
  | ofNat n => rw [if_neg (by simp)]; rfl
  | negSucc n =>
    rw [Int.repr, if_pos (Int.negSucc_lt_zero n), String.toList_append]
    rfl

theorem oneLine_toString (t : Int) : OneLine (toString t) := by
  rw [OneLine, toList_toString_int, List.mem_append]
  rintro (hmem | hmem)
  · split at hmem
    · exact absurd hmem (by decide)
    · exact absurd hmem (List.not_mem_nil)
  · exact absurd (isDigit_of_mem_repr hmem) (by decide)

theorem repr_inj {n n' : Nat} (h : n.repr.toList = n'.repr.toList) : n = n' := by
  rw [Nat.toList_repr, Nat.toList_repr] at h
  rw [← Nat.ofDigitChars_toDigits (b := 10) (n := n) (by decide) (by decide), h,
    Nat.ofDigitChars_toDigits (by decide) (by decide)]

theorem toString_int_inj {t t' : Int} (h : toString t = toString t') : t = t' := by
  have hlist := congrArg String.toList h
  rw [toList_toString_int, toList_toString_int] at hlist
  -- a sign is not a digit
  have hsign : ∀ n n' : Nat, ['-'] ++ n.repr.toList ≠ n'.repr.toList := by
    intro n n' heq
    have hmem : '-' ∈ n'.repr.toList := heq ▸ List.mem_cons_self
    exact absurd (isDigit_of_mem_repr hmem) (by decide)
  by_cases hneg : t < 0 <;> by_cases hneg' : t' < 0
  · rw [if_pos hneg, if_pos hneg'] at hlist
    have := repr_inj (List.append_cancel_left hlist)
    omega
  · rw [if_pos hneg, if_neg hneg'] at hlist
    exact absurd hlist (hsign _ _)
  · rw [if_neg hneg, if_pos hneg'] at hlist
    exact absurd hlist.symm (hsign _ _)
  · rw [if_neg hneg, if_neg hneg'] at hlist
    have := repr_inj (List.append_cancel_left hlist)
    omega

namespace AuthorizationRequest

variable {r r' : AuthorizationRequest}

/-- The lines of the canonical bytes, if the fields have none of their own. -/
def lines (r : AuthorizationRequest) : List (List Char) :=
  ["openfireblocks-authorization-v1".toList, r.operation.toList, r.ceremonyID.toList,
    r.messageHash.toList, (toString r.issuedAt).toList]

/-- No field that is a text contains a newline. -/
def OneLiner (r : AuthorizationRequest) : Prop :=
  OneLine r.operation ∧ OneLine r.ceremonyID ∧ OneLine r.messageHash

theorem canonical_eq_iff :
    r'.canonical = r.canonical ↔ ['\n'].intercalate r'.lines = ['\n'].intercalate r.lines := by
  unfold canonical lines
  rw [Array.toList_inj, ← ByteArray.ext_iff, String.toUTF8_eq_toByteArray,
    String.toUTF8_eq_toByteArray, String.toByteArray_inj, ← String.toList_inj,
    String.toList_intercalate, String.toList_intercalate]
  rfl

theorem lines_inj (h : r'.lines = r.lines) : r' = r := by
  simp only [lines, List.cons.injEq, true_and, and_true, String.toList_inj] at h
  obtain ⟨hop, hid, hhash, htime⟩ := h
  rw [AuthorizationRequest.mk.injEq]
  exact ⟨hop, hid, hhash, toString_int_inj htime⟩

theorem OneLiner.notMem_lines (h : r.OneLiner) : ∀ l ∈ r.lines, '\n' ∉ l := by
  obtain ⟨hop, hid, hhash⟩ := h
  intro l hl
  simp only [lines, List.mem_cons, List.not_mem_nil, or_false] at hl
  rcases hl with rfl | rfl | rfl | rfl | rfl
  · decide
  · exact hop
  · exact hid
  · exact hhash
  · exact oneLine_toString _

/-- The bytes of a request without newlines are the bytes of no other. -/
theorem OneLiner.eq_of_canonical_eq (h : r.OneLiner) (heq : r'.canonical = r.canonical) : r' = r :=
  lines_inj (eq_of_intercalate_eq rfl h.notMem_lines (canonical_eq_iff.mp heq))

theorem exists_split {s : String} (h : ¬ OneLine s) : ∃ a b : String, s = a ++ "\n" ++ b := by
  obtain ⟨a, b, hab⟩ := List.append_of_mem (not_not.mp h)
  refine ⟨.ofList a, .ofList b, ?_⟩
  rw [← String.toList_inj, hab]
  simp

theorem exists_of_not_oneLiner (h : ¬ r.OneLiner) :
    ∃ r' : AuthorizationRequest, r'.canonical = r.canonical ∧ r'.operation ≠ r.operation := by
  have hlonger : ∀ a b : String, a ≠ a ++ "\n" ++ b := by
    intro a b hab
    have := congrArg String.length hab
    simp only [String.length_append] at this
    have : "\n".length = 1 := rfl
    omega
  by_cases hop : OneLine r.operation
  · by_cases hid : OneLine r.ceremonyID
    · have hhash : ¬ OneLine r.messageHash := fun hhash => h ⟨hop, hid, hhash⟩
      obtain ⟨a, b, hab⟩ := exists_split hhash
      refine ⟨⟨r.operation ++ "\n" ++ r.ceremonyID, a, b, r.issuedAt⟩, ?_, (hlonger _ _).symm⟩
      rw [canonical_eq_iff]
      simp [lines, hab]
    · obtain ⟨a, b, hab⟩ := exists_split hid
      refine ⟨⟨r.operation ++ "\n" ++ a, b, r.messageHash, r.issuedAt⟩, ?_, (hlonger _ _).symm⟩
      rw [canonical_eq_iff]
      simp [lines, hab]
  · obtain ⟨a, b, hab⟩ := exists_split hop
    refine ⟨⟨a, b, r.ceremonyID ++ "\n" ++ r.messageHash, r.issuedAt⟩, ?_, ?_⟩
    · rw [canonical_eq_iff]
      simp [lines, hab]
    · rw [hab]
      exact hlonger a b

/-- **The canonical bytes determine a request** exactly if no field of it contains a newline. -/
theorem canonical_determines_iff :
    (∀ r' : AuthorizationRequest, r'.canonical = r.canonical → r' = r) ↔ r.OneLiner := by
  constructor
  · intro h
    by_contra hnot
    obtain ⟨r', heq, hop⟩ := exists_of_not_oneLiner hnot
    exact hop (congrArg operation (h r' heq))
  · intro h r' heq
    exact h.eq_of_canonical_eq heq

end AuthorizationRequest

/-! ## As JSON -/

namespace AuthorizationRequest

variable (r : AuthorizationRequest) (v : Json)

/-- `MarshalAuthorization`. An empty message hash is left out. -/
def json : Json :=
  .obj ([("operation".toList, .str r.operation.toList),
      ("ceremony_id".toList, .str r.ceremonyID.toList)] ++
    (if r.messageHash = "" then [] else [("message_hash".toList, .str r.messageHash.toList)]) ++
    [("issued_at".toList, .num (jsonInt r.issuedAt))])

def setMember (m : List Char × Json) : Option AuthorizationRequest :=
  if isField "operation" m.1 then (setString r.operation m.2).map fun s => { r with operation := s }
  else if isField "ceremony_id" m.1 then
    (setString r.ceremonyID m.2).map fun s => { r with ceremonyID := s }
  else if isField "message_hash" m.1 then
    (setString r.messageHash m.2).map fun s => { r with messageHash := s }
  else if isField "issued_at" m.1 then
    (setInt64 r.issuedAt m.2).map fun n => { r with issuedAt := n }
  else some r

def ofJson : Json → Option AuthorizationRequest
  | .obj members => members.foldlM setMember ⟨"", "", "", 0⟩
  | .null => some ⟨"", "", "", 0⟩
  | _ => none

/-- The text that an orchestrator sends next to the signature. -/
def text : String := .ofList (Json.text Json.compact 0 r.json)

theorem setMember_operation : r.setMember ("operation".toList, v)
    = (setString r.operation v).map fun s => { r with operation := s } :=
  if_pos (show isField "operation" "operation".toList = true by decide)

theorem setMember_ceremonyID : r.setMember ("ceremony_id".toList, v)
    = (setString r.ceremonyID v).map fun s => { r with ceremonyID := s } :=
  (if_neg (show ¬ isField "operation" "ceremony_id".toList = true by decide)).trans
    (if_pos (show isField "ceremony_id" "ceremony_id".toList = true by decide))

theorem setMember_messageHash : r.setMember ("message_hash".toList, v)
    = (setString r.messageHash v).map fun s => { r with messageHash := s } :=
  (if_neg (show ¬ isField "operation" "message_hash".toList = true by decide)).trans <|
    (if_neg (show ¬ isField "ceremony_id" "message_hash".toList = true by decide)).trans
      (if_pos (show isField "message_hash" "message_hash".toList = true by decide))

theorem setMember_issuedAt : r.setMember ("issued_at".toList, v)
    = (setInt64 r.issuedAt v).map fun n => { r with issuedAt := n } :=
  (if_neg (show ¬ isField "operation" "issued_at".toList = true by decide)).trans <|
    (if_neg (show ¬ isField "ceremony_id" "issued_at".toList = true by decide)).trans <|
      (if_neg (show ¬ isField "message_hash" "issued_at".toList = true by decide)).trans
        (if_pos (show isField "issued_at" "issued_at".toList = true by decide))

variable {r}

theorem ofJson_json (h : InInt64 r.issuedAt) : ofJson r.json = some r := by
  obtain ⟨op, id, hash, t⟩ := r
  rw [json, ofJson]
  by_cases hhash : hash = ""
  · subst hhash
    simp only [if_true, List.cons_append, List.nil_append, List.foldlM_cons,
      List.foldlM_nil, setMember_operation, setMember_ceremonyID, setMember_issuedAt, setString_str,
      setInt64_num h, Option.map_some, Option.bind_eq_bind, Option.bind_some, Option.pure_def]
  · simp only [if_neg hhash, List.cons_append, List.nil_append, List.foldlM_cons,
      List.foldlM_nil, setMember_operation, setMember_ceremonyID, setMember_messageHash,
      setMember_issuedAt, setString_str, setInt64_num h, Option.map_some, Option.bind_eq_bind,
      Option.bind_some, Option.pure_def]

end AuthorizationRequest

/-- `json.Unmarshal` into an `AuthorizationRequest`, with the text of its error left out. -/
def unmarshalAuthorization (authJSON : String) : Result AuthorizationRequest :=
  match (jsonOf (utf8Bytes authJSON.toList)).bind AuthorizationRequest.ofJson with
  | none => errorf ""
  | some r => .ok r

theorem unmarshalAuthorization_text {r : AuthorizationRequest} (h : InInt64 r.issuedAt) :
    unmarshalAuthorization r.text = .ok r := by
  rw [unmarshalAuthorization, jsonOf, runes_utf8Bytes, AuthorizationRequest.text,
    String.toList_ofList, Json.parse_text Json.compact_blank, Option.bind_some,
    AuthorizationRequest.ofJson_json h]

theorem AuthorizationRequest.text_ne_empty (r : AuthorizationRequest) : r.text ≠ "" := by
  rw [text, ne_eq, ← String.toList_inj, String.toList_ofList]
  obtain ⟨c, s, hcs, -⟩ := Json.text_eq_cons Json.compact 0 r.json
  exact List.cons_ne_nil _ _

/-! ## Accepted authorisations -/

/-- The configured key verifies the signature of the message. -/
def Authorizer.accepts (a : Authorizer) (sha256 : Bytes → Bytes) (message sig : Bytes) : Bool :=
  match a.algorithm with
  | .ed25519 => a.ed25519 message sig
  | .p256 => a.p256 (sha256 message) sig
  | .other _ => false

/-- The age that `Verify` lets pass, in nanoseconds. -/
def Authorizer.InTime (a : Authorizer) (age : Int) : Prop := -30000000000 ≤ age ∧ age ≤ a.maxAge

section

variable (ps : PartyServer S)

def PartyServer.withAuthorizer (a : Authorizer) : PartyServer S := { ps with authorizer := some a }

/-- The key has signed the canonical bytes of approved requests and nothing else, and signatures
cannot be forged. -/
def SignsOnly (a : Authorizer) (approved : AuthorizationRequest → Prop) : Prop :=
  ∀ message sig, a.accepts ps.sha256 message sig = true →
    ∃ r, approved r ∧ message = canonicalAuthorizationBytes r

def Issued (a : Authorizer) (approved : AuthorizationRequest → Prop)
    (op ceremonyID messageHash : String) : Prop :=
  ∃ r, approved r ∧ r.operation = op ∧ r.ceremonyID = ceremonyID ∧
    (if messageHash = "" then r.messageHash = ""
      else ps.config.equalFold r.messageHash messageHash = true) ∧
    a.InTime (ps.since r.issuedAt)

/-- Whatever key is configured and whatever has been approved: what the party accepts was issued. -/
def OnlyIssued (op ceremonyID messageHash : String) : Prop :=
  ∀ a approved authJSON signature, SignsOnly ps a approved →
    requireAuthorization (ps.withAuthorizer a) op ceremonyID messageHash authJSON signature = .ok () →
    Issued ps a approved op ceremonyID messageHash

variable {ps}

/-- What `Verify` checks. -/
theorem verify_eq_ok {a : Authorizer} {req : AuthorizationRequest} {signatureHex : String} :
    a.verify ps req signatureHex = .ok () ↔
      req.operation ≠ "" ∧ req.ceremonyID ≠ "" ∧ a.InTime (ps.since req.issuedAt) ∧
        ∃ sig, hexDecodeString (trim0x signatureHex) = some sig ∧
          a.accepts ps.sha256 req.canonical sig := by
  unfold Authorizer.verify Authorizer.accepts Authorizer.InTime
  constructor
  · intro h
    simp only [ite_errorf_eq_ok, not_or] at h
    obtain ⟨hnames, hearly, hold, h⟩ := h
    refine ⟨hnames.1, hnames.2, ⟨by omega, by omega⟩, ?_⟩
    split at h
    · simp at h
    next sig hsig =>
    refine ⟨sig, hsig, ?_⟩
    cases halg : a.algorithm with
    | ed25519 | p256 => simpa [halg] using h
    | other name => simp [halg] at h
  · rintro ⟨hop, hid, ⟨hearly, hold⟩, sig, hsig, haccepts⟩
    rw [if_neg (by simp [hop, hid])]
    rw [if_neg (by omega), if_neg (by omega), hsig]
    cases halg : a.algorithm with
    | ed25519 | p256 => simpa [halg] using haccepts
    | other name => simp [halg] at haccepts

/-- What the party takes from the standard library does what it is documented to do. -/
structure PartyServer.Standard (ps : PartyServer S) : Prop where
  unmarshal_eq : ∀ {text r}, unmarshalAuthorization text = .ok r → ps.unmarshal text = .ok r
  equalFold_self : ∀ s, ps.config.equalFold s s = true
  /-- A newline is a case of no other character. -/
  equalFold_oneLine : ∀ {s t}, ps.config.equalFold s t = true → (OneLine s ↔ OneLine t)
  /-- Some time is not long ago: the present one. -/
  now : ∃ t, InInt64 t ∧ -30000000000 ≤ ps.since t ∧ ps.since t ≤ 300000000000

/-- A key that has signed one request, with one signature that verifies. -/
def signerOf (r : AuthorizationRequest) : Authorizer where
  algorithm := .ed25519
  ed25519 message _ := message = r.canonical
  p256 _ _ := false
  maxAge := 300000000000

theorem signsOnly_signerOf (r : AuthorizationRequest) : SignsOnly ps (signerOf r) (· = r) := by
  intro message sig h
  exact ⟨r, rfl, of_decide_eq_true h⟩

variable {messageHash : String}

theorem requireAuthorization_signerOf (hps : ps.Standard) {approved r : AuthorizationRequest}
    (heq : approved.canonical = r.canonical) (ht : InInt64 r.issuedAt)
    (htime : (signerOf approved).InTime (ps.since r.issuedAt)) (hop : r.operation ≠ "")
    (hid : r.ceremonyID ≠ "") (hhash : messageHash ≠ "" → r.messageHash = messageHash) :
    requireAuthorization (ps.withAuthorizer (signerOf approved)) r.operation r.ceremonyID messageHash
      r.text "00" = .ok () := by
  rw [requireAuthorization_eq_ok rfl]
  refine ⟨r.text_ne_empty, by decide, r, ?_, rfl, rfl, ?_, ?_⟩
  · exact hps.unmarshal_eq (unmarshalAuthorization_text ht)
  · intro hne
    rw [hhash hne]
    exact hps.equalFold_self messageHash
  · refine verify_eq_ok.mpr ⟨hop, hid, htime, [0], rfl, ?_⟩
    exact decide_eq_true heq.symm

/-- **When an accepted authorisation was issued for the request at hand.** -/
theorem onlyIssued_iff (hps : ps.Standard) {op ceremonyID : String} :
    OnlyIssued ps op ceremonyID messageHash ↔
      op = "" ∨ ceremonyID = "" ∨
        messageHash ≠ "" ∧ OneLine op ∧ OneLine ceremonyID ∧ OneLine messageHash := by
  constructor
  · intro h
    by_contra hnot
    rw [not_or, not_or] at hnot
    obtain ⟨hop, hid, hnot⟩ := hnot
    obtain ⟨t, ht, hearly, hold⟩ := hps.now
    by_cases hhash : messageHash = ""
    · -- an approved request with a message is accepted where there is none
      subst hhash
      obtain ⟨r, rfl, -, -, hempty, -⟩ := h (signerOf ⟨op, ceremonyID, "00", t⟩) _ _ _
        (signsOnly_signerOf _) (requireAuthorization_signerOf hps
          (r := ⟨op, ceremonyID, "00", t⟩) rfl ht ⟨hearly, hold⟩ hop hid (fun hne => absurd rfl hne))
      exact absurd (show "00" = "" from hempty) (by decide)
    · -- an approved request with the same bytes is for another operation
      have hlines : ¬ (⟨op, ceremonyID, messageHash, t⟩ : AuthorizationRequest).OneLiner :=
        fun hlines => hnot ⟨hhash, hlines⟩
      obtain ⟨r', heq, hother⟩ := AuthorizationRequest.exists_of_not_oneLiner hlines
      obtain ⟨r, rfl, hop', -⟩ := h (signerOf r') _ _ _ (signsOnly_signerOf _)
        (requireAuthorization_signerOf hps heq ht ⟨hearly, hold⟩ hop hid fun _ => rfl)
      exact hother hop'
  · intro h a approved authJSON signature hsigns haccepted
    obtain ⟨-, -, req, -, rfl, rfl, hmessage, hverify⟩ :=
      (requireAuthorization_eq_ok rfl).mp haccepted
    obtain ⟨hop, hid, htime, _, -, haccepts⟩ := verify_eq_ok.mp hverify
    obtain ⟨r, happroved, hbytes⟩ := hsigns _ _ haccepts
    obtain ⟨hne, hoplines, hidlines, hhashlines⟩ :=
      (h.resolve_left hop).resolve_left hid
    have hreq : req.OneLiner :=
      ⟨hoplines, hidlines, (hps.equalFold_oneLine (hmessage hne)).mpr hhashlines⟩
    obtain rfl := hreq.eq_of_canonical_eq hbytes.symm
    refine ⟨r, happroved, rfl, rfl, ?_, htime⟩
    rw [if_neg hne]
    exact hmessage hne

/--
**An accepted authorisation was issued for this request**, the canonical bytes belong to this request
only and both encoders write them, exactly if no field of the request contains a newline and it has a
message hash (or names no operation or no ceremony, and is never accepted).
-/
theorem accepted_issued_iff (hps : ps.Standard) (op ceremonyID messageHash : String) :
    (OnlyIssued ps op ceremonyID messageHash ∧
      (∀ t, ∀ r' : AuthorizationRequest,
        r'.canonical = AuthorizationRequest.canonical ⟨op, ceremonyID, messageHash, t⟩ →
        r' = ⟨op, ceremonyID, messageHash, t⟩) ∧
      ∀ r : AuthorizationRequest, canonicalAuthorizationBytes r = r.canonical) ↔
    OneLine op ∧ OneLine ceremonyID ∧ OneLine messageHash ∧
      (op = "" ∨ ceremonyID = "" ∨ messageHash ≠ "") := by
  rw [onlyIssued_iff hps]
  constructor
  · rintro ⟨hissued, hinj, -⟩
    obtain ⟨hop, hid, hhash⟩ := AuthorizationRequest.canonical_determines_iff.mp (hinj 0)
    exact ⟨hop, hid, hhash, hissued.imp_right (Or.imp_right And.left)⟩
  · rintro ⟨hop, hid, hhash, hne⟩
    refine ⟨hne.imp_right (Or.imp_right fun hne => ⟨hne, hop, hid, hhash⟩), ?_,
      fun _ => rfl⟩
    intro t
    exact AuthorizationRequest.canonical_determines_iff.mpr ⟨hop, hid, hhash⟩

end

/-! ## A small server with a clock -/

def lowerASCII (c : Char) : Char :=
  if 65 ≤ c.toNat ∧ c.toNat ≤ 90 then Char.ofNat (c.toNat + 32) else c

/-- `strings.EqualFold` of texts in ASCII. -/
def equalFoldASCII (s t : String) : Bool := s.toList.map lowerASCII = t.toList.map lowerASCII

/-- The clock shows 1700000000. -/
def sampleClockServer : PartyServer String :=
  { sampleServer with
    config := { sampleConfig true with equalFold := equalFoldASCII }
    unmarshal := unmarshalAuthorization
    since := fun t => (1700000000 - t) * 1000000000 }

theorem lowerASCII_eq_newline {c : Char} (h : lowerASCII c = '\n') : c = '\n' := by
  unfold lowerASCII at h
  split at h
  · next hupper =>
    have hletters : ∀ n < 91, 65 ≤ n → Char.ofNat (n + 32) ≠ '\n' := by decide
    exact absurd h (hletters _ (by omega) hupper.1)
  · exact h

theorem equalFoldASCII_oneLine {s t : String} (h : equalFoldASCII s t) :
    OneLine s ↔ OneLine t := by
  have hlower : ∀ s : String, '\n' ∈ s.toList ↔ '\n' ∈ s.toList.map lowerASCII := by
    intro s
    rw [List.mem_map]
    constructor
    · intro hmem
      exact ⟨'\n', hmem, rfl⟩
    · rintro ⟨c, hmem, hc⟩
      rwa [← lowerASCII_eq_newline hc]
  rw [OneLine, OneLine, hlower s, hlower t, of_decide_eq_true h]

theorem sampleClockServer_standard : sampleClockServer.Standard where
  unmarshal_eq := id
  equalFold_self s := decide_eq_true rfl
  equalFold_oneLine := equalFoldASCII_oneLine
  now := ⟨1700000000, by decide, by decide, by decide⟩

theorem accepted_issued_iff_sign :
    OnlyIssued sampleClockServer "sign" "s1" "00ff" ∧
      ¬ (OnlyIssued sampleClockServer "keygen" "c1" "" ∧
        (∀ t, ∀ r' : AuthorizationRequest,
          r'.canonical = AuthorizationRequest.canonical ⟨"keygen", "c1", "", t⟩ →
          r' = ⟨"keygen", "c1", "", t⟩) ∧
        ∀ r : AuthorizationRequest, canonicalAuthorizationBytes r = r.canonical) := by
  constructor
  · exact ((accepted_issued_iff sampleClockServer_standard "sign" "s1" "00ff").mpr (by decide)).1
  · rw [accepted_issued_iff sampleClockServer_standard]
    decide

/--
An authorisation to generate the key of ceremony `c1\nc2` is accepted for ceremony `c1`, as one with
the message hash `c2\n`. An authorisation with a message hash is accepted for a request without one.
-/
theorem accepted_not_issued :
    (requireAuthorization
        (sampleClockServer.withAuthorizer (signerOf ⟨"keygen", "c1\nc2", "", 1700000000⟩)) "keygen"
        "c1" "" (AuthorizationRequest.text ⟨"keygen", "c1", "c2\n", 1700000000⟩) "00" = .ok () ∧
      SignsOnly sampleClockServer (signerOf ⟨"keygen", "c1\nc2", "", 1700000000⟩)
        (· = ⟨"keygen", "c1\nc2", "", 1700000000⟩) ∧
      ¬ Issued sampleClockServer (signerOf ⟨"keygen", "c1\nc2", "", 1700000000⟩)
        (· = ⟨"keygen", "c1\nc2", "", 1700000000⟩) "keygen" "c1" "") ∧
    (requireAuthorization
        (sampleClockServer.withAuthorizer (signerOf ⟨"keygen", "c1", "00ff", 1700000000⟩)) "keygen"
        "c1" "" (AuthorizationRequest.text ⟨"keygen", "c1", "00ff", 1700000000⟩) "00" = .ok () ∧
      SignsOnly sampleClockServer (signerOf ⟨"keygen", "c1", "00ff", 1700000000⟩)
        (· = ⟨"keygen", "c1", "00ff", 1700000000⟩) ∧
      ¬ Issued sampleClockServer (signerOf ⟨"keygen", "c1", "00ff", 1700000000⟩)
        (· = ⟨"keygen", "c1", "00ff", 1700000000⟩) "keygen" "c1" "") ∧
    AuthorizationRequest.canonical ⟨"keygen", "c1\nc2", "", 1700000000⟩
      = AuthorizationRequest.canonical ⟨"keygen", "c1", "c2\n", 1700000000⟩ := by
  have hsame : AuthorizationRequest.canonical ⟨"keygen", "c1\nc2", "", 1700000000⟩
      = AuthorizationRequest.canonical ⟨"keygen", "c1", "c2\n", 1700000000⟩ := by
    rfl
  refine ⟨⟨?_, signsOnly_signerOf _, ?_⟩, ⟨?_, signsOnly_signerOf _, ?_⟩, hsame⟩
  · exact requireAuthorization_signerOf sampleClockServer_standard hsame (by decide)
      ⟨by decide, by decide⟩ (by decide) (by decide) fun hne => absurd rfl hne
  · rintro ⟨r, rfl, -, hid, -⟩
    exact absurd hid (by decide)
  · exact requireAuthorization_signerOf sampleClockServer_standard rfl (by decide)
      ⟨by decide, by decide⟩ (by decide) (by decide) fun hne => absurd rfl hne
  · rintro ⟨r, rfl, -, -, hhash, -⟩
    exact absurd hhash (by decide)

end OpenFireblocks.Party
