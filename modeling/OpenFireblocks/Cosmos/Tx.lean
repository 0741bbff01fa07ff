import OpenFireblocks.Go.Hex
import OpenFireblocks.Go.Json
import OpenFireblocks.Lib.Protowire

/-!
# Cosmos transactions, as `chains/cosmos_tx.go` builds them

A bank send in `SIGN_MODE_DIRECT`, encoded by hand: `PlanCosmosSend` makes the bytes that are hashed
and signed, `AssembleCosmosTx` the transaction with its signature. What is third-party enters as the
functions of a library: `protowire` as `Appends`, the curve as a `CosmosLib`.
-/

namespace OpenFireblocks.Cosmos

open BigEndian Go Outcome Protowire

/-- The order of secp256k1. -/
def curveOrder : Nat := 0xFFFFFFFFFFFFFFFFFFFFFFFFFFFFFFFEBAAEDCE6AF48A03BBFD25E8CD0364141

instance : NeZero curveOrder := ⟨by decide⟩

/-- The hash, and the functions of `btcec`. -/
structure CosmosLib where
  sha256 : Bytes → Bytes
  /-- `btcec.ParsePubKey`, and the compressed form of the key. -/
  parsePubKey : Bytes → Except String Bytes
  /-- `btcec.ModNScalar`. -/
  Scalar : Type
  /-- The scalar, and whether the bytes are out of range. -/
  setByteSlice : Bytes → Scalar × Bool
  isZero : Scalar → Bool
  isOverHalfOrder : Scalar → Bool
  negate : Scalar → Scalar
  bytes : Scalar → Bytes
  /-- An ECDSA signature `r`, `s` of a digest, by the key with this compressed form. -/
  verify : (r s : Scalar) → (digest pubKey : Bytes) → Bool
  bytes_length : ∀ x, (bytes x).length = 32
  setByteSlice_bytes : ∀ x, setByteSlice (bytes x) = (x, false)
  isOverHalfOrder_eq : ∀ x, isOverHalfOrder x = decide (curveOrder / 2 < toNat (bytes x))
  /-- A scalar above half the order and its negation add up to the order. -/
  negate_add : ∀ x, isOverHalfOrder x = true →
    toNat (bytes (negate x)) + toNat (bytes x) = curveOrder

/-! ## Encoding -/

def msgSendTypeURL : String := "/cosmos.bank.v1beta1.MsgSend"
def secp256k1PubKeyType : String := "/cosmos.crypto.secp256k1.PubKey"
def signModeDirect : UInt64 := 1

/-- `protowire.BytesType` and `protowire.VarintType`. -/
def bytesType : UInt8 := 2
def varintType : UInt8 := 0

section

variable [Appends]

def appendBytesField (b : Bytes) (num : UInt8) (v : Bytes) : Bytes :=
  Appends.appendBytes (Appends.appendTag b num bytesType) v

/-- A text that is empty is left out. -/
def appendStringField (b : Bytes) (num : UInt8) (s : String) : Bytes :=
  if s = "" then b else appendBytesField b num (utf8Bytes s.toList)

/-- A number that is zero is left out. -/
def appendVarintField (b : Bytes) (num : UInt8) (v : UInt64) : Bytes :=
  if v = 0 then b else Appends.appendVarint (Appends.appendTag b num varintType) v

def encodeCoin (denom amount : String) : Bytes :=
  appendStringField (appendStringField [] 1 denom) 2 amount

def encodeAny (typeURL : String) (value : Bytes) : Bytes :=
  appendBytesField (appendStringField [] 1 typeURL) 2 value

end

/-- A bank `MsgSend` of one denomination. -/
structure CosmosSend where
  chainID : String
  accountNumber : UInt64
  sequence : UInt64
  sender : String
  recipient : String
  denom : String
  amount : String
  feeDenom : String
  feeAmount : String
  gasLimit : UInt64
  memo : String
  pubKey : Bytes

/-- What a ceremony needs, and what `finalize` needs back. -/
structure CosmosSigningPlan where
  bodyBytesHex : String
  authInfoBytesHex : String
  chainID : String
  accountNumber : UInt64
  digestHex : String

def validateCosmosAmount (label v : String) : Result Unit :=
  let valid : Bool := match bigSetString v.toList with
    | some n => 0 < n && v.toList.dropWhile (· = '0') = v.toList
    | none => false
  if valid then .ok ()
  else errorf (label ++ " must be a positive base-10 integer without leading zeros, got \"" ++ v ++ "\"")

section

variable [Appends]

/-- `TxBody`, with one `MsgSend`. -/
def bodyBytes (s : CosmosSend) : Bytes :=
  let msg := appendStringField [] 1 s.sender
  let msg := appendStringField msg 2 s.recipient
  let msg := appendBytesField msg 3 (encodeCoin s.denom s.amount)
  let body := appendBytesField [] 1 (encodeAny msgSendTypeURL msg)
  appendStringField body 2 s.memo

/-- `AuthInfo`, for the key with this compressed form. -/
def authInfoBytes (s : CosmosSend) (pub : Bytes) : Bytes :=
  let pubAny := encodeAny secp256k1PubKeyType (appendBytesField [] 1 pub)
  let single := appendVarintField [] 1 signModeDirect
  let modeInfo := appendBytesField [] 1 single
  let signerInfo := appendBytesField [] 1 pubAny
  let signerInfo := appendBytesField signerInfo 2 modeInfo
  let signerInfo := appendVarintField signerInfo 3 s.sequence
  let fee := appendBytesField [] 1 (encodeCoin s.feeDenom s.feeAmount)
  let fee := appendVarintField fee 2 s.gasLimit
  let authInfo := appendBytesField [] 1 signerInfo
  appendBytesField authInfo 2 fee

/-- The bytes that `cosmosSignDocDigest` hashes. -/
def signDoc (body authInfo : Bytes) (chainID : String) (accountNumber : UInt64) : Bytes :=
  let doc := appendBytesField [] 1 body
  let doc := appendBytesField doc 2 authInfo
  let doc := appendStringField doc 3 chainID
  appendVarintField doc 4 accountNumber

variable (lib : CosmosLib)

def cosmosSignDocDigest (body authInfo : Bytes) (chainID : String) (accountNumber : UInt64) : Bytes :=
  lib.sha256 (signDoc body authInfo chainID accountNumber)

def planCosmosSend (s : CosmosSend) : Result CosmosSigningPlan :=
  if s.chainID = "" then errorf "chain_id is required"
  else if s.sender = "" ∨ s.recipient = "" ∨ s.denom = "" ∨ s.feeDenom = "" then
    errorf "from, to, denom and fee denom are required"
  else if s.sender = s.recipient then errorf "source and destination are the same account"
  else do
    validateCosmosAmount "amount" s.amount
    validateCosmosAmount "fee" s.feeAmount
    if s.gasLimit = 0 then errorf "gas limit is required"
    else
      match lib.parsePubKey s.pubKey with
      | .error err => errorf ("public key is not a secp256k1 key: " ++ err)
      | .ok pub =>
        let body := bodyBytes s
        let authInfo := authInfoBytes s pub
        return {
          bodyBytesHex := hexEncodeToString body
          authInfoBytesHex := hexEncodeToString authInfo
          chainID := s.chainID
          accountNumber := s.accountNumber
          digestHex := hexEncodeToString
            (cosmosSignDocDigest lib body authInfo s.chainID s.accountNumber) }

/-- A signed transaction: the `TxRaw` bytes, and their hash in upper case. -/
structure CosmosTx where
  raw : Bytes
  hash : String
deriving DecidableEq

/-- The smaller of a scalar and its negation. -/
def lowS (x : lib.Scalar) : lib.Scalar := if lib.isOverHalfOrder x then lib.negate x else x

/-- The transaction with its signature. -/
def txRaw (body authInfo signature : Bytes) : Bytes :=
  let raw := appendBytesField [] 1 body
  let raw := appendBytesField raw 2 authInfo
  appendBytesField raw 3 signature

/-- `strings.ToUpper` of hex. -/
def upperHex (b : Bytes) : String := String.ofList ((hexEncodeToString b).toList.map Char.toUpper)

def assembleCosmosTx (plan : CosmosSigningPlan) (r s pubKey : Bytes) : Result CosmosTx :=
  match hexDecodeString plan.bodyBytesHex with
  | none => errorf "body_bytes_hex: "
  | some body =>
    match hexDecodeString plan.authInfoBytesHex with
    | none => errorf "auth_info_bytes_hex: "
    | some authInfo =>
      if r.length ≠ 32 ∨ s.length ≠ 32 then
        errorf s!"r and s must each be 32 bytes, got {r.length} and {s.length}"
      else
        match lib.parsePubKey pubKey with
        | .error err => errorf ("public key is not a secp256k1 key: " ++ err)
        | .ok pub =>
          -- The digest is computed again, never taken from the plan.
          let digest := cosmosSignDocDigest lib body authInfo plan.chainID plan.accountNumber
          let (rs, outR) := lib.setByteSlice r
          let (ss, outS) := lib.setByteSlice s
          if outR || outS || lib.isZero rs || lib.isZero ss then errorf "r or s is out of range"
          else
            let ss := lowS lib ss
            if lib.verify rs ss digest pub then
              let raw := txRaw body authInfo (lib.bytes rs ++ lib.bytes ss)
              .ok { raw := raw, hash := upperHex (lib.sha256 raw) }
            else errorf "the signature does not verify against the transaction's signer key"

end

/-! ## What the bytes say -/

theorem utf8Bytes_inj {s t : String} (h : utf8Bytes s.toList = utf8Bytes t.toList) : s = t := by
  have hrunes := congrArg runes h
  rw [runes_utf8Bytes, runes_utf8Bytes] at hrunes
  exact String.toList_inj.mp hrunes

section

variable [Appends]

theorem appendBytesField_eq (b : Bytes) (num : UInt8) (v : Bytes) :
    appendBytesField b num v = b ++ appendBytesField [] num v := by
  unfold appendBytesField
  rw [Appends.appendBytes_eq, Appends.appendTag_eq, Appends.appendBytes_eq (Appends.appendTag [] _ _),
    List.append_assoc]

theorem appendStringField_eq (b : Bytes) (num : UInt8) (s : String) :
    appendStringField b num s = b ++ appendStringField [] num s := by
  unfold appendStringField
  split
  · rw [List.append_nil]
  · exact appendBytesField_eq b num _

theorem appendVarintField_eq (b : Bytes) (num : UInt8) (v : UInt64) :
    appendVarintField b num v = b ++ appendVarintField [] num v := by
  unfold appendVarintField
  split
  · rw [List.append_nil]
  · rw [Appends.appendVarint_eq, Appends.appendTag_eq,
      Appends.appendVarint_eq (Appends.appendTag [] _ _), List.append_assoc]

variable {num : UInt8} {v w pub : Bytes} {s : CosmosSend}

theorem readField_bytesField (num : UInt8) (v rest : Bytes) :
    readField (appendBytesField [] num v ++ rest) = some ((num.toNat, .bytes v), rest) :=
  Appends.readField_bytes num v rest

theorem readField_varintField (num : UInt8) {n : UInt64} (hn : n ≠ 0) (rest : Bytes) :
    readField (appendVarintField [] num n ++ rest) = some ((num.toNat, .varint n.toNat), rest) := by
  rw [appendVarintField, if_neg hn]
  exact Appends.readField_varint num n rest

theorem bytesField_append_inj {x y : Bytes}
    (h : appendBytesField [] num v ++ x = appendBytesField [] num w ++ y) : v = w ∧ x = y := by
  have hread := congrArg readField h
  rw [readField_bytesField, readField_bytesField] at hread
  simpa using hread

theorem bytesField_inj (h : appendBytesField [] num v = appendBytesField [] num w) : v = w :=
  (bytesField_append_inj (congrArg (· ++ []) h)).1

theorem appendBytesField_ne_nil (num : UInt8) (v : Bytes) : appendBytesField [] num v ≠ [] := by
  intro h
  have hread := readField_bytesField num v []
  rw [h] at hread
  cases hread

theorem appendVarintField_ne_nil (num : UInt8) {n : UInt64} (hn : n ≠ 0) :
    appendVarintField [] num n ≠ [] := by
  intro h
  have hread := readField_varintField num hn []
  rw [h] at hread
  cases hread

/-- A text that is not empty is always written. -/
theorem stringField_append_inj {s t : String} {x y : Bytes} (hs : s ≠ "") (ht : t ≠ "")
    (h : appendStringField [] num s ++ x = appendStringField [] num t ++ y) : s = t ∧ x = y := by
  rw [appendStringField, if_neg hs, appendStringField, if_neg ht] at h
  obtain ⟨htext, hrest⟩ := bytesField_append_inj h
  exact ⟨utf8Bytes_inj htext, hrest⟩

/-- The last text of a message is left out exactly if it is empty. -/
theorem stringField_inj {s t : String}
    (h : appendStringField [] num s = appendStringField [] num t) : s = t := by
  unfold appendStringField at h
  split at h <;> split at h
  · next hs ht => rw [hs, ht]
  · exact absurd h.symm (appendBytesField_ne_nil _ _)
  · exact absurd h (appendBytesField_ne_nil _ _)
  · exact utf8Bytes_inj (bytesField_inj h)

/-- The last number of a message is left out exactly if it is zero. -/
theorem varintField_inj {v w : UInt64}
    (h : appendVarintField [] num v = appendVarintField [] num w) : v = w := by
  have hnil : appendVarintField [] num 0 = [] := if_pos rfl
  by_cases hv : v = 0 <;> by_cases hw : w = 0
  · rw [hv, hw]
  · rw [hv, hnil] at h
    exact absurd h.symm (appendVarintField_ne_nil num hw)
  · rw [hw, hnil] at h
    exact absurd h (appendVarintField_ne_nil num hv)
  · have hread := congrArg (fun b => readField (b ++ [])) h
    simp only [readField_varintField num hv, readField_varintField num hw] at hread
    simpa [UInt64.toNat_inj] using hread

theorem encodeAny_inj {typeURL : String} (h : encodeAny typeURL v = encodeAny typeURL w) :
    v = w := by
  unfold encodeAny at h
  rw [appendBytesField_eq, appendBytesField_eq (appendStringField [] 1 typeURL) 2 w] at h
  exact bytesField_inj (List.append_cancel_left h)

theorem encodeCoin_inj {denom denom' amount amount' : String} (hd : denom ≠ "") (hd' : denom' ≠ "")
    (h : encodeCoin denom amount = encodeCoin denom' amount') : denom = denom' ∧ amount = amount' := by
  unfold encodeCoin at h
  rw [appendStringField_eq, appendStringField_eq (appendStringField [] 1 denom')] at h
  obtain ⟨hdenom, hamount⟩ := stringField_append_inj hd hd' h
  exact ⟨hdenom, stringField_inj hamount⟩

/-- **The body says who pays whom how much of what.** -/
theorem bodyBytes_injective {t : CosmosSend} (hs : s.sender ≠ "" ∧ s.recipient ≠ "" ∧ s.denom ≠ "")
    (ht : t.sender ≠ "" ∧ t.recipient ≠ "" ∧ t.denom ≠ "") (h : bodyBytes s = bodyBytes t) :
    s.sender = t.sender ∧ s.recipient = t.recipient ∧ s.denom = t.denom ∧ s.amount = t.amount ∧
      s.memo = t.memo := by
  unfold bodyBytes at h
  rw [appendStringField_eq _ 2 s.memo, appendStringField_eq _ 2 t.memo] at h
  obtain ⟨hany, hmemo⟩ := bytesField_append_inj h
  have hmsg := encodeAny_inj hany
  rw [appendBytesField_eq _ 3 (encodeCoin s.denom s.amount),
    appendBytesField_eq _ 3 (encodeCoin t.denom t.amount), appendStringField_eq _ 2 s.recipient,
    appendStringField_eq _ 2 t.recipient, List.append_assoc, List.append_assoc] at hmsg
  obtain ⟨hsender, hmsg⟩ := stringField_append_inj hs.1 ht.1 hmsg
  obtain ⟨hrecipient, hcoin⟩ := stringField_append_inj hs.2.1 ht.2.1 hmsg
  obtain ⟨hdenom, hamount⟩ := encodeCoin_inj hs.2.2 ht.2.2 (bytesField_inj hcoin)
  exact ⟨hsender, hrecipient, hdenom, hamount, stringField_inj hmemo⟩

/-- **The auth info says who signs, as which of their transactions, and for which fee and gas.** -/
theorem authInfoBytes_injective {t : CosmosSend} {pub' : Bytes} (hs : s.feeDenom ≠ "")
    (ht : t.feeDenom ≠ "") (h : authInfoBytes s pub = authInfoBytes t pub') :
    pub = pub' ∧ s.sequence = t.sequence ∧ s.feeDenom = t.feeDenom ∧ s.feeAmount = t.feeAmount ∧
      s.gasLimit = t.gasLimit := by
  unfold authInfoBytes at h
  rw [appendBytesField_eq _ 2 (appendVarintField _ 2 s.gasLimit),
    appendBytesField_eq _ 2 (appendVarintField _ 2 t.gasLimit)] at h
  obtain ⟨hsigner, hfee⟩ := bytesField_append_inj h
  rw [appendVarintField_eq _ 3 s.sequence, appendVarintField_eq _ 3 t.sequence,
    appendBytesField_eq (appendBytesField [] 1 _), appendBytesField_eq (appendBytesField [] 1 (encodeAny _
      (appendBytesField [] 1 pub'))), List.append_assoc, List.append_assoc] at hsigner
  obtain ⟨hkey, hsigner⟩ := bytesField_append_inj hsigner
  obtain ⟨-, hsequence⟩ := bytesField_append_inj hsigner
  have hfee := bytesField_inj hfee
  rw [appendVarintField_eq, appendVarintField_eq _ 2 t.gasLimit] at hfee
  obtain ⟨hcoin, hgas⟩ := bytesField_append_inj hfee
  obtain ⟨hdenom, hamount⟩ := encodeCoin_inj hs ht hcoin
  exact ⟨bytesField_inj (encodeAny_inj hkey), varintField_inj hsequence, hdenom,
    hamount, varintField_inj hgas⟩

/-- **The bytes that are hashed say which body and which auth info is signed, and for which account
of which chain.** -/
theorem signDoc_injective {body body' authInfo authInfo' : Bytes} {chainID chainID' : String}
    {accountNumber accountNumber' : UInt64} (hc : chainID ≠ "") (hc' : chainID' ≠ "")
    (h : signDoc body authInfo chainID accountNumber = signDoc body' authInfo' chainID' accountNumber') :
    body = body' ∧ authInfo = authInfo' ∧ chainID = chainID' ∧ accountNumber = accountNumber' := by
  unfold signDoc at h
  rw [appendVarintField_eq, appendVarintField_eq _ 4 accountNumber', appendStringField_eq,
    appendStringField_eq _ 3 chainID', appendBytesField_eq, appendBytesField_eq _ 2 authInfo',
    List.append_assoc, List.append_assoc, List.append_assoc, List.append_assoc] at h
  obtain ⟨hbody, h⟩ := bytesField_append_inj h
  obtain ⟨hauth, h⟩ := bytesField_append_inj h
  obtain ⟨hchain, h⟩ := stringField_append_inj hc hc' h
  exact ⟨hbody, hauth, hchain, varintField_inj h⟩

variable {lib : CosmosLib} {plan : CosmosSigningPlan}

theorem planCosmosSend_eq_ok (h : planCosmosSend lib s = .ok plan) :
    s.chainID ≠ "" ∧ (s.sender ≠ "" ∧ s.recipient ≠ "" ∧ s.denom ≠ "") ∧ s.feeDenom ≠ "" ∧
      ∃ pub, lib.parsePubKey s.pubKey = .ok pub ∧
        plan.bodyBytesHex = hexEncodeToString (bodyBytes s) ∧
        plan.authInfoBytesHex = hexEncodeToString (authInfoBytes s pub) ∧
        plan.chainID = s.chainID ∧ plan.accountNumber = s.accountNumber ∧
        plan.digestHex = hexEncodeToString
          (cosmosSignDocDigest lib (bodyBytes s) (authInfoBytes s pub) s.chainID s.accountNumber) ∧
        validateCosmosAmount "amount" s.amount = .ok () ∧ validateCosmosAmount "fee" s.feeAmount = .ok () := by
  simp only [planCosmosSend, ite_errorf_eq_ok, bind_eq_ok] at h
  obtain ⟨hchain, hfields, -, _, hamount, _, hfee, -, h⟩ := h
  split at h
  · simp at h
  next pub hpub =>
  cases h
  simp only [not_or] at hfields
  exact ⟨hchain, ⟨hfields.1, hfields.2.1, hfields.2.2.1⟩, hfields.2.2.2, pub, hpub, rfl, rfl, rfl, rfl,
    rfl, hamount, hfee⟩

def CosmosSigningPlan.doc (plan : CosmosSigningPlan) : Bytes :=
  signDoc ((hexDecodeString plan.bodyBytesHex).getD []) ((hexDecodeString plan.authInfoBytesHex).getD [])
    plan.chainID plan.accountNumber

omit [Appends] in
theorem hexDecodeString_hexEncodeToString (b : Bytes) :
    hexDecodeString (hexEncodeToString b) = some b := by
  rw [hexDecodeString, toList_hexEncodeToString, hexDecodeChars_hexChars]

theorem doc_eq_signDoc (hbody : plan.bodyBytesHex = hexEncodeToString (bodyBytes s))
    (hauth : plan.authInfoBytesHex = hexEncodeToString (authInfoBytes s pub)) :
    plan.doc = signDoc (bodyBytes s) (authInfoBytes s pub) plan.chainID plan.accountNumber := by
  rw [CosmosSigningPlan.doc, hbody, hauth, hexDecodeString_hexEncodeToString,
    hexDecodeString_hexEncodeToString]
  rfl

theorem doc_of_planCosmosSend (h : planCosmosSend lib s = .ok plan) :
    plan.digestHex = hexEncodeToString (lib.sha256 plan.doc) := by
  obtain ⟨-, -, -, pub, -, hbody, hauth, hchain, hacct, hdigest, -⟩ := planCosmosSend_eq_ok h
  rw [hdigest, doc_eq_signDoc hbody hauth, hchain, hacct]
  rfl

theorem assembleCosmosTx_eq_ok {r s key : Bytes} {tx : CosmosTx}
    (h : assembleCosmosTx lib plan r s key = .ok tx) :
    ∃ body authInfo pub rs ss, hexDecodeString plan.bodyBytesHex = some body ∧
      hexDecodeString plan.authInfoBytesHex = some authInfo ∧ lib.parsePubKey key = .ok pub ∧
      lib.verify rs (lowS lib ss)
        (cosmosSignDocDigest lib body authInfo plan.chainID plan.accountNumber) pub ∧
      tx.raw = txRaw body authInfo (lib.bytes rs ++ lib.bytes (lowS lib ss)) := by
  unfold assembleCosmosTx at h
  split at h
  · simp at h
  next body hbody =>
  split at h
  · simp at h
  next authInfo hauth =>
  split at h
  · simp at h
  split at h
  · simp at h
  next pub hpub =>
  simp only at h
  split at h
  · simp at h
  split at h
  · next hverify =>
    cases h
    exact ⟨body, authInfo, pub, _, _, hbody, hauth, hpub, hverify, rfl⟩
  · simp at h

/-- **The bytes that are hashed say everything about the send.** Two sends that are accepted and have
the same sign document are the same send, by the same key, which may be written in two ways. -/
theorem planCosmosSend_injective {s t : CosmosSend} {p q : CosmosSigningPlan}
    (hs : planCosmosSend lib s = .ok p) (ht : planCosmosSend lib t = .ok q) (h : p.doc = q.doc) :
    t = { s with pubKey := t.pubKey } ∧
      ∃ pub, lib.parsePubKey s.pubKey = .ok pub ∧ lib.parsePubKey t.pubKey = .ok pub := by
  obtain ⟨hchain, hfields, hdenom, pub, hpub, hbody, hauth, hid, hacct, -⟩ := planCosmosSend_eq_ok hs
  obtain ⟨hchain', hfields', hdenom', pub', hpub', hbody', hauth', hid', hacct', -⟩ :=
    planCosmosSend_eq_ok ht
  rw [doc_eq_signDoc hbody hauth, doc_eq_signDoc hbody' hauth', hid, hacct, hid'] at h
  obtain ⟨hbodies, hauths, hids, haccts⟩ := signDoc_injective hchain hchain' h
  obtain ⟨hsender, hrecipient, hcoin, hamount, hmemo⟩ := bodyBytes_injective hfields hfields' hbodies
  obtain ⟨rfl, hsequence, hfee, hfeeAmount, hgas⟩ := authInfoBytes_injective hdenom hdenom' hauths
  simp_all

end

/-! ### A send by the generator of the curve -/

section

open scoped Protowire.Reference

/-- The generator, compressed. -/
def generatorKey : Bytes :=
  toBytes 0x0279be667ef9dcbbac55a06295ce870b07029bfcdb2dce28d959f2815b16f81798

/-- The same point in full. -/
def generatorInFull : Bytes :=
  toBytes 0x0479be667ef9dcbbac55a06295ce870b07029bfcdb2dce28d959f2815b16f81798483ada7726a3c4655da4fbfc0e1108a8fd17b448a68554199c47d08ffb10d4b8

/-- Twice the generator, compressed. -/
def doubledKey : Bytes :=
  toBytes 0x02c6047f9441ed7d6d3045406e95c07cd85c778e4b8cef3ca7abac09b95c709ee5

/-- One uatom. -/
def sampleSend : CosmosSend where
  chainID := "cosmoshub-4"
  accountNumber := 0
  sequence := 0
  sender := "cosmos1a"
  recipient := "cosmos1b"
  denom := "uatom"
  amount := "1"
  feeDenom := "uatom"
  feeAmount := "500"
  gasLimit := 200000
  memo := ""
  pubKey := generatorKey

def sampleBody : Bytes := bodyBytes sampleSend

def sampleAuthInfo : Bytes := authInfoBytes sampleSend generatorKey

/-- The hash of the sign document of the sample. -/
def sampleDigest : Bytes :=
  toBytes 0x8e114cdcf85730bbbd391edac0df2ac27090d1d8a2e6926da9a9e0d4dab48715

/-- Signatures of the sample by the two keys, with one nonce and in the low form. -/
def sampleR : Nat := 0x79be667ef9dcbbac55a06295ce870b07029bfcdb2dce28d959f2815b16f81798
def generatorS : Nat := 0x07cfb35bf233ec6812d981708f6635cab87df1cd216c1b0b43ca03a321765d6c
def doubledS : Nat := 0x7e71e62513ef57eb97861bf9a212bf2cff94ee3e600e5c572215d98e97c7cc3d

def sampleRaw (s : Nat) : Bytes :=
  txRaw sampleBody sampleAuthInfo (fixed 32 sampleR ++ fixed 32 s)

/-- The scalars are numbers below the order, the keys the two above. The hashes and the signatures are
those of the sample. -/
def sampleCosmosLib : CosmosLib where
  sha256 b :=
    if b = signDoc sampleBody sampleAuthInfo "cosmoshub-4" 0 then sampleDigest
    else if b = sampleRaw generatorS then
      toBytes 0x01f118ba391d22ed8b689b2a7a090cde48134e23f8166adebfdb0a82a011bc7e
    else if b = sampleRaw doubledS then
      toBytes 0x8ddcc65534ba13cce62d87abfd8f8f8d2996cf4d0dfe4b7fca901cbcba5a1215
    else List.replicate 32 0
  parsePubKey key :=
    if key = generatorKey ∨ key = generatorInFull then .ok generatorKey
    else if key = doubledKey then .ok doubledKey
    else .error "malformed public key"
  Scalar := Fin curveOrder
  setByteSlice b := (Fin.ofNat curveOrder (toNat b), curveOrder ≤ toNat b)
  isZero x := x.val = 0
  isOverHalfOrder x := curveOrder / 2 < x.val
  negate x := Fin.ofNat curveOrder (curveOrder - x.val)
  bytes x := fixed 32 x.val
  verify r s digest pub :=
    digest = sampleDigest ∧ r.val = sampleR ∧
      (pub = generatorKey ∧ s.val = generatorS ∨ pub = doubledKey ∧ s.val = doubledS)
  bytes_length x := length_fixed 32 x.val
  setByteSlice_bytes x := by
    have hx : x.val < 256 ^ 32 := x.isLt.trans (by decide)
    rw [toNat_fixed hx]
    simp [x.isLt]
  isOverHalfOrder_eq x := by rw [toNat_fixed (x.isLt.trans (by decide))]
  negate_add x h := by
    have hx := x.isLt
    have hhalf : curveOrder / 2 < x.val := of_decide_eq_true h
    have hneg : (Fin.ofNat curveOrder (curveOrder - x.val)).val = curveOrder - x.val :=
      Nat.mod_eq_of_lt (by omega)
    rw [toNat_fixed ((Fin.isLt _).trans (by decide)), toNat_fixed (hx.trans (by decide)), hneg]
    omega

/-- The plan of the sample. -/
def samplePlan : CosmosSigningPlan where
  bodyBytesHex := hexEncodeToString sampleBody
  authInfoBytesHex := hexEncodeToString sampleAuthInfo
  chainID := "cosmoshub-4"
  accountNumber := 0
  digestHex := hexEncodeToString sampleDigest

theorem planCosmosSend_sampleSend {key : Bytes}
    (h : sampleCosmosLib.parsePubKey key = .ok generatorKey) :
    planCosmosSend sampleCosmosLib { sampleSend with pubKey := key } = .ok samplePlan := by
  have hdigest : sampleCosmosLib.sha256 (signDoc sampleBody sampleAuthInfo "cosmoshub-4" 0)
      = sampleDigest := if_pos rfl
  rw [samplePlan, ← hdigest]
  simp only [planCosmosSend, h]
  rfl

theorem planCosmosSend_injective_sampleSend :
    ∃ plan, planCosmosSend sampleCosmosLib sampleSend = .ok plan ∧
      planCosmosSend sampleCosmosLib { sampleSend with pubKey := generatorInFull } = .ok plan ∧
      ∃ pub, sampleCosmosLib.parsePubKey generatorKey = .ok pub ∧
        sampleCosmosLib.parsePubKey generatorInFull = .ok pub := by
  have h : planCosmosSend sampleCosmosLib sampleSend = .ok samplePlan :=
    planCosmosSend_sampleSend (by decide +kernel)
  have h' : planCosmosSend sampleCosmosLib { sampleSend with pubKey := generatorInFull }
      = .ok samplePlan := planCosmosSend_sampleSend (by decide +kernel)
  exact ⟨_, h, h', (planCosmosSend_injective h h' rfl).2⟩

end

/-! ## Amounts -/

section

variable [Appends]

/-- The numeral of a positive integer, with no sign and no leading zero. -/
def CanonicalAmount (v : String) : Prop := ∃ n : Nat, n ≠ 0 ∧ v = toString n

/-- A plus sign, and the digits of a positive integer. -/
def PlusSigned (v : String) : Prop := ∃ ds n, v.toList = '+' :: ds ∧ parseDigits ds = some n ∧ n ≠ 0

structure ChecksCanonical (v : String) : Prop where
  accepts_iff : ∀ label, validateCosmosAmount label v = .ok () ↔ CanonicalAmount v
  /-- What is in the messages that are signed. -/
  planned : ∀ lib s plan, planCosmosSend lib s = .ok plan → v = s.amount ∨ v = s.feeAmount →
    CanonicalAmount v

omit [Appends] in
theorem validateCosmosAmount_eq_ok {label v : String} : validateCosmosAmount label v = .ok () ↔
    ∃ n, bigSetString v.toList = some n ∧ 0 < n ∧ v.toList.dropWhile (· = '0') = v.toList := by
  unfold validateCosmosAmount
  cases bigSetString v.toList <;> simp

omit [Appends] in
theorem canonicalAmount_iff {v : String} : CanonicalAmount v ↔
    ∃ n, parseDigits v.toList = some n ∧ n ≠ 0 ∧ v.toList.dropWhile (· = '0') = v.toList := by
  constructor
  · rintro ⟨n, hn, rfl⟩
    have hread := parseDigits_decimal n
    rw [decimal_eq_toDigits] at hread
    rw [Nat.toString_eq_ofList_toDigits, String.toList_ofList]
    exact ⟨n, hread, hn, Numeral.dropWhile_toDigits hn⟩
  · rintro ⟨n, hread, hn, hdrop⟩
    obtain ⟨-, hdigits, hvalue⟩ := parseDigits_eq_some.mp hread
    rw [Numeral.dropWhile_zero hdigits, hvalue, if_neg hn] at hdrop
    exact ⟨n, hn, by rw [Nat.toString_eq_ofList_toDigits, hdrop, String.ofList_toList]⟩

omit [Appends] in
theorem accepted_iff {label v : String} :
    validateCosmosAmount label v = .ok () ↔ CanonicalAmount v ∨ PlusSigned v := by
  rw [validateCosmosAmount_eq_ok, canonicalAmount_iff, PlusSigned]
  generalize v.toList = s
  unfold bigSetString
  split
  · -- a minus sign is not a digit, and the integer is not positive
    simp [parseDigits_eq_some]
  · simp [parseDigits_eq_some, Nat.pos_iff_ne_zero]
  · next hplus =>
    rw [or_iff_left fun ⟨ds, _, hs, _⟩ => hplus ds hs]
    simp [Nat.pos_iff_ne_zero]

omit [Appends] in
theorem not_canonicalAmount {v : String} (h : PlusSigned v) : ¬ CanonicalAmount v := by
  intro hcanonical
  obtain ⟨n, hread, -⟩ := canonicalAmount_iff.mp hcanonical
  obtain ⟨ds, -, hv, -⟩ := h
  rw [hv, parseDigits_eq_some] at hread
  exact absurd (hread.2.1 '+' List.mem_cons_self) (by decide)

/-- **Only canonical amounts are signed, but for a plus sign**, which `big.Int` reads and the chain does not. -/
theorem checksCanonical_iff (v : String) : ChecksCanonical v ↔ ¬ PlusSigned v := by
  constructor
  · intro h hplus
    exact not_canonicalAmount hplus ((h.accepts_iff "amount").mp (accepted_iff.mpr (.inr hplus)))
  · intro hplus
    have haccepts (label : String) : validateCosmosAmount label v = .ok () ↔ CanonicalAmount v :=
      accepted_iff.trans (or_iff_left hplus)
    refine ⟨haccepts, fun lib s plan hplan hv => ?_⟩
    obtain ⟨-, -, -, _, -, -, -, -, -, -, hamount, hfee⟩ := planCosmosSend_eq_ok hplan
    rcases hv with rfl | rfl
    · exact (haccepts _).mp hamount
    · exact (haccepts _).mp hfee

end

open scoped Protowire.Reference in
theorem plus_signed_planned : ¬ CanonicalAmount "+5" ∧
    ∃ plan, planCosmosSend sampleCosmosLib { sampleSend with amount := "+5" } = .ok plan :=
  ⟨not_canonicalAmount ⟨['5'], 5, rfl, by decide, by decide⟩, _, rfl⟩

end OpenFireblocks.Cosmos
