import OpenFireblocks.Cosmos.Tx

/-!
# What a chain makes of an assembled transaction

The chain parses a `TxRaw`, rebuilds the sign document from its bytes and verifies the one signature
under the key in the auth info. `AssembleCosmosTx` verifies under the key it is given beside the
plan, which is that key if the plan was made for it.
-/

namespace OpenFireblocks.Cosmos

open BigEndian Go Protowire

/-! ## The chain -/

/-- `TxRaw`. -/
structure TxRaw where
  bodyBytes : Bytes
  authInfoBytes : Bytes
  signatures : List Bytes

/-- Of a field that may be there once, the last value counts. -/
def lastBytes (num : Nat) (fields : List (Nat × Value)) : Bytes := (bytesOf num fields).getLastD []

def parseTxRaw (raw : Bytes) : Option TxRaw :=
  (message raw).map fun fields => {
    bodyBytes := lastBytes 1 fields
    authInfoBytes := lastBytes 2 fields
    signatures := bytesOf 3 fields }

/-- The key of an `Any` that holds a secp256k1 key. -/
def keyOfAny (any : Bytes) : Option Bytes :=
  (message any).bind fun fields =>
    if lastBytes 1 fields = utf8Bytes secp256k1PubKeyType.toList then
      (message (lastBytes 2 fields)).map (lastBytes 1)
    else none

/-- The key carried inside an auth info with one signer. A message that is written more than once is
merged, which is to parse all of it as one. -/
def carriedKey (authInfo : Bytes) : Option Bytes :=
  (message authInfo).bind fun fields =>
    match bytesOf 1 fields with
    | [signer] => (message signer).bind fun info => keyOfAny (bytesOf 1 info).flatten
    | _ => none

section

variable [Appends] (lib : CosmosLib) (plan : CosmosSigningPlan)

def signerKey (authInfo : Bytes) : Option Bytes :=
  (carriedKey authInfo).bind fun key => (lib.parsePubKey key).toOption

/-- The signature verifies under a key, over the sign document of the bytes. -/
def TxRaw.VerifiesUnder (t : TxRaw) (sig pub : Bytes) : Prop :=
  ∃ r s, lib.setByteSlice (sig.take 32) = (r, false) ∧ lib.setByteSlice (sig.drop 32) = (s, false) ∧
    lib.verify r s
      (cosmosSignDocDigest lib t.bodyBytes t.authInfoBytes plan.chainID plan.accountNumber) pub

/-- The signature verifies under the key inside the auth info. -/
def TxRaw.Verifies (t : TxRaw) (sig : Bytes) : Prop :=
  ∃ pub, signerKey lib t.authInfoBytes = some pub ∧ t.VerifiesUnder lib plan sig pub

/-- The bytes parse to those of the plan, with one signature in the low form. -/
structure ParsesTo (raw : Bytes) (t : TxRaw) (sig : Bytes) : Prop where
  parse : parseTxRaw raw = some t
  body : hexDecodeString plan.bodyBytesHex = some t.bodyBytes
  authInfo : hexDecodeString plan.authInfoBytesHex = some t.authInfoBytes
  signatures : t.signatures = [sig]
  length : sig.length = 64
  low : toNat (sig.drop 32) ≤ curveOrder / 2

/-- The chain takes the transaction. -/
def Acceptable (raw : Bytes) : Prop := ∃ t sig, ParsesTo plan raw t sig ∧ t.Verifies lib plan sig

/-- The key is the one inside the plan's auth info. -/
def SignerIs (key : Bytes) : Prop :=
  ∃ authInfo pub, hexDecodeString plan.authInfoBytesHex = some authInfo ∧
    signerKey lib authInfo = some pub ∧ lib.parsePubKey key = .ok pub

end

/-! ## Reading what was written -/

section

variable [Appends]

theorem message_bytesField_append (num : UInt8) (v rest : Bytes) :
    message (appendBytesField [] num v ++ rest) = (message rest).map ((num.toNat, .bytes v) :: ·) :=
  message_of_readField (readField_bytesField num v rest)

theorem message_bytesField (num : UInt8) (v : Bytes) :
    message (appendBytesField [] num v) = some [(num.toNat, .bytes v)] := by
  rw [← List.append_nil (appendBytesField [] num v), message_bytesField_append, message_nil]
  rfl

theorem message_varintField (num : UInt8) (v : UInt64) :
    message (appendVarintField [] num v) =
      some (if v = 0 then [] else [(num.toNat, .varint v.toNat)]) := by
  by_cases hv : v = 0
  · rw [hv, appendVarintField, if_pos rfl, if_pos rfl, message_nil]
  · rw [if_neg hv, ← List.append_nil (appendVarintField [] num v),
      message_of_readField (readField_varintField num hv []), message_nil]
    rfl

theorem parseTxRaw_txRaw (body authInfo signature : Bytes) :
    parseTxRaw (txRaw body authInfo signature) = some ⟨body, authInfo, [signature]⟩ := by
  rw [parseTxRaw, txRaw, appendBytesField_eq, appendBytesField_eq _ 2, List.append_assoc,
    message_bytesField_append, message_bytesField_append, message_bytesField]
  rfl

theorem keyOfAny_encodeAny (pub : Bytes) :
    keyOfAny (encodeAny secp256k1PubKeyType (appendBytesField [] 1 pub)) = some pub := by
  have hurl : appendStringField [] 1 secp256k1PubKeyType =
      appendBytesField [] 1 (utf8Bytes secp256k1PubKeyType.toList) := if_neg (by decide)
  rw [keyOfAny, encodeAny, hurl, appendBytesField_eq, message_bytesField_append]
  have hfirst (v w : Bytes) :
      lastBytes 1 [(UInt8.toNat 1, .bytes v), (UInt8.toNat 2, .bytes w)] = v := rfl
  have hsecond (v w : Bytes) :
      lastBytes 2 [(UInt8.toNat 1, .bytes v), (UInt8.toNat 2, .bytes w)] = w := rfl
  simp only [Option.map_some, Option.bind_some, hfirst, hsecond, if_true, message_bytesField]
  rfl

theorem carriedKey_authInfoBytes (s : CosmosSend) (pub : Bytes) :
    carriedKey (authInfoBytes s pub) = some pub := by
  unfold carriedKey authInfoBytes
  rw [appendBytesField_eq _ 2 (appendVarintField _ 2 s.gasLimit), message_bytesField_append,
    message_bytesField]
  show (message (appendVarintField _ 3 s.sequence)).bind _ = _
  rw [appendVarintField_eq, appendBytesField_eq (appendBytesField [] 1 _), List.append_assoc,
    message_bytesField_append, message_bytesField_append, message_varintField]
  have hkey (n : Nat) (v w : Bytes) : bytesOf 1 ((UInt8.toNat 1, .bytes v) ::
      (UInt8.toNat 2, .bytes w) ::
        (if s.sequence = 0 then [] else [(UInt8.toNat 3, .varint n)])) = [v] := by
    split <;> rfl
  simp only [Option.map_some, Option.bind_some, hkey, List.flatten_cons, List.flatten_nil,
    List.append_nil]
  exact keyOfAny_encodeAny pub

/-! ## What is assembled -/

variable {lib : CosmosLib} {plan : CosmosSigningPlan} {r s key : Bytes} {tx : CosmosTx}

omit [Appends] in
theorem lowS_le (x : lib.Scalar) : toNat (lib.bytes (lowS lib x)) ≤ curveOrder / 2 := by
  unfold lowS
  split
  · next hover =>
    have hadd := lib.negate_add x hover
    rw [lib.isOverHalfOrder_eq, decide_eq_true_eq] at hover
    unfold curveOrder at *
    omega
  · next hover =>
    rw [lib.isOverHalfOrder_eq, decide_eq_true_eq] at hover
    exact Nat.not_lt.mp hover

theorem assembled_parses (h : assembleCosmosTx lib plan r s key = .ok tx) :
    ∃ t sig pub, ParsesTo plan tx.raw t sig ∧ lib.parsePubKey key = .ok pub ∧
      t.VerifiesUnder lib plan sig pub := by
  obtain ⟨body, authInfo, pub, rs, ss, hbody, hauth, hpub, hverify, hraw⟩ := assembleCosmosTx_eq_ok h
  have hfirst : (lib.bytes rs ++ lib.bytes (lowS lib ss)).take 32 = lib.bytes rs :=
    List.take_left' (lib.bytes_length rs)
  have hsecond : (lib.bytes rs ++ lib.bytes (lowS lib ss)).drop 32 = lib.bytes (lowS lib ss) :=
    List.drop_left' (lib.bytes_length rs)
  refine ⟨⟨body, authInfo, _⟩, lib.bytes rs ++ lib.bytes (lowS lib ss), pub,
    ⟨?_, hbody, hauth, rfl, by simp [lib.bytes_length], ?_⟩, hpub, rs, lowS lib ss, ?_, ?_, hverify⟩
  · rw [hraw, parseTxRaw_txRaw]
  · rw [hsecond]
    exact lowS_le ss
  · rw [hfirst, lib.setByteSlice_bytes]
  · rw [hsecond, lib.setByteSlice_bytes]

/-- **What is assembled parses to the bytes of the plan with one signature in the low form, and the
chain takes it if the key inside the auth info is the one it was verified with.** -/
theorem assembled_acceptable (h : assembleCosmosTx lib plan r s key = .ok tx) :
    (∃ t sig, ParsesTo plan tx.raw t sig) ∧
      (SignerIs lib plan key → Acceptable lib plan tx.raw) := by
  obtain ⟨t, sig, pub, hparses, hpub, hverify⟩ := assembled_parses h
  refine ⟨⟨t, sig, hparses⟩, ?_⟩
  rintro ⟨authInfo, pub', hauth, hsigner, hpub'⟩
  obtain rfl := Option.mem_unique hauth hparses.authInfo
  obtain rfl := Except.ok.inj (hpub.symm.trans hpub')
  exact ⟨t, sig, hparses, pub, hsigner, hverify⟩

theorem signerKey_authInfoBytes (send : CosmosSend) {pub : Bytes}
    (hpub : lib.parsePubKey pub = .ok pub) : signerKey lib (authInfoBytes send pub) = some pub := by
  rw [signerKey, carriedKey_authInfoBytes, Option.bind_some, hpub]
  rfl

end

/-! ### A key beside the plan -/

section

open scoped Protowire.Reference

def acceptedTx : CosmosTx where
  raw := sampleRaw generatorS
  hash := "01F118BA391D22ED8B689B2A7A090CDE48134E23F8166ADEBFDB0A82A011BC7E"

/-- The signature by the generator comes in the high form, its key in full. -/
theorem assembled_acceptable_samplePlan :
    assembleCosmosTx sampleCosmosLib samplePlan (fixed 32 sampleR)
        (fixed 32 (curveOrder - generatorS)) generatorInFull = .ok acceptedTx ∧
      Acceptable sampleCosmosLib samplePlan acceptedTx.raw := by
  have htx : assembleCosmosTx sampleCosmosLib samplePlan (fixed 32 sampleR)
      (fixed 32 (curveOrder - generatorS)) generatorInFull = .ok acceptedTx := by decide +kernel
  have hkey : sampleCosmosLib.parsePubKey generatorKey = .ok generatorKey := by decide +kernel
  have hfull : sampleCosmosLib.parsePubKey generatorInFull = .ok generatorKey := by decide +kernel
  obtain ⟨-, -, -, pub, hpub, -, hauth, -⟩ := planCosmosSend_eq_ok (planCosmosSend_sampleSend hkey)
  obtain rfl : generatorKey = pub := Except.ok.inj (hkey.symm.trans hpub)
  exact ⟨htx, (assembled_acceptable htx).2 ⟨_, generatorKey,
    (congrArg _ hauth).trans (hexDecodeString_hexEncodeToString _),
    signerKey_authInfoBytes _ hkey, hfull⟩⟩

theorem setByteSlice_sample (b : Bytes) :
    (sampleCosmosLib.setByteSlice b).1.val = toNat b % curveOrder := rfl

def unacceptableTx : CosmosTx where
  raw := sampleRaw doubledS
  hash := "8DDCC65534BA13CCE62D87ABFD8F8F8D2996CF4D0DFE4B7FCA901CBCBA5A1215"

/-- The plan carries the generator, and twice the generator has signed it. -/
theorem assembled_for_other_key :
    assembleCosmosTx sampleCosmosLib samplePlan (fixed 32 sampleR) (fixed 32 doubledS) doubledKey
        = .ok unacceptableTx ∧
      ¬ Acceptable sampleCosmosLib samplePlan unacceptableTx.raw := by
  refine ⟨by decide +kernel, ?_⟩
  rintro ⟨t, sig, hparses, pub, hsigner, r, s, -, hs, hverify⟩
  have hraw : parseTxRaw unacceptableTx.raw = some _ := parseTxRaw_txRaw _ _ _
  obtain rfl := Option.mem_unique hraw hparses.parse
  obtain rfl := List.singleton_inj.mp hparses.signatures
  have hkey : sampleCosmosLib.parsePubKey generatorKey = .ok generatorKey := by decide +kernel
  obtain rfl := Option.mem_unique (signerKey_authInfoBytes sampleSend hkey) hsigner
  rw [List.drop_left' (length_fixed 32 sampleR)] at hs
  have hscalar := setByteSlice_sample (fixed 32 doubledS)
  rw [hs] at hscalar
  obtain ⟨-, -, ⟨-, hlow⟩ | ⟨hpub, -⟩⟩ := of_decide_eq_true hverify
  · exact absurd (hscalar.symm.trans hlow) (by decide +kernel)
  · exact absurd hpub (by decide +kernel)

end

end OpenFireblocks.Cosmos
