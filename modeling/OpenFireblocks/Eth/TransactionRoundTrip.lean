import OpenFireblocks.Eth.RlpRoundTrip

/-!
# A transaction's bytes determine the transaction

The bytes that are hashed belong to one transaction only, and the bytes that are broadcast decode to the
one that was signed. In both the transaction is first written as its list of RLP items
(`preimageItems`, `signedItems`), so that nothing below looks inside an encoding.
-/

namespace OpenFireblocks.Eth

open BigEndian Go Outcome

namespace Transaction

/-! ## The items of a transaction -/

section

variable (t : Transaction)

/-- The recipient's bytes: empty for a contract creation. -/
def recipientPayload : Bytes := t.recipient.getD []

/-- The fields of the EIP-1559 form, up to the access list. -/
def dynamicItems : List Item :=
  [.str (bigPayload t.chainID), .str (bigEndian t.nonce), .str (bigPayload t.tip),
    .str (bigPayload t.maxFee), .str (bigEndian t.gas), .str t.recipientPayload,
    .str (bigPayload t.value), .str t.data, .list []]

/-- The fields of the legacy form that stand before the signature. -/
def legacyItems : List Item :=
  [.str (bigEndian t.nonce), .str (bigPayload t.gasPrice), .str (bigEndian t.gas),
    .str t.recipientPayload, .str (bigPayload t.value), .str t.data]

/-- The items of the list that is hashed. A legacy transaction ends in the chain id and two
zeros (EIP-155). -/
def preimageItems : List Item :=
  if t.isDynamic then t.dynamicItems
  else t.legacyItems ++ [.str (bigPayload t.chainID), .str (bigEndian 0), .str (bigEndian 0)]

/-- `v` of a signed legacy transaction. -/
def eip155V (recovery : UInt8) : Int :=
  (recovery.toUInt64 + 35).toNat + t.chainID.getD 0 * 2

def signedItems (r s : Nat) (recovery : UInt8) : List Item :=
  if t.isDynamic then
    t.dynamicItems ++ [.str (bigEndian recovery.toUInt64), .str (bigPayload (some r)),
      .str (bigPayload (some s))]
  else
    t.legacyItems ++ [.str (bigPayload (some (t.eip155V recovery))), .str (bigPayload (some r)),
      .str (bigPayload (some s))]

/-- The type byte of an EIP-1559 transaction, and nothing for a legacy one. -/
def envelope : Bytes := if t.isDynamic then [dynamicFeeTxType] else []

/-- The envelope around a list of items. -/
def enclose (items : List Item) : Bytes :=
  t.envelope ++ rlpList (concat (items.map Item.encode))

def FeesNonneg : Prop :=
  0 ≤ t.gasPrice.getD 0 ∧ 0 ≤ t.maxFee.getD 0 ∧ 0 ≤ t.tip.getD 0

theorem toField_eq : t.toField = rlpString t.recipientPayload := by
  unfold toField recipientPayload
  cases t.recipient <;> rfl

end

/-! ## When the encoder returns -/

variable {t : Transaction}

theorem Valid.fees_of_legacy (hd : t.isDynamic = false) : t.maxFee = none ∧ t.tip = none := by
  unfold isDynamic at hd
  simpa using hd

theorem Valid.gasPrice_of_dynamic (hv : t.Valid) (hd : t.isDynamic) : t.gasPrice = none := by
  have := mt hv.legacy_iff.mp (by simp [hd])
  simpa using this

/--
`SigningHash` gets as far as hashing exactly for a transaction that validates, has no negative
fee and fits in memory, and what it hashes is the list of `preimageItems`.
-/
theorem signingPreimage_eq_ok {p : Bytes} (h : t.signingPreimage = .ok p) :
    t.Valid ∧ t.FeesNonneg ∧ p = t.enclose t.preimageItems ∧ p.length < 2 ^ 63 := by
  obtain ⟨u, hvalid, h⟩ := bind_eq_ok.mp h
  have hv := valid_of_validate hvalid
  cases hd : t.isDynamic with
  | true =>
    simp only [hd, if_true, rlpBig_bind_eq_ok, alloc_eq_ok] at h
    obtain ⟨-, htip0, hmax0, -, hlen, rfl⟩ := h
    refine ⟨hv, ⟨by simp [hv.gasPrice_of_dynamic hd], hmax0, htip0⟩, ?_, hlen⟩
    simp [enclose, envelope, preimageItems, dynamicItems, hd, Item.encode, toField_eq, rlpUint]
  | false =>
    simp only [hd, Bool.false_eq_true, if_false, rlpBig_bind_eq_ok, alloc_eq_ok] at h
    obtain ⟨hgas0, -, -, hlen, rfl⟩ := h
    obtain ⟨hmax, htip⟩ := Valid.fees_of_legacy hd
    refine ⟨hv, ⟨hgas0, by simp [hmax], by simp [htip]⟩, ?_, hlen⟩
    simp [enclose, envelope, preimageItems, legacyItems, hd, Item.encode, toField_eq, rlpUint]

/-- What `WithSignature` broadcasts is the list of `signedItems`. -/
theorem signedBytes_eq_ok {r s : Nat} {recovery : UInt8} {raw : Bytes}
    (h : t.signedBytes r s recovery = .ok raw) :
    raw = t.enclose (t.signedItems r s recovery) ∧ raw.length < 2 ^ 63 := by
  unfold signedBytes at h
  cases hd : t.isDynamic with
  | true =>
    simp only [hd, if_true, rlpBig_bind_eq_ok, alloc_eq_ok] at h
    obtain ⟨-, -, -, -, -, -, hlen, rfl⟩ := h
    refine ⟨?_, hlen⟩
    simp [enclose, envelope, signedItems, dynamicItems, hd, Item.encode, toField_eq, rlpUint]
  | false =>
    simp only [hd, Bool.false_eq_true, if_false, rlpBig_bind_eq_ok, alloc_eq_ok] at h
    obtain ⟨-, -, -, -, -, hlen, rfl⟩ := h
    refine ⟨?_, hlen⟩
    simp [enclose, envelope, signedItems, legacyItems, eip155V, hd, Item.encode, toField_eq,
      rlpUint]

/-! ## The preimage is injective -/

/-- A list never begins with the type byte of EIP-1559. -/
theorem head_rlpList {payload : Bytes} (hlen : (rlpList payload).length < 2 ^ 63) :
    ∃ p tail, rlpList payload = p :: tail ∧ 0xc0 ≤ p := by
  have hp : payload.length < 2 ^ 63 := by
    simp only [rlpList, List.length_append] at hlen
    omega
  obtain ⟨p, tail, he, hkind⟩ := head_rlpLengthPrefix true hp
  refine ⟨p, tail ++ payload, ?_, of_decide_eq_true hkind⟩
  have he : rlpLengthPrefix payload.length 0xc0 = p :: tail := he
  rw [rlpList, he, List.cons_append]

variable {items : List Item}

/-- Equal bytes have the same form and the same items. -/
theorem enclose_inj {u : Transaction} {items' : List Item}
    (hlen : (t.enclose items).length < 2 ^ 63) (h : t.enclose items = u.enclose items') :
    t.isDynamic = u.isDynamic ∧ items.map Item.payload = items'.map Item.payload := by
  have hlen' : (u.enclose items').length < 2 ^ 63 := h ▸ hlen
  have hlist : ∀ {w : Transaction} {l : List Item}, (w.enclose l).length < 2 ^ 63 →
      (rlpList (concat (l.map Item.encode))).length < 2 ^ 63 := by
    intro w l hl
    simp only [enclose, List.length_append] at hl
    omega
  -- the first byte is 0x02 on one side and at least 0xc0 on the other unless the forms agree
  have hforms : ∀ {v w : Transaction} {l l' : List Item}, v.isDynamic →
      w.isDynamic = false → (w.enclose l').length < 2 ^ 63 → v.enclose l ≠ w.enclose l' := by
    intro v w l l' hv hw hl he
    obtain ⟨p, tail, hp, hge⟩ := head_rlpList (hlist hl)
    simp only [enclose, envelope, hv, hw, hp, if_true, Bool.false_eq_true, if_false,
      List.nil_append, List.cons_append, List.cons.injEq] at he
    rw [← he.1] at hge
    revert hge
    decide
  have hform : t.isDynamic = u.isDynamic := by
    cases ht : t.isDynamic <;> cases hu : u.isDynamic
    · rfl
    · exact absurd h.symm (hforms hu ht hlen)
    · exact absurd h (hforms ht hu hlen')
    · rfl
  refine ⟨hform, payloads_eq_of_rlpList_eq (hlist hlen) ?_⟩
  simp only [enclose, envelope, hform] at h
  exact List.append_cancel_left h

theorem bigEndian_inj {v w : UInt64} (h : bigEndian v = bigEndian w) : v = w := by
  rw [← beUint_bigEndian v, h, beUint_bigEndian]

/-- Contract creation and a 20-byte recipient are kept apart. -/
theorem recipientPayload_inj {u : Transaction} (ht : t.Valid) (hu : u.Valid)
    (h : t.recipientPayload = u.recipientPayload) : t.recipient = u.recipient := by
  unfold recipientPayload at h
  cases hrt : t.recipient with
  | none =>
    cases hru : u.recipient with
    | none => rfl
    | some b =>
      have := hu.recipient_length b hru
      simp only [hrt, hru, Option.getD_some] at h
      rw [← h] at this
      simp at this
  | some a =>
    have ha := ht.recipient_length a hrt
    cases hru : u.recipient with
    | none =>
      simp only [hrt, hru, Option.getD_some] at h
      rw [h] at ha
      simp at ha
    | some b =>
      simp only [hrt, hru, Option.getD_some] at h
      rw [h]

/-- Everything a signature is meant to bind. A `nil` value counts as zero. -/
structure SameFields (t u : Transaction) : Prop where
  form : t.isDynamic = u.isDynamic
  chainID : t.chainID = u.chainID
  nonce : t.nonce = u.nonce
  gasPrice : t.gasPrice = u.gasPrice
  maxFee : t.maxFee = u.maxFee
  tip : t.tip = u.tip
  gas : t.gas = u.gas
  recipient : t.recipient = u.recipient
  value : t.value.getD 0 = u.value.getD 0
  data : t.data = u.data

/-- A field that is present on both sides and has the same bytes is the same. -/
theorem eq_of_bigPayload_eq {v w : Option Int} (hv : v.isSome) (hw : w.isSome)
    (hv0 : 0 ≤ v.getD 0) (hw0 : 0 ≤ w.getD 0) (h : bigPayload v = bigPayload w) : v = w := by
  obtain ⟨a, rfl⟩ := Option.isSome_iff_exists.mp hv
  obtain ⟨b, rfl⟩ := Option.isSome_iff_exists.mp hw
  exact congrArg some (bigPayload_inj hv0 hw0 h)

theorem Valid.chainID_isSome (hv : t.Valid) : t.chainID.isSome := by
  have := hv.chainID_pos
  cases hc : t.chainID with
  | none => simp [hc] at this
  | some c => rfl

/--
**The signing preimage is injective.**

`SigningHash` only gets to hashing for a transaction that validates and has no negative fee
(`signingPreimage_eq_ok`), so these are not separate hypotheses here.
-/
theorem signingPreimage_injective {t u : Transaction} {p : Bytes}
    (ht : t.signingPreimage = .ok p) (hu : u.signingPreimage = .ok p) : SameFields t u := by
  obtain ⟨hvt, ⟨hgt, hmt, htt⟩, rfl, hlen⟩ := signingPreimage_eq_ok ht
  obtain ⟨hvu, ⟨hgu, hmu, htu⟩, he, -⟩ := signingPreimage_eq_ok hu
  obtain ⟨hform, hitems⟩ := enclose_inj hlen he
  cases hd : t.isDynamic with
  | true =>
    have hdu : u.isDynamic := hform ▸ hd
    simp only [preimageItems, hd, hdu, if_true, dynamicItems, List.map_cons, List.cons.injEq, and_true] at hitems
    obtain ⟨hchain, hnonce, htip, hmax, hgas, hrec, hval, hdata⟩ := hitems
    exact {
      form := hform
      chainID := eq_of_bigPayload_eq hvt.chainID_isSome hvu.chainID_isSome hvt.chainID_pos.le
        hvu.chainID_pos.le hchain
      nonce := bigEndian_inj hnonce
      gasPrice := by rw [hvt.gasPrice_of_dynamic hd, hvu.gasPrice_of_dynamic hdu]
      maxFee := eq_of_bigPayload_eq (hvt.dynamic hd).1 (hvu.dynamic hdu).1 hmt hmu hmax
      tip := eq_of_bigPayload_eq (hvt.dynamic hd).2 (hvu.dynamic hdu).2 htt htu htip
      gas := bigEndian_inj hgas
      recipient := recipientPayload_inj hvt hvu hrec
      value := bigPayload_inj hvt.value_nonneg hvu.value_nonneg hval
      data := hdata }
  | false =>
    have hdu : u.isDynamic = false := hform ▸ hd
    simp only [preimageItems, hd, hdu, Bool.false_eq_true, if_false, legacyItems, List.cons_append,
      List.nil_append, List.map_cons, List.cons.injEq,
      and_true] at hitems
    obtain ⟨hnonce, hgp, hgas, hrec, hval, hdata, hchain⟩ := hitems
    obtain ⟨hmaxt, htipt⟩ := Valid.fees_of_legacy hd
    obtain ⟨hmaxu, htipu⟩ := Valid.fees_of_legacy hdu
    exact {
      form := hform
      chainID := eq_of_bigPayload_eq hvt.chainID_isSome hvu.chainID_isSome hvt.chainID_pos.le
        hvu.chainID_pos.le hchain
      nonce := bigEndian_inj hnonce
      gasPrice := eq_of_bigPayload_eq (hvt.legacy_iff.mpr hd) (hvu.legacy_iff.mpr hdu) hgt hgu hgp
      maxFee := by rw [hmaxt, hmaxu]
      tip := by rw [htipt, htipu]
      gas := bigEndian_inj hgas
      recipient := recipientPayload_inj hvt hvu hrec
      value := bigPayload_inj hvt.value_nonneg hvu.value_nonneg hval
      data := hdata }

/-- The vector "legacy zero value" of `testdata_txvectors.json`, with the value left `nil`. -/
def zeroValueTx : Transaction where
  chainID := some 1
  nonce := 7
  gas := 21000
  gasPrice := some 1
  maxFee := none
  tip := none
  recipient := some (toBytes 0x70997970C51812dc3A010C7d01b50e0d17dc79C8)
  value := none
  data := []

/-- A `nil` value and a zero are hashed alike, and are the same transaction. -/
theorem signingPreimage_injective_nil_value :
    ∃ p, zeroValueTx.signingPreimage = .ok p ∧
      { zeroValueTx with value := some 0 }.signingPreimage = .ok p ∧
      SameFields zeroValueTx { zeroValueTx with value := some 0 } :=
  ⟨_, rfl, rfl, signingPreimage_injective rfl rfl⟩

/-! ## Decoding undoes signing -/

/-- What `WithSignature` has checked by the time it returns. -/
theorem withSignature_eq_ok {lib : CryptoLib} {sig : Bytes} {expected : String}
    {signed : SignedTransaction} (h : t.withSignature lib sig expected = .ok signed) :
    t.Valid ∧ recoveryID (sig.getD 64 0) ≤ 1 ∧ signed.hash = lib.keccak256 signed.raw ∧
      ∃ r s, signed.raw = t.enclose (t.signedItems r s (recoveryID (sig.getD 64 0))) ∧
        signed.raw.length < 2 ^ 63 := by
  obtain ⟨u, hvalid, h⟩ := bind_eq_ok.mp h
  split at h
  · simp at h
  obtain ⟨digest, _, h⟩ := bind_eq_ok.mp h
  obtain ⟨sender, hrec, h⟩ := bind_eq_ok.mp h
  split at h
  · simp at h
  obtain ⟨raw, hraw, h⟩ := bind_eq_ok.mp h
  cases h
  obtain ⟨heq, hlen⟩ := signedBytes_eq_ok hraw
  exact ⟨valid_of_validate hvalid, recoverAddress_recoveryID (wrapError_eq_ok.mp hrec), rfl, _, _, heq, hlen⟩

theorem decodeSignedTransaction_enclose {lib : CryptoLib}
    (hlen : (t.enclose items).length < 2 ^ 63) :
    decodeSignedTransaction lib (t.enclose items)
      = if t.isDynamic then
          dynamicInfo (lib.keccak256 (t.enclose items)) (items.map Item.payload)
        else legacyInfo (lib.keccak256 (t.enclose items)) (items.map Item.payload) := by
  have hsplit := splitList_rlpList items (by
    simp only [enclose, List.length_append] at hlen
    omega)
  cases hd : t.isDynamic with
  | true =>
    have he : t.enclose items = dynamicFeeTxType :: rlpList (concat (items.map Item.encode)) := by
      simp [enclose, envelope, hd]
    rw [he, decodeSignedTransaction, if_pos (by decide), hsplit]
    rfl
  | false =>
    have he : t.enclose items = rlpList (concat (items.map Item.encode)) := by
      simp [enclose, envelope, hd]
    rw [he] at hlen ⊢
    obtain ⟨p, tail, hp, hge⟩ := head_rlpList hlen
    rw [hp] at hsplit ⊢
    rw [decodeSignedTransaction, if_neg (UInt8.not_lt.mpr hge), hsplit]
    rfl

theorem toNat_bigPayload {v : Option Int} (h : 0 ≤ v.getD 0) :
    (toNat (bigPayload v) : Int) = v.getD 0 := by
  rw [bigPayload, toNat_toBytes]
  omega

theorem addressOrNil_recipientPayload (hv : t.Valid) :
    addressOrNil t.recipientPayload = t.recipient := by
  unfold addressOrNil recipientPayload
  cases hr : t.recipient with
  | none => rfl
  | some addr =>
    have hlen := hv.recipient_length addr hr
    rw [Option.getD_some, if_neg (by omega)]

theorem Valid.chainID_eq (hv : t.Valid) : t.chainID = some (t.chainID.getD 0) := by
  obtain ⟨c, hc⟩ := Option.isSome_iff_exists.mp hv.chainID_isSome
  rw [hc, Option.getD_some]

/-- The shift that unfolds `v` drops the recovery id, because that is 0 or 1. -/
theorem eip155V_unfold {recovery : UInt8} (hv : t.Valid) (hrec : recovery ≤ 1) :
    0 ≤ t.eip155V recovery ∧ 35 ≤ toNat (bigPayload (some (t.eip155V recovery))) ∧
      (((toNat (bigPayload (some (t.eip155V recovery))) - 35) >>> 1 : Nat) : Int)
        = t.chainID.getD 0 := by
  have hpos := hv.chainID_pos
  have hr : recovery.toNat ≤ 1 := by simpa using UInt8.le_iff_toNat_le.mp hrec
  have hsum : ((recovery.toUInt64 + 35).toNat : Int) = recovery.toNat + 35 := by
    rw [UInt64.toNat_add, UInt8.toNat_toUInt64]
    simp only [UInt64.reduceToNat]
    omega
  have heq : t.eip155V recovery = recovery.toNat + 35 + t.chainID.getD 0 * 2 := by
    rw [eip155V, hsum]
  have hnonneg : 0 ≤ (some (t.eip155V recovery)).getD 0 := by
    rw [Option.getD_some]
    omega
  have hnat := toNat_bigPayload hnonneg
  rw [Option.getD_some] at hnat hnonneg
  omega

/--
**Decoding undoes signing.**

For whatever `WithSignature` returns, the decoder accepts `Raw` and reads the transaction's own
fields out of it. `RecoverCompact` and Keccak are arbitrary; what matters is that `SigToPub`
refuses a recovery id above 1, for the chain id of a legacy transaction is unfolded from `v` by a
shift.
-/
theorem decodeSignedTransaction_withSignature {lib : CryptoLib} {t : Transaction} {sig : Bytes}
    {expected : String} {signed : SignedTransaction}
    (h : t.withSignature lib sig expected = .ok signed) :
    decodeSignedTransaction lib signed.raw = .ok
      { type := if t.isDynamic then dynamicFeeTxType else 0
        hash := signed.hash
        nonce := t.nonce
        gas := t.gas
        value := some (t.value.getD 0)
        recipient := t.recipient
        chainID := t.chainID } := by
  obtain ⟨hv, hrec, hhash, r, s, hraw, hlen⟩ := withSignature_eq_ok h
  obtain ⟨-, h35, hshift⟩ := eip155V_unfold hv hrec
  rw [hhash, hraw] at *
  rw [decodeSignedTransaction_enclose hlen]
  cases hd : t.isDynamic with
  | true =>
    simp only [if_true, signedItems, hd, dynamicItems, List.cons_append, List.nil_append,
      List.map_cons, List.map_nil, Item.payload, dynamicInfo, beUint_bigEndian,
      toNat_bigPayload hv.value_nonneg, toNat_bigPayload hv.chainID_pos.le,
      addressOrNil_recipientPayload hv]
    rw [← hv.chainID_eq]
  | false =>
    simp only [Bool.false_eq_true, if_false, signedItems, hd, legacyItems, List.cons_append,
      List.nil_append, List.map_cons, List.map_nil, Item.payload, legacyInfo, beUint_bigEndian,
      toNat_bigPayload hv.value_nonneg, addressOrNil_recipientPayload hv, if_pos h35, hshift]
    rw [← hv.chainID_eq]

/-! ### The golden vector, decoded -/

/-- `raw` of the vector. -/
def zeroValueRaw : Bytes :=
  toBytes 0xf85f07018252089470997970c51812dc3a010c7d01b50e0d17dc79c8808025a0
    ++ toBytes 0x5cbb0ea71b5e7c9cc5300a8f6e46c0dc6e5ac0dba8625ae27ed3defd16d9dd5c
    ++ toBytes 0xa001abd4fdb052e46b073e6febc2a6b21b3fe8bd77f119e7843909d30a801ab7d6

/-- The signature in it, with recovery id 0. -/
def zeroValueSig : Bytes :=
  toBytes 0x5cbb0ea71b5e7c9cc5300a8f6e46c0dc6e5ac0dba8625ae27ed3defd16d9dd5c
    ++ toBytes 0x01abd4fdb052e46b073e6febc2a6b21b3fe8bd77f119e7843909d30a801ab7d600

def vectorKey : Point where
  x := 0xba5734d8f7091719471e7f7ed6b9df170dc70cc661ca05e688601ad984f068b0
  y := 0xd67351e5f06073092499336ab0839ef8a521afd334e53807205fa2f08eec74f4
  x_lt := by norm_num
  y_lt := by norm_num

/-- `signingHash` of the vector. -/
def zeroValueDigest : Bytes :=
  toBytes 0x36ae2be092169405c819c1867ee398a33b52cd1cc73a752249a2b240fd0c1aa1

def vectorLib : CryptoLib where
  keccak256 b :=
    if zeroValueTx.signingPreimage = .ok b then zeroValueDigest
    else if b = zeroValueRaw then
      toBytes 0x21be1cd5ab32ce82b0edae7e41df87294792b1896378614a3143352958e420e6
    else if b = (marshalPubkey vectorKey).tail then
      toBytes 0x482845ef5f7df661eb71148970997970c51812dc3a010c7d01b50e0d17dc79c8
    -- the lower-case address, for its EIP-55 checksum
    else if b = "70997970c51812dc3a010c7d01b50e0d17dc79c8".toList.map (UInt8.ofNat ·.toNat) then
      toBytes 0xab0b23228b24d84488ffaac5e35a6017af55d9b5c00c385c9311735b71867ebc
    else List.replicate 32 0
  keccak256_length b := by split_ifs <;> rfl
  recoverCompact compact digest :=
    if compact = 27 :: zeroValueSig.take 64 ∧ digest = zeroValueDigest then some vectorKey
    else none

theorem withSignature_vector :
    zeroValueTx.withSignature vectorLib zeroValueSig "0x70997970c51812dc3a010c7d01b50e0d17dc79c8"
      = .ok
        { raw := zeroValueRaw
          hash := toBytes 0x21be1cd5ab32ce82b0edae7e41df87294792b1896378614a3143352958e420e6
          sender := "0x70997970C51812dc3A010C7d01b50e0d17dc79C8" } := by
  rfl

theorem decodeSignedTransaction_withSignature_vector :
    ∃ signed, zeroValueTx.withSignature vectorLib zeroValueSig
        "0x70997970c51812dc3a010c7d01b50e0d17dc79c8" = .ok signed ∧
      signed.raw = zeroValueRaw ∧
      decodeSignedTransaction vectorLib signed.raw = .ok
        { type := 0
          hash := toBytes 0x21be1cd5ab32ce82b0edae7e41df87294792b1896378614a3143352958e420e6
          nonce := 7
          gas := 21000
          value := some 0
          recipient := some (toBytes 0x70997970C51812dc3A010C7d01b50e0d17dc79C8)
          chainID := some 1 } :=
  ⟨_, withSignature_vector, rfl, decodeSignedTransaction_withSignature withSignature_vector⟩

end Transaction

end OpenFireblocks.Eth
