import OpenFireblocks.Eth.DecodeSafety

/-!
# Which accepted transactions are written canonically

`DecodeSignedTransaction` refuses a long length that should be short and a length with a leading
zero. Four other ways to write a transaction that no encoder here writes get through:

* a byte below `0x80` behind the prefix `0x81`,
* a list where a string belongs, and a string in place of the access list,
* an integer with leading zeros, or one of more than eight bytes of which `beUint` keeps the last,
* a recipient of any length.

`decodeSignedTransaction_canonical_iff` says that these are all.
-/

namespace OpenFireblocks.Eth

open BigEndian Go Outcome Transaction

/-! ## The fields of a transaction -/

inductive FieldKind where
  /-- a `*big.Int` -/
  | integer
  /-- a `uint64` -/
  | word
  | address
  | data
  | accessList
deriving DecidableEq

def layout (type : UInt8) : List FieldKind :=
  if type = dynamicFeeTxType then
    [.integer, .word, .integer, .integer, .word, .address, .integer, .data, .accessList,
      .integer, .integer, .integer]
  else [.word, .integer, .word, .address, .integer, .data, .integer, .integer, .integer]

inductive FieldValue where
  | number (n : Nat)
  | bytes (b : Bytes)
  | list (payload : Bytes)

namespace FieldKind

def read : FieldKind → Bytes → FieldValue
  | integer, b => .number (toNat b)
  | word, b => .number (beUint b).toNat
  | address, b | data, b => .bytes b
  | accessList, b => .list b

def IsNumber (kind : FieldKind) : Prop := kind = integer ∨ kind = word

instance (kind : FieldKind) : Decidable kind.IsNumber := inferInstanceAs (Decidable (_ ∨ _))

end FieldKind

def FieldValue.item : FieldValue → Item
  | number n => .str (toBytes n)
  | bytes b => .str b
  | list payload => .list payload

/-- The type byte of an EIP-1559 transaction in front of a list. -/
def typed (type : UInt8) (b : Bytes) : Bytes := if type = dynamicFeeTxType then type :: b else b

/-- Encodes the values of the fields again. -/
def reencode (type : UInt8) (values : List FieldValue) : Bytes :=
  typed type (rlpList (concat (values.map fun v => v.item.encode)))

/-- The first part of `decodeSignedTransaction`: the type, and the payloads of the top-level
items. -/
def decodedItems (raw : Bytes) : Result (UInt8 × List Bytes) :=
  match raw with
  | [] => errorf "empty transaction"
  | first :: rest =>
    if first < 0xc0 then
      if first ≠ dynamicFeeTxType then
        let type := String.ofList (Nat.toDigits 16 first.toNat)
        errorf s!"transaction type 0x{type} is not one this platform produces"
      else do
        let items ← splitList rest
        return (dynamicFeeTxType, items)
    else do
      let items ← splitList raw
      return (0, items)

def valuesOf (type : UInt8) (items : List Bytes) : List FieldValue :=
  List.zipWith FieldKind.read (layout type) items

def fieldsOf (type : UInt8) (items : List Bytes) : List (FieldKind × Bytes) :=
  (layout type).zip items

/-! ## What is asked of an accepted transaction, and of its bytes -/

/-- An accepted transaction is what its fields encode to, its integers have no leading zero and
fit, and its recipient is an address or none. -/
structure Canonical (raw : Bytes) (type : UInt8) (items : List Bytes) : Prop where
  reproduced : reencode type (valuesOf type items) = raw
  noLeadingZero : ∀ f ∈ fieldsOf type items, f.1.IsNumber → f.2.head? ≠ some 0
  fits : ∀ f ∈ fieldsOf type items, f.1 = .word → toNat f.2 < 2 ^ 64
  recipient : ∀ f ∈ fieldsOf type items, f.1 = .address → f.2.length = 0 ∨ f.2.length = 20

structure Plain (kind : FieldKind) (piece : Piece) : Prop where
  rightKind : piece.isList = decide (kind = .accessList)
  unprefixed : ∀ c : UInt8, c < 0x80 → piece.bytes ≠ [0x81, c]
  noLeadingZero : kind.IsNumber → piece.payload.head? ≠ some 0
  short : kind = .word → piece.payload.length ≤ 8
  recipient : kind = .address → piece.payload.length = 0 ∨ piece.payload.length = 20

/-- A transaction of plainly written fields. -/
def PlainEncoding (raw : Bytes) : Prop :=
  ∃ (type : UInt8) (pieces : List Piece), (type = 0 ∨ type = dynamicFeeTxType) ∧
    raw = typed type (rlpList (concat (pieces.map Piece.bytes))) ∧
    List.Forall₂ Plain (layout type) pieces

/-! ## The items of an input -/

variable {type : UInt8}

theorem decodedItems_eq_ok {raw : Bytes} {items : List Bytes} (hlen : raw.length < 2 ^ 63) :
    decodedItems raw = .ok (type, items) ↔
      (type = 0 ∨ type = dynamicFeeTxType) ∧
        ∃ pieces : List Piece, pieces.map Piece.payload = items ∧
          raw = typed type (rlpList (concat (pieces.map Piece.bytes))) := by
  constructor
  · intro h
    cases raw with
    | nil => simp [decodedItems] at h
    | cons first rest =>
      simp only [decodedItems] at h
      split at h
      · split at h
        · simp at h
        · next hfirst =>
          obtain ⟨items', hsplit, h⟩ := bind_eq_ok.mp h
          cases h
          have hrest : rest.length < 2 ^ 63 := by
            rw [List.length_cons] at hlen
            omega
          obtain ⟨pieces, hitems, hb⟩ := (splitList_eq_ok hrest).mp hsplit
          exact ⟨.inr rfl, pieces, hitems, by rw [typed, if_pos rfl, hb, not_not.mp hfirst]⟩
      · obtain ⟨items', hsplit, h⟩ := bind_eq_ok.mp h
        cases h
        obtain ⟨pieces, hitems, hb⟩ := (splitList_eq_ok hlen).mp hsplit
        exact ⟨.inl rfl, pieces, hitems, hb⟩
  · rintro ⟨rfl | rfl, pieces, hitems, rfl⟩
    · have hraw : typed 0 (rlpList (concat (pieces.map Piece.bytes)))
          = rlpList (concat (pieces.map Piece.bytes)) := rfl
      rw [hraw] at hlen ⊢
      have hsplit := (splitList_eq_ok hlen).mpr ⟨pieces, hitems, rfl⟩
      obtain ⟨p, tail, hp, hge⟩ := head_rlpList hlen
      rw [hp] at hsplit ⊢
      simp only [decodedItems]
      rw [if_neg (UInt8.not_lt.mpr hge), hsplit]
      rfl
    · have hraw : typed dynamicFeeTxType (rlpList (concat (pieces.map Piece.bytes)))
          = dynamicFeeTxType :: rlpList (concat (pieces.map Piece.bytes)) := rfl
      rw [hraw] at hlen ⊢
      have hrest : (rlpList (concat (pieces.map Piece.bytes))).length < 2 ^ 63 := by
        rw [List.length_cons] at hlen
        omega
      have hsplit := (splitList_eq_ok hrest).mpr ⟨pieces, hitems, rfl⟩
      simp only [decodedItems]
      rw [if_pos (by decide), hsplit]
      rfl

theorem decodedItems_of_decodeSignedTransaction {lib : CryptoLib} {raw : Bytes}
    {info : SignedTxInfo} (h : decodeSignedTransaction lib raw = .ok info) :
    ∃ type items, decodedItems raw = .ok (type, items) ∧ items.length = (layout type).length := by
  cases raw with
  | nil => simp [decodeSignedTransaction] at h
  | cons =>
    simp only [decodeSignedTransaction] at h
    simp only [decodedItems]
    split at h
    · next hlow =>
      rw [if_pos hlow]
      split at h
      · simp at h
      next hfirst =>
      rw [if_neg hfirst]
      obtain ⟨items, hsplit, h⟩ := bind_eq_ok.mp h
      refine ⟨dynamicFeeTxType, items, by rw [hsplit]; rfl, ?_⟩
      unfold dynamicInfo at h
      split at h
      · rfl
      · simp at h
    · next hhigh =>
      rw [if_neg hhigh]
      obtain ⟨items, hsplit, h⟩ := bind_eq_ok.mp h
      refine ⟨0, items, by rw [hsplit]; rfl, ?_⟩
      unfold legacyInfo at h
      split at h
      · rfl
      · simp at h

/-! ## One field -/

theorem Piece.ext {p q : Piece} (h1 : p.isList = q.isList) (h2 : p.payload = q.payload)
    (h3 : p.bytes = q.bytes) : p = q := by
  cases q
  cases h1
  cases h2
  cases h3
  rfl

theorem rlpLengthPrefix_append_eq {isList : Bool} {x : Bytes} {c : UInt8}
    (h : rlpLengthPrefix x.length (kindOffset isList) ++ x = [0x81, c]) :
    isList = false ∧ x = [c] := by
  have hlen := congrArg List.length h
  unfold rlpLengthPrefix at h hlen
  split at h
  · next hshort =>
    obtain ⟨hp, rfl⟩ := List.cons.inj h
    refine ⟨?_, rfl⟩
    cases isList with
    | false => rfl
    | true => exact absurd hp (show (0xc0 : UInt8) + UInt8.ofNat 1 ≠ 0x81 by decide)
  · next hlong =>
    rw [List.length_append] at hlen
    simp only [List.length_cons, List.length_nil] at hlen
    omega

/-- **A piece is what the encoder writes, unless a prefix stands before a byte that needs
none.** -/
theorem Piece.eq_piece_iff (p : Piece) :
    p = (if p.isList then Item.list p.payload else .str p.payload).piece ↔
      ∀ c : UInt8, c < 0x80 → p.bytes ≠ [0x81, c] := by
  obtain ⟨isList, x, enc, henc⟩ := p
  cases henc with
  | @byte c hc =>
    refine iff_of_true (Piece.ext rfl rfl ?_) (by simp)
    simp [Item.encode, rlpString, hc]
  | prefixed =>
    cases isList with
    | true =>
      refine iff_of_true (Piece.ext rfl rfl rfl) ?_
      intro c hc h
      cases (rlpLengthPrefix_append_eq h).1
    | false =>
      simp only [Bool.false_eq_true, if_false]
      by_cases hone : x.length = 1 ∧ x.headD 0 < 0x80
      · obtain ⟨c, rfl⟩ := List.length_eq_one_iff.mp hone.1
        refine iff_of_false ?_ fun h => h c hone.2 rfl
        intro h
        have hbytes : rlpLengthPrefix 1 0x80 ++ [c] = rlpString [c] := congrArg Piece.bytes h
        rw [rlpString, if_pos hone] at hbytes
        cases hbytes
      · refine iff_of_true (Piece.ext rfl rfl ?_) ?_
        · simp only [Item.bytes_piece, Item.encode]
          rw [rlpString, if_neg hone]
          rfl
        · intro c hc h
          obtain ⟨-, rfl⟩ := rlpLengthPrefix_append_eq h
          exact hone ⟨rfl, hc⟩

def FieldKind.Holds (kind : FieldKind) (b : Bytes) : Prop :=
  (kind.IsNumber → b.head? ≠ some 0) ∧ (kind = .word → toNat b < 2 ^ 64) ∧
    (kind = .address → b.length = 0 ∨ b.length = 20)

instance (kind : FieldKind) (b : Bytes) : Decidable (kind.Holds b) :=
  inferInstanceAs (Decidable (_ ∧ _ ∧ _))

/-- **One field: it is what its value encodes to, and the value is as it should be, exactly if it
is plainly written.** -/
theorem plain_iff (kind : FieldKind) (p : Piece) :
    Plain kind p ↔ (kind.read p.payload).item.piece = p ∧ kind.Holds p.payload := by
  have hword : ∀ b : Bytes, b.head? ≠ some 0 → (b.length ≤ 8 ↔ toNat b < 2 ^ 64) := by
    intro b hb
    conv_lhs => rw [← toBytes_toNat_eq_iff.mpr hb, length_toBytes_le_iff]
    rfl
  constructor
  · rintro ⟨hkind, hunprefixed, hzero, hshort, hrecipient⟩
    have hp := p.eq_piece_iff.mpr hunprefixed
    have hholds : kind.Holds p.payload :=
      ⟨hzero, fun h => (hword _ (hzero (.inr h))).mp (hshort h), hrecipient⟩
    refine ⟨?_, hholds⟩
    conv_rhs => rw [hp, hkind]
    cases kind with
    | integer =>
      simp only [FieldKind.read, FieldValue.item, toBytes_toNat_eq_iff.mpr (hzero (.inl rfl))]
      rfl
    | word =>
      simp only [FieldKind.read, FieldValue.item, toNat_beUint,
        Nat.mod_eq_of_lt (hholds.2.1 rfl), toBytes_toNat_eq_iff.mpr (hzero (.inr rfl))]
      rfl
    | address | data | accessList => rfl
  · rintro ⟨hp, hzero, hfits, hrecipient⟩
    have hkind : p.isList = decide (kind = .accessList) := by
      rw [← hp]
      cases kind <;> rfl
    have hitem : (kind.read p.payload).item
        = if p.isList then Item.list p.payload else .str p.payload := by
      rw [hkind]
      have hpayload := congrArg Piece.payload hp
      cases kind with
      | integer | word => exact congrArg Item.str hpayload
      | address | data | accessList => rfl
    exact ⟨hkind, p.eq_piece_iff.mp (by rw [← hitem]; exact hp.symm), hzero,
      fun h => (hword _ (hzero (.inr h))).mpr (hfits h), hrecipient⟩

/-! ## All fields -/

theorem forall₂_plain_iff {kinds : List FieldKind} {pieces : List Piece}
    (hlen : pieces.length = kinds.length) :
    List.Forall₂ Plain kinds pieces ↔
      (List.zipWith FieldKind.read kinds (pieces.map Piece.payload)).map (fun v => v.item.piece)
          = pieces ∧
        ∀ f ∈ kinds.zip (pieces.map Piece.payload), f.1.Holds f.2 := by
  induction pieces generalizing kinds with
  | nil =>
    obtain rfl := List.length_eq_zero_iff.mp hlen.symm
    simp
  | cons p pieces ih =>
    cases kinds with
    | nil => simp at hlen
    | cons kind kinds =>
      have hlen : pieces.length = kinds.length := by simpa using hlen
      rw [List.forall₂_cons, plain_iff, ih hlen]
      simp only [List.map_cons, List.zipWith_cons_cons, List.zip_cons_cons, List.forall_mem_cons,
        List.cons.injEq]
      tauto

theorem Piece.append_inj {p q : Piece} {r r' : Bytes} (hlen : (p.bytes ++ r).length < 2 ^ 63)
    (h : p.bytes ++ r = q.bytes ++ r') : p = q ∧ r = r' := by
  have hp := (readAny_eq_ok hlen).mpr ⟨p, rfl, rfl⟩
  have hq := (readAny_eq_ok (h ▸ hlen)).mpr ⟨q, rfl, rfl⟩
  rw [h, hq] at hp
  obtain ⟨hpayload, rfl⟩ := Prod.mk.inj (Except.ok.inj hp)
  have hbytes : p.bytes = q.bytes := List.append_cancel_right h
  refine ⟨Piece.ext ?_ hpayload.symm hbytes, rfl⟩
  rw [List.length_append] at hlen
  obtain ⟨c, tail, hc, hkind⟩ := head_encodes p.encodes (by omega)
  obtain ⟨c', tail', hc', hkind'⟩ := head_encodes q.encodes (by rw [← hbytes]; omega)
  rw [hbytes, hc'] at hc
  obtain ⟨rfl, -⟩ := List.cons.inj hc
  rw [← hkind, ← hkind']

theorem pieces_unique {ps qs : List Piece} (hlen : (concat (ps.map Piece.bytes)).length < 2 ^ 63)
    (h : concat (ps.map Piece.bytes) = concat (qs.map Piece.bytes)) : ps = qs := by
  induction ps generalizing qs with
  | nil =>
    cases qs with
    | nil => rfl
    | cons q qs => exact absurd h.symm (by simp [concat, bytes_ne_nil q])
  | cons p ps ih =>
    cases qs with
    | nil => exact absurd h (by simp [concat, bytes_ne_nil p])
    | cons =>
      simp only [concat, List.map_cons, List.flatten_cons] at hlen h ih
      obtain ⟨rfl, hrest⟩ := Piece.append_inj hlen h
      rw [List.length_append] at hlen
      rw [ih (by omega) hrest]

theorem rlpList_injective {a b : Bytes} (hlen : (rlpList a).length < 2 ^ 63)
    (h : rlpList a = rlpList b) : a = b := by
  have ha := readItem_rlpList hlen
  rw [h, readItem_rlpList (h ▸ hlen)] at ha
  exact (Prod.mk.inj (Except.ok.inj ha)).1.symm

theorem rlpList_of_typed {a b : Bytes} (h : typed type a = typed type b) : a = b := by
  unfold typed at h
  split at h
  · exact (List.cons.inj h).2
  · exact h

theorem length_le_typed (type : UInt8) (b : Bytes) : b.length ≤ (typed type b).length := by
  unfold typed
  split
  · rw [List.length_cons]
    omega
  · exact le_rfl

theorem canonical_iff_forall₂_plain {pieces : List Piece}
    (hcount : pieces.length = (layout type).length)
    (hlen : (typed type (rlpList (concat (pieces.map Piece.bytes)))).length < 2 ^ 63) :
    Canonical (typed type (rlpList (concat (pieces.map Piece.bytes)))) type
        (pieces.map Piece.payload) ↔
      List.Forall₂ Plain (layout type) pieces := by
  have hlist : (rlpList (concat (pieces.map Piece.bytes))).length < 2 ^ 63 :=
    lt_of_le_of_lt (length_le_typed type _) hlen
  have hreencode : reencode type (valuesOf type (pieces.map Piece.payload))
        = typed type (rlpList (concat (pieces.map Piece.bytes))) ↔
      (valuesOf type (pieces.map Piece.payload)).map (fun v => v.item.piece) = pieces := by
    have hencode : (valuesOf type (pieces.map Piece.payload)).map (fun v => v.item.encode)
        = ((valuesOf type (pieces.map Piece.payload)).map (fun v => v.item.piece)).map
          Piece.bytes := by
      rw [List.map_map]
      exact List.map_congr_left fun v _ => (Item.bytes_piece v.item).symm
    rw [reencode, hencode]
    constructor
    · intro h
      have hconcat := rlpList_injective hlist (rlpList_of_typed h).symm
      exact (pieces_unique (length_payload_lt hlist) hconcat).symm
    · intro h
      rw [h]
  rw [forall₂_plain_iff hcount, ← valuesOf, ← hreencode]
  constructor
  · rintro ⟨hraw, hzero, hfits, hrecipient⟩
    exact ⟨hraw, fun f hf => ⟨hzero f hf, hfits f hf, hrecipient f hf⟩⟩
  · rintro ⟨hraw, hholds⟩
    exact ⟨hraw, fun f hf => (hholds f hf).1, fun f hf => (hholds f hf).2.1,
      fun f hf => (hholds f hf).2.2⟩

/-- A transaction has one type and falls into pieces in one way. -/
theorem typed_unique {type' : UInt8} {ps qs : List Piece} (ht : type = 0 ∨ type = dynamicFeeTxType)
    (ht' : type' = 0 ∨ type' = dynamicFeeTxType)
    (hlen : (typed type (rlpList (concat (ps.map Piece.bytes)))).length < 2 ^ 63)
    (h : typed type (rlpList (concat (ps.map Piece.bytes)))
      = typed type' (rlpList (concat (qs.map Piece.bytes)))) : type = type' ∧ ps = qs := by
  have hp := (decodedItems_eq_ok hlen).mpr ⟨ht, ps, rfl, rfl⟩
  have hq := (decodedItems_eq_ok (h ▸ hlen)).mpr ⟨ht', qs, rfl, rfl⟩
  rw [h, hq] at hp
  obtain rfl := (Prod.mk.inj (Except.ok.inj hp)).1
  have hlist := lt_of_le_of_lt (length_le_typed type' _) hlen
  exact ⟨rfl, pieces_unique (length_payload_lt hlist)
    (rlpList_injective hlist (rlpList_of_typed h))⟩

def CanonicallyDecoded (raw : Bytes) : Prop :=
  ∃ type items, decodedItems raw = .ok (type, items) ∧ Canonical raw type items

/--
**An accepted transaction is canonical exactly if its fields are plainly written.** Two different
ones of which this holds have different fields.
-/
theorem decodeSignedTransaction_canonical_iff (lib : CryptoLib) {raw : Bytes} {info : SignedTxInfo}
    (hlen : raw.length < 2 ^ 63) (h : decodeSignedTransaction lib raw = .ok info) :
    (CanonicallyDecoded raw ↔ PlainEncoding raw) ∧
      ∀ raw' type items items', PlainEncoding raw → PlainEncoding raw' → raw'.length < 2 ^ 63 →
        decodedItems raw = .ok (type, items) → decodedItems raw' = .ok (type, items') →
        valuesOf type items = valuesOf type items' → raw = raw' := by
  -- for one input: its pieces are the ones of the plain encoding
  have key : ∀ raw : Bytes, raw.length < 2 ^ 63 → PlainEncoding raw → ∀ type items,
      decodedItems raw = .ok (type, items) → Canonical raw type items := by
    rintro raw hlen ⟨type', pieces', ht', rfl, hplain⟩ type items hitems
    obtain ⟨ht, pieces, rfl, hraw⟩ := (decodedItems_eq_ok hlen).mp hitems
    obtain ⟨rfl, rfl⟩ := typed_unique ht' ht hlen hraw
    exact (canonical_iff_forall₂_plain hplain.length_eq.symm hlen).mpr hplain
  refine ⟨⟨?_, ?_⟩, ?_⟩
  · rintro ⟨type, items, hitems, hcanonical⟩
    obtain ⟨type', items', hitems', hcount⟩ := decodedItems_of_decodeSignedTransaction h
    obtain ⟨rfl, rfl⟩ := Prod.mk.inj (Except.ok.inj (hitems'.symm.trans hitems))
    obtain ⟨ht, pieces, rfl, rfl⟩ := (decodedItems_eq_ok hlen).mp hitems
    rw [List.length_map] at hcount
    exact ⟨type', pieces, ht, rfl, (canonical_iff_forall₂_plain hcount hlen).mp hcanonical⟩
  · intro hplain
    obtain ⟨type, items, hitems, -⟩ := decodedItems_of_decodeSignedTransaction h
    exact ⟨type, items, hitems, key raw hlen hplain type items hitems⟩
  · intro raw' type items items' hplain hplain' hlen' hitems hitems' hvalues
    rw [← (key raw hlen hplain type items hitems).reproduced,
      ← (key raw' hlen' hplain' type items' hitems').reproduced, hvalues]

/-! ## One transaction, written twice -/

/-- The fields of a legacy transaction behind its nonce. -/
def otherPieces : List Piece :=
  ([.str [1], .str [1], .str [], .str [], .str [], .str [0x1b], .str [1], .str [1]]
    : List Item).map Item.piece

/-- The nonce 5 as the encoder writes it, and behind a prefix it does not need. -/
def nonceFive : Piece := (Item.str [5]).piece
def prefixedFive : Piece := ⟨false, [5], [0x81, 5], .prefixed false [5]⟩

def plainLegacy : Bytes := [0xc9, 5, 1, 1, 0x80, 0x80, 0x80, 0x1b, 1, 1]
def prefixedLegacy : Bytes := [0xca, 0x81, 5, 1, 1, 0x80, 0x80, 0x80, 0x1b, 1, 1]

def legacyPayloads : List Bytes := [[5], [1], [1], [], [], [], [0x1b], [1], [1]]

theorem splitList_plainLegacy : splitList plainLegacy = .ok legacyPayloads :=
  (splitList_eq_ok (by decide)).mpr ⟨nonceFive :: otherPieces, rfl, by decide⟩

theorem splitList_prefixedLegacy : splitList prefixedLegacy = .ok legacyPayloads :=
  (splitList_eq_ok (by decide)).mpr ⟨prefixedFive :: otherPieces, rfl, by decide⟩

theorem decode_plainLegacy : ∃ info, decodeSignedTransaction vectorLib plainLegacy = .ok info := by
  have h : decodeSignedTransaction vectorLib plainLegacy
      = splitList plainLegacy >>= legacyInfo (transactionHash vectorLib plainLegacy) := rfl
  rw [h, splitList_plainLegacy]
  exact ⟨_, rfl⟩

theorem decode_prefixedLegacy :
    ∃ info, decodeSignedTransaction vectorLib prefixedLegacy = .ok info := by
  have h : decodeSignedTransaction vectorLib prefixedLegacy
      = splitList prefixedLegacy >>= legacyInfo (transactionHash vectorLib prefixedLegacy) := rfl
  rw [h, splitList_prefixedLegacy]
  exact ⟨_, rfl⟩

theorem plainEncoding_plainLegacy : PlainEncoding plainLegacy := by
  refine ⟨0, nonceFive :: otherPieces, .inl rfl, by decide, ?_⟩
  exact (forall₂_plain_iff rfl).mpr ⟨rfl, by decide⟩

theorem decodeSignedTransaction_canonical_iff_plainLegacy :
    (∃ info, decodeSignedTransaction vectorLib plainLegacy = .ok info) ∧
      CanonicallyDecoded plainLegacy := by
  obtain ⟨info, h⟩ := decode_plainLegacy
  exact ⟨⟨info, h⟩, (decodeSignedTransaction_canonical_iff vectorLib (by decide) h).1.mpr
    plainEncoding_plainLegacy⟩

/-- Both are accepted, with the same fields. The second is not what its fields encode to. -/
theorem decodeSignedTransaction_not_canonical :
    (∃ info, decodeSignedTransaction vectorLib plainLegacy = .ok info) ∧
      (∃ info, decodeSignedTransaction vectorLib prefixedLegacy = .ok info) ∧
      plainLegacy ≠ prefixedLegacy ∧
      decodedItems plainLegacy = .ok (0, legacyPayloads) ∧
      decodedItems prefixedLegacy = .ok (0, legacyPayloads) ∧
      ¬CanonicallyDecoded prefixedLegacy := by
  have hplain : decodedItems plainLegacy = .ok (0, legacyPayloads) := by
    have h : decodedItems plainLegacy = (do
      let items ← splitList plainLegacy
      return (0, items)) := rfl
    rw [h, splitList_plainLegacy]
    rfl
  have hprefixed : decodedItems prefixedLegacy = .ok (0, legacyPayloads) := by
    have h : decodedItems prefixedLegacy = (do
      let items ← splitList prefixedLegacy
      return (0, items)) := rfl
    rw [h, splitList_prefixedLegacy]
    rfl
  refine ⟨decode_plainLegacy, decode_prefixedLegacy, by decide, hplain, hprefixed, ?_⟩
  rintro ⟨type, items, hitems, hcanonical⟩
  obtain ⟨rfl, rfl⟩ := Prod.mk.inj (Except.ok.inj (hprefixed.symm.trans hitems))
  exact absurd hcanonical.reproduced (by decide)

end OpenFireblocks.Eth
