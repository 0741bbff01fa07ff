import OpenFireblocks.Eth.Decode

/-!
# What the reader reads

`readItem` returns a payload exactly where the bytes begin with an encoding of it
(`readItem_eq_ok`), in all three length regimes. So the reader is the inverse of the encoder
(`splitList_rlpList`). The bytes are a Go slice, so shorter than `2 ^ 63`; without that the prefix
byte of a long string would run over into the range of lists.
-/

namespace OpenFireblocks.Eth

open BigEndian Go Outcome

/-! ## Lengths -/

theorem beUint_append_singleton (bs : Bytes) (c : UInt8) :
    beUint (bs ++ [c]) = beUint bs <<< 8 ||| c.toUInt64 := by
  simp [beUint]

/-- One turn of the loop of `beUint`. The shifted-out bits are lost, as in Go. -/
theorem toNat_shiftLeft_or (v : UInt64) (c : UInt8) :
    (v <<< 8 ||| c.toUInt64).toNat = (v.toNat * 256 + c.toNat) % 2 ^ 64 := by
  have hc : c.toNat < 2 ^ 8 := c.toNat_lt
  have hshift : (v <<< 8).toNat = (v.toNat % 2 ^ 56) <<< 8 := by
    rw [UInt64.toNat_shiftLeft]
    simp only [UInt64.reduceToNat, Nat.reduceMod]
    omega
  rw [UInt64.toNat_or, hshift, UInt8.toNat_toUInt64, ← Nat.shiftLeft_add_eq_or_of_lt hc]
  omega

theorem toNat_beUint (bs : Bytes) : (beUint bs).toNat = toNat bs % 2 ^ 64 := by
  induction bs using List.reverseRecOn with
  | nil => rfl
  | append_singleton bs c ih =>
    rw [beUint_append_singleton, toNat_shiftLeft_or, toNat_append_singleton]
    omega

/-- `beUint` reads back what `bigEndian` wrote. -/
theorem beUint_bigEndian (v : UInt64) : beUint (bigEndian v) = v := by
  apply UInt64.toNat_inj.mp
  rw [toNat_beUint, bigEndian_eq, toNat_toBytes]
  exact Nat.mod_eq_of_lt v.toNat_lt

theorem lenBytes_spec {n : Nat} (h1 : 55 < n) (h2 : n < 2 ^ 63) :
    bigEndian (UInt64.ofNat n) = toBytes n ∧ 1 ≤ (toBytes n).length ∧ (toBytes n).length ≤ 8 := by
  refine ⟨?_, ?_, ?_⟩
  · rw [bigEndian_eq]
    congr 1
    exact Nat.mod_eq_of_lt (by omega)
  · exact List.length_pos_iff.mpr (toBytes_ne_nil (by omega))
  · exact length_toBytes_le_iff.mpr (by omega)

/-! ## The format -/

def kindOffset (isList : Bool) : UInt8 := if isList then 0xc0 else 0x80

/--
`enc` is an item with this payload. This is more than `Item.encode` writes: a single byte below
`0x80` may also stand behind a prefix.
-/
inductive Encodes : Bool → Bytes → Bytes → Prop
  | byte {c : UInt8} (hc : c < 0x80) : Encodes false [c] [c]
  | prefixed (isList : Bool) (x : Bytes) :
    Encodes isList x (rlpLengthPrefix x.length (kindOffset isList) ++ x)

structure Piece where
  isList : Bool
  payload : Bytes
  bytes : Bytes
  encodes : Encodes isList payload bytes

/-! ### What the encoder writes -/

/-- What RLP encodes at the top level of a transaction: a string, or a list whose payload is
already written. -/
inductive Item where
  | str (b : Bytes)
  | list (payload : Bytes)

namespace Item

def encode : Item → Bytes
  | str b => rlpString b
  | list payload => rlpList payload

def payload : Item → Bytes
  | str b => b
  | list payload => payload

end Item

def Item.piece : Item → Piece
  | str b =>
    { isList := false
      payload := b
      bytes := rlpString b
      encodes := by
        unfold rlpString
        split
        · next h =>
          obtain ⟨c, rfl⟩ := List.length_eq_one_iff.mp h.1
          exact .byte h.2
        · exact .prefixed false b }
  | list payload =>
    { isList := true
      payload := payload
      bytes := rlpList payload
      encodes := .prefixed true payload }

@[simp] theorem Item.bytes_piece (item : Item) : item.piece.bytes = item.encode := by
  cases item <;> rfl

@[simp] theorem Item.payload_piece (item : Item) : item.piece.payload = item.payload := by
  cases item <;> rfl

variable {k p : UInt8} {b rest x y payload : Bytes} {n : Nat} {isList : Bool}

/-- The prefix is one byte, or one byte and the length. -/
theorem rlpLengthPrefix_cases (isList : Bool) (hn : n < 2 ^ 63) :
    ∃ p : UInt8,
      (n ≤ 55 ∧ p.toNat = (kindOffset isList).toNat + n ∧
        rlpLengthPrefix n (kindOffset isList) = [p]) ∨
      (55 < n ∧ p.toNat = (kindOffset isList).toNat + 55 + (toBytes n).length ∧
        rlpLengthPrefix n (kindOffset isList) = p :: toBytes n) := by
  have hoff : (kindOffset isList).toNat ≤ 192 := by cases isList <;> decide
  unfold rlpLengthPrefix
  split
  · next hshort =>
    refine ⟨_, .inl ⟨hshort, ?_, rfl⟩⟩
    rw [UInt8.toNat_add, UInt8.toNat_ofNat']
    omega
  · next hlong =>
    obtain ⟨hbe, hk1, hk8⟩ := lenBytes_spec (not_le.mp hlong) hn
    simp only [hbe]
    refine ⟨_, .inr ⟨not_le.mp hlong, ?_, rfl⟩⟩
    rw [UInt8.toNat_add, UInt8.toNat_add, UInt8.toNat_ofNat']
    simp only [UInt8.reduceToNat]
    omega

/-! ## One item -/

theorem slice_middle {x y z : Bytes} {lo hi : Nat} (hlo : lo = x.length)
    (hhi : hi = x.length + y.length) : slice (x ++ (y ++ z)) lo hi = .ok y := by
  rw [hlo, hhi, ← List.append_assoc]
  exact slice_append

theorem slice_rest {x y : Bytes} {lo hi : Nat} (hlo : lo = x.length)
    (hhi : hi = x.length + y.length) : slice (x ++ y) lo hi = .ok y := by
  have h := slice_middle (z := []) hlo hhi
  rwa [List.append_nil] at h

theorem readShort_append (p : UInt8) (x y : Bytes) (msg : String) :
    readShort (p :: (x ++ y)) x.length msg = .ok (x, y) := by
  unfold readShort
  rw [if_neg (by simp only [List.length_cons, List.length_append]; omega)]
  have h1 : slice (p :: (x ++ y)) 1 (1 + x.length) = .ok x :=
    slice_middle (x := [p]) (by simp) (by simp)
  have h2 : slice (p :: (x ++ y)) (1 + x.length) (p :: (x ++ y)).length = .ok y :=
    slice_rest (x := p :: x) (by simp; omega) (by simp; omega)
  rw [h1, h2]
  rfl

/--
`readLong` on an input that holds the length field: the checks in the source's order, with the
sum in exact arithmetic. It panics where the sum wraps.
-/
theorem readLong_eq {lb tail : Bytes} (hk : k.toNat = lb.length) (h1 : 1 ≤ lb.length)
    (h8 : lb.length ≤ 8) (hlen : (p :: (lb ++ tail)).length < 2 ^ 63) :
    readLong (p :: (lb ++ tail)) k =
      if lb.headD 0 = 0 then errorf "non-canonical length with a leading zero byte"
      else if toNat lb ≤ 55 then
        errorf s!"non-canonical: {beUint lb} bytes should use the short form"
      else if 2 ^ 64 ≤ 1 + lb.length + toNat lb then
        .error (.panic "slice bounds out of range")
      else if tail.length < toNat lb then errorf "item runs past the end of the input"
      else .ok (tail.take (toNat lb), tail.drop (toNat lb)) := by
  have hlb : toNat lb < 2 ^ 64 := by
    calc toNat lb < 256 ^ lb.length := toNat_lt lb
      _ ≤ 256 ^ 8 := Nat.pow_le_pow_right (by decide) h8
      _ = 2 ^ 64 := by decide
  have hn : (beUint lb).toNat = toNat lb := by
    rw [toNat_beUint, Nat.mod_eq_of_lt hlb]
  have hstart : (1 + k.toUInt64).toNat = 1 + lb.length := by
    rw [UInt64.toNat_add, UInt8.toNat_toUInt64]
    simp only [UInt64.toNat_one]
    omega
  have hend : (1 + k.toUInt64 + beUint lb).toNat = (1 + lb.length + toNat lb) % 2 ^ 64 := by
    rw [UInt64.toNat_add, hstart, hn]
  have htotal : (p :: (lb ++ tail)).length = 1 + lb.length + tail.length := by
    simp only [List.length_cons, List.length_append]
    omega
  have hsize : (UInt64.ofNat (p :: (lb ++ tail)).length).toNat = 1 + lb.length + tail.length := by
    rw [UInt64.toNat_ofNat_of_lt' (by rw [show UInt64.size = 2 ^ 64 from rfl]; omega), htotal]
  have hslice : slice (p :: (lb ++ tail)) 1 (1 + lb.length) = .ok lb :=
    slice_middle (x := [p]) (by simp) (by simp)
  obtain ⟨first, lb', hcons⟩ : ∃ first lb', lb = first :: lb' := List.exists_cons_of_length_pos h1
  have hindex : index lb 0 = .ok (lb.headD 0) := by rw [hcons]; rfl
  have hplausible : ¬(k = 0 ∨ 8 < k.toNat) := by
    rintro (h0 | h8')
    · rw [h0, UInt8.toNat_zero] at hk
      omega
    · omega
  unfold readLong
  rw [if_neg hplausible, if_neg (by omega), hk, hslice, ok_bind, hindex, ok_bind]
  simp only [UInt64.le_iff_toNat_le, UInt64.lt_iff_toNat_lt, hn, hend,
    UInt64.reduceToNat]
  split
  · rfl
  split
  · rfl
  by_cases hwrap : 2 ^ 64 ≤ 1 + lb.length + toNat lb
  · -- the sum is below `start`, which is within the input, so the check passes
    have hsum : (1 + lb.length + toNat lb) % 2 ^ 64 = 1 + lb.length + toNat lb - 2 ^ 64 := by
      omega
    rw [if_pos hwrap, if_neg (by omega), slice, if_neg (by omega)]
    rfl
  · rw [Nat.mod_eq_of_lt (by omega)]
    split
    · rw [if_pos (by omega)]
    have htake : (tail.take (toNat lb)).length = toNat lb := by
      rw [List.length_take]
      omega
    have hsplit : p :: (lb ++ tail)
        = (p :: lb) ++ (tail.take (toNat lb) ++ tail.drop (toNat lb)) := by
      rw [List.take_append_drop, List.cons_append]
    rw [if_neg (by omega), htotal, hsplit,
      slice_middle (by simp; omega) (by rw [htake]; simp; omega), ok_bind, ← List.append_assoc,
      slice_rest (by simp [htake]; omega) (by simp; omega)]
    rfl

theorem readLong_cases (p : UInt8) (rest : Bytes) (h1 : 1 ≤ k.toNat) (h8 : k.toNat ≤ 8) :
    (∃ msg, readLong (p :: rest) k = errorf msg) ∨
      ∃ lb tail, rest = lb ++ tail ∧ lb.length = k.toNat := by
  by_cases hroom : rest.length < k.toNat
  · left
    refine ⟨"length field runs past the end of the input", ?_⟩
    have hplausible : ¬(k = 0 ∨ 8 < k.toNat) := by
      rintro (h0 | h8')
      · rw [h0, UInt8.toNat_zero] at h1
        omega
      · omega
    unfold readLong
    rw [if_neg hplausible, if_pos (by rw [List.length_cons]; omega)]
  · right
    refine ⟨rest.take k.toNat, rest.drop k.toNat, (List.take_append_drop _ _).symm, ?_⟩
    rw [List.length_take]
    omega

theorem readLong_eq_ok (h1 : 1 ≤ k.toNat) (h8 : k.toNat ≤ 8) (hlen : (p :: rest).length < 2 ^ 63)
    (h : readLong (p :: rest) k = .ok (x, y)) :
    55 < x.length ∧ (toBytes x.length).length = k.toNat ∧ rest = toBytes x.length ++ (x ++ y) := by
  rcases readLong_cases p rest h1 h8 with ⟨msg, he⟩ | ⟨lb, tail, rfl, hlb⟩
  · simp [he] at h
  rw [readLong_eq hlb.symm (by omega) (by omega) hlen, ite_errorf_eq_ok, ite_errorf_eq_ok] at h
  obtain ⟨hfirst, hshort, h⟩ := h
  split at h
  · cases h
  split at h
  · simp at h
  cases h
  obtain ⟨first, lb', rfl⟩ := List.exists_cons_of_length_pos (show 0 < lb.length by omega)
  have hx : (tail.take (toNat (first :: lb'))).length = toNat (first :: lb') := by
    rw [List.length_take]
    omega
  have hfirst : first ≠ 0 := hfirst
  rw [hx, toBytes_toNat hfirst, List.take_append_drop]
  exact ⟨by omega, hlb, rfl⟩

theorem toNat_kindOffset (isList : Bool) :
    (kindOffset isList).toNat = if isList then 192 else 128 := by
  cases isList <;> rfl

theorem readItem_cases (isList : Bool) (p : UInt8) (rest : Bytes) :
    (isList = false ∧ p.toNat < 128 ∧ readItem (p :: rest) isList = .ok ([p], rest)) ∨
    (∃ n msg, n ≤ 55 ∧ p.toNat = (kindOffset isList).toNat + n ∧
      readItem (p :: rest) isList = readShort (p :: rest) n msg) ∨
    (∃ k : UInt8, 1 ≤ k.toNat ∧ k.toNat ≤ 8 ∧
      p.toNat = (kindOffset isList).toNat + 55 + k.toNat ∧
      readItem (p :: rest) isList = readLong (p :: rest) k) ∨
    ∃ msg, readItem (p :: rest) isList = errorf msg ∧
      ¬((kindOffset isList).toNat ≤ p.toNat ∧ p.toNat ≤ (kindOffset isList).toNat + 63) := by
  have hp : p.toNat < 256 := p.toNat_lt
  have hsub : ∀ a : UInt8, a.toNat ≤ p.toNat → (p - a).toNat = p.toNat - a.toNat := by
    intro a ha
    exact UInt8.toNat_sub_of_le _ _ (UInt8.le_iff_toNat_le.mpr ha)
  have h80 := hsub 0x80
  have hb7 := hsub 0xb7
  have hc0 := hsub 0xc0
  have hf7 := hsub 0xf7
  simp only [readItem, UInt8.lt_iff_toNat_lt, UInt8.le_iff_toNat_le, UInt8.reduceToNat,
    toNat_kindOffset] at h80 hb7 hc0 hf7 ⊢
  cases isList with
  | false =>
    simp only [Bool.false_eq_true, if_false]
    split
    · next h => exact .inl ⟨trivial, h, rfl⟩
    split
    · exact .inr (.inl ⟨_, _, by omega, by omega, rfl⟩)
    split
    · exact .inr (.inr (.inl ⟨_, by omega, by omega, by omega, rfl⟩))
    split <;> exact .inr (.inr (.inr ⟨_, rfl, by omega⟩))
  | true =>
    simp only [if_true]
    split
    · exact .inr (.inr (.inr ⟨_, rfl, by omega⟩))
    split
    · exact .inr (.inr (.inr ⟨_, rfl, by omega⟩))
    split
    · exact .inr (.inr (.inr ⟨_, rfl, by omega⟩))
    split
    · exact .inr (.inl ⟨_, _, by omega, by omega, rfl⟩)
    · exact .inr (.inr (.inl ⟨_, by omega, by omega, by omega, rfl⟩))

theorem readShort_eq_ok {msg : String} (h : readShort (p :: rest) n msg = .ok (x, y)) :
    x.length = n ∧ rest = x ++ y := by
  unfold readShort at h
  split at h
  · simp at h
  obtain ⟨payload, hpayload, h⟩ := bind_eq_ok.mp h
  obtain ⟨tail, htail, h⟩ := bind_eq_ok.mp h
  cases h
  obtain ⟨_, hle, rfl⟩ := slice_eq_ok hpayload
  obtain ⟨_, _, rfl⟩ := slice_eq_ok htail
  rw [List.take_length, Nat.add_comm 1 n, List.take_succ_cons,
    List.drop_succ_cons, List.drop_zero]
  rw [List.length_cons] at hle
  exact ⟨by rw [List.length_take]; omega, (List.take_append_drop n rest).symm⟩

/-- **An item is read exactly where the input begins with an encoding of it.** -/
theorem readItem_eq_ok (hlen : b.length < 2 ^ 63) :
    readItem b isList = .ok (x, y) ↔ ∃ enc, Encodes isList x enc ∧ b = enc ++ y := by
  constructor
  · intro h
    cases b with
    | nil => simp [readItem] at h
    | cons p rest =>
      rcases readItem_cases isList p rest with ⟨rfl, hp, he⟩ | ⟨n, msg, hn, hp, he⟩ |
        ⟨k, h1, h8, hp, he⟩ | ⟨msg, he, _⟩
      · cases he.symm.trans h
        exact ⟨[p], .byte (UInt8.lt_iff_toNat_lt.mpr hp), rfl⟩
      · obtain ⟨rfl, rfl⟩ := readShort_eq_ok (he.symm.trans h)
        obtain ⟨q, ⟨_, hq, hwritten⟩ | ⟨hlong, _⟩⟩ := rlpLengthPrefix_cases isList (n := x.length)
          (by omega)
        · obtain rfl := UInt8.toNat_inj.mp (hp.trans hq.symm)
          refine ⟨_, .prefixed isList x, ?_⟩
          rw [hwritten]
          rfl
        · omega
      · obtain ⟨hx, hk, rfl⟩ := readLong_eq_ok h1 h8 hlen (he.symm.trans h)
        simp only [List.length_cons, List.length_append] at hlen
        obtain ⟨q, ⟨hshort, _⟩ | ⟨_, hq, hwritten⟩⟩ := rlpLengthPrefix_cases isList (n := x.length)
          (by omega)
        · omega
        · obtain rfl := UInt8.toNat_inj.mp (hp.trans (hk ▸ hq.symm))
          refine ⟨_, .prefixed isList x, ?_⟩
          rw [hwritten, List.append_assoc, List.cons_append]
      · simp [he] at h
  · rintro ⟨enc, henc, rfl⟩
    cases henc with
    | byte hc =>
      simp only [List.cons_append, List.nil_append, readItem, if_pos hc, Bool.false_eq_true,
        if_false]
    | prefixed =>
      have hx : x.length < 2 ^ 63 := by
        simp only [List.length_append] at hlen
        omega
      obtain ⟨p, ⟨hshort, hp, hwritten⟩ | ⟨hlong, hp, hwritten⟩⟩ := rlpLengthPrefix_cases isList hx
      · rw [hwritten, List.append_assoc, List.singleton_append]
        rcases readItem_cases isList p (x ++ y) with ⟨rfl, hlow, _⟩ | ⟨n, msg, _, hn, he⟩ |
          ⟨k, _, _, hk, _⟩ | ⟨_, _, hout⟩
        · simp [toNat_kindOffset] at hp
          omega
        · obtain rfl : n = x.length := by omega
          rw [he]
          exact readShort_append p x y msg
        · omega
        · omega
      · obtain ⟨-, h1, h8⟩ := lenBytes_spec hlong hx
        rw [hwritten, List.append_assoc, List.cons_append] at hlen ⊢
        rcases readItem_cases isList p (toBytes x.length ++ (x ++ y)) with ⟨rfl, hlow, _⟩ |
          ⟨n, _, hn, hp', _⟩ | ⟨k, _, _, hk, he⟩ | ⟨_, _, hout⟩
        · simp [toNat_kindOffset] at hp
          omega
        · omega
        · obtain ⟨first, lb, hlb⟩ := List.exists_cons_of_length_pos h1
          have hfirst : (toBytes x.length).headD 0 ≠ 0 := by
            rw [hlb]
            exact head_toBytes_ne_zero hlb
          rw [he, readLong_eq (by omega) h1 h8 hlen, if_neg hfirst, toNat_toBytes,
            if_neg (not_le.mpr hlong), if_neg (by omega), if_neg (by simp), List.take_left,
            List.drop_left]
        · omega

/-- Prefixes of strings stop short of `0xc0`, where those of lists begin. -/
theorem head_rlpLengthPrefix (isList : Bool) (hn : n < 2 ^ 63) :
    ∃ p tail, rlpLengthPrefix n (kindOffset isList) = p :: tail ∧ decide (0xc0 ≤ p) = isList := by
  have hkind : ∀ {p : UInt8} {m : Nat}, m ≤ 63 → p.toNat = (kindOffset isList).toNat + m →
      decide (0xc0 ≤ p) = isList := by
    intro p m hm hp
    rw [toNat_kindOffset] at hp
    cases isList <;> simp [UInt8.le_iff_toNat_le] at hp ⊢ <;> omega
  obtain ⟨p, ⟨hshort, hp, hwritten⟩ | ⟨hlong, hp, hwritten⟩⟩ := rlpLengthPrefix_cases isList hn
  · exact ⟨p, [], hwritten, hkind (by omega) hp⟩
  · obtain ⟨-, -, h8⟩ := lenBytes_spec hlong hn
    exact ⟨p, _, hwritten, hkind (m := 55 + (toBytes n).length) (by omega) (by omega)⟩

theorem head_encodes {enc : Bytes} (h : Encodes isList x enc) (hlen : enc.length < 2 ^ 63) :
    ∃ p tail, enc = p :: tail ∧ decide (0xc0 ≤ p) = isList := by
  cases h with
  | @byte c hc =>
    refine ⟨c, [], rfl, ?_⟩
    rw [UInt8.lt_iff_toNat_lt] at hc
    simp only [UInt8.reduceToNat] at hc
    rw [decide_eq_false_iff_not, UInt8.le_iff_toNat_le]
    simp only [UInt8.reduceToNat]
    omega
  | prefixed =>
    rw [List.length_append] at hlen
    obtain ⟨p, tail, hp, hkind⟩ := head_rlpLengthPrefix isList (n := x.length) (by omega)
    exact ⟨p, tail ++ x, by rw [hp]; rfl, hkind⟩

/-- `readAny` takes the kind from the first byte. -/
theorem readAny_eq_ok (hlen : b.length < 2 ^ 63) :
    readAny b = .ok (x, y) ↔ ∃ piece : Piece, piece.payload = x ∧ b = piece.bytes ++ y := by
  constructor
  · intro h
    cases b with
    | nil => simp [readAny] at h
    | cons =>
      obtain ⟨enc, henc, hb⟩ := (readItem_eq_ok hlen).mp h
      exact ⟨⟨_, x, enc, henc⟩, rfl, hb⟩
  · rintro ⟨⟨isList, x, enc, henc⟩, rfl, rfl⟩
    simp only [List.length_append] at hlen
    obtain ⟨p, tail, rfl, rfl⟩ := head_encodes henc (by omega)
    exact (readItem_eq_ok (by rw [List.length_append]; omega)).mpr ⟨_, henc, rfl⟩

/-! ## A list of items -/

theorem bytes_ne_nil (piece : Piece) : piece.bytes ≠ [] := by
  obtain ⟨isList, x, enc, henc⟩ := piece
  cases henc with
  | byte hc => simp
  | prefixed =>
    unfold rlpLengthPrefix
    split <;> simp

/-- One turn of the loop of `splitList`. -/
theorem splitItems_eq (hb : b ≠ []) :
    splitItems b = (do
      let (item, remaining) ← readAny b
      let items ← splitItems remaining
      return item :: items) := by
  rw [splitItems, if_neg hb]
  split
  · next e he => rw [he]; rfl
  next item remaining he =>
  rw [he, ok_bind]
  simp only
  cases splitItems remaining <;> rfl

/-- **The items of a list are the payloads of the pieces it falls into.** -/
theorem splitItems_eq_ok {items : List Bytes} (hlen : b.length < 2 ^ 63) :
    splitItems b = .ok items ↔
      ∃ pieces : List Piece, pieces.map Piece.payload = items ∧
        b = concat (pieces.map Piece.bytes) := by
  constructor
  · intro h
    induction items generalizing b with
    | nil =>
      by_cases hb : b = []
      · exact ⟨[], rfl, hb⟩
      rw [splitItems_eq hb] at h
      obtain ⟨⟨item, remaining⟩, _, h⟩ := bind_eq_ok.mp h
      obtain ⟨items', _, h⟩ := bind_eq_ok.mp h
      cases h
    | cons item items ih =>
      by_cases hb : b = []
      · rw [hb, splitItems] at h
        simp at h
      · rw [splitItems_eq hb] at h
        obtain ⟨⟨item', remaining⟩, hread, h⟩ := bind_eq_ok.mp h
        obtain ⟨items', hsplit, h⟩ := bind_eq_ok.mp h
        cases h
        obtain ⟨piece, rfl, rfl⟩ := (readAny_eq_ok hlen).mp hread
        rw [List.length_append] at hlen
        obtain ⟨pieces, hitems, hrest⟩ := ih (by omega) hsplit
        refine ⟨piece :: pieces, by rw [List.map_cons, hitems], ?_⟩
        rw [hrest]
        simp [concat]
  · rintro ⟨pieces, rfl, rfl⟩
    induction pieces with
    | nil =>
      rw [splitItems]
      simp [concat]
    | cons piece pieces ih =>
      simp only [concat, List.map_cons, List.flatten_cons] at hlen ih ⊢
      have hread := (readAny_eq_ok hlen).mpr ⟨piece, rfl, rfl⟩
      rw [List.length_append] at hlen
      rw [splitItems_eq (by simp [bytes_ne_nil piece]), hread, ok_bind]
      simp only
      rw [ih (by omega)]
      rfl

theorem encodes_list {enc : Bytes} : Encodes true payload enc ↔ enc = rlpList payload := by
  constructor
  · rintro ⟨⟩
    rfl
  · rintro rfl
    exact .prefixed true payload

theorem length_payload_lt (h : (rlpList payload).length < 2 ^ 63) : payload.length < 2 ^ 63 := by
  rw [rlpList, List.length_append] at h
  omega

theorem readItem_rlpList (hlen : (rlpList payload).length < 2 ^ 63) :
    readItem (rlpList payload) true = .ok (payload, []) :=
  (readItem_eq_ok hlen).mpr ⟨_, encodes_list.mpr rfl, (List.append_nil _).symm⟩

theorem splitList_of_rlpList (hlen : (rlpList payload).length < 2 ^ 63) :
    splitList (rlpList payload) = splitItems payload := by
  unfold splitList
  rw [readItem_rlpList hlen]
  simp

/-- **A list is accepted exactly if it is one list item and its payload falls into pieces.** -/
theorem splitList_eq_ok {items : List Bytes} (hlen : b.length < 2 ^ 63) :
    splitList b = .ok items ↔
      ∃ pieces : List Piece, pieces.map Piece.payload = items ∧
        b = rlpList (concat (pieces.map Piece.bytes)) := by
  constructor
  · intro h
    obtain ⟨⟨payload, rest⟩, hread, hrest⟩ := bind_eq_ok.mp h
    obtain ⟨enc, henc, hb⟩ := (readItem_eq_ok hlen).mp hread
    simp only at hrest
    split at hrest
    · simp at hrest
    next hnil =>
    obtain rfl := List.length_eq_zero_iff.mp (not_not.mp hnil)
    obtain rfl : b = rlpList payload := by rw [hb, List.append_nil, encodes_list.mp henc]
    obtain ⟨pieces, hitems, hpieces⟩ := (splitItems_eq_ok (length_payload_lt hlen)).mp hrest
    exact ⟨pieces, hitems, by rw [hpieces]⟩
  · rintro ⟨pieces, hitems, rfl⟩
    rw [splitList_of_rlpList hlen]
    exact (splitItems_eq_ok (length_payload_lt hlen)).mpr ⟨pieces, hitems, rfl⟩

/-- **A list is read back to its items' payloads.** -/
theorem splitList_rlpList (items : List Item)
    (hlen : (rlpList (concat (items.map Item.encode))).length < 2 ^ 63) :
    splitList (rlpList (concat (items.map Item.encode))) = .ok (items.map Item.payload) := by
  refine (splitList_eq_ok hlen).mpr ⟨items.map Item.piece, ?_, ?_⟩ <;> simp [Function.comp_def]

/-- **RLP lists are uniquely decodable.** -/
theorem payloads_eq_of_rlpList_eq {items items' : List Item}
    (hlen : (rlpList (concat (items.map Item.encode))).length < 2 ^ 63)
    (h : rlpList (concat (items.map Item.encode)) = rlpList (concat (items'.map Item.encode))) :
    items.map Item.payload = items'.map Item.payload := by
  have h1 := splitList_rlpList items hlen
  have h2 := splitList_rlpList items' (h ▸ hlen)
  rw [h, h2] at h1
  exact (Except.ok.inj h1).symm

end OpenFireblocks.Eth
