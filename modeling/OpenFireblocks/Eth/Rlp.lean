import OpenFireblocks.Go.Basic

/-!
# RLP, as `internal/ethtypes/rlp.go` writes it

Integers are byte strings without leading zeros, so zero is the empty string. `rlpBig` panics on
a negative integer; the model keeps the panic as a `Fault`.
-/

namespace OpenFireblocks.Eth

open BigEndian Go Outcome

/-! ## Encoding -/

/-- The loop of `bigEndian`. `i` is the index into the eight-byte buffer filled from its end. -/
def bigEndianLoop : Nat → UInt64 → Bytes → Bytes
  | 0, _, buf => buf
  | i + 1, v, buf => if 0 < v then bigEndianLoop i (v >>> 8) (v.toUInt8 :: buf) else buf

/-- A `uint64` with no leading zero bytes. -/
def bigEndian (v : UInt64) : Bytes :=
  if v = 0 then [] else bigEndianLoop 8 v []

/-- The prefix of a string (offset `0x80`) or a list (offset `0xc0`). -/
def rlpLengthPrefix (length : Nat) (offset : UInt8) : Bytes :=
  if length ≤ 55 then [offset + UInt8.ofNat length]
  else
    let lenBytes := bigEndian (UInt64.ofNat length)
    (offset + 55 + UInt8.ofNat lenBytes.length) :: lenBytes

def rlpString (b : Bytes) : Bytes :=
  if b.length = 1 ∧ b.headD 0 < 0x80 then [b.headD 0]
  else rlpLengthPrefix b.length 0x80 ++ b

/-- Encodes an already concatenated list payload. -/
def rlpList (payload : Bytes) : Bytes := rlpLengthPrefix payload.length 0xc0 ++ payload

def rlpUint (v : UInt64) : Bytes := rlpString (bigEndian v)

/-- A `*big.Int`, `nil` included. -/
def rlpBig : Option Int → Result Bytes
  | none => .ok (rlpString [])
  | some v =>
    if v < 0 then .error (.panic "ethtypes: refusing to RLP-encode a negative integer")
    else .ok (rlpString (toBytes v.toNat))

def concat (items : List Bytes) : Bytes := items.flatten

/-! ## Integers are shortest byte strings -/

theorem toNat_shiftRight_eight (v : UInt64) : (v >>> 8).toNat = v.toNat / 256 := by
  simp [Nat.shiftRight_eq_div_pow]

theorem toUInt8_eq_ofNat (v : UInt64) : v.toUInt8 = UInt8.ofNat (v.toNat % 256) := by
  apply UInt8.toNat_inj.mp
  simp

/-- The loop writes what is left of `v` in front of what is already in the buffer. -/
theorem bigEndianLoop_eq (i : Nat) : ∀ (v : UInt64) (buf : Bytes), v.toNat < 256 ^ i →
    bigEndianLoop i v buf = toBytes v.toNat ++ buf := by
  induction i with
  | zero =>
    intro v buf hv
    have hz : v.toNat = 0 := by omega
    simp [bigEndianLoop, hz]
  | succ i ih =>
    intro v buf hv
    rw [bigEndianLoop]
    split
    · next hpos =>
      have hn : 0 < v.toNat := by simpa using UInt64.lt_iff_toNat_lt.mp hpos
      rw [ih, toNat_shiftRight_eight, toBytes_of_pos hn, toUInt8_eq_ofNat, List.append_assoc]
      · rfl
      · rw [toNat_shiftRight_eight, Nat.div_lt_iff_lt_mul (by decide)]
        exact hv
    · next hpos =>
      have hz : v.toNat = 0 := by
        have := mt UInt64.lt_iff_toNat_lt.mpr hpos
        simpa using this
      simp [hz]

theorem bigEndian_eq (v : UInt64) : bigEndian v = toBytes v.toNat := by
  unfold bigEndian
  split
  · next h => rw [h]; simp
  · rw [bigEndianLoop_eq 8 v [] (by have := v.toNat_lt; omega), List.append_nil]

/-- The bytes `rlpBig` puts into the item of a `*big.Int`. -/
def bigPayload (v : Option Int) : Bytes := toBytes (v.getD 0).toNat

variable {v : Option Int}

theorem rlpBig_of_nonneg (h : 0 ≤ v.getD 0) : rlpBig v = .ok (rlpString (bigPayload v)) := by
  cases v with
  | none => simp [rlpBig, bigPayload]
  | some v =>
    have hv : ¬ v < 0 := by simpa using h
    simp [rlpBig, bigPayload, hv]

/-- `rlpBig` returns only for an integer that is not negative. -/
theorem rlpBig_eq_ok {e : Bytes} (h : rlpBig v = .ok e) :
    0 ≤ v.getD 0 ∧ e = rlpString (bigPayload v) := by
  have hv : 0 ≤ v.getD 0 := by
    cases v with
    | none => simp
    | some v =>
      by_contra hneg
      have hlt : v < 0 := by simpa using hneg
      simp [rlpBig, hlt] at h
  rw [rlpBig_of_nonneg hv] at h
  exact ⟨hv, (Except.ok.inj h).symm⟩

theorem rlpBig_bind_eq_ok {α : Type} {f : Bytes → Result α} {a : α} :
    rlpBig v >>= f = .ok a ↔ 0 ≤ v.getD 0 ∧ f (rlpString (bigPayload v)) = .ok a := by
  constructor
  · intro h
    obtain ⟨e, he, h⟩ := Outcome.bind_eq_ok.mp h
    obtain ⟨hv, rfl⟩ := rlpBig_eq_ok he
    exact ⟨hv, h⟩
  · rintro ⟨hv, h⟩
    rw [rlpBig_of_nonneg hv]
    exact h

/-- The bytes of an integer determine it, `nil` counting as zero. -/
theorem bigPayload_inj {w : Option Int} (hv : 0 ≤ v.getD 0) (hw : 0 ≤ w.getD 0)
    (h : bigPayload v = bigPayload w) : v.getD 0 = w.getD 0 := by
  have := toBytes_injective h
  omega

end OpenFireblocks.Eth
