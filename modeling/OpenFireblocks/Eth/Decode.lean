import OpenFireblocks.Eth.Transaction

/-!
# Reading a signed transaction back, as `internal/ethtypes/decode.go` does

The reader is written separately from the encoder. Lengths in the long form are `uint64` and the
bounds check adds two of them, so the model keeps them as `UInt64` and lets the sum wrap.
-/

namespace OpenFireblocks.Eth

open BigEndian Go Outcome

def beUint (b : Bytes) : UInt64 := b.foldl (fun v c => v <<< 8 ||| c.toUInt64) 0

def readLong (b : Bytes) (lenOfLen : UInt8) : Result (Bytes × Bytes) :=
  if lenOfLen = 0 ∨ 8 < lenOfLen.toNat then errorf s!"implausible length-of-length {lenOfLen}"
  else if b.length < 1 + lenOfLen.toNat then errorf "length field runs past the end of the input"
  else do
    let lengthBytes ← slice b 1 (1 + lenOfLen.toNat)
    let first ← index lengthBytes 0
    let n := beUint lengthBytes
    let start : UInt64 := 1 + lenOfLen.toUInt64
    if first = 0 then errorf "non-canonical length with a leading zero byte"
    else if n ≤ 55 then errorf s!"non-canonical: {n} bytes should use the short form"
    else if UInt64.ofNat b.length < start + n then errorf "item runs past the end of the input"
    else do
      let payload ← slice b start.toNat (start + n).toNat
      let rest ← slice b (start + n).toNat b.length
      return (payload, rest)

/-- The payload of an item of `n` bytes in the short form, and what follows it. -/
def readShort (b : Bytes) (n : Nat) (msg : String) : Result (Bytes × Bytes) :=
  if b.length < 1 + n then errorf msg
  else do
    let payload ← slice b 1 (1 + n)
    let rest ← slice b (1 + n) b.length
    return (payload, rest)

def readItem (b : Bytes) (wantList : Bool) : Result (Bytes × Bytes) :=
  match b with
  | [] => errorf "unexpected end of input"
  | pfx :: rest =>
    if pfx < 0x80 then
      if wantList then errorf "expected a list, found a single byte" else .ok ([pfx], rest)
    else if pfx ≤ 0xb7 then
      if wantList then errorf "expected a list, found a string"
      else readShort (pfx :: rest) (pfx - 0x80).toNat "string runs past the end of the input"
    else if pfx ≤ 0xbf then
      if wantList then errorf "expected a list, found a string"
      else readLong (pfx :: rest) (pfx - 0xb7)
    else if pfx ≤ 0xf7 then
      if wantList then
        readShort (pfx :: rest) (pfx - 0xc0).toNat "list runs past the end of the input"
      else errorf "expected a string, found a list"
    else
      if wantList then readLong (pfx :: rest) (pfx - 0xf7)
      else errorf "expected a string, found a list"

def readAny (b : Bytes) : Result (Bytes × Bytes) :=
  match b with
  | [] => errorf "unexpected end of input"
  | pfx :: rest => readItem (pfx :: rest) (0xc0 ≤ pfx)

/-! ## An item is at least one byte long -/

variable {b : Bytes} {r : Bytes × Bytes}

theorem slice_eq_ok {c : Bytes} {lo hi : Nat} (h : slice b lo hi = .ok c) :
    lo ≤ hi ∧ hi ≤ b.length ∧ c = (b.take hi).drop lo := by
  unfold slice at h
  split at h
  · next hb => exact ⟨hb.1, hb.2, (Except.ok.inj h).symm⟩
  · simp at h

/-- What a slice from `lo` on leaves is shorter, when `lo` is not zero. -/
theorem length_slice_lt {c : Bytes} {lo hi : Nat} (h : slice b lo hi = .ok c) (hlo : 0 < lo)
    (hb : b ≠ []) : c.length < b.length := by
  obtain ⟨_, hhi, rfl⟩ := slice_eq_ok h
  simp only [List.length_drop, List.length_take]
  omega

theorem readShort_rest_lt {n : Nat} {msg : String} (hb : b ≠ []) (h : readShort b n msg = .ok r) :
    r.2.length < b.length := by
  unfold readShort at h
  split at h
  · simp at h
  obtain ⟨payload, _, h⟩ := bind_eq_ok.mp h
  obtain ⟨rest, hrest, h⟩ := bind_eq_ok.mp h
  cases h
  exact length_slice_lt hrest (by omega) hb

theorem readLong_rest_lt {k : UInt8} (hb : b ≠ []) (h : readLong b k = .ok r) :
    r.2.length < b.length := by
  unfold readLong at h
  split at h
  · simp at h
  split at h
  · simp at h
  obtain ⟨lengthBytes, _, h⟩ := bind_eq_ok.mp h
  obtain ⟨first, _, h⟩ := bind_eq_ok.mp h
  simp only at h
  split at h
  · simp at h
  split at h
  · simp at h
  split at h
  · simp at h
  obtain ⟨payload, hpayload, h⟩ := bind_eq_ok.mp h
  obtain ⟨rest, hrest, h⟩ := bind_eq_ok.mp h
  cases h
  -- the payload was cut at `start`, which is at least 1, so the rest begins beyond it
  have hstart : 0 < (1 + k.toUInt64).toNat := by
    rw [UInt64.toNat_add]
    simp only [UInt64.toNat_one, UInt8.toNat_toUInt64]
    omega
  exact length_slice_lt hrest (lt_of_lt_of_le hstart (slice_eq_ok hpayload).1) hb

theorem readItem_rest_lt {w : Bool} (h : readItem b w = .ok r) : r.2.length < b.length := by
  cases b with
  | nil => simp [readItem] at h
  | cons =>
    simp only [readItem] at h
    split at h
    · split at h
      · simp at h
      · cases h; simp
    split at h
    · split at h
      · simp at h
      · exact readShort_rest_lt (by simp) h
    split at h
    · split at h
      · simp at h
      · exact readLong_rest_lt (by simp) h
    split at h
    · split at h
      · exact readShort_rest_lt (by simp) h
      · simp at h
    · split at h
      · exact readLong_rest_lt (by simp) h
      · simp at h

theorem readAny_rest_lt (h : readAny b = .ok r) : r.2.length < b.length := by
  cases b with
  | nil => simp [readAny] at h
  | cons => exact readItem_rest_lt h

/-! ## Transactions -/

/-- The loop of `splitList`. -/
def splitItems (payload : Bytes) : Result (List Bytes) :=
  if payload = [] then .ok []
  else
    match _h : readAny payload with
    | .error e => .error e
    | .ok (item, remaining) =>
      match splitItems remaining with
      | .error e => .error e
      | .ok items => .ok (item :: items)
termination_by payload.length
decreasing_by exact readAny_rest_lt _h

def splitList (b : Bytes) : Result (List Bytes) := do
  let (payload, rest) ← readItem b true
  if rest.length ≠ 0 then errorf s!"{rest.length} trailing bytes after the transaction"
  else splitItems payload

def addressOrNil (b : Bytes) : Option Bytes := if b.length = 0 then none else some b

/-- What can be read back out of a signed transaction. -/
structure SignedTxInfo where
  type : UInt8
  hash : Bytes
  nonce : UInt64
  gas : UInt64
  value : Option Int
  recipient : Option Bytes
  chainID : Option Int

def transactionHash (lib : CryptoLib) (raw : Bytes) : Bytes := lib.keccak256 raw

/-- The fields of an EIP-1559 transaction. -/
def dynamicInfo (hash : Bytes) (items : List Bytes) : Result SignedTxInfo :=
  match items with
  | [chainID, nonce, _tip, _maxFee, gas, recipient, value, _data, _accessList, _v, _r, _s] =>
    .ok { type := dynamicFeeTxType, hash := hash, nonce := beUint nonce, gas := beUint gas,
          value := some (toNat value), recipient := addressOrNil recipient,
          chainID := some (toNat chainID) }
  | _ => errorf s!"an EIP-1559 transaction has 12 fields, got {items.length}"

def legacyInfo (hash : Bytes) (items : List Bytes) : Result SignedTxInfo :=
  match items with
  | [nonce, _gasPrice, gas, recipient, value, _data, v, _r, _s] =>
    .ok { type := 0, hash := hash, nonce := beUint nonce, gas := beUint gas,
          value := some (toNat value), recipient := addressOrNil recipient,
          chainID := if 35 ≤ toNat v then some ((toNat v - 35) >>> 1 : Nat) else none }
  | _ => errorf s!"a legacy transaction has 9 fields, got {items.length}"

/-- Reads the fields the platform uses. -/
def decodeSignedTransaction (lib : CryptoLib) (raw : Bytes) : Result SignedTxInfo :=
  match raw with
  | [] => errorf "empty transaction"
  | first :: rest =>
    if first < 0xc0 then
      if first ≠ dynamicFeeTxType then
        let type := String.ofList (Nat.toDigits 16 first.toNat)
        errorf s!"transaction type 0x{type} is not one this platform produces"
      else do
        let items ← splitList rest
        dynamicInfo (transactionHash lib raw) items
    else do
      let items ← splitList raw
      legacyInfo (transactionHash lib raw) items

end OpenFireblocks.Eth
