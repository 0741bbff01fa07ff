import OpenFireblocks.Go.Basic

/-!
# Public keys and addresses, as `internal/ethcrypto` derives them

The curve arithmetic and Keccak are third-party (`btcec`, `x/crypto/sha3`) and enter as a
`CryptoLib`. What the package adds is how a point becomes bytes, how those become an address, and the
byte layout of a signature.
-/

namespace OpenFireblocks.Eth

open BigEndian Go Outcome

/-- A point of secp256k1. Its coordinates are below the field prime, so they fill 32 bytes. -/
structure Point where
  x : Nat
  y : Nat
  x_lt : x < 2 ^ 256
  y_lt : y < 2 ^ 256

/-- The third-party functions the package calls. -/
structure CryptoLib where
  /-- `sha3.NewLegacyKeccak256` over one slice. -/
  keccak256 : Bytes → Bytes
  keccak256_length : ∀ b, (keccak256 b).length = 32
  /-- `btcecdsa.RecoverCompact` on `[V+27 || R || S]` and a digest. -/
  recoverCompact : Bytes → Bytes → Option Point

/-- `big.Int.FillBytes` into a buffer of `width` bytes the value fits. -/
def fillBytes (width n : Nat) : Bytes :=
  List.replicate (width - (toBytes n).length) 0 ++ toBytes n

/-- The 65-byte uncompressed encoding. -/
def marshalPubkey (p : Point) : Bytes := 4 :: (fillBytes 32 p.x ++ fillBytes 32 p.y)

section

variable (lib : CryptoLib)

def addressBytes (p : Point) : Bytes := (lib.keccak256 (marshalPubkey p).tail).drop 12

/-- EIP-55: a letter is upper case where the nibble of the hash is 8 or more. -/
def checksumAddress (addr : Bytes) : String :=
  let lower := (hexEncodeToString addr).toList
  let hash := (hexEncodeToString (lib.keccak256 (lower.map fun c => UInt8.ofNat c.toNat))).toList
  String.ofList ('0' :: 'x' :: (lower.zip hash).map fun (c, h) =>
    if 'a' ≤ c ∧ c ≤ 'f' ∧ '8' ≤ h then Char.ofNat (c.toNat - 32) else c)

def address (p : Point) : String := checksumAddress lib (addressBytes lib p)

def signatureLength : Nat := 65

/-- The recovery id of a signature, which is written either 0/1 or 27/28. -/
def recoveryID (v : UInt8) : UInt8 := if 27 ≤ v then v - 27 else v

/-- Recovers the signing key from `[R || S || V]`. -/
def sigToPub (digest sig : Bytes) : Result Point :=
  if digest.length ≠ 32 then errorf s!"a digest is 32 bytes, got {digest.length}"
  else if sig.length ≠ signatureLength then
    errorf s!"a signature is {signatureLength} bytes, got {sig.length}"
  else
    let v := recoveryID (sig.getD 64 0)
    if 1 < v then errorf s!"recovery id {sig.getD 64 0} is not 0 or 1"
    else
      match lib.recoverCompact ((v + 27) :: sig.take 64) digest with
      | none => errorf "recovering the public key"
      | some p => .ok p

def recoverAddress (digest sig : Bytes) : Result String := do
  let p ← sigToPub lib digest sig
  return address lib p

end

def parseAddress (s : String) : Result Bytes :=
  let s := strip0x s
  if s.utf8ByteSize ≠ 40 then
    errorf s!"an address is 20 bytes of hex, got {s.utf8ByteSize} characters"
  else
    match hexDecodeString s with
    | none => errorf "address is not hex"
    | some raw => .ok raw

/-- Compares two addresses ignoring EIP-55 case. -/
def equalAddress (a b : String) : Bool :=
  match parseAddress a, parseAddress b with
  | .ok ab, .ok bb => ab == bb
  | _, _ => false

theorem recoverAddress_recoveryID {lib : CryptoLib} {digest sig : Bytes} {addr : String}
    (h : recoverAddress lib digest sig = .ok addr) : recoveryID (sig.getD 64 0) ≤ 1 := by
  obtain ⟨p, hp, _⟩ := bind_eq_ok.mp h
  simp only [sigToPub, ite_errorf_eq_ok] at hp
  obtain ⟨-, -, hv, -⟩ := hp
  exact UInt8.not_lt.mp hv

end OpenFireblocks.Eth
