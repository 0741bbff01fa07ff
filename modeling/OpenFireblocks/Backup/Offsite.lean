import OpenFireblocks.Lib.Aead

/-!
# Off-site backup objects

`encrypt` and `decrypt` of `backup/offsite.go`. A file is sealed in chunks of 1 MiB: the counter of
a chunk is in its nonce and, with whether it is the last one, in its associated data.

* A `Source` is what `decrypt` reads from. A Go reader may report `io.EOF` together with the last
  bytes, as the body of an HTTP response with a `Content-Length` does, or on the next read.
* Reading the file that is encrypted does not fail.
-/

namespace OpenFireblocks.Backup

open BigEndian

/-! ## Chunks -/

/-- `"OFBBK1\x00\x00"`. -/
def offsiteMagic : Bytes := [79, 70, 66, 66, 75, 49, 0, 0]

def chunkSize : Nat := 2 ^ 20

def prefixLen : Nat := 8

/-- `aead.Overhead()` of GCM. -/
def overhead : Nat := 16

/-- `binary.BigEndian.PutUint32`. -/
def putUint32 (n : UInt32) : Bytes := fixed 4 n.toNat

/-- The prefix is of `prefixLen` bytes. -/
def chunkNonce (noncePrefix : Bytes) (counter : UInt32) : Bytes := noncePrefix ++ putUint32 counter

def chunkAAD (counter : UInt32) (last : Bool) : Bytes :=
  putUint32 counter ++ [if last then 1 else 0]

def frame (sealed : Bytes) : Bytes := putUint32 (UInt32.ofNat sealed.length) ++ sealed

/-! ## Encrypting -/

/-- The loop of `encrypt`. The last chunk is the one after which nothing remains, which may be a full
one, and the only chunk of an empty file. -/
def encryptChunks (aead : Aead) (noncePrefix : Bytes) (counter : UInt32) (src : Bytes) :
    Except String Bytes :=
  let buf := src.take chunkSize
  let rest := src.drop chunkSize
  let chunk := frame (aead.sealBytes (chunkNonce noncePrefix counter) buf (chunkAAD counter rest.isEmpty))
  if hlast : rest.isEmpty then .ok chunk
  else if counter + 1 = 0 then .error "file too large for one backup object"
  else do
    let out ← encryptChunks aead noncePrefix (counter + 1) rest
    return chunk ++ out
termination_by src.length
decreasing_by
  have hne : ¬ (src.drop chunkSize).isEmpty = true := hlast
  have hlen : 0 < (src.drop chunkSize).length :=
    List.length_pos_iff.mpr fun h => hne (List.isEmpty_iff.mpr h)
  have hsize : 0 < chunkSize := by decide
  rw [List.length_drop] at hlen ⊢
  omega

def encrypt (aead : Aead) (noncePrefix src : Bytes) : Except String Bytes := do
  let chunks ← encryptChunks aead noncePrefix 0 src
  return offsiteMagic ++ noncePrefix ++ chunks

/-! ## Decrypting -/

/-- What is left to read, and whether the end is reported with the last bytes. -/
structure Source where
  bytes : Bytes
  eofWithData : Bool

/-- `src.Read(make([]byte, 1))` returns `io.EOF`. -/
def Source.readsEOF (src : Source) : Bool :=
  src.bytes.isEmpty || (src.eofWithData && src.bytes.length == 1)

/-- `io.ReadFull` into a buffer of `n` bytes. -/
def Source.readFull (src : Source) (n : Nat) : Option (Bytes × Source) :=
  if n ≤ src.bytes.length then some (src.bytes.take n, { src with bytes := src.bytes.drop n })
  else none

theorem Source.readFull_eq_some {src src' : Source} {n : Nat} {b : Bytes} :
    src.readFull n = some (b, src') ↔
      b.length = n ∧ src.bytes = b ++ src'.bytes ∧ src.eofWithData = src'.eofWithData := by
  unfold readFull
  constructor
  · intro h
    split at h
    · next hle =>
      cases h
      exact ⟨List.length_take_of_le hle, (List.take_append_drop n src.bytes).symm, rfl⟩
    · cases h
  · rintro ⟨rfl, hbytes, heof⟩
    have hle : b.length ≤ src.bytes.length := by
      rw [hbytes, List.length_append]
      omega
    rw [if_pos hle, hbytes, List.take_left, List.drop_left]
    obtain ⟨bytes, eof⟩ := src'
    cases heof
    rfl

/-- The loop of `decrypt`. A chunk is tried as the last one, then as one in the middle. -/
def decryptChunks (aead : Aead) (noncePrefix : Bytes) (counter : UInt32) (src : Source) :
    Except String Bytes :=
  match hlength : src.readFull 4 with
  | none => .error "the backup is truncated: it ends before its final chunk"
  | some (lb, src₁) =>
    let n := toNat lb
    if n < overhead ∨ chunkSize + overhead < n then
      .error "the backup is corrupt: impossible chunk size"
    else
      match hsealed : src₁.readFull n with
      | none => .error "the backup is truncated inside a chunk"
      | some (sealed, src₂) =>
        match aead.openBytes (chunkNonce noncePrefix counter) sealed (chunkAAD counter true) with
        | some plain =>
          if src₂.readsEOF then .ok plain
          else .error "the backup has data after its final chunk"
        | none =>
          match aead.openBytes (chunkNonce noncePrefix counter) sealed (chunkAAD counter false) with
          | none => .error "the backup failed authentication: wrong key, altered, or reordered"
          | some plain => do
            let out ← decryptChunks aead noncePrefix (counter + 1) src₂
            return plain ++ out
termination_by src.bytes.length
decreasing_by
  obtain ⟨hlb, hbytes, -⟩ := Source.readFull_eq_some.mp hlength
  obtain ⟨-, hrest, -⟩ := Source.readFull_eq_some.mp hsealed
  rw [hbytes, hrest, List.length_append, List.length_append]
  omega

def decrypt (aead : Aead) (src : Source) : Except String Bytes :=
  match src.readFull (offsiteMagic.length + prefixLen) with
  | none => .error "not an OpenFireblocks off-site backup (bad header)"
  | some (hdr, src) =>
    if hdr.take offsiteMagic.length ≠ offsiteMagic then
      .error "not an OpenFireblocks off-site backup (bad header)"
    else decryptChunks aead (hdr.drop offsiteMagic.length) 0 src

end OpenFireblocks.Backup
