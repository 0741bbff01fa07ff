import OpenFireblocks.Lib.BigEndian

/-!
# The wire format of protocol buffers

`readField` takes the first field off a message and `message` all of them. `Appends` are functions
that write fields so that `readField` reads them back, whatever follows. A field is then a prefix
code, and a message that is a sequence of fields says what each of them is. `Reference` is one such
writer.
-/

namespace Protowire

open BigEndian

/-! ## Reading a message -/

/-- Seven bits in each byte, the lowest first. All bytes but the last have their high bit set. -/
def readVarint : Bytes → Option (Nat × Bytes)
  | [] => none
  | b :: rest =>
    if b.toNat < 128 then some (b.toNat, rest)
    else (readVarint rest).map fun p => (b.toNat - 128 + 128 * p.1, p.2)

inductive Value
  | varint (n : Nat)
  | bytes (v : Bytes)

/-- The number and the value of the field at the start of bytes, and what follows it. The types of
fixed length are not read. -/
def readField (b : Bytes) : Option ((Nat × Value) × Bytes) :=
  (readVarint b).bind fun key =>
    if key.1 % 8 = 0 then (readVarint key.2).map fun n => ((key.1 / 8, .varint n.1), n.2)
    else if key.1 % 8 = 2 then
      (readVarint key.2).bind fun n =>
        if n.2.length < n.1 then none
        else some ((key.1 / 8, .bytes (n.2.take n.1)), n.2.drop n.1)
    else none

theorem readVarint_length_lt {b : Bytes} {p : Nat × Bytes} (h : readVarint b = some p) :
    p.2.length < b.length := by
  induction b generalizing p with
  | nil => cases h
  | cons x b ih =>
    rw [readVarint] at h
    split at h
    · cases h
      exact Nat.lt_succ_self _
    · obtain ⟨q, hq, rfl⟩ := Option.map_eq_some_iff.mp h
      have hlt : q.2.length < b.length := ih hq
      exact Nat.lt_succ_of_lt hlt

theorem readField_length_lt {b : Bytes} {p : (Nat × Value) × Bytes} (h : readField b = some p) :
    p.2.length < b.length := by
  obtain ⟨key, hkey, h⟩ := Option.bind_eq_some_iff.mp h
  have hlt := readVarint_length_lt hkey
  split at h
  · obtain ⟨n, hn, rfl⟩ := Option.map_eq_some_iff.mp h
    exact (readVarint_length_lt hn).trans hlt
  split at h
  · obtain ⟨n, hn, h⟩ := Option.bind_eq_some_iff.mp h
    split at h
    · cases h
    cases h
    rw [List.length_drop]
    exact (Nat.sub_le _ _).trans_lt ((readVarint_length_lt hn).trans hlt)
  · cases h

/-- The fields of a message, in the order in which they are written. -/
def message (b : Bytes) : Option (List (Nat × Value)) :=
  if b = [] then some []
  else
    match _h : readField b with
    | none => none
    | some p => (message p.2).map (p.1 :: ·)
termination_by b.length
decreasing_by exact readField_length_lt _h

theorem message_nil : message [] = some [] := by
  rw [message, if_pos rfl]

theorem message_of_readField {b rest : Bytes} {f : Nat × Value} (h : readField b = some (f, rest)) :
    message b = (message rest).map (f :: ·) := by
  have hb : b ≠ [] := by
    rintro rfl
    cases h
  rw [message, if_neg hb]
  split
  · next hnone => cases hnone.symm.trans h
  next p hp =>
  obtain rfl := Option.mem_unique hp h
  rfl

/-- The values of the bytes fields with a number. -/
def bytesOf (num : Nat) (fields : List (Nat × Value)) : List Bytes :=
  fields.filterMap fun f =>
    match f.2 with
    | .bytes v => if f.1 = num then some v else none
    | .varint _ => none

/-! ## Writing a message -/

/-- Functions that append to a message what `readField` reads. 0 is the type of a varint and 2 of
bytes. -/
class Appends where
  appendTag : Bytes → (num type : UInt8) → Bytes
  appendVarint : Bytes → UInt64 → Bytes
  appendBytes : Bytes → Bytes → Bytes
  appendTag_eq : ∀ b num type, appendTag b num type = b ++ appendTag [] num type
  appendVarint_eq : ∀ b n, appendVarint b n = b ++ appendVarint [] n
  appendBytes_eq : ∀ b v, appendBytes b v = b ++ appendBytes [] v
  readField_varint : ∀ num n rest, readField (appendVarint (appendTag [] num 0) n ++ rest) =
    some ((num.toNat, .varint n.toNat), rest)
  readField_bytes : ∀ num v rest, readField (appendBytes (appendTag [] num 2) v ++ rest) =
    some ((num.toNat, .bytes v), rest)

namespace Reference

def varint (n : Nat) : Bytes :=
  if n < 128 then [UInt8.ofNat n] else UInt8.ofNat (n % 128 + 128) :: varint (n / 128)

theorem readVarint_varint (n : Nat) (rest : Bytes) : readVarint (varint n ++ rest) = some (n, rest) := by
  induction n using Nat.strong_induction_on with
  | _ n ih =>
    rw [varint]
    split
    · next hlt =>
      have hbyte : (UInt8.ofNat n).toNat = n := UInt8.toNat_ofNat_of_lt' (by show n < 256; omega)
      rw [List.singleton_append, readVarint, hbyte, if_pos hlt]
    · next hge =>
      have hbyte : (UInt8.ofNat (n % 128 + 128)).toNat = n % 128 + 128 :=
        UInt8.toNat_ofNat_of_lt' (by show n % 128 + 128 < 256; omega)
      rw [List.cons_append, readVarint, if_neg (by omega), ih _ (by omega), Option.map_some,
        Option.some_inj, Prod.mk.injEq]
      exact ⟨by omega, rfl⟩

def tag (num type : UInt8) : Bytes := varint (num.toNat * 8 + type.toNat)

def lengthDelimited (v : Bytes) : Bytes := varint v.length ++ v

scoped instance appends : Appends where
  appendTag b num type := b ++ tag num type
  appendVarint b n := b ++ varint n.toNat
  appendBytes b v := b ++ lengthDelimited v
  appendTag_eq _ _ _ := by rw [List.nil_append]
  appendVarint_eq _ _ := by rw [List.nil_append]
  appendBytes_eq _ _ := by rw [List.nil_append]
  readField_varint num n rest := by
    simp only [readField, tag, List.nil_append, List.append_assoc, readVarint_varint,
      Option.bind_some, Option.map_some]
    rw [if_pos (by simp)]
    simp
  readField_bytes num v rest := by
    have htype : (num.toNat * 8 + (2 : UInt8).toNat) % 8 = 2 := by
      rw [show (2 : UInt8).toNat = 2 from rfl]
      omega
    have hnum : (num.toNat * 8 + (2 : UInt8).toNat) / 8 = num.toNat := by
      rw [show (2 : UInt8).toNat = 2 from rfl]
      omega
    simp only [readField, tag, lengthDelimited, List.nil_append, List.append_assoc,
      readVarint_varint, Option.bind_some, htype, hnum]
    rw [if_neg (by decide), if_pos trivial, if_neg (by simp), List.take_left, List.drop_left]

end Reference

end Protowire
