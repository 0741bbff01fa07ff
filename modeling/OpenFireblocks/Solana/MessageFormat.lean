import OpenFireblocks.Lib.Reader
import OpenFireblocks.Solana.Accounts

/-!
# The legacy message format

`message` reads a legacy message by the format the builder's comment gives, and
`buildTransaction_eq_ok` says what it reads off the bytes the builder returns.

The lengths are read by `readCompactU16` of `chains/solana_transfer.go`.
-/

namespace OpenFireblocks.Solana

open BigEndian Go Outcome Reader

/-! ## Compact-u16 lengths -/

theorem group_bits : ∀ n < 128,
    UInt8.ofNat n &&& 0x80 = 0 ∧ (UInt8.ofNat n &&& 0x7f).toNat = n ∧
    (UInt8.ofNat n ||| 0x80) &&& 0x80 ≠ 0 ∧ ((UInt8.ofNat n ||| 0x80) &&& 0x7f).toNat = n := by
  decide

theorem lowGroup_eq (v : UInt16) : (v &&& 0x7f).toUInt8 = UInt8.ofNat (v.toNat % 128) := by
  rw [← UInt8.toNat_inj, UInt16.toNat_toUInt8]
  show (v.toNat &&& 2 ^ 7 - 1) % 256 = _
  rw [Nat.and_two_pow_sub_one_eq_mod, UInt8.toNat_ofNat']

theorem highGroups_eq (v : UInt16) : (v >>> 7).toNat = v.toNat / 128 := by
  exact Nat.shiftRight_eq_div_pow _ _

theorem highGroups_eq_zero {v : UInt16} : v >>> 7 = 0 ↔ v.toNat / 128 = 0 := by
  rw [← highGroups_eq, ← UInt16.toNat_inj]
  rfl

variable {acc i rounds n : Nat} {b : Bytes} {lib : SolanaLib}

/-- The groups read so far lie below the next one, so joining them is adding them. -/
theorem or_shiftLeft_eq_add {x : Nat} (h : acc < 2 ^ (7 * i)) :
    acc ||| (x <<< (7 * i)) = acc + x * 2 ^ (7 * i) := by
  rw [Nat.or_comm, ← Nat.shiftLeft_add_eq_or_of_lt h, Nat.shiftLeft_eq, Nat.add_comm]

theorem readCompactLoop_last (rest : Bytes) (hn : n < 128) (hacc : acc < 2 ^ (7 * i)) :
    readCompactLoop (rounds + 1) i acc (UInt8.ofNat n :: rest)
      = .ok (acc + n * 2 ^ (7 * i), i + 1) := by
  obtain ⟨hend, hval, -, -⟩ := group_bits n hn
  rw [readCompactLoop, hval, or_shiftLeft_eq_add hacc]
  exact if_pos hend

/--
Reading undoes writing, from any round of the two loops on: `i` groups have been read, and `acc`
is their value.
-/
theorem readCompactLoop_compactLoop {v : UInt16} (rest : Bytes) (hv : v.toNat < 128 ^ (rounds + 1))
    (hacc : acc < 2 ^ (7 * i)) :
    readCompactLoop (rounds + 1) i acc (compactLoop (rounds + 1) v ++ rest)
      = .ok (acc + v.toNat * 2 ^ (7 * i), i + (compactLoop (rounds + 1) v).length) := by
  have hlow : v.toNat % 128 < 128 := Nat.mod_lt _ (by decide)
  induction rounds generalizing i acc v with
  | zero =>
    have hzero : v.toNat / 128 = 0 := by omega
    simp only [compactLoop, lowGroup_eq, highGroups_eq_zero.mpr hzero, if_true, List.cons_append]
    rw [readCompactLoop_last _ hlow hacc, Nat.mod_eq_of_lt (by omega)]
    rfl
  | succ rounds ih =>
    by_cases hzero : v.toNat / 128 = 0
    · rw [compactLoop]
      simp only [lowGroup_eq, highGroups_eq_zero.mpr hzero, if_true, List.cons_append]
      rw [readCompactLoop_last _ hlow hacc, Nat.mod_eq_of_lt (by omega)]
      rfl
    · rw [compactLoop]
      simp only [lowGroup_eq, mt highGroups_eq_zero.mp hzero, if_false, List.cons_append]
      obtain ⟨-, -, hmore, hgroup⟩ := group_bits _ hlow
      rw [readCompactLoop, hgroup, or_shiftLeft_eq_add hacc, if_neg hmore]
      have hpow : 2 ^ (7 * (i + 1)) = 128 * 2 ^ (7 * i) := by
        rw [Nat.mul_add, Nat.pow_add, Nat.mul_comm]
      have hacc' : acc + v.toNat % 128 * 2 ^ (7 * i) < 2 ^ (7 * (i + 1)) := by
        nlinarith
      rw [ih (by rw [highGroups_eq, Nat.div_lt_iff_lt_mul (by decide)]; exact hv)
        hacc' (Nat.mod_lt _ (by decide))]
      have hval : acc + v.toNat % 128 * 2 ^ (7 * i) + (v >>> 7).toNat * 2 ^ (7 * (i + 1))
          = acc + v.toNat * 2 ^ (7 * i) := by
        rw [highGroups_eq]
        conv_rhs => rw [← Nat.mod_add_div v.toNat 128]
        ring
      rw [hval, List.length_cons, Nat.add_assoc, Nat.add_comm 1]

/-! ## The format -/

structure CompiledInstruction where
  programIdIndex : UInt8
  accounts : List UInt8
  data : Bytes

structure Message where
  numRequiredSignatures : UInt8
  numReadonlySigned : UInt8
  numReadonlyUnsigned : UInt8
  accountKeys : List Bytes
  recentBlockhash : Bytes
  instructions : List CompiledInstruction

/-- A length prefix, read as `readCompactU16` does. -/
def compactU16 : Reader UInt8 Nat := fun b =>
  match readCompactU16 b with
  | .ok (value, read) => some (value, b.drop read)
  | .error _ => none

def compiledInstruction : Reader UInt8 CompiledInstruction := do
  let programIdIndex ← item
  let accountCount ← compactU16
  let accounts ← exactly accountCount
  let dataLength ← compactU16
  let data ← exactly dataLength
  return { programIdIndex, accounts, data }

def message : Reader UInt8 Message := do
  let numRequiredSignatures ← item
  let numReadonlySigned ← item
  let numReadonlyUnsigned ← item
  let keyCount ← compactU16
  let accountKeys ← many (exactly 32) keyCount
  let recentBlockhash ← exactly 32
  let instructionCount ← compactU16
  let instructions ← many compiledInstruction instructionCount
  return { numRequiredSignatures, numReadonlySigned, numReadonlyUnsigned, accountKeys,
           recentBlockhash, instructions }

namespace Message

/-- The first keys sign. -/
def isSigner (m : Message) (i : Nat) : Bool := i < m.numRequiredSignatures.toNat

/-- The last signers and the last of the others are read-only. -/
def isWritable (m : Message) (i : Nat) : Bool :=
  i < m.numRequiredSignatures.toNat - m.numReadonlySigned.toNat ||
    (m.numRequiredSignatures.toNat ≤ i &&
      i < m.accountKeys.length - m.numReadonlyUnsigned.toNat)

def resolve (m : Message) (c : CompiledInstruction) : Option Bytes × List (Option Bytes) × Bytes :=
  (m.accountKeys[c.programIdIndex.toNat]?, c.accounts.map fun i => m.accountKeys[i.toNat]?, c.data)

end Message

/-! ## The builder writes the format -/

theorem writeCompactU16_eq_ok (h : writeCompactU16 n = .ok b) :
    n ≤ 65535 ∧ Reads compactU16 b n := by
  unfold writeCompactU16 at h
  split at h
  · simp at h
  next hn =>
  cases h
  have hle : n ≤ 65535 := not_lt.mp hn
  have htoNat : (UInt16.ofNat n).toNat = n := UInt16.toNat_ofNat_of_lt' (Nat.lt_succ_of_le hle)
  refine ⟨hle, fun rest => ?_⟩
  have hread : readCompactU16 (compactLoop 3 (UInt16.ofNat n) ++ rest) = .ok (_, _) :=
    readCompactLoop_compactLoop rest (by rw [htoNat]; omega) (by decide)
  show compactU16 _ = _
  unfold compactU16
  rw [hread]
  simp [htoNat]

structure Compiles (ordered : List AccountInfo) (instr : SolanaInstruction)
    (c : CompiledInstruction) : Prop where
  programIdIndex : c.programIdIndex = UInt8.ofNat (indexOf ordered instr.programID)
  accounts : c.accounts = instr.accounts.map fun acc => UInt8.ofNat (indexOf ordered acc.pubkey)
  data : hexDecodeString (strip0x instr.data) = some c.data

theorem writeInstruction_eq_ok {ordered : List AccountInfo} {instr : SolanaInstruction}
    (h : writeInstruction lib ordered i instr = .ok b) :
    ∃ c, Compiles ordered instr c ∧ Reads compiledInstruction b c := by
  obtain ⟨accountCount, hcount, h⟩ := bind_eq_ok.mp h
  split at h
  · simp at h
  next data hdata =>
  split at h
  · simp at h
  split at h
  · simp at h
  obtain ⟨dataLength, hlength, h⟩ := bind_eq_ok.mp h
  cases h
  refine ⟨{ programIdIndex := UInt8.ofNat (indexOf ordered instr.programID)
            accounts := instr.accounts.map fun acc => UInt8.ofNat (indexOf ordered acc.pubkey)
            data := data }, ⟨rfl, rfl, hdata⟩, ?_⟩
  rw [List.append_assoc, List.append_assoc]
  refine (reads_item _).bind ((writeCompactU16_eq_ok hcount).2.bind ?_)
  refine (reads_exactly (by simp)).bind ((writeCompactU16_eq_ok hlength).2.bind ?_)
  exact (reads_exactly rfl).map _

theorem writeInstructions_eq_ok {ordered : List AccountInfo} {instrs : List SolanaInstruction}
    (h : writeInstructions lib ordered i instrs = .ok b) :
    ∃ cs, List.Forall₂ (Compiles ordered) instrs cs ∧
      Reads (many compiledInstruction instrs.length) b cs := by
  induction instrs generalizing i b with
  | nil =>
    cases h
    exact ⟨[], .nil, reads_pure []⟩
  | cons instr instrs ih =>
    obtain ⟨head, hhead, h⟩ := bind_eq_ok.mp h
    obtain ⟨tail, htail, h⟩ := bind_eq_ok.mp h
    cases h
    obtain ⟨c, hc, hreads⟩ := writeInstruction_eq_ok hhead
    obtain ⟨cs, hcs, hreads'⟩ := ih htail
    exact ⟨c :: cs, .cons hc hcs, hreads.bind (hreads'.map _)⟩

/-- Everything `BuildTransaction` has established when it returns. -/
theorem buildTransaction_eq_ok {req : SolanaSignRequest} {msg : Bytes}
    (h : buildTransaction lib req = .ok msg) :
    ∃ accounts cs, Merged lib (mentions req) accounts ∧ (orderAccounts accounts).length ≤ 255 ∧
      List.Forall₂ (Compiles (orderAccounts accounts)) req.instructions cs ∧
      msg.head? = some (UInt8.ofNat (signerCount accounts)) ∧
      Reads message msg
        { numRequiredSignatures := UInt8.ofNat (signerCount accounts)
          numReadonlySigned := UInt8.ofNat (readonlySigners accounts).length
          numReadonlyUnsigned := UInt8.ofNat (readonlyOthers accounts).length
          accountKeys := (orderAccounts accounts).map AccountInfo.key
          recentBlockhash := lib.base58Decode req.recentBlockhash
          instructions := cs } := by
  simp only [buildTransaction, ite_errorf_eq_ok, bind_eq_ok] at h
  obtain ⟨-, -, hhash, accounts, haccounts, hcount, -, keyCount, hkeys, instructionCount, hinstrs,
    instructions, hwrite, h⟩ := h
  cases h
  have hmerged := collectAccounts_merged haccounts
  obtain ⟨cs, hcs, hreads⟩ := writeInstructions_eq_ok hwrite
  refine ⟨accounts, cs, hmerged, not_lt.mp hcount, hcs, rfl, ?_⟩
  have hkey : ∀ a ∈ orderAccounts accounts, Reads (exactly 32) a.key a.key := by
    intro a ha
    exact reads_exactly (hmerged.key a ((orderAccounts_perm accounts).mem_iff.mp ha)).2
  simp only [writeHeader, List.append_assoc]
  rw [← List.singleton_append]
  refine (reads_item _).bind ((reads_item _).bind ((reads_item _).bind ?_))
  refine (writeCompactU16_eq_ok hkeys).2.bind ((Reads.many hkey).bind ?_)
  refine (reads_exactly (not_not.mp hhash)).bind ((writeCompactU16_eq_ok hinstrs).2.bind ?_)
  exact hreads.map _

end OpenFireblocks.Solana
