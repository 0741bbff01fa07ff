import OpenFireblocks.Go.Basic

/-!
# Solana messages, as `chains/solana.go` builds them

`BuildTransaction` collects the accounts of a request, merges the mentions of one account, orders
the accounts by privilege and writes the legacy message.

* The map `accounts` and the slice `order` are one list here, the accounts in order of insertion.
* Base58 is third-party (`btcutil/base58`) and enters as a `SolanaLib`.
* The type assertion on `txData` is not modelled; `buildTransaction` takes the request.
-/

namespace OpenFireblocks.Solana

open BigEndian Go Outcome

/-! ## Requests -/

structure SolanaAccountMeta where
  pubkey : String
  isSigner : Bool
  isWritable : Bool

structure SolanaInstruction where
  programID : String
  accounts : List SolanaAccountMeta
  data : String

structure SolanaSignRequest where
  instructions : List SolanaInstruction
  recentBlockhash : String
  feePayer : String

/-- The library functions the builder calls. -/
structure SolanaLib where
  /-- `base58.Decode`, which gives the empty string for text that is not base58. -/
  base58Decode : String → Bytes
  /-- The text of the error `hex.DecodeString` returns. -/
  hexError : String → String
  /-- The verb `%q` of `fmt`. -/
  quote : String → String

def maxSolanaAccounts : Nat := 255
def maxSolanaCompactU16 : Nat := 65535

/-! ## Compact-u16 lengths -/

/--
The loop of `writeCompactU16`: seven bits a byte, low bits first, the high bit set while more
follow. A `uint16` has no more than three groups of seven bits, so three rounds are enough.
-/
def compactLoop : Nat → UInt16 → Bytes
  | 0, _ => []
  | rounds + 1, v =>
    let elem := (v &&& 0x7f).toUInt8
    let v := v >>> 7
    if v = 0 then [elem] else (elem ||| 0x80) :: compactLoop rounds v

/-- Every caller passes the length of a slice, so the value is not negative. -/
def writeCompactU16 (value : Nat) : Result Bytes :=
  if maxSolanaCompactU16 < value then
    .error (.panic s!"writeCompactU16: value {value} out of range; callers must validate before encoding")
  else .ok (compactLoop 3 (UInt16.ofNat value))

def readCompactLoop : Nat → Nat → Nat → Bytes → Result (Nat × Nat)
  | rounds + 1, i, value, c :: rest =>
    let value := value ||| ((c &&& 0x7f).toNat <<< (7 * i))
    if c &&& 0x80 = 0 then .ok (value, i + 1) else readCompactLoop rounds (i + 1) value rest
  | _, _, _, _ => errorf "invalid compact-u16"

/-- The value, and how many bytes it took. -/
def readCompactU16 (b : Bytes) : Result (Nat × Nat) := readCompactLoop 3 0 0 b

/-! ## The accounts -/

/-- An account of the message, with the strongest privileges seen for it. -/
structure AccountInfo where
  pubkey : String
  key : Bytes
  isSigner : Bool
  isWritable : Bool

section

variable (lib : SolanaLib)

def upsert (accounts : List AccountInfo) (pubkey : String) (isSigner isWritable : Bool) :
    Result (List AccountInfo) :=
  let decoded := lib.base58Decode pubkey
  if decoded.length ≠ 32 then
    errorf s!"account {lib.quote pubkey} must decode to 32 bytes, got {decoded.length}"
  else if accounts.any fun a => a.pubkey = pubkey then
    .ok (accounts.map fun a =>
      if a.pubkey = pubkey then
        { a with isSigner := a.isSigner || isSigner, isWritable := a.isWritable || isWritable }
      else a)
  else
    .ok (accounts ++
      [{ pubkey := pubkey, key := decoded, isSigner := isSigner, isWritable := isWritable }])

def upsertAccounts (i : Nat) : List SolanaAccountMeta → List AccountInfo → Result (List AccountInfo)
  | [], accounts => .ok accounts
  | acc :: rest, accounts => do
    let accounts ← wrapError s!"instruction {i}: "
      (upsert lib accounts acc.pubkey acc.isSigner acc.isWritable)
    upsertAccounts i rest accounts

/-- The accounts of the instructions from number `i` on. -/
def upsertInstructions (i : Nat) :
    List SolanaInstruction → List AccountInfo → Result (List AccountInfo)
  | [], accounts => .ok accounts
  | instr :: rest, accounts => do
    if instr.programID = "" then errorf s!"instruction {i} has no program_id"
    else
      let accounts ← upsertAccounts lib i instr.accounts accounts
      upsertInstructions (i + 1) rest accounts

/-- The programs of the instructions from number `i` on, which sign nothing and write nothing. -/
def upsertPrograms (i : Nat) :
    List SolanaInstruction → List AccountInfo → Result (List AccountInfo)
  | [], accounts => .ok accounts
  | instr :: rest, accounts => do
    let accounts ← wrapError s!"instruction {i} program_id: "
      (upsert lib accounts instr.programID false false)
    upsertPrograms (i + 1) rest accounts

/-- Every account of the request, in order of first mention. -/
def collectAccounts (req : SolanaSignRequest) : Result (List AccountInfo) := do
  let accounts ← wrapError "invalid fee_payer: " (upsert lib [] req.feePayer true true)
  let accounts ← upsertInstructions lib 0 req.instructions accounts
  upsertPrograms lib 0 req.instructions accounts

end

section

variable (accounts : List AccountInfo)

def writableSigners : List AccountInfo :=
  accounts.filter fun a => a.isSigner && a.isWritable

def readonlySigners : List AccountInfo :=
  accounts.filter fun a => a.isSigner && !a.isWritable

def writableOthers : List AccountInfo :=
  accounts.filter fun a => !a.isSigner && a.isWritable

def readonlyOthers : List AccountInfo :=
  accounts.filter fun a => !a.isSigner && !a.isWritable

def orderAccounts : List AccountInfo :=
  writableSigners accounts ++ readonlySigners accounts ++ writableOthers accounts
    ++ readonlyOthers accounts

end

/-- `indexOf[pubkey]`, which is 0 for a key that is not in the map. -/
def indexOf (ordered : List AccountInfo) (pubkey : String) : Nat :=
  (ordered.findIdx? fun a => a.pubkey = pubkey).getD 0

/-! ## The message -/

section

variable (lib : SolanaLib)

/-- One instruction of the message. The account count is written before it is checked. -/
def writeInstruction (ordered : List AccountInfo) (i : Nat) (instr : SolanaInstruction) :
    Result Bytes := do
  let accountCount ← writeCompactU16 instr.accounts.length
  match hexDecodeString (strip0x instr.data) with
  | none =>
    errorf s!"instruction {i} has invalid hex data: {lib.hexError (strip0x instr.data)}"
  | some data =>
    if maxSolanaCompactU16 < data.length then
      errorf s!"instruction {i} data is {data.length} bytes, which exceeds the {maxSolanaCompactU16}-byte compact-u16 limit"
    else if maxSolanaCompactU16 < instr.accounts.length then
      errorf s!"instruction {i} references {instr.accounts.length} accounts, which exceeds the {maxSolanaCompactU16} limit"
    else
      let dataLength ← writeCompactU16 data.length
      return UInt8.ofNat (indexOf ordered instr.programID) :: accountCount
        ++ instr.accounts.map (fun acc => UInt8.ofNat (indexOf ordered acc.pubkey))
        ++ dataLength ++ data

def writeInstructions (ordered : List AccountInfo) (i : Nat) :
    List SolanaInstruction → Result Bytes
  | [] => .ok []
  | instr :: rest => do
    let head ← writeInstruction lib ordered i instr
    let tail ← writeInstructions ordered (i + 1) rest
    return head ++ tail

/-- The three counts that say which accounts sign and which are read-only. -/
def writeHeader (accounts : List AccountInfo) : Bytes :=
  [UInt8.ofNat ((writableSigners accounts).length + (readonlySigners accounts).length),
    UInt8.ofNat (readonlySigners accounts).length, UInt8.ofNat (readonlyOthers accounts).length]

def buildTransaction (req : SolanaSignRequest) : Result Bytes := do
  if req.feePayer = "" then errorf "fee_payer is required"
  else if req.instructions = [] then errorf "transaction must have at least one instruction"
  else
    let blockhash := lib.base58Decode req.recentBlockhash
    if blockhash.length ≠ 32 then
      errorf s!"recent_blockhash must decode to 32 bytes, got {blockhash.length}"
    else
      let accounts ← collectAccounts lib req
      let ordered := orderAccounts accounts
      if maxSolanaAccounts < ordered.length then
        errorf s!"too many accounts for a legacy Solana message: {ordered.length} (maximum {maxSolanaAccounts}, since account indices are single bytes)"
      else if maxSolanaCompactU16 < req.instructions.length then
        errorf s!"too many instructions: {req.instructions.length} (maximum {maxSolanaCompactU16})"
      else
        let keyCount ← writeCompactU16 ordered.length
        let instructionCount ← writeCompactU16 req.instructions.length
        let instructions ← writeInstructions lib ordered 0 req.instructions
        return writeHeader accounts ++ keyCount ++ ordered.flatMap AccountInfo.key ++ blockhash
          ++ instructionCount ++ instructions

end

end OpenFireblocks.Solana
