import OpenFireblocks.Lib.Base58
import OpenFireblocks.Solana.MessageFormat

/-!
# Which requests the Solana builder panics on

`writeCompactU16` panics on a length above 65535 and leaves the check to its callers. The builder
bounds the accounts of the message, each of which counts once, and writes the number of accounts of
an instruction before it compares it with the bound (`buildTransaction_returns_iff`).
-/

namespace OpenFireblocks.Solana

open BigEndian Go Outcome

section

variable {lib : SolanaLib}

def DataFits (instr : SolanaInstruction) : Prop :=
  ∃ data, hexDecodeString (strip0x instr.data) = some data ∧ data.length ≤ maxSolanaCompactU16

/-- An instruction names more accounts than a prefix can count, and those before it are written. -/
def Overflows : List SolanaInstruction → Prop
  | [] => False
  | instr :: rest => maxSolanaCompactU16 < instr.accounts.length ∨ DataFits instr ∧ Overflows rest

variable (lib) in
/-- The request passes the checks that come before its instructions are written. -/
structure ReachesInstructions (req : SolanaSignRequest) : Prop where
  feePayer : req.feePayer ≠ ""
  blockhash : (lib.base58Decode req.recentBlockhash).length = 32
  programs : ∀ instr ∈ req.instructions, instr.programID ≠ ""
  keys : ∀ p ∈ mentions req, (lib.base58Decode p.pubkey).length = 32
  /-- An account counts once, however often it is named. -/
  distinct : ((mentions req).map SolanaAccountMeta.pubkey).dedup.length ≤ maxSolanaAccounts
  count : req.instructions.length ≤ maxSolanaCompactU16

theorem Merged.length_eq {ms : List SolanaAccountMeta} {accounts : List AccountInfo}
    (h : Merged lib ms accounts) :
    accounts.length = (ms.map SolanaAccountMeta.pubkey).dedup.length := by
  have hperm : (accounts.map AccountInfo.pubkey).Perm
      (ms.map SolanaAccountMeta.pubkey).dedup := by
    refine (List.perm_ext_iff_of_nodup h.nodup (List.nodup_dedup _)).mpr fun k => ?_
    rw [h.mem, List.mem_dedup]
  rw [← hperm.length_eq, List.length_map]

/-! ## The accounts -/

/-- The call returns, and with a value exactly when `P` holds. -/
def Decides {α : Type} (x : Result α) (P : Prop) : Prop := Returns x ∧ ((∃ a, x = .ok a) ↔ P)

section

variable {α β : Type} {x : Result α} {P Q : Prop}

theorem decides_ok (a : α) (hP : P) : Decides (.ok a) P :=
  ⟨returns_ok a, iff_of_true ⟨a, rfl⟩ hP⟩

theorem decides_errorf (msg : String) (hP : ¬P) : Decides (errorf msg : Result α) P :=
  ⟨returns_errorf msg, iff_of_false (by simp) hP⟩

theorem Decides.wrapError {context : String} (hx : Decides x P) : Decides (wrapError context x) P :=
  ⟨returns_wrapError.mpr hx.1, by simpa only [wrapError_eq_ok] using hx.2⟩

theorem Decides.bind {f : α → Result β} (hx : Decides x P) (hf : ∀ a, Decides (f a) Q) :
    Decides (x >>= f) (P ∧ Q) := by
  refine ⟨returns_bind.mpr ⟨hx.1, fun a _ => (hf a).1⟩, ?_⟩
  rw [← hx.2]
  constructor
  · rintro ⟨b, hb⟩
    obtain ⟨a, ha, hb⟩ := bind_eq_ok.mp hb
    exact ⟨⟨a, ha⟩, (hf a).2.mp ⟨b, hb⟩⟩
  · rintro ⟨⟨a, ha⟩, hq⟩
    obtain ⟨b, hb⟩ := (hf a).2.mpr hq
    exact ⟨b, bind_eq_ok.mpr ⟨a, ha, hb⟩⟩

end

theorem decides_upsert (accounts : List AccountInfo) (pubkey : String) (s w : Bool) :
    Decides (upsert lib accounts pubkey s w) ((lib.base58Decode pubkey).length = 32) := by
  unfold upsert
  dsimp only
  split
  · next h => exact decides_errorf _ h
  · next h => split <;> exact decides_ok _ (not_not.mp h)

theorem decides_upsertAccounts (i : Nat) (metas : List SolanaAccountMeta)
    (accounts : List AccountInfo) : Decides (upsertAccounts lib i metas accounts)
      (∀ m ∈ metas, (lib.base58Decode m.pubkey).length = 32) := by
  induction metas generalizing accounts with
  | nil => exact decides_ok _ (by simp)
  | cons m metas ih =>
    rw [List.forall_mem_cons]
    exact (decides_upsert ..).wrapError.bind ih

section

variable (i : Nat) (instrs : List SolanaInstruction) (accounts : List AccountInfo)

theorem decides_upsertInstructions : Decides (upsertInstructions lib i instrs accounts)
    (∀ instr ∈ instrs, instr.programID ≠ "" ∧
      ∀ m ∈ instr.accounts, (lib.base58Decode m.pubkey).length = 32) := by
  induction instrs generalizing i accounts with
  | nil => exact decides_ok _ (by simp)
  | cons instr instrs ih =>
    rw [List.forall_mem_cons, upsertInstructions]
    split
    · next h => exact decides_errorf _ fun hall => hall.1.1 h
    · next h =>
      rw [and_iff_right h]
      exact (decides_upsertAccounts ..).bind fun next => ih (i + 1) next

theorem decides_upsertPrograms : Decides (upsertPrograms lib i instrs accounts)
    (∀ instr ∈ instrs, (lib.base58Decode instr.programID).length = 32) := by
  induction instrs generalizing i accounts with
  | nil => exact decides_ok _ (by simp)
  | cons instr instrs ih =>
    rw [List.forall_mem_cons]
    exact (decides_upsert ..).wrapError.bind fun next => ih (i + 1) next

end

/-- The accounts of a request are collected when every instruction names a program and every text
is a key. -/
theorem decides_collectAccounts (req : SolanaSignRequest) : Decides (collectAccounts lib req)
    ((∀ instr ∈ req.instructions, instr.programID ≠ "") ∧
      ∀ p ∈ mentions req, (lib.base58Decode p.pubkey).length = 32) := by
  have h : Decides (collectAccounts lib req) _ := (decides_upsert ..).wrapError.bind fun payer =>
    (decides_upsertInstructions 0 req.instructions payer).bind fun accounts =>
      decides_upsertPrograms 0 req.instructions accounts
  refine ⟨h.1, h.2.trans ?_⟩
  simp only [mentions, List.cons_append, List.forall_mem_cons, List.forall_mem_append,
    List.forall_mem_map, List.forall_mem_flatMap, forall_and]
  tauto

/-! ## The instructions -/

theorem returns_writeCompactU16 {n : Nat} :
    Returns (writeCompactU16 n) ↔ n ≤ maxSolanaCompactU16 := by
  unfold writeCompactU16
  split
  · next h => exact iff_of_false id (not_le.mpr h)
  · next h => exact iff_of_true trivial (not_lt.mp h)

theorem writeCompactU16_returns {n : Nat} (h : n ≤ maxSolanaCompactU16) :
    ∃ b, writeCompactU16 n = .ok b :=
  ⟨_, if_neg (not_lt.mpr h)⟩

variable {ordered : List AccountInfo} {i : Nat}

/-- **The count of the accounts is written before it is checked.** -/
theorem returns_writeInstruction {instr : SolanaInstruction} :
    Returns (writeInstruction lib ordered i instr) ↔ instr.accounts.length ≤ maxSolanaCompactU16 := by
  rw [writeInstruction, returns_bind, returns_writeCompactU16, and_iff_left_iff_imp]
  rintro - accountCount -
  split
  · exact returns_errorf _
  split
  · exact returns_errorf _
  next hdata =>
  split
  · exact returns_errorf _
  · exact returns_bind.mpr ⟨returns_writeCompactU16.mpr (not_lt.mp hdata), fun _ _ => trivial⟩

theorem writeInstruction_returns_iff {instr : SolanaInstruction}
    (h : instr.accounts.length ≤ maxSolanaCompactU16) :
    (∃ b, writeInstruction lib ordered i instr = .ok b) ↔ DataFits instr := by
  obtain ⟨accountCount, hcount⟩ := writeCompactU16_returns h
  rw [writeInstruction, hcount, DataFits]
  cases hdata : hexDecodeString (strip0x instr.data) with
  | none => simp
  | some data =>
    by_cases hlen : data.length ≤ maxSolanaCompactU16
    · obtain ⟨dataLength, hlength⟩ := writeCompactU16_returns hlen
      simp only [not_lt.mpr hlen, not_lt.mpr h, hlength]
      exact iff_of_true ⟨_, rfl⟩ ⟨data, rfl, hlen⟩
    · simp [not_le.mp hlen]

theorem returns_writeInstructions {instrs : List SolanaInstruction} :
    Returns (writeInstructions lib ordered i instrs) ↔ ¬ Overflows instrs := by
  induction instrs generalizing i with
  | nil => exact iff_of_true trivial id
  | cons instr instrs ih =>
    rw [writeInstructions, returns_bind, returns_writeInstruction, Overflows, not_or, not_and,
      not_lt, and_congr_right_iff]
    intro hlen
    have hfits : (∃ b, writeInstruction lib ordered i instr = .ok b) ↔ DataFits instr :=
      writeInstruction_returns_iff hlen
    rw [← hfits]
    simp only [returns_bind, ih, returns_pure, implies_true, and_true, forall_exists_index]

theorem writeInstructions_returns {instrs : List SolanaInstruction}
    (h : ∀ instr ∈ instrs, instr.accounts.length ≤ maxSolanaCompactU16 ∧ DataFits instr) :
    ∃ b, writeInstructions lib ordered i instrs = .ok b := by
  induction instrs generalizing i with
  | nil => exact ⟨[], rfl⟩
  | cons instr instrs ih =>
    obtain ⟨⟨hlen, hdata⟩, h⟩ := List.forall_mem_cons.mp h
    obtain ⟨head, hhead⟩ := (writeInstruction_returns_iff hlen).mpr hdata
    obtain ⟨tail, htail⟩ := ih h
    exact ⟨_, by rw [writeInstructions, hhead, ok_bind, htail]; rfl⟩

/-! ## The message -/

/-- Past the checks, what is left is to write the instructions. -/
theorem buildTransaction_of_reaches {req : SolanaSignRequest} (h : ReachesInstructions lib req)
    (hinstrs : req.instructions ≠ []) : ∃ ordered start, buildTransaction lib req =
      writeInstructions lib ordered 0 req.instructions >>= fun b => pure (start ++ b) := by
  obtain ⟨hpayer, hhash, hprogram, hkeys, hlen, hcount⟩ := h
  obtain ⟨accounts, hcollect⟩ := (decides_collectAccounts req).2.mpr ⟨hprogram, hkeys⟩
  have hordered : (orderAccounts accounts).length ≤ maxSolanaAccounts :=
    ((orderAccounts_perm accounts).length_eq.trans
      (collectAccounts_merged hcollect).length_eq).trans_le hlen
  obtain ⟨keyCount, hkeyCount⟩ := writeCompactU16_returns (hordered.trans (by decide))
  obtain ⟨instructionCount, hinstructionCount⟩ := writeCompactU16_returns hcount
  refine ⟨orderAccounts accounts, writeHeader accounts ++ keyCount
    ++ (orderAccounts accounts).flatMap AccountInfo.key ++ lib.base58Decode req.recentBlockhash
    ++ instructionCount, ?_⟩
  rw [buildTransaction, if_neg hpayer, if_neg hinstrs]
  simp only [hhash, ne_eq, not_true, if_false, hcollect, ok_bind, not_lt.mpr hordered,
    not_lt.mpr hcount, hkeyCount, hinstructionCount]

/-- The builder returns a message for every request whose parts fit the format. -/
theorem buildTransaction_returns {req : SolanaSignRequest} (h : ReachesInstructions lib req)
    (hinstrs : req.instructions ≠ []) (hfit : ∀ instr ∈ req.instructions,
      instr.accounts.length ≤ maxSolanaCompactU16 ∧ DataFits instr) :
    ∃ msg, buildTransaction lib req = .ok msg := by
  obtain ⟨ordered, start, hbuild⟩ := buildTransaction_of_reaches h hinstrs
  obtain ⟨b, hb⟩ := writeInstructions_returns hfit
  exact ⟨start ++ b, by rw [hbuild, hb]; rfl⟩

theorem not_returns_of_overflows {req : SolanaSignRequest} (hreach : ReachesInstructions lib req)
    (hover : Overflows req.instructions) : ¬ Returns (buildTransaction lib req) := by
  have hinstrs : req.instructions ≠ [] := by
    intro h
    rw [h] at hover
    exact hover
  obtain ⟨ordered, start, hbuild⟩ := buildTransaction_of_reaches hreach hinstrs
  rw [hbuild, returns_bind, returns_writeInstructions]
  exact fun h => h.1 hover

/-- **The builder returns a message or an error** unless an instruction that it gets to write names
more than 65535 accounts. -/
theorem buildTransaction_returns_iff (lib : SolanaLib) (req : SolanaSignRequest) :
    Returns (buildTransaction lib req) ↔
      ¬ (ReachesInstructions lib req ∧ Overflows req.instructions) := by
  refine ⟨fun h hboth => not_returns_of_overflows hboth.1 hboth.2 h, fun hnot => ?_⟩
  unfold buildTransaction
  split
  · exact returns_errorf _
  next hpayer =>
  split
  · exact returns_errorf _
  dsimp only
  split
  · exact returns_errorf _
  next hhash =>
  refine returns_bind.mpr ⟨(decides_collectAccounts req).1, fun accounts hcollect => ?_⟩
  split
  · exact returns_errorf _
  next hlen =>
  split
  · exact returns_errorf _
  next hcount =>
  have hlen := not_lt.mp hlen
  have hcount := not_lt.mp hcount
  refine returns_bind.mpr ⟨returns_writeCompactU16.mpr (hlen.trans (by decide)), fun _ _ => ?_⟩
  refine returns_bind.mpr ⟨returns_writeCompactU16.mpr hcount, fun _ _ => ?_⟩
  refine returns_bind.mpr ⟨returns_writeInstructions.mpr fun hover => hnot ⟨?_, hover⟩,
    fun _ _ => trivial⟩
  obtain ⟨hprogram, hkeys⟩ := (decides_collectAccounts req).2.mp ⟨accounts, hcollect⟩
  rw [(orderAccounts_perm accounts).length_eq, (collectAccounts_merged hcollect).length_eq] at hlen
  exact ⟨hpayer, not_not.mp hhash, hprogram, hkeys, hlen, hcount⟩

end

def solanaLib : SolanaLib where
  base58Decode := Base58.decode
  hexError _ := "encoding/hex: odd length hex string"
  quote s := "\"" ++ s ++ "\""

/-- The address of the key whose value is `n`. -/
def keyText (n : Nat) : String :=
  String.ofList (List.replicate 31 '1'
    ++ (Nat.digits 58 n).reverse.map fun d => Base58.alphabet.getD d '1')

/-- A memo signed by the keys `1` to `n`, the first of which pays. -/
def signersRequest (n : Nat) : SolanaSignRequest where
  instructions :=
    [{ programID := "MemoSq4gqABAXKb96qnH8TysNcWxMyWCqXgDLGmfcHr"
       accounts := (List.range' 2 (n - 1)).map fun k =>
         { pubkey := keyText k, isSigner := true, isWritable := false }
       data := "0x6869" }]
  recentBlockhash := keyText 1
  feePayer := keyText 1

/-- A memo that names the account that pays 65536 times. -/
def crowdedRequest : SolanaSignRequest :=
  { signersRequest 1 with
    instructions :=
      [{ programID := "MemoSq4gqABAXKb96qnH8TysNcWxMyWCqXgDLGmfcHr"
         accounts := List.replicate 65536 ⟨keyText 1, false, true⟩
         data := "0x6869" }] }

theorem crowdedRequest_panics : ¬ Returns (buildTransaction solanaLib crowdedRequest) := by
  have hkey : (solanaLib.base58Decode (keyText 1)).length = 32 := by
    rfl
  have hpubkey : ∀ p ∈ mentions crowdedRequest, p.pubkey = keyText 1 ∨
      p.pubkey = "MemoSq4gqABAXKb96qnH8TysNcWxMyWCqXgDLGmfcHr" := by
    intro p hp
    simp only [mentions, crowdedRequest, List.flatMap_singleton, List.map_singleton,
      List.mem_append, List.mem_cons, List.mem_replicate, List.not_mem_nil, or_false] at hp
    rcases hp with (rfl | ⟨-, rfl⟩) | rfl
    · exact .inl rfl
    · exact .inl rfl
    · exact .inr rfl
  refine not_returns_of_overflows
    ⟨?_, hkey, fun instr hi => ?_, fun p hp => ?_, ?_, Nat.le_of_ble_eq_true rfl⟩ ?_
  · intro hempty
    rw [show keyText 1 = "" from hempty] at hkey
    exact absurd hkey (by decide)
  · rw [List.mem_singleton.mp hi]
    simp
  · rcases hpubkey p hp with h | h
    · rw [h]
      exact hkey
    · rw [h]
      decide +kernel
  · have hsub : ((mentions crowdedRequest).map SolanaAccountMeta.pubkey).dedup.Subperm
        [keyText 1, "MemoSq4gqABAXKb96qnH8TysNcWxMyWCqXgDLGmfcHr"] := by
      refine (List.nodup_dedup _).subperm fun k hk => ?_
      obtain ⟨p, hp, rfl⟩ := List.mem_map.mp (List.mem_dedup.mp hk)
      simpa using hpubkey p hp
    exact hsub.length_le.trans (by decide)
  · exact .inl (by rw [List.length_replicate]; decide)

end OpenFireblocks.Solana
