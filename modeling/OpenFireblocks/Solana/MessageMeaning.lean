import OpenFireblocks.Solana.BuilderPanics

/-!
# What a Solana message means to the network

A message is taken for a versioned one when the high bit of its first byte is set. That byte is
the number of signatures, and the builder bounds only the number of accounts, by 255.
-/

namespace OpenFireblocks.Solana

open BigEndian Go Outcome Reader

/-! ## Meaning -/

/-- Two texts of one 32-byte key are the same text. Base58 has this property. -/
def SolanaLib.Base58Injective (lib : SolanaLib) : Prop :=
  ∀ s t, (lib.base58Decode s).length = 32 → lib.base58Decode s = lib.base58Decode t → s = t

structure Means (lib : SolanaLib) (req : SolanaSignRequest) (m : Message) : Prop where
  feePayer : m.accountKeys[0]? = some (lib.base58Decode req.feePayer)
  nodup : m.accountKeys.Nodup
  /-- The keys are the accounts mentioned, and no others. -/
  keys : ∀ k, k ∈ m.accountKeys ↔ ∃ p ∈ mentions req, lib.base58Decode p.pubkey = k
  signer : ∀ i k, m.accountKeys[i]? = some k → (m.isSigner i = true ↔
    ∃ p ∈ mentions req, lib.base58Decode p.pubkey = k ∧ p.isSigner = true)
  writable : ∀ i k, m.accountKeys[i]? = some k → (m.isWritable i = true ↔
    ∃ p ∈ mentions req, lib.base58Decode p.pubkey = k ∧ p.isWritable = true)
  blockhash : m.recentBlockhash = lib.base58Decode req.recentBlockhash
  instructions : List.Forall₂ (fun instr c =>
    m.resolve c = (some (lib.base58Decode instr.programID),
      instr.accounts.map fun acc => some (lib.base58Decode acc.pubkey), c.data) ∧
    hexDecodeString (strip0x instr.data) = some c.data) req.instructions m.instructions

section

variable {lib : SolanaLib} {req : SolanaSignRequest} {accounts : List AccountInfo}

theorem getElem?_indexOf (h : Merged lib (mentions req) accounts)
    (hlen : (orderAccounts accounts).length ≤ 255) {pubkey : String}
    (hp : pubkey ∈ (mentions req).map SolanaAccountMeta.pubkey) :
    ((orderAccounts accounts).map AccountInfo.key)[
        (UInt8.ofNat (indexOf (orderAccounts accounts) pubkey)).toNat]?
      = some (lib.base58Decode pubkey) := by
  have hmem := (h.mem pubkey).mpr hp
  obtain ⟨a, ha, rfl⟩ := List.mem_map.mp hmem
  have hao := (orderAccounts_perm accounts).mem_iff.mpr ha
  obtain ⟨i, hi⟩ : ∃ i, (orderAccounts accounts).findIdx? (fun b => b.pubkey = a.pubkey) = some i := by
    rw [← Option.isSome_iff_exists, List.findIdx?_isSome, List.any_eq_true]
    exact ⟨a, hao, decide_eq_true rfl⟩
  obtain ⟨hlt, heq, -⟩ := List.findIdx?_eq_some_iff_getElem.mp hi
  have hbyte : (UInt8.ofNat i).toNat = i := UInt8.toNat_ofNat_of_lt' (by
    show i < 256
    omega)
  have hb : (orderAccounts accounts)[i] ∈ accounts :=
    (orderAccounts_perm accounts).mem_iff.mp (List.getElem_mem hlt)
  rw [indexOf, hi, Option.getD_some, hbyte, List.getElem?_map, List.getElem?_eq_getElem hlt,
    Option.map_some, (h.key _ hb).1, of_decide_eq_true heq]

theorem mention_iff (hinj : lib.Base58Injective) (h : Merged lib (mentions req) accounts)
    {a : AccountInfo} (ha : a ∈ accounts) (flag : SolanaAccountMeta → Bool) :
    anyMention flag (mentions req) a.pubkey ↔
      ∃ p ∈ mentions req, lib.base58Decode p.pubkey = a.key ∧ flag p := by
  obtain ⟨hkey, hlen⟩ := h.key a ha
  rw [anyMention_eq_true]
  refine exists_congr fun p => and_congr_right fun _ => and_congr_left fun _ => ?_
  rw [hkey] at hlen ⊢
  exact ⟨congrArg _, fun he => (hinj _ _ hlen he.symm).symm⟩

/-- Reading a position of the message's keys reads a position of the table. -/
theorem getElem?_keys {i : Nat} {k : Bytes}
    (h : ((orderAccounts accounts).map AccountInfo.key)[i]? = some k) :
    ∃ a, (orderAccounts accounts)[i]? = some a ∧ a ∈ accounts ∧ a.key = k := by
  rw [List.getElem?_map, Option.map_eq_some_iff] at h
  obtain ⟨a, ha, rfl⟩ := h
  exact ⟨a, ha, (orderAccounts_perm accounts).mem_iff.mp (List.mem_of_getElem? ha), rfl⟩

theorem nodup_keys (hinj : lib.Base58Injective) (h : Merged lib (mentions req) accounts) :
    ((orderAccounts accounts).map AccountInfo.key).Nodup := by
  have hperm := orderAccounts_perm accounts
  refine (hperm.map AccountInfo.key).nodup_iff.mpr ?_
  refine List.Nodup.map_on ?_ h.nodup.of_map
  intro a ha b hb hab
  obtain ⟨hka, hlen⟩ := h.key a ha
  obtain ⟨hkb, -⟩ := h.key b hb
  refine List.inj_on_of_nodup_map h.nodup ha hb (hinj _ _ (hka ▸ hlen) ?_)
  rw [← hka, ← hkb, hab]

/-- **The message says what the request asked for.** -/
theorem buildTransaction_means (hinj : lib.Base58Injective) {msg : Bytes}
    (h : buildTransaction lib req = .ok msg) :
    ∃ m, message.run msg = some (m, []) ∧ Means lib req m := by
  obtain ⟨accounts, cs, hmerged, hlen, hcs, -, hreads⟩ := buildTransaction_eq_ok h
  refine ⟨_, hreads.run_eq, ?_⟩
  have hcounts := length_orderAccounts accounts
  have hro : (readonlySigners accounts).length ≤ signerCount accounts := Nat.le_add_left _ _
  have hbyte : ∀ {n : Nat}, n ≤ 255 → (UInt8.ofNat n).toNat = n := fun hn =>
    UInt8.toNat_ofNat_of_lt' (Nat.lt_succ_of_le hn)
  refine ⟨?_, nodup_keys hinj hmerged, ?_, ?_, ?_, rfl, ?_⟩
  · obtain ⟨a, ha, hmem, hp⟩ := head_orderAccounts hmerged
    rw [List.head?_eq_getElem?] at ha
    rw [List.getElem?_map, ha, Option.map_some, (hmerged.key a hmem).1, hp]
  · intro k
    rw [((orderAccounts_perm accounts).map AccountInfo.key).mem_iff, List.mem_map]
    constructor
    · rintro ⟨a, ha, rfl⟩
      obtain ⟨p, hp, hpa⟩ := List.mem_map.mp ((hmerged.mem _).mp (List.mem_map_of_mem ha))
      exact ⟨p, hp, by rw [hpa, (hmerged.key a ha).1]⟩
    · rintro ⟨p, hp, rfl⟩
      obtain ⟨a, ha, hpa⟩ := List.mem_map.mp ((hmerged.mem _).mpr (List.mem_map_of_mem hp))
      exact ⟨a, ha, by rw [(hmerged.key a ha).1, hpa]⟩
  · intro i k hk
    obtain ⟨a, hi, ha, rfl⟩ := getElem?_keys hk
    rw [← mention_iff hinj hmerged ha, ← hmerged.signer a ha, isSigner_orderAccounts hi,
      Message.isSigner, decide_eq_true_iff, hbyte (by omega)]
  · intro i k hk
    obtain ⟨a, hi, ha, rfl⟩ := getElem?_keys hk
    have hdiff : signerCount accounts - (readonlySigners accounts).length
        = (writableSigners accounts).length := by
      unfold signerCount
      omega
    rw [← mention_iff hinj hmerged ha, ← hmerged.writable a ha, isWritable_orderAccounts hi,
      Message.isWritable, Bool.or_eq_true, Bool.and_eq_true, decide_eq_true_iff,
      decide_eq_true_iff, decide_eq_true_iff, List.length_map, hbyte (by omega),
      hbyte (by omega), hbyte (by omega), hdiff, hcounts, Nat.add_sub_cancel]
  · -- every key an instruction refers to is one of the mentions
    have hcs' := (List.forall₂_and_left _ _).mpr ⟨fun instr hi => hi, hcs⟩
    refine hcs'.imp ?_
    rintro instr c ⟨hinstr, hprog, hacc, hdata⟩
    have hprogram : instr.programID ∈ (mentions req).map SolanaAccountMeta.pubkey :=
      List.mem_map.mpr ⟨_, List.mem_append_right _ (List.mem_map_of_mem hinstr), rfl⟩
    have haccounts : ∀ acc ∈ instr.accounts,
        acc.pubkey ∈ (mentions req).map SolanaAccountMeta.pubkey := by
      intro acc ha
      have hmem := List.mem_flatMap.mpr ⟨instr, hinstr, ha⟩
      exact List.mem_map_of_mem (List.mem_append_left _ (List.mem_cons_of_mem _ hmem))
    refine ⟨?_, hdata⟩
    rw [Message.resolve, hprog, hacc, getElem?_indexOf hmerged hlen hprogram, List.map_map]
    refine congrArg (fun accs => (some (lib.base58Decode instr.programID), accs, c.data)) ?_
    exact List.map_congr_left fun acc ha => getElem?_indexOf hmerged hlen (haccounts acc ha)

/--
**The message is a legacy one exactly when no more than 127 accounts sign.**

The builder accepts up to 255 accounts, all of which may be signers. From 128 signers on the
message still parses as the request asked, but its first byte has the bit that marks a versioned
message.
-/
theorem buildTransaction_legacy_iff (hinj : lib.Base58Injective) {msg : Bytes}
    (h : buildTransaction lib req = .ok msg) :
    ((∃ m, message.run msg = some (m, []) ∧ Means lib req m) ∧ ∃ c, msg.head? = some c ∧ c < 0x80)
      ↔ (requiredSigners req).length ≤ 127 := by
  rw [and_iff_right (buildTransaction_means hinj h)]
  obtain ⟨accounts, -, hmerged, hlen, -, hhead, -⟩ := buildTransaction_eq_ok h
  have hcounts := length_orderAccounts accounts
  rw [← signerCount_eq_requiredSigners hmerged, hhead]
  have hbyte : (UInt8.ofNat (signerCount accounts)).toNat = signerCount accounts :=
    UInt8.toNat_ofNat_of_lt' (show signerCount accounts < 256 by omega)
  constructor
  · rintro ⟨c, hc, hlt⟩
    cases hc
    have := UInt8.lt_iff_toNat_lt.mp hlt
    rw [hbyte] at this
    exact Nat.le_of_lt_succ this
  · intro hle
    refine ⟨_, rfl, UInt8.lt_iff_toNat_lt.mpr ?_⟩
    rw [hbyte]
    exact Nat.lt_succ_of_le hle

end

/-! ### Requests with any number of signers -/

theorem solanaLib_injective : solanaLib.Base58Injective := by
  intro s t hlen h
  refine Base58.decode_injective ?_ h
  intro he
  rw [show solanaLib.base58Decode s = [] from he] at hlen
  simp at hlen

theorem decode_keyText {n : Nat} (h : n ∈ List.range' 1 128) :
    solanaLib.base58Decode (keyText n) = List.replicate 31 0 ++ [UInt8.ofNat n] := by
  have htail : ∀ k ∈ List.range' 1 128, Base58.decodeChars
      ((Nat.digits 58 k).reverse.map fun d => Base58.alphabet.getD d '1') = [UInt8.ofNat k] := by
    decide +kernel
  have hlib : solanaLib.base58Decode = Base58.decode := rfl
  rw [hlib, keyText, Base58.decode_ofList,
    Base58.decodeChars_ones _ (by rw [htail n h]; simp), htail n h]

theorem keyText_injOn {m n : Nat} (hm : m ∈ List.range' 1 128) (hn : n ∈ List.range' 1 128)
    (h : keyText m = keyText n) : m = n := by
  have hdec := congrArg solanaLib.base58Decode h
  rw [decode_keyText hm, decode_keyText hn, List.append_cancel_left_eq, List.cons.injEq] at hdec
  have hm' := List.mem_range'_1.mp hm
  have hn' := List.mem_range'_1.mp hn
  have hmod := congrArg UInt8.toNat hdec.1
  rw [UInt8.toNat_ofNat_of_lt' (show m < 256 by omega),
    UInt8.toNat_ofNat_of_lt' (show n < 256 by omega)] at hmod
  exact hmod

section

variable {n : Nat} (h1 : 1 ≤ n) (hn : n ≤ 128)

include h1

/-- Signers and fee payer together are the keys `1` to `n`. -/
theorem signers_signersRequest :
    ((mentions (signersRequest n)).filter SolanaAccountMeta.isSigner).map SolanaAccountMeta.pubkey
      = (List.range' 1 n).map keyText := by
  obtain ⟨k, rfl⟩ : ∃ k, n = k + 1 := ⟨n - 1, by omega⟩
  simp [mentions, signersRequest, List.filter_map, List.range'_succ, Function.comp_def]

include hn

theorem length_requiredSigners_signersRequest :
    (requiredSigners (signersRequest n)).length = n := by
  have hsub : ∀ k ∈ List.range' 1 n, k ∈ List.range' 1 128 := by
    intro k hk
    have := List.mem_range'_1.mp hk
    exact List.mem_range'_1.mpr ⟨this.1, by omega⟩
  have hnodup : ((List.range' 1 n).map keyText).Nodup :=
    List.Nodup.map_on (fun a ha b hb => keyText_injOn (hsub a ha) (hsub b hb)) List.nodup_range'
  rw [requiredSigners, signers_signersRequest h1, hnodup.dedup, List.length_map,
    List.length_range']

theorem buildTransaction_signersRequest :
    ∃ msg, buildTransaction solanaLib (signersRequest n) = .ok msg := by
  have hkey : ∀ k ∈ List.range' 1 128, (solanaLib.base58Decode (keyText k)).length = 32 := by
    intro k hk
    rw [decode_keyText hk]
    rfl
  have hprogram : (solanaLib.base58Decode "MemoSq4gqABAXKb96qnH8TysNcWxMyWCqXgDLGmfcHr").length
      = 32 := by decide +kernel
  have hdata : hexDecodeString (strip0x "0x6869") = some [0x68, 0x69] := by decide
  have hlen : (mentions (signersRequest n)).length = n + 1 := by
    simp [mentions, signersRequest]
    omega
  have hpayer : (signersRequest n).feePayer ≠ "" := by
    intro he
    have hempty : (solanaLib.base58Decode "").length ≠ 32 := by decide
    exact hempty (he ▸ hkey 1 (by decide))
  refine buildTransaction_returns ⟨hpayer, hkey 1 (by decide), ?_, ?_, ?_,
    Nat.le_of_ble_eq_true rfl⟩ (List.cons_ne_nil _ _) ?_
  · intro instr hi
    rw [List.mem_singleton.mp hi]
    simp
  · intro p hp
    simp only [mentions, signersRequest, List.flatMap_singleton, List.map_singleton,
      List.mem_append, List.mem_cons, List.mem_map, List.not_mem_nil, or_false] at hp
    rcases hp with (rfl | ⟨k, hk, rfl⟩) | rfl
    · exact hkey 1 (by decide)
    · have hk := List.mem_range'_1.mp hk
      exact hkey k (List.mem_range'_1.mpr ⟨by omega, by omega⟩)
    · exact hprogram
  · refine (List.dedup_sublist _).length_le.trans ?_
    rw [List.length_map, hlen]
    exact Nat.le_trans (Nat.succ_le_succ hn) (by decide)
  · intro instr hi
    rw [List.mem_singleton.mp hi]
    refine ⟨?_, [0x68, 0x69], hdata, by decide⟩
    simp only [List.length_map, List.length_range', maxSolanaCompactU16]
    omega

end

theorem buildTransaction_legacy_three_signers :
    ∃ msg, buildTransaction solanaLib (signersRequest 3) = .ok msg ∧
      (requiredSigners (signersRequest 3)).length = 3 ∧
      (∃ m, message.run msg = some (m, []) ∧ Means solanaLib (signersRequest 3) m) ∧
      ∃ c, msg.head? = some c ∧ c < 0x80 := by
  obtain ⟨msg, hmsg⟩ := buildTransaction_signersRequest (n := 3) (by decide) (by decide)
  have hcount := length_requiredSigners_signersRequest (n := 3) (by decide) (by decide)
  obtain ⟨hmeans, hfirst⟩ :=
    (buildTransaction_legacy_iff solanaLib_injective hmsg).mpr (by rw [hcount]; decide)
  exact ⟨msg, hmsg, hcount, hmeans, hfirst⟩

/-- With 128 signers the first byte is the one that announces a versioned message. -/
theorem buildTransaction_128_signers :
    ∃ msg, buildTransaction solanaLib (signersRequest 128) = .ok msg ∧
      msg.head? = some 0x80 := by
  obtain ⟨msg, hmsg⟩ := buildTransaction_signersRequest (n := 128) (by decide) (by decide)
  obtain ⟨accounts, -, hmerged, -, -, hhead, -⟩ := buildTransaction_eq_ok hmsg
  refine ⟨msg, hmsg, ?_⟩
  rw [hhead, signerCount_eq_requiredSigners hmerged,
    length_requiredSigners_signersRequest (by decide) (by decide)]
  rfl

end OpenFireblocks.Solana
