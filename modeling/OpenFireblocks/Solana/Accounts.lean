import OpenFireblocks.Solana.Message

/-!
# The account table of a Solana message

* It holds every account mentioned once, with the union of the privileges of its mentions
  (`collectAccounts_merged`). One mention is `Merged.upsert`; the loops are folds over it.
* Ordered by class, an account's position says what its privileges are (`isSigner_orderAccounts`,
  `isWritable_orderAccounts`).
-/

namespace OpenFireblocks.Solana

open BigEndian Go Outcome

/-! ## Mentions -/

def mentions (req : SolanaSignRequest) : List SolanaAccountMeta :=
  { pubkey := req.feePayer, isSigner := true, isWritable := true } ::
    req.instructions.flatMap SolanaInstruction.accounts
    ++ req.instructions.map fun instr =>
      { pubkey := instr.programID, isSigner := false, isWritable := false }

section

variable (flag : SolanaAccountMeta → Bool)

def anyMention (ms : List SolanaAccountMeta) (pubkey : String) : Bool :=
  ms.any fun m => m.pubkey = pubkey && flag m

theorem anyMention_append (ms ms' : List SolanaAccountMeta) (pubkey : String) :
    anyMention flag (ms ++ ms') pubkey = (anyMention flag ms pubkey || anyMention flag ms' pubkey) :=
  List.any_append

variable {pubkey : String}

@[simp] theorem anyMention_singleton_self (m : SolanaAccountMeta) :
    anyMention flag [m] m.pubkey = flag m := by
  simp [anyMention]

end

variable {flag : SolanaAccountMeta → Bool} {m : SolanaAccountMeta} {i : Nat}

theorem anyMention_singleton_of_ne (h : pubkey ≠ m.pubkey) :
    anyMention flag [m] pubkey = false := by
  simp [anyMention, h.symm]

variable {ms : List SolanaAccountMeta}

theorem anyMention_of_notMem (h : pubkey ∉ ms.map SolanaAccountMeta.pubkey) :
    anyMention flag ms pubkey = false := by
  unfold anyMention
  rw [List.any_eq_false]
  intro m hm
  have : m.pubkey ≠ pubkey := fun he => h (he ▸ List.mem_map_of_mem hm)
  simp [this]

theorem anyMention_eq_true :
    anyMention flag ms pubkey ↔ ∃ m ∈ ms, m.pubkey = pubkey ∧ flag m := by
  simp [anyMention]

/-! ## Merging -/

/-- The table after these mentions. -/
structure Merged (lib : SolanaLib) (ms : List SolanaAccountMeta) (accounts : List AccountInfo) :
    Prop where
  nodup : (accounts.map AccountInfo.pubkey).Nodup
  key : ∀ a ∈ accounts, a.key = lib.base58Decode a.pubkey ∧ a.key.length = 32
  mem : ∀ pubkey, pubkey ∈ accounts.map AccountInfo.pubkey ↔
    pubkey ∈ ms.map SolanaAccountMeta.pubkey
  signer : ∀ a ∈ accounts, a.isSigner = anyMention SolanaAccountMeta.isSigner ms a.pubkey
  writable : ∀ a ∈ accounts, a.isWritable = anyMention SolanaAccountMeta.isWritable ms a.pubkey
  head : accounts.head?.map AccountInfo.pubkey = ms.head?.map SolanaAccountMeta.pubkey

theorem merged_nil (lib : SolanaLib) : Merged lib [] [] where
  nodup := List.nodup_nil
  key := by simp
  mem := by simp
  signer := by simp
  writable := by simp
  head := rfl

def raise (m : SolanaAccountMeta) (a : AccountInfo) : AccountInfo :=
  if a.pubkey = m.pubkey then
    { a with isSigner := a.isSigner || m.isSigner, isWritable := a.isWritable || m.isWritable }
  else a

@[simp] theorem raise_pubkey (m : SolanaAccountMeta) (a : AccountInfo) :
    (raise m a).pubkey = a.pubkey := by
  unfold raise
  split <;> rfl

@[simp] theorem raise_key (m : SolanaAccountMeta) (a : AccountInfo) : (raise m a).key = a.key := by
  unfold raise
  split <;> rfl

theorem raise_isSigner (m : SolanaAccountMeta) (a : AccountInfo) :
    (raise m a).isSigner = (a.isSigner || anyMention SolanaAccountMeta.isSigner [m] a.pubkey) := by
  unfold raise
  split
  · next h => rw [h, anyMention_singleton_self]
  · next h => rw [anyMention_singleton_of_ne h, Bool.or_false]

theorem raise_isWritable (m : SolanaAccountMeta) (a : AccountInfo) :
    (raise m a).isWritable
      = (a.isWritable || anyMention SolanaAccountMeta.isWritable [m] a.pubkey) := by
  unfold raise
  split
  · next h => rw [h, anyMention_singleton_self]
  · next h => rw [anyMention_singleton_of_ne h, Bool.or_false]

theorem map_pubkey_raise (m : SolanaAccountMeta) (accounts : List AccountInfo) :
    (accounts.map (raise m)).map AccountInfo.pubkey = accounts.map AccountInfo.pubkey := by
  simp

theorem Merged.raise {lib : SolanaLib} {ms : List SolanaAccountMeta} {accounts : List AccountInfo}
    (h : Merged lib ms accounts) (hm : m.pubkey ∈ accounts.map AccountInfo.pubkey) :
    Merged lib (ms ++ [m]) (accounts.map (raise m)) where
  nodup := by
    rw [map_pubkey_raise]
    exact h.nodup
  key := by
    intro a ha
    obtain ⟨b, hb, rfl⟩ := List.mem_map.mp ha
    rw [raise_key, raise_pubkey]
    exact h.key b hb
  mem := by
    intro pubkey
    rw [map_pubkey_raise, h.mem, List.map_append, List.mem_append, List.map_singleton,
      List.mem_singleton]
    refine ⟨.inl, ?_⟩
    rintro (hp | rfl)
    · exact hp
    · exact (h.mem _).mp hm
  signer := by
    intro a ha
    obtain ⟨b, hb, rfl⟩ := List.mem_map.mp ha
    rw [raise_isSigner, raise_pubkey, anyMention_append, h.signer b hb]
  writable := by
    intro a ha
    obtain ⟨b, hb, rfl⟩ := List.mem_map.mp ha
    rw [raise_isWritable, raise_pubkey, anyMention_append, h.writable b hb]
  head := by
    cases accounts with
    | nil => simp at hm
    | cons =>
      cases ms with
      | nil | cons => simpa using h.head

variable {lib : SolanaLib} {accounts : List AccountInfo}

section

variable (h : Merged lib ms accounts)
include h

theorem Merged.insert (hm : m.pubkey ∉ accounts.map AccountInfo.pubkey)
    (hlen : (lib.base58Decode m.pubkey).length = 32) :
    Merged lib (ms ++ [m]) (accounts ++
      [{ pubkey := m.pubkey, key := lib.base58Decode m.pubkey, isSigner := m.isSigner,
         isWritable := m.isWritable }]) := by
  have hnew : m.pubkey ∉ ms.map SolanaAccountMeta.pubkey := mt (h.mem _).mpr hm
  have hne : ∀ a ∈ accounts, a.pubkey ≠ m.pubkey := by
    rintro a ha he
    exact hm (he ▸ List.mem_map_of_mem ha)
  refine ⟨?_, ?_, ?_, ?_, ?_, ?_⟩
  · rw [List.map_append]
    exact List.nodup_append'.mpr ⟨h.nodup, List.nodup_singleton _,
      List.disjoint_singleton.mpr hm⟩
  · intro a ha
    rcases List.mem_append.mp ha with ha | ha
    · exact h.key a ha
    rw [List.mem_singleton.mp ha]
    exact ⟨rfl, hlen⟩
  · intro pubkey
    simp [List.map_append, List.mem_append, h.mem]
  · intro a ha
    rcases List.mem_append.mp ha with ha | ha
    · rw [anyMention_append, ← h.signer a ha, anyMention_singleton_of_ne (hne a ha), Bool.or_false]
    rw [List.mem_singleton.mp ha, anyMention_append, anyMention_of_notMem hnew,
      anyMention_singleton_self, Bool.false_or]
  · intro a ha
    rcases List.mem_append.mp ha with ha | ha
    · rw [anyMention_append, ← h.writable a ha, anyMention_singleton_of_ne (hne a ha),
        Bool.or_false]
    · rw [List.mem_singleton.mp ha, anyMention_append, anyMention_of_notMem hnew,
        anyMention_singleton_self, Bool.false_or]
  · have hhead := h.head
    cases accounts with
    | nil =>
      cases ms with
      | nil => rfl
      | cons => simp at hhead
    | cons =>
      cases ms with
      | nil => simp at hhead
      | cons => simpa using hhead

variable {accounts' : List AccountInfo}

/-- `upsert` records one mention. -/
theorem Merged.upsert {isSigner isWritable : Bool}
    (hu : upsert lib accounts pubkey isSigner isWritable = .ok accounts') :
    Merged lib (ms ++ [{ pubkey := pubkey, isSigner := isSigner, isWritable := isWritable }])
      accounts' := by
  unfold Solana.upsert at hu
  simp only at hu
  split at hu
  · simp at hu
  next hlen =>
  split at hu
  · next hany =>
    cases hu
    obtain ⟨a, ha, hp⟩ := List.any_eq_true.mp hany
    exact h.raise (List.mem_map.mpr ⟨a, ha, of_decide_eq_true hp⟩)
  · next hany =>
    cases hu
    refine h.insert ?_ (not_not.mp hlen)
    intro hmem
    obtain ⟨a, ha, hp⟩ := List.mem_map.mp hmem
    exact hany (List.any_eq_true.mpr ⟨a, ha, decide_eq_true hp⟩)

/-! ## The loops -/

theorem Merged.upsertAccounts {metas : List SolanaAccountMeta}
    (hu : upsertAccounts lib i metas accounts = .ok accounts') :
    Merged lib (ms ++ metas) accounts' := by
  induction metas generalizing ms accounts with
  | nil =>
    cases hu
    rwa [List.append_nil]
  | cons acc metas ih =>
    obtain ⟨next, hnext, hu⟩ := bind_eq_ok.mp hu
    have := ih (h.upsert (wrapError_eq_ok.mp hnext)) hu
    rwa [List.append_assoc, List.singleton_append] at this

theorem Merged.upsertInstructions {instrs : List SolanaInstruction}
    (hu : upsertInstructions lib i instrs accounts = .ok accounts') :
    Merged lib (ms ++ instrs.flatMap SolanaInstruction.accounts) accounts' := by
  induction instrs generalizing i ms accounts with
  | nil =>
    cases hu
    rwa [List.flatMap_nil, List.append_nil]
  | cons instr instrs ih =>
    rw [Solana.upsertInstructions] at hu
    split at hu
    · simp at hu
    obtain ⟨next, hnext, hu⟩ := bind_eq_ok.mp hu
    have := ih (h.upsertAccounts hnext) hu
    rwa [List.append_assoc, ← List.flatMap_cons] at this

theorem Merged.upsertPrograms {instrs : List SolanaInstruction}
    (hu : upsertPrograms lib i instrs accounts = .ok accounts') :
    Merged lib (ms ++ instrs.map fun instr =>
      { pubkey := instr.programID, isSigner := false, isWritable := false }) accounts' := by
  induction instrs generalizing i ms accounts with
  | nil =>
    cases hu
    rwa [List.map_nil, List.append_nil]
  | cons instr instrs ih =>
    obtain ⟨next, hnext, hu⟩ := bind_eq_ok.mp hu
    have := ih (h.upsert (wrapError_eq_ok.mp hnext)) hu
    rwa [List.append_assoc, List.singleton_append] at this

end

variable {req : SolanaSignRequest}

/-- **The table holds every account once, with the union of its privileges.** -/
theorem collectAccounts_merged (h : collectAccounts lib req = .ok accounts) :
    Merged lib (mentions req) accounts := by
  obtain ⟨payer, hpayer, h⟩ := bind_eq_ok.mp h
  obtain ⟨instrs, hinstrs, h⟩ := bind_eq_ok.mp h
  exact (((merged_nil lib).upsert (wrapError_eq_ok.mp hpayer)).upsertInstructions
    hinstrs).upsertPrograms h

/-! ## The order of the accounts -/

section

variable (accounts)

def signers : List AccountInfo := accounts.filter AccountInfo.isSigner

theorem signers_perm :
    (writableSigners accounts ++ readonlySigners accounts).Perm (signers accounts) := by
  have h := List.filter_append_perm AccountInfo.isWritable (signers accounts)
  simpa [signers, writableSigners, readonlySigners, List.filter_filter, Bool.and_comm] using h

theorem others_perm :
    (writableOthers accounts ++ readonlyOthers accounts).Perm
      (accounts.filter fun a => !a.isSigner) := by
  have h := List.filter_append_perm AccountInfo.isWritable (accounts.filter fun a => !a.isSigner)
  simpa [writableOthers, readonlyOthers, List.filter_filter, Bool.and_comm] using h

theorem orderAccounts_perm : (orderAccounts accounts).Perm accounts := by
  have h := (signers_perm accounts).append (others_perm accounts)
  rw [← List.append_assoc] at h
  exact h.trans (List.filter_append_perm AccountInfo.isSigner accounts)

def signerCount : Nat :=
  (writableSigners accounts).length + (readonlySigners accounts).length

theorem signerCount_eq : signerCount accounts = (signers accounts).length := by
  rw [signerCount, ← List.length_append]
  exact (signers_perm accounts).length_eq

theorem length_orderAccounts :
    (orderAccounts accounts).length = signerCount accounts + (writableOthers accounts).length
      + (readonlyOthers accounts).length := by
  simp only [orderAccounts, List.length_append, signerCount]

end

variable {a : AccountInfo}

/-- An account stands in one of the four classes, each in its own stretch of positions. -/
theorem class_of_getElem? (h : (orderAccounts accounts)[i]? = some a) :
    (a ∈ writableSigners accounts ∧ i < (writableSigners accounts).length) ∨
    (a ∈ readonlySigners accounts ∧ (writableSigners accounts).length ≤ i ∧
      i < signerCount accounts) ∨
    (a ∈ writableOthers accounts ∧ signerCount accounts ≤ i ∧
      i < signerCount accounts + (writableOthers accounts).length) ∨
    (a ∈ readonlyOthers accounts ∧ signerCount accounts + (writableOthers accounts).length ≤ i) := by
  unfold orderAccounts at h
  rw [List.append_assoc, List.getElem?_append] at h
  split at h
  · next hi =>
    rw [List.length_append] at hi
    rw [List.getElem?_append] at h
    split at h
    · next hw => exact .inl ⟨List.mem_of_getElem? h, hw⟩
    · next hw => exact .inr (.inl ⟨List.mem_of_getElem? h, not_lt.mp hw, hi⟩)
  · next hi =>
    rw [List.length_append, ← signerCount] at hi
    rw [List.length_append, ← signerCount, List.getElem?_append] at h
    split at h
    · next hw => exact .inr (.inr (.inl ⟨List.mem_of_getElem? h, by omega, by omega⟩))
    · next hw => exact .inr (.inr (.inr ⟨List.mem_of_getElem? h, by omega⟩))

theorem mem_writableSigners (h : a ∈ writableSigners accounts) :
    a.isSigner ∧ a.isWritable := by
  simpa using (List.mem_filter.mp h).2

theorem mem_readonlySigners (h : a ∈ readonlySigners accounts) :
    a.isSigner ∧ a.isWritable = false := by
  simpa using (List.mem_filter.mp h).2

theorem mem_writableOthers (h : a ∈ writableOthers accounts) :
    a.isSigner = false ∧ a.isWritable := by
  simpa using (List.mem_filter.mp h).2

theorem mem_readonlyOthers (h : a ∈ readonlyOthers accounts) :
    a.isSigner = false ∧ a.isWritable = false := by
  simpa using (List.mem_filter.mp h).2

theorem isSigner_orderAccounts (h : (orderAccounts accounts)[i]? = some a) :
    a.isSigner ↔ i < signerCount accounts := by
  have hle : (writableSigners accounts).length ≤ signerCount accounts := Nat.le_add_right _ _
  rcases class_of_getElem? h with ⟨ha, hi⟩ | ⟨ha, -, hi⟩ | ⟨ha, hi, -⟩ | ⟨ha, hi⟩
  · exact iff_of_true (mem_writableSigners ha).1 (by omega)
  · exact iff_of_true (mem_readonlySigners ha).1 hi
  · exact iff_of_false (by simp [(mem_writableOthers ha).1]) (by omega)
  · exact iff_of_false (by simp [(mem_readonlyOthers ha).1]) (by omega)

theorem isWritable_orderAccounts (h : (orderAccounts accounts)[i]? = some a) :
    a.isWritable ↔ i < (writableSigners accounts).length ∨
      (signerCount accounts ≤ i ∧ i < signerCount accounts + (writableOthers accounts).length) := by
  have hle : (writableSigners accounts).length ≤ signerCount accounts := Nat.le_add_right _ _
  rcases class_of_getElem? h with ⟨ha, hi⟩ | ⟨ha, hi, hi'⟩ | ⟨ha, hi, hi'⟩ | ⟨ha, hi⟩
  · exact iff_of_true (mem_writableSigners ha).2 (.inl hi)
  · exact iff_of_false (by simp [(mem_readonlySigners ha).2]) (by omega)
  · exact iff_of_true (mem_writableOthers ha).2 (.inr ⟨hi, hi'⟩)
  · exact iff_of_false (by simp [(mem_readonlyOthers ha).2]) (by omega)

/-- The fee payer stays first, being a writable signer. -/
theorem head_orderAccounts (h : Merged lib (mentions req) accounts) :
    ∃ a, (orderAccounts accounts).head? = some a ∧ a ∈ accounts ∧ a.pubkey = req.feePayer := by
  have hhead := h.head
  cases accounts with
  | nil => simp [mentions] at hhead
  | cons a rest =>
    have hp : a.pubkey = req.feePayer := by simpa [mentions] using hhead
    have hs : a.isSigner := by
      rw [h.signer a List.mem_cons_self, hp]
      exact anyMention_eq_true.mpr ⟨_, List.mem_cons_self, rfl, rfl⟩
    have hw : a.isWritable := by
      rw [h.writable a List.mem_cons_self, hp]
      exact anyMention_eq_true.mpr ⟨_, List.mem_cons_self, rfl, rfl⟩
    refine ⟨a, ?_, List.mem_cons_self, hp⟩
    simp [orderAccounts, writableSigners, hs, hw]

/-! ## Counting the signers -/

/-- The accounts that have to sign: the fee payer and every account some instruction names as a
signer, each once. -/
def requiredSigners (req : SolanaSignRequest) : List String :=
  (((mentions req).filter SolanaAccountMeta.isSigner).map SolanaAccountMeta.pubkey).dedup

theorem mem_requiredSigners :
    pubkey ∈ requiredSigners req ↔
      anyMention SolanaAccountMeta.isSigner (mentions req) pubkey := by
  rw [requiredSigners, List.mem_dedup, List.mem_map, anyMention_eq_true]
  refine exists_congr fun m => ?_
  rw [List.mem_filter]
  tauto

theorem signerCount_eq_requiredSigners (h : Merged lib (mentions req) accounts) :
    signerCount accounts = (requiredSigners req).length := by
  have hnodup : ((signers accounts).map AccountInfo.pubkey).Nodup :=
    h.nodup.sublist (List.filter_sublist.map _)
  have hnodup' : (requiredSigners req).Nodup := List.nodup_dedup _
  have hperm : ((signers accounts).map AccountInfo.pubkey).Perm (requiredSigners req) := by
    refine (List.perm_ext_iff_of_nodup hnodup hnodup').mpr fun pubkey => ?_
    rw [mem_requiredSigners, List.mem_map]
    constructor
    · rintro ⟨a, ha, rfl⟩
      obtain ⟨ha, hs⟩ := List.mem_filter.mp ha
      rw [← h.signer a ha, hs]
    · intro hany
      obtain ⟨m, hm, rfl, hs⟩ := anyMention_eq_true.mp hany
      obtain ⟨a, ha, hp⟩ := List.mem_map.mp ((h.mem m.pubkey).mpr (List.mem_map_of_mem hm))
      exact ⟨a, List.mem_filter.mpr ⟨ha, by rw [h.signer a ha, hp, hany]⟩, hp⟩
  rw [signerCount_eq, ← hperm.length_eq, List.length_map]

end OpenFireblocks.Solana
