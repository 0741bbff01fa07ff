import OpenFireblocks.Lib.Outcome
import OpenFireblocks.Reconciliation.Reconcile
import Mathlib.Data.List.Dedup
import Mathlib.Data.List.Perm.Subperm

/-!
# Spends that the platform did not sign

`runChain` and `runNative` of `reconciliation/reconciliation.service.ts`. Both classify the entries
of the window and then look for spends by something else: an EVM address has used a nonce that the
platform never signed, or a Cosmos account has sent more transactions than the platform signed.

* A node answers or throws; what it answers about counts is what the chain has (`EvmNode`,
  `CosmosNode`).
* An EVM nonce may also have been used by no transaction of the address (a delegation that the key
  signed), so an address has at most as many mined transactions as its count says.
* The summary of a run is left out, and so is the insert that saves it.

Neither test looks at hashes.
-/

namespace OpenFireblocks.Reconciliation

open Outcome

structure ChainBreak where
  classification : Classification
  severity : Severity
  requestId : Option String
  txHash : Option String
  address : Option String
  detail : String

/-- The columns of `signing.transactions` that a run reads. -/
structure LedgerRow where
  requestId : String
  customerId : String
  chain : String
  createdAt : Int
  signedTx : Option String
  txHash : Option String
  assetContract : Option String
  effectiveTo : Option String
  effectiveAmount : Option String

/-- The columns of `key_pairs` that a run reads. -/
structure KeyRow where
  customerId : String
  blockchain : String
  address : Option String
  publicKey : Option String

structure Tables where
  transactions : List LedgerRow
  keyPairs : List KeyRow

/-- The entries of a window that are not all right. -/
def reportEntry (requestId txHash : String) (c : Classification × String) : Option ChainBreak :=
  if c.1.severity = .ok then none
  else some ⟨c.1, c.1.severity, some requestId, some txHash, none, c.2⟩

/-! ## EVM -/

structure MinedTransaction where
  sender : String
  nonce : Nat
  hash : String

structure EvmChain where
  mined : List MinedTransaction
  count : String → Nat
  nonce_lt : ∀ tx ∈ mined, tx.nonce < count tx.sender
  nonce_inj : ∀ tx ∈ mined, ∀ tx' ∈ mined, tx.sender = tx'.sender → tx.nonce = tx'.nonce → tx = tx'

structure EvmNode (chain : EvmChain) where
  receipt : String → Except String (Option Receipt)
  transaction : String → Except String Bool
  getTransactionCount : String → Except String Nat
  count_eq : ∀ {address n}, getTransactionCount address = .ok n → n = chain.count address

section

variable (lib : EvmLib) (tables : Tables) (customerId : String)

/-- `ledger`: what a customer has signed. -/
def ledger : List LedgerEntry :=
  tables.transactions.filterMap fun row =>
    if row.customerId = customerId then
      row.signedTx.map fun signedTx =>
        { requestId := row.requestId
          signedTx := signedTx
          createdAt := row.createdAt
          assetContract := row.assetContract
          effectiveTo := row.effectiveTo
          effectiveAmount := row.effectiveAmount }
    else none

/-- Every transaction that was signed for the chain. What cannot be parsed is counted and left. -/
def signedFor (chainId : Nat) : List Parsed :=
  (ledger tables customerId).filterMap fun e =>
    match parseSigned lib e with
    | .ok p => if p.chainId = chainId then some p else none
    | .error _ => none

/-- `address ~* '^0x[0-9a-f]{40}$'`. -/
def isHexAddress (address : String) : Bool :=
  match address.toList with
  | '0' :: x :: digits =>
    x.toLower = 'x' && digits.length = 40 &&
      digits.all fun c => c.isDigit ∨ c.toLower ∈ "abcdef".toList
  | _ => false

def evmKeys : List String :=
  tables.keyPairs.filterMap fun row =>
    if row.customerId = customerId ∧ row.blockchain = "ethereum" then
      row.address.filter isHexAddress
    else none

/-- The addresses to account for: those of the keys, and those that the ledger shows signing. -/
def accounted (all : List Parsed) : Except String (List String) := do
  let keys ← (evmKeys tables customerId).mapM lib.getAddress
  let senders ← (all.map Parsed.sender).mapM lib.getAddress
  return (keys ++ senders).eraseDups

def signedNonces (all : List Parsed) (address : String) : List Nat :=
  (all.filter fun p => lib.getAddress p.sender = .ok address).map Parsed.nonce

end

def unsignedBreak (address : String) (unsigned : List Nat) : ChainBreak :=
  let plural := 1 < unsigned.length
  let nonces := if plural then "nonces" else "nonce"
  let them := if plural then "them" else "it"
  let list := ", ".intercalate (unsigned.map toString)
  { classification := .unsignedOutbound
    severity := .critical
    requestId := none
    txHash := none
    address := some address
    detail := s!"{address} has used {nonces} {list} on chain, and this platform "
      ++ s!"never signed a transaction with {them}. Something else holds or used this key." }

section

variable (lib : EvmLib) {chain : EvmChain}

def knownToNode (node : EvmNode chain) (receipt : Option Receipt) (hash : String) :
    Except String Bool :=
  if receipt.isSome then .ok true else node.transaction hash

def classifyOnNode (node : EvmNode chain) (now : Int) (missingAfter : Nat) (p : Parsed) :
    Except String (Option ChainBreak) := do
  let receipt ← node.receipt p.hash
  let known ← knownToNode node receipt p.hash
  let c ← classify lib p receipt known now missingAfter
  return reportEntry p.requestId p.hash c

def accountFor (node : EvmNode chain) (all : List Parsed) (address : String) :
    Except String (Option ChainBreak) := do
  let chainNonce ← node.getTransactionCount address
  let unsigned := unsignedNonces chainNonce (signedNonces lib all address)
  return if unsigned = [] then none else some (unsignedBreak address unsigned)

/-- `runChain` at time `now`, for a chain whose node may not be configured. -/
def runChain (tables : Tables) (customerId : String) (chainId : Nat)
    (node : Option (EvmNode chain)) (now : Int) (sinceHours missingAfterMinutes : Option Nat) :
    Except String (List ChainBreak) :=
  match node with
  | none =>
    .error s!"no JSON-RPC endpoint is configured for chain {chainId} (EVM_RPC_{chainId})"
  | some node => do
    let since := now - sinceHours.getD 168 * 3600000
    let missingAfter := missingAfterMinutes.getD 30
    let all := signedFor lib tables customerId chainId
    let entries ← (all.filter fun p => since ≤ p.entry.createdAt).mapM
      (classifyOnNode lib node now missingAfter)
    let addresses ← accounted lib tables customerId all
    let foreign ← addresses.mapM (accountFor lib node all)
    return entries.filterMap id ++ foreign.filterMap id

end

/-! ## Solana and Cosmos -/

inductive NativeBlockchain where
  | solana
  | cosmos

def NativeBlockchain.name : NativeBlockchain → String
  | .solana => "solana"
  | .cosmos => "cosmos"

structure CosmosAccount where
  accepted : List String
  nodup : accepted.Nodup

structure NativeNode (accounts : String → CosmosAccount) where
  status : NativeBlockchain → String → Except String NativeChainStatus
  cosmosAddress : String → Except String String
  /-- the sequence of an account -/
  cosmosAccount : String → Except String Nat
  sequence_eq : ∀ {address n}, cosmosAccount address = .ok n →
    n = (accounts address).accepted.length

def nativeEntries (tables : Tables) (customerId : String) (blockchain : NativeBlockchain) :
    List NativeLedgerEntry :=
  tables.transactions.filterMap fun row =>
    if row.customerId = customerId ∧ row.chain = blockchain.name then
      row.txHash.map fun txHash =>
        { requestId := row.requestId
          createdAt := row.createdAt
          txHash := txHash
          recipient := row.effectiveTo
          amount := row.effectiveAmount }
    else none

def cosmosKeys (tables : Tables) (customerId : String) : List String :=
  tables.keyPairs.filterMap fun row =>
    if row.customerId = customerId ∧ row.blockchain = "cosmos" then row.publicKey else none

def sequenceBreak (address : String) (sequence signed : Nat) : ChainBreak where
  classification := .unsignedOutbound
  severity := .critical
  requestId := none
  txHash := none
  address := some address
  detail := s!"{address} has sent {sequence} transactions on chain and this platform signed {signed}. "
    ++ "Something else holds or used this key."

section

variable {accounts : String → CosmosAccount}

def classifyNativeOnNode (node : NativeNode accounts) (blockchain : NativeBlockchain) (now : Int)
    (missingAfter : Nat) (e : NativeLedgerEntry) : Except String (Option ChainBreak) :=
  match node.status blockchain e.txHash with
  | .error err => .error s!"could not read {blockchain.name} transaction {e.txHash}: {err}"
  | .ok st => .ok (reportEntry e.requestId e.txHash (classifyNative e st now missingAfter))

def sequenceCheck (node : NativeNode accounts) (tables : Tables) (customerId : String)
    (signed : Nat) : Except String (List ChainBreak) :=
  match cosmosKeys tables customerId with
  | [publicKey] => do
    let address ← node.cosmosAddress publicKey
    let sequence ← node.cosmosAccount address
    return if signed < sequence then [sequenceBreak address sequence signed] else []
  | _ => .ok []

def runNative (tables : Tables) (customerId : String) (blockchain : NativeBlockchain)
    (node : NativeNode accounts) (now : Int) (sinceHours missingAfterMinutes : Option Nat) :
    Except String (List ChainBreak) := do
  let since := now - sinceHours.getD 168 * 3600000
  let missingAfter := missingAfterMinutes.getD 30
  let entries := nativeEntries tables customerId blockchain
  let breaks ← (entries.filter fun e => since ≤ e.createdAt).mapM
    (classifyNativeOnNode node blockchain now missingAfter)
  let foreign ← match blockchain with
    | .solana => .ok []
    | .cosmos => sequenceCheck node tables customerId entries.length
  return breaks.filterMap id ++ foreign

end

/-! ## Foreign spends -/

def Reports (breaks : List ChainBreak) (address : String) : Prop :=
  ∃ b ∈ breaks, b.classification = .unsignedOutbound ∧ b.severity = .critical ∧
    b.address = some address

def recordedHashes (lib : EvmLib) (all : List Parsed) (address : String) : List String :=
  (all.filter fun p => lib.getAddress p.sender = .ok address).map Parsed.hash

def ForeignMined (lib : EvmLib) (all : List Parsed) (chain : EvmChain) (address : String) : Prop :=
  ∃ tx ∈ chain.mined, tx.sender = address ∧ tx.hash ∉ recordedHashes lib all address

section

variable (tables : Tables) (customerId : String)

def cosmosHashes : List String :=
  (nativeEntries tables customerId .cosmos).map NativeLedgerEntry.txHash

def foreignAccepted (account : CosmosAccount) : List String :=
  account.accepted.filter fun hash => hash ∉ cosmosHashes tables customerId

/-- The rows of the ledger beyond one for each accepted transaction that it has: transactions that
failed before they were accepted, never landed, were replaced, or are there twice. -/
def surplusRows (account : CosmosAccount) : Nat :=
  (nativeEntries tables customerId .cosmos).length -
    (account.accepted.filter fun hash => hash ∈ cosmosHashes tables customerId).length

end

theorem not_reports_entries {entries : List (Option ChainBreak)} {address : String}
    (h : ∀ b, some b ∈ entries → b.address = none) : ¬Reports (entries.filterMap id) address := by
  rintro ⟨b, hb, -, -, haddress⟩
  obtain ⟨o, ho, rfl⟩ := List.mem_filterMap.mp hb
  rw [h b ho] at haddress
  cases haddress

theorem reports_append {xs ys : List ChainBreak} {address : String} :
    Reports (xs ++ ys) address ↔ Reports xs address ∨ Reports ys address := by
  simp [Reports, List.mem_append, or_and_right, exists_or]

theorem address_reportEntry {requestId txHash : String} {c : Classification × String}
    {b : ChainBreak} (h : reportEntry requestId txHash c = some b) : b.address = none := by
  unfold reportEntry at h
  split at h
  · cases h
  cases h
  rfl

section

variable {lib : EvmLib} {chain : EvmChain} {tables : Tables} {customerId : String} {chainId : Nat}
  {node : Option (EvmNode chain)} {now : Int} {sinceHours missingAfterMinutes : Option Nat}
  {breaks : List ChainBreak} {addresses : List String} {address : String}

/-- **A completed run reports an address exactly if the chain counts a nonce that the ledger has
not.** -/
theorem reports_runChain_iff
    (hrun : runChain lib tables customerId chainId node now sinceHours missingAfterMinutes =
      .ok breaks)
    (haccounted : accounted lib tables customerId (signedFor lib tables customerId chainId) =
      .ok addresses) (hmem : address ∈ addresses) :
    Reports breaks address ↔ ∃ n < chain.count address,
      n ∉ signedNonces lib (signedFor lib tables customerId chainId) address := by
  cases node with
  | none => cases hrun
  | some node =>
    obtain ⟨entries, hentries, hrun⟩ := bind_eq_ok.mp hrun
    obtain ⟨addresses', haddresses, hrun⟩ := bind_eq_ok.mp hrun
    obtain rfl : addresses = addresses' := Except.ok.inj (haccounted.symm.trans haddresses)
    obtain ⟨foreign, hforeign, hrun⟩ := bind_eq_ok.mp hrun
    cases hrun
    have hnot : ¬Reports (entries.filterMap id) address := by
      refine not_reports_entries fun b hb => ?_
      obtain ⟨p, -, hp⟩ := (mem_mapM_eq_ok hentries _).mp hb
      obtain ⟨receipt, -, hp⟩ := bind_eq_ok.mp hp
      obtain ⟨known, -, hp⟩ := bind_eq_ok.mp hp
      obtain ⟨c, -, hp⟩ := bind_eq_ok.mp hp
      exact address_reportEntry (Except.ok.inj hp)
    rw [reports_append, or_iff_right hnot, ← unsignedNonces_ne_nil]
    constructor
    · rintro ⟨b, hb, -, -, haddress⟩
      obtain ⟨o, ho, rfl⟩ := List.mem_filterMap.mp hb
      obtain ⟨other, -, hother⟩ := (mem_mapM_eq_ok hforeign _).mp ho
      obtain ⟨chainNonce, hcount, hother⟩ := bind_eq_ok.mp hother
      have hbreak := Except.ok.inj hother
      split at hbreak
      · cases hbreak
      next hne =>
      cases hbreak
      obtain rfl : other = address := Option.some.inj haddress
      rw [← node.count_eq hcount]
      exact hne
    · intro hne
      obtain ⟨o, ho⟩ := exists_mapM_eq_ok.mp ⟨_, hforeign⟩ address hmem
      have hin := (mem_mapM_eq_ok hforeign o).mpr ⟨address, hmem, ho⟩
      obtain ⟨chainNonce, hcount, ho⟩ := bind_eq_ok.mp ho
      have hbreak := Except.ok.inj ho
      rw [node.count_eq hcount, if_neg hne] at hbreak
      obtain rfl := hbreak
      exact ⟨_, List.mem_filterMap.mpr ⟨_, hin, rfl⟩, rfl, rfl, rfl⟩

end

section

variable {accounts : String → CosmosAccount} {tables : Tables} {customerId : String}
  {node : NativeNode accounts} {now : Int} {sinceHours missingAfterMinutes : Option Nat}
  {breaks : List ChainBreak} {publicKey address : String}

/-- **A completed Cosmos run reports the address of the one key exactly if the account has sent more
transactions than the ledger has rows.** -/
theorem reports_runNative_iff
    (hrun : runNative tables customerId .cosmos node now sinceHours missingAfterMinutes =
      .ok breaks) (hkeys : cosmosKeys tables customerId = [publicKey])
    (haddress : node.cosmosAddress publicKey = .ok address) :
    Reports breaks address ↔
      (nativeEntries tables customerId .cosmos).length < (accounts address).accepted.length := by
  obtain ⟨entries, hentries, hrun⟩ := bind_eq_ok.mp hrun
  obtain ⟨foreign, hforeign, hrun⟩ := bind_eq_ok.mp hrun
  cases hrun
  have hnot : ¬Reports (entries.filterMap id) address := by
    refine not_reports_entries fun b hb => ?_
    obtain ⟨e, -, he⟩ := (mem_mapM_eq_ok hentries _).mp hb
    unfold classifyNativeOnNode at he
    split at he
    · cases he
    · exact address_reportEntry (Except.ok.inj he)
  rw [reports_append, or_iff_right hnot]
  rw [sequenceCheck, hkeys] at hforeign
  obtain ⟨address', haddress', hforeign⟩ := bind_eq_ok.mp hforeign
  obtain rfl : address = address' := Except.ok.inj (haddress.symm.trans haddress')
  obtain ⟨sequence, hsequence, hforeign⟩ := bind_eq_ok.mp hforeign
  cases hforeign
  rw [← node.sequence_eq hsequence]
  split
  · next hlt => exact iff_of_true ⟨_, List.mem_singleton.mpr rfl, rfl, rfl, rfl⟩ hlt
  next hlt =>
  refine iff_of_false ?_ hlt
  rintro ⟨b, hb, -⟩
  cases hb

/-- An accepted transaction is in the ledger or foreign, and the ledger has a row for each that it
has. -/
theorem rows_lt_accepted_iff (account : CosmosAccount) :
    (nativeEntries tables customerId .cosmos).length < account.accepted.length ↔
      surplusRows tables customerId account <
        (foreignAccepted tables customerId account).length := by
  have hsplit : account.accepted.length =
      (account.accepted.filter fun hash => hash ∈ cosmosHashes tables customerId).length +
        (foreignAccepted tables customerId account).length := by
    have := List.length_eq_length_filter_add (l := account.accepted)
      fun hash => decide (hash ∈ cosmosHashes tables customerId)
    simpa [foreignAccepted] using this
  have hle : (account.accepted.filter fun hash => hash ∈ cosmosHashes tables customerId).length ≤
      (nativeEntries tables customerId .cosmos).length := by
    have hsub : (account.accepted.filter fun hash => hash ∈ cosmosHashes tables customerId) ⊆
        cosmosHashes tables customerId := by
      intro hash hmem
      simpa using (List.mem_filter.mp hmem).2
    have := (List.subperm_of_subset (account.nodup.filter _) hsub).length_le
    rwa [cosmosHashes, List.length_map] at this
  unfold surplusRows
  omega

end

/--
**A foreign spend is reported exactly if the ledger does not hide it.** On an EVM chain it is hidden
when the ledger has a transaction at every nonce that the chain counts for the address, whatever was
mined at it; on Cosmos when the ledger has as many surplus rows as there are foreign transactions.
-/
theorem foreign_detected_iff (tables : Tables) (customerId : String) (now : Int)
    (sinceHours missingAfterMinutes : Option Nat) (breaks : List ChainBreak) (address : String) :
    (∀ (lib : EvmLib) (chain : EvmChain) (chainId : Nat) (node : Option (EvmNode chain))
      (addresses : List String),
      let all := signedFor lib tables customerId chainId
      runChain lib tables customerId chainId node now sinceHours missingAfterMinutes = .ok breaks →
      accounted lib tables customerId all = .ok addresses → address ∈ addresses →
      ((ForeignMined lib all chain address → Reports breaks address) ↔
        (ForeignMined lib all chain address →
          ∃ n < chain.count address, n ∉ signedNonces lib all address))) ∧
    (∀ (accounts : String → CosmosAccount) (node : NativeNode accounts) (publicKey : String),
      let foreign := foreignAccepted tables customerId (accounts address)
      runNative tables customerId .cosmos node now sinceHours missingAfterMinutes = .ok breaks →
      cosmosKeys tables customerId = [publicKey] → node.cosmosAddress publicKey = .ok address →
      ((foreign ≠ [] → Reports breaks address) ↔
        (foreign ≠ [] →
          surplusRows tables customerId (accounts address) < foreign.length))) := by
  constructor
  · intro lib chain chainId node addresses all hrun haccounted hmem
    rw [reports_runChain_iff hrun haccounted hmem]
  · intro accounts node publicKey foreign hrun hkeys haddress
    rw [reports_runNative_iff hrun hkeys haddress, rows_lt_accepted_iff]

/-! ## A transfer that never landed -/

def treasury : String := "0x70997970C51812dc3A010C7d01b50e0d17dc79C8"

/-- What the platform signed first: a transfer of 1 wei with nonce 0. -/
def firstTransfer : String :=
  "0xf86380843b9aca00825208943535353535353535353535353535353535353535018025"
    ++ "a00420b29056e8aa6d6847006f8b45a0c4d6a34404dd35ebcfce4a41fc7fe68303"
    ++ "a00c86fcee8aec0f2d611a69b208d614e903e02f3c906dcac08887acd35469bf7e"

def firstPayee : String := "0x3535353535353535353535353535353535353535"

def firstHash : String := "0xd2cd2e224ac34ce4d0c8edf0bdcbf0d1d8ed57effac4f676572477093ac9d757"

/-- Transfers of 2 wei signed elsewhere, with nonce 0 and with nonce 1. -/
def foreignHash : String := "0x8ce495637b3513a7d546559e217884ce481ddb7c30ef49d80e68da5454169d43"

def laterHash : String := "0xd3a2e504acd5ce1ed99c30ca229c25642db8baa92d08e90a72b0d60d6222ccf3"

/-- `ethers` on what the run reads. -/
def treasuryLib : EvmLib where
  transactionFrom text :=
    if text = firstTransfer then .ok ⟨some firstHash, 1, some treasury, 0, some firstPayee, 1⟩
    else .error "invalid raw transaction"
  getAddress text := if text = treasury then .ok treasury else .error "invalid address"
  bigInt _ := .error "Cannot convert to a BigInt"

/-- The chain on which the treasury sent transactions with these hashes, in this order. -/
def treasuryChain (hashes : List String) : EvmChain where
  mined := hashes.mapIdx fun nonce hash => ⟨treasury, nonce, hash⟩
  count address := if address = treasury then hashes.length else 0
  nonce_lt := by
    intro tx htx
    obtain ⟨i, hi, rfl⟩ := List.mem_mapIdx.mp htx
    simpa using hi
  nonce_inj := by
    intro tx htx tx' htx' _ hnonce
    obtain ⟨i, hi, rfl⟩ := List.mem_mapIdx.mp htx
    obtain ⟨j, hj, rfl⟩ := List.mem_mapIdx.mp htx'
    obtain rfl : i = j := hnonce
    rfl

def treasuryNode (hashes : List String) : EvmNode (treasuryChain hashes) where
  receipt hash := .ok (if hash ∈ hashes then some ⟨some 1, 7, []⟩ else none)
  transaction hash := .ok (hash ∈ hashes)
  getTransactionCount address := .ok ((treasuryChain hashes).count address)
  count_eq h := (Except.ok.inj h).symm

def cosmosKey : String := "02ba5734d8f7091719471e7f7ed6b9df170dc70cc661ca05e688601ad984f068b0"

def cosmosTreasury : String := "cosmos1cjzphr67dug28rw9ueewrqllmxlqe5f0szdf29"

def cosmosAccounts (hashes : List String) (_ : String) : CosmosAccount where
  accepted := hashes.dedup
  nodup := List.nodup_dedup hashes

def cosmosNode (hashes : List String) : NativeNode (cosmosAccounts hashes) where
  status _ hash := .ok (if hash ∈ hashes then .landed none else .notFound)
  cosmosAddress _ := .ok cosmosTreasury
  cosmosAccount _ := .ok hashes.dedup.length
  sequence_eq h := (Except.ok.inj h).symm

/-- A transfer on each chain has been signed. -/
def treasuryTables : Tables where
  transactions :=
    [⟨"request-1", "org-1", "ethereum", 0, some firstTransfer, some firstHash, none, none, none⟩,
      ⟨"request-2", "org-1", "cosmos", 0, none, some "A1B2C3D4", none, none, none⟩]
  keyPairs :=
    [⟨"org-1", "ethereum", some treasury, none⟩, ⟨"org-1", "cosmos", none, some cosmosKey⟩]

def anHourLater : Int := 3600000

/-- What the run reads from the ledger. -/
def firstParsed : Parsed :=
  ⟨"request-1", firstHash, 1, treasury, 0, some firstPayee, 1,
    ⟨"request-1", firstTransfer, 0, none, none, none⟩⟩

theorem signedFor_treasury : signedFor treasuryLib treasuryTables "org-1" 1 = [firstParsed] := by
  simp [signedFor, ledger, treasuryTables, parseSigned, treasuryLib, firstParsed,
    Bind.bind, Except.bind, Pure.pure, Except.pure]

theorem accounted_treasury : accounted treasuryLib treasuryTables "org-1"
    (signedFor treasuryLib treasuryTables "org-1" 1) = .ok [treasury] := by
  rw [signedFor_treasury]
  rfl

theorem foreignMined_treasury {hashes : List String} (h : ∃ hash ∈ hashes, hash ≠ firstHash) :
    ForeignMined treasuryLib (signedFor treasuryLib treasuryTables "org-1" 1)
      (treasuryChain hashes) treasury := by
  obtain ⟨hash, hmem, hne⟩ := h
  obtain ⟨i, hi, rfl⟩ := List.mem_iff_getElem.mp hmem
  rw [signedFor_treasury]
  refine ⟨_, List.mem_mapIdx.mpr ⟨i, hi, rfl⟩, rfl, fun hrecorded => hne ?_⟩
  exact List.mem_singleton.mp (show _ ∈ [firstHash] from hrecorded)

/-- Both transfers have landed, and one that was signed elsewhere after each. -/
theorem foreign_detected_iff_landed :
    (∃ breaks, runChain treasuryLib treasuryTables "org-1" 1
        (some (treasuryNode [firstHash, laterHash])) anHourLater none none = .ok breaks ∧
      Reports breaks treasury) ∧
    ∃ breaks, runNative treasuryTables "org-1" .cosmos (cosmosNode ["A1B2C3D4", "F0E1D2C3"])
        anHourLater none none = .ok breaks ∧
      Reports breaks cosmosTreasury := by
  obtain ⟨breaks, hrun⟩ : ∃ breaks, runChain treasuryLib treasuryTables "org-1" 1
      (some (treasuryNode [firstHash, laterHash])) anHourLater none none = .ok breaks := by
    rw [runChain, signedFor_treasury]
    exact ⟨_, rfl⟩
  refine ⟨⟨breaks, hrun, ?_⟩, _, rfl, ?_⟩
  · refine ((foreign_detected_iff treasuryTables "org-1" anHourLater none none breaks treasury).1
      treasuryLib _ 1 _ [treasury] hrun accounted_treasury (List.mem_singleton.mpr rfl)).mpr
      (fun _ => ⟨1, by decide, ?_⟩) (foreignMined_treasury ⟨laterHash, by decide, by decide⟩)
    rw [signedFor_treasury]
    decide
  · exact ((foreign_detected_iff treasuryTables "org-1" anHourLater none none _ cosmosTreasury).2
      _ (cosmosNode ["A1B2C3D4", "F0E1D2C3"]) cosmosKey rfl rfl rfl).mpr (fun _ => by decide)
      (by decide)

/-- **A transfer that never landed hides a foreign transaction: one at its nonce on Ethereum, and any
one on Cosmos.** -/
theorem foreign_not_detected :
    (∃ breaks, runChain treasuryLib treasuryTables "org-1" 1 (some (treasuryNode [foreignHash]))
        anHourLater none none = .ok breaks ∧
      accounted treasuryLib treasuryTables "org-1"
        (signedFor treasuryLib treasuryTables "org-1" 1) = .ok [treasury] ∧
      ForeignMined treasuryLib (signedFor treasuryLib treasuryTables "org-1" 1)
        (treasuryChain [foreignHash]) treasury ∧
      ¬Reports breaks treasury) ∧
    ∃ breaks, runNative treasuryTables "org-1" .cosmos (cosmosNode ["F0E1D2C3"]) anHourLater none
        none = .ok breaks ∧
      cosmosKeys treasuryTables "org-1" = [cosmosKey] ∧
      foreignAccepted treasuryTables "org-1" (cosmosAccounts ["F0E1D2C3"] cosmosTreasury) ≠ [] ∧
      ¬Reports breaks cosmosTreasury := by
  obtain ⟨breaks, hrun⟩ : ∃ breaks, runChain treasuryLib treasuryTables "org-1" 1
      (some (treasuryNode [foreignHash])) anHourLater none none = .ok breaks := by
    rw [runChain, signedFor_treasury]
    exact ⟨_, rfl⟩
  obtain ⟨nativeBreaks, hnative⟩ : ∃ breaks, runNative treasuryTables "org-1" .cosmos
      (cosmosNode ["F0E1D2C3"]) anHourLater none none = .ok breaks := ⟨_, rfl⟩
  have hkeys : cosmosKeys treasuryTables "org-1" = [cosmosKey] := rfl
  have haddress : (cosmosNode ["F0E1D2C3"]).cosmosAddress cosmosKey = .ok cosmosTreasury := rfl
  refine ⟨⟨breaks, hrun, accounted_treasury,
    foreignMined_treasury ⟨foreignHash, by decide, by decide⟩, fun h => ?_⟩,
    nativeBreaks, hnative, hkeys, by decide, fun h => ?_⟩
  · -- the one nonce that the chain counts is that of the transfer
    obtain ⟨n, hn, hunsigned⟩ :=
      (reports_runChain_iff hrun accounted_treasury (List.mem_singleton.mpr rfl)).mp h
    obtain rfl : n = 0 := Nat.lt_one_iff.mp hn
    rw [signedFor_treasury] at hunsigned
    exact hunsigned (by decide)
  · exact absurd ((reports_runNative_iff hnative hkeys haddress).mp h) (by decide)

end OpenFireblocks.Reconciliation
