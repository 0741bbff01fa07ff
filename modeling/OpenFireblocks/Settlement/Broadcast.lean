import OpenFireblocks.Eth.Decode
import OpenFireblocks.Go.Hex
import OpenFireblocks.Go.Json

/-!
# Settling a signed transaction

`Settle` and `trackConfirmation` of `services/settlement/settlement.go`, with the Ethereum and the
Bitcoin client. The node answers what it likes, to the broadcast and to every poll.

* The service takes the signed transaction as text and hands the bytes *of the text* to the client,
  which writes them in hex. So what a node is given for a transaction in hex is never that
  transaction (`submitted_ne_decoded`).
* `trackConfirmation` acts on `confirmed` alone. A transaction that was mined and reverted is polled
  until the attempts run out, and ends as a timeout.
* The times of a settlement and the metrics are left out.
-/

namespace OpenFireblocks.Broadcast

open BigEndian Go Eth Outcome

/-! ## Chains -/

inductive Status where
  | pending
  | broadcasted
  | confirmed
  | failed
  | timeout
deriving DecidableEq

/-- The answer to `eth_getTransactionReceipt`. -/
inductive ReceiptAnswer where
  | notFound
  | error (message : String)
  | receipt (status : Nat)

/-- A node, by what it answers: to a raw transaction, and to the `k`-th poll for a hash. -/
inductive Node where
  | ethereum (send : String → Except String String) (receipt : Nat → String → ReceiptAnswer)
  /-- A poll returns the confirmations. -/
  | bitcoin (send : String → Except String String) (transaction : Nat → String → Except String Int)

structure Service where
  chains : String → Option Node
  lib : CryptoLib
  /-- the id that the Bitcoin network has for a transaction -/
  txid : Bytes → String

def Node.rawTransaction (node : Node) (txData : Bytes) : String :=
  match node with
  | .ethereum _ _ => "0x" ++ hexEncodeToString txData
  | .bitcoin _ _ => hexEncodeToString txData

def Node.broadcastTransaction (svc : Service) (node : Node) (txData : Bytes) :
    Except String String :=
  match node with
  | .ethereum send _ =>
    match send (node.rawTransaction txData) with
    | .error err => .error s!"failed to broadcast transaction: {err}"
    -- a node that answers with another hash is only logged
    | .ok _ => .ok ("0x" ++ hexEncodeToString (transactionHash svc.lib txData))
  | .bitcoin send _ =>
    match send (node.rawTransaction txData) with
    | .error err => .error s!"failed to broadcast transaction: {err}"
    | .ok txid => .ok txid

/-- The `k`-th `GetTransactionStatus`. -/
def Node.getTransactionStatus (node : Node) (k : Nat) (txHash : String) : Except String String :=
  match node with
  | .ethereum _ receipt =>
    match receipt k txHash with
    | .notFound => .ok "pending"
    | .error err => .error s!"failed to get transaction receipt: {err}"
    | .receipt status => if status = 1 then .ok "confirmed" else .ok "failed"
  | .bitcoin _ transaction =>
    match transaction k txHash with
    | .error err => .error s!"failed to get transaction: {err}"
    | .ok confirmations => if 6 ≤ confirmations then .ok "confirmed" else .ok "pending"

def Node.estimateGas (svc : Service) (node : Node) (txData : Bytes) : Result UInt64 :=
  match node with
  | .ethereum _ _ =>
    wrapError "failed to decode signed transaction: " do
      let info ← decodeSignedTransaction svc.lib txData
      return info.gas
  | .bitcoin _ _ => errorf "not applicable for Bitcoin"

/-! ## Settling -/

structure SettlementRequest where
  signingID : String
  blockchain : String
  signedTransaction : String

structure Settlement where
  settlementID : String
  signingID : String
  blockchain : String
  transactionHash : String
  status : Status
  gasUsed : UInt64
  errorMessage : String

/-- What `Settle` has done: what it handed to the node, what it stores, and its error. -/
structure Run where
  sent : String
  settlement : Settlement
  err : Option String

def gasEstimate (svc : Service) (node : Node) (req : SettlementRequest) (txData : Bytes) :
    Result UInt64 :=
  if req.blockchain = "ethereum" ∨ req.blockchain = "polygon" then
    match node.estimateGas svc txData with
    | .error (.error _) => .ok 0
    | r => r
  else .ok 0

/-- The broadcast of `Settle`, and the settlement that is stored. -/
def broadcast (svc : Service) (node : Node) (settlement : Settlement) (txData : Bytes) : Run :=
  match node.broadcastTransaction svc txData with
  | .error err =>
    { sent := node.rawTransaction txData
      settlement := { settlement with status := .failed, errorMessage := err }
      err := some s!"broadcast failed: {err}" }
  | .ok txHash =>
    { sent := node.rawTransaction txData
      settlement := { settlement with status := .broadcasted, transactionHash := txHash }
      err := none }

/-- `Settle`, up to the start of `trackConfirmation`. -/
def settle (svc : Service) (settlementID : String) (req : SettlementRequest) : Result Run :=
  if req.signingID = "" ∨ req.blockchain = "" ∨ req.signedTransaction = "" then
    errorf "invalid settlement request"
  else
    match svc.chains req.blockchain with
    | none => errorf s!"unsupported blockchain: {req.blockchain}"
    | some node => do
      let txData := utf8Bytes req.signedTransaction.toList
      let gas ← gasEstimate svc node req txData
      let settlement : Settlement :=
        { settlementID := settlementID
          signingID := req.signingID
          blockchain := req.blockchain
          transactionHash := ""
          status := .pending
          gasUsed := gas
          errorMessage := "" }
      return broadcast svc node settlement txData

def maxAttempts : Nat := 120

/-- The loop of `trackConfirmation` over so many ticks: the status it ends with, if it has ended. -/
def trackLoop (status : Nat → Except String String) : Nat → Nat → Option Status
  | 0, _ => none
  | ticks + 1, attempts =>
    if maxAttempts ≤ attempts then some .timeout
    else
      match status attempts with
      | .error _ => trackLoop status ticks (attempts + 1)
      | .ok st =>
        if st = "confirmed" then some .confirmed else trackLoop status ticks (attempts + 1)

def trackConfirmation (node : Node) (settlement : Settlement) (ticks : Nat) : Option Status :=
  trackLoop (fun k => node.getTransactionStatus k settlement.transactionHash) ticks 0

/-- Which of the two writes to the database take effect. -/
structure Store where
  created : Bool
  updated : Bool

/-- The statuses that have been stored when so many ticks have passed. -/
def history (svc : Service) (store : Store) (settlementID : String) (req : SettlementRequest)
    (ticks : Nat) : List Status :=
  match settle svc settlementID req, svc.chains req.blockchain with
  | .ok run, some node =>
    if store.created then
      if run.settlement.status = .broadcasted ∧ store.updated then
        run.settlement.status :: (trackConfirmation node run.settlement ticks).toList
      else [run.settlement.status]
    else []
  | _, _ => []

/-! ## What a record should say -/

/-- What a text in hex stands for, with or without `0x`. -/
def decoded (text : String) : Option Bytes := hexDecodeString (strip0x text)

/-- The hash that the chain has for a transaction. -/
def Service.hashOf (svc : Service) (node : Node) (tx : Bytes) : String :=
  match node with
  | .ethereum _ _ => "0x" ++ hexEncodeToString (svc.lib.keccak256 tx)
  | .bitcoin _ _ => svc.txid tx

section

variable (node : Node) (k : Nat) (txHash : String)

/-- The node reports success: a receipt with status 1, or six confirmations. -/
def Node.Succeeded : Prop :=
  match node with
  | .ethereum _ receipt => receipt k txHash = .receipt 1
  | .bitcoin _ transaction => ∃ confirmations, transaction k txHash = .ok confirmations ∧
      6 ≤ confirmations

def Node.Reverted : Prop :=
  match node with
  | .ethereum _ receipt => receipt k txHash = .receipt 0
  | .bitcoin _ _ => False

/-- The node is asked a `k`-th time. -/
def Node.Polled : Prop :=
  k < maxAttempts ∧ ∀ j < k, ¬node.Succeeded j txHash

end

section

variable (svc : Service) (store : Store) (settlementID : String) (req : SettlementRequest)

def SubmitsDecoded : Prop :=
  ∀ run, settle svc settlementID req = .ok run →
    decoded run.sent = decoded req.signedTransaction

def RecordsHash : Prop :=
  ∀ run node tx, settle svc settlementID req = .ok run → svc.chains req.blockchain = some node →
    run.settlement.status = .broadcasted → decoded run.sent = some tx →
    run.settlement.transactionHash = svc.hashOf node tx

/-- A settlement is stored as broadcast, and then with one final status, or as failed. -/
def MovesForward : Prop :=
  ∀ ticks, history svc store settlementID req ticks <+: [.failed] ∨
    ∃ final, final ∈ [Status.confirmed, .failed, .timeout] ∧
      history svc store settlementID req ticks <+: [.broadcasted, final]

def ConfirmedAfterSuccess : Prop :=
  ∀ ticks, .confirmed ∈ history svc store settlementID req ticks →
    ∃ run node, settle svc settlementID req = .ok run ∧ svc.chains req.blockchain = some node ∧
      ∃ k < ticks, node.Succeeded k run.settlement.transactionHash

def RevertedFails : Prop :=
  ∀ run node k, settle svc settlementID req = .ok run → svc.chains req.blockchain = some node →
    run.settlement.status = .broadcasted → node.Polled k run.settlement.transactionHash →
    node.Reverted k run.settlement.transactionHash →
    ∀ ticks final, trackConfirmation node run.settlement ticks = some final → final = .failed

structure Truthful : Prop where
  submitted : SubmitsDecoded svc settlementID req
  recorded : RecordsHash svc settlementID req
  moves : MovesForward svc store settlementID req
  confirmed : ConfirmedAfterSuccess svc store settlementID req
  reverted : RevertedFails svc settlementID req

def Accepted : Prop :=
  req.signingID ≠ "" ∧ req.blockchain ≠ "" ∧ req.signedTransaction ≠ "" ∧
    (svc.chains req.blockchain).isSome

/-- The Bitcoin node names what it was given by another id. -/
def Misnamed : Prop :=
  ∃ send transaction txid, svc.chains req.blockchain = some (.bitcoin send transaction) ∧
    send (hexEncodeToString (utf8Bytes req.signedTransaction.toList)) = .ok txid ∧
    txid ≠ svc.txid (utf8Bytes req.signedTransaction.toList)

def RevertReported : Prop :=
  ∃ node txHash k, svc.chains req.blockchain = some node ∧
    node.broadcastTransaction svc (utf8Bytes req.signedTransaction.toList) = .ok txHash ∧
    node.Polled k txHash ∧ node.Reverted k txHash

end

/-! ## What is submitted -/

theorem decoded_rawTransaction (node : Node) (txData : Bytes) :
    decoded (node.rawTransaction txData) = some txData := by
  cases node with
  | ethereum =>
    have hstrip : strip0x ("0x" ++ hexEncodeToString txData) = hexEncodeToString txData := by
      have hchars : ("0x" ++ hexEncodeToString txData).toList = '0' :: 'x' :: hexChars txData := by
        simp
      rw [strip0x, hchars]
      rfl
    rw [Node.rawTransaction, decoded, hstrip, hexDecodeString, toList_hexEncodeToString,
      hexDecodeChars_hexChars]
  | bitcoin => exact decode_hexEncodeToString txData

theorem length_le_utf8Bytes (cs : List Char) : cs.length ≤ (utf8Bytes cs).length := by
  induction cs with
  | nil => exact Nat.zero_le _
  | cons c cs ih =>
    have hc : 0 < (String.utf8EncodeChar c).length := by
      rw [String.length_utf8EncodeChar]
      exact c.utf8Size_pos
    rw [utf8Bytes, List.flatMap_cons, List.length_append, List.length_cons]
    rw [utf8Bytes] at ih
    omega

theorem length_strip0x_le (text : String) : (strip0x text).toList.length ≤ text.toList.length := by
  unfold strip0x
  split
  · next rest h => simp [h]; omega
  · next rest h => simp [h]; omega
  · exact le_rfl

variable {tx : Bytes} {req : SettlementRequest} {node : Node}

/-- A text in hex has twice as many bytes as what it stands for, so it is never that. -/
theorem submitted_ne_decoded {text : String} (h : decoded text = some tx) (hne : text ≠ "") :
    utf8Bytes text.toList ≠ tx := by
  intro heq
  have hhalf := length_of_hexDecodeChars h
  have hstrip := length_strip0x_le text
  have hutf8 := length_le_utf8Bytes text.toList
  have hpos : 0 < text.toList.length := by
    refine List.length_pos_iff.mpr fun hnil => hne ?_
    exact String.toList_eq_nil_iff.mp hnil
  rw [heq] at hutf8
  omega

theorem exists_utf8Bytes_cons {text : String} (h : decoded text = some tx) (hne : text ≠ "") :
    ∃ first rest, utf8Bytes text.toList = first :: rest ∧ first < 0xc0 ∧ first ≠ 2 := by
  have hdigit : ∀ {c : Char} {v : UInt8} (cs : List Char), hexValue c = some v →
      ∃ first rest, utf8Bytes (c :: cs) = first :: rest ∧ first < 0xc0 ∧ first ≠ 2 := by
    intro c v cs hv
    have hfirst := of_hexValue_eq_some
      (fun c _ => (String.utf8EncodeChar c).head?.any fun first => first < 0xc0 && first != 2)
      (by decide) hv
    rw [utf8Bytes, List.flatMap_cons]
    cases hc : String.utf8EncodeChar c with
    | nil => rw [hc] at hfirst; cases hfirst
    | cons first rest =>
      rw [hc] at hfirst
      exact ⟨first, rest ++ utf8Bytes cs, rfl, by simpa using hfirst⟩
  cases htext : text.toList with
  | nil => exact absurd (String.toList_eq_nil_iff.mp htext) hne
  | cons c cs =>
    unfold decoded strip0x at h
    split at h
    · next rest h0 =>
      obtain ⟨rfl, -⟩ := List.cons.inj (htext.symm.trans h0)
      exact hdigit cs (v := 0) (by decide)
    · next rest h0 =>
      obtain ⟨rfl, -⟩ := List.cons.inj (htext.symm.trans h0)
      exact hdigit cs (v := 0) (by decide)
    · rw [hexDecodeString, htext] at h
      cases cs with
      | nil => cases h
      | cons d cs =>
        obtain ⟨a, -, -, ha, -⟩ := hexDecodeChars_cons_cons h
        exact hdigit (d :: cs) ha

theorem gasEstimate_eq (svc : Service) (node : Node) (h : decoded req.signedTransaction = some tx)
    (hne : req.signedTransaction ≠ "") :
    gasEstimate svc node req (utf8Bytes req.signedTransaction.toList) = .ok 0 := by
  obtain ⟨first, rest, hbytes, hlow, htype⟩ := exists_utf8Bytes_cons h hne
  unfold gasEstimate
  split
  · cases node with
    | ethereum =>
      rw [Node.estimateGas, hbytes, decodeSignedTransaction, if_pos hlow,
        if_pos (show first ≠ dynamicFeeTxType from htype)]
      rfl
    | bitcoin => rfl
  · rfl

def pendingSettlement (settlementID : String) (req : SettlementRequest) : Settlement :=
  { settlementID := settlementID
    signingID := req.signingID
    blockchain := req.blockchain
    transactionHash := ""
    status := .pending
    gasUsed := 0
    errorMessage := "" }

/-- **What `Settle` does with a text in hex.** -/
theorem settle_eq_ok {svc : Service} {settlementID : String}
    (h : decoded req.signedTransaction = some tx) {run : Run} :
    settle svc settlementID req = .ok run ↔
      Accepted svc req ∧ ∃ node, svc.chains req.blockchain = some node ∧
        run = broadcast svc node (pendingSettlement settlementID req)
          (utf8Bytes req.signedTransaction.toList) := by
  unfold settle Accepted
  split
  · next hempty =>
    refine iff_of_false errorf_ne_ok ?_
    tauto
  · next hfull =>
    simp only [not_or] at hfull
    cases hchain : svc.chains req.blockchain with
    | none => exact iff_of_false errorf_ne_ok (by simp)
    | some node =>
      dsimp only
      rw [gasEstimate_eq svc node h hfull.2.2]
      constructor
      · intro hrun
        cases hrun
        exact ⟨⟨hfull.1, hfull.2.1, hfull.2.2, rfl⟩, node, rfl, rfl⟩
      · rintro ⟨-, node', hnode, rfl⟩
        cases hnode
        rfl

/-! ## The broadcast -/

@[simp] theorem broadcast_sent (svc : Service) (node : Node) (settlement : Settlement)
    (txData : Bytes) :
    (broadcast svc node settlement txData).sent = node.rawTransaction txData := by
  unfold broadcast
  split <;> rfl

theorem broadcast_cases (svc : Service) (node : Node) (settlement : Settlement) (txData : Bytes) :
    (broadcast svc node settlement txData).settlement.status = .failed ∨
      ∃ txHash, node.broadcastTransaction svc txData = .ok txHash ∧
        (broadcast svc node settlement txData).settlement.status = .broadcasted ∧
        (broadcast svc node settlement txData).settlement.transactionHash = txHash := by
  unfold broadcast
  split
  · exact .inl rfl
  · next txHash h => exact .inr ⟨txHash, h, rfl, rfl⟩

theorem broadcastTransaction_eq_ok {svc : Service} {txData : Bytes} {txHash : String}
    (h : node.broadcastTransaction svc txData = .ok txHash) :
    (∃ send receipt, node = .ethereum send receipt ∧ txHash = svc.hashOf node txData) ∨
      ∃ send transaction, node = .bitcoin send transaction ∧
        send (hexEncodeToString txData) = .ok txHash := by
  cases node with
  | ethereum send receipt =>
    rw [Node.broadcastTransaction] at h
    split at h
    · cases h
    · exact .inl ⟨send, receipt, rfl, (Except.ok.inj h).symm⟩
  | bitcoin send transaction =>
    rw [Node.broadcastTransaction] at h
    split at h
    · cases h
    next txid hsend =>
    cases h
    exact .inr ⟨send, transaction, rfl, hsend⟩

/-! ## The polls -/

theorem getTransactionStatus_eq_confirmed {k : Nat} {txHash : String} :
    node.getTransactionStatus k txHash = .ok "confirmed" ↔ node.Succeeded k txHash := by
  cases node with
  | ethereum send receipt =>
    rw [Node.getTransactionStatus, Node.Succeeded]
    cases receipt k txHash with
    | notFound | error message => simp
    | receipt status =>
      by_cases hstatus : status = 1
      · simp
      · simp
  | bitcoin send transaction =>
    rw [Node.getTransactionStatus, Node.Succeeded]
    cases transaction k txHash with
    | error message => simp
    | ok confirmations =>
      by_cases hdeep : 6 ≤ confirmations
      · simp
      · simp

theorem trackLoop_eq_some {status : Nat → Except String String} :
    ∀ {ticks attempts : Nat} {final : Status}, trackLoop status ticks attempts = some final →
      (final = .confirmed ∧ ∃ k < attempts + ticks, status k = .ok "confirmed") ∨ final = .timeout
  | 0, _, _, h => by cases h
  | ticks + 1, attempts, final, h => by
    have hlater : trackLoop status ticks (attempts + 1) = some final →
        (final = .confirmed ∧ ∃ k < attempts + (ticks + 1), status k = .ok "confirmed") ∨
          final = .timeout := by
      intro hrest
      rcases trackLoop_eq_some hrest with ⟨hfinal, k, hk, hst⟩ | hfinal
      · exact .inl ⟨hfinal, k, by omega, hst⟩
      · exact .inr hfinal
    rw [trackLoop] at h
    split at h
    · exact .inr (Option.some.inj h).symm
    split at h
    · exact hlater h
    next st hst =>
    split at h
    · next hconfirmed =>
      exact .inl ⟨(Option.some.inj h).symm, attempts, by omega, hconfirmed ▸ hst⟩
    · exact hlater h

/-- It ends when the attempts have run out, whatever the node answers. -/
theorem exists_trackLoop_eq_some (status : Nat → Except String String) :
    ∀ {ticks attempts : Nat}, attempts ≤ maxAttempts → maxAttempts < attempts + ticks →
      ∃ final, trackLoop status ticks attempts = some final
  | 0, attempts, hle, hlt => by omega
  | ticks + 1, attempts, hle, hlt => by
    rw [trackLoop]
    split
    · exact ⟨_, rfl⟩
    next hmore =>
    have hrest : ∃ final, trackLoop status ticks (attempts + 1) = some final :=
      exists_trackLoop_eq_some status (by omega) (by omega)
    split
    · exact hrest
    split
    · exact ⟨_, rfl⟩
    · exact hrest

theorem trackConfirmation_eq_some {settlement : Settlement} {ticks : Nat} {final : Status}
    (h : trackConfirmation node settlement ticks = some final) :
    (final = .confirmed ∧ ∃ k < ticks, node.Succeeded k settlement.transactionHash) ∨
      final = .timeout := by
  rcases trackLoop_eq_some h with ⟨hfinal, k, hk, hst⟩ | hfinal
  · exact .inl ⟨hfinal, k, by omega, getTransactionStatus_eq_confirmed.mp hst⟩
  · exact .inr hfinal

/-! ## The four parts -/

section

variable {svc : Service} {settlementID : String} {req : SettlementRequest} {tx : Bytes}
variable (h : decoded req.signedTransaction = some tx)
include h

theorem submitsDecoded_iff :
    SubmitsDecoded svc settlementID req ↔ ¬Accepted svc req := by
  constructor
  · intro hsubmits haccepted
    obtain ⟨node, hnode⟩ := Option.isSome_iff_exists.mp haccepted.2.2.2
    have hsent := hsubmits _ ((settle_eq_ok h).mpr ⟨haccepted, node, hnode, rfl⟩)
    rw [broadcast_sent, decoded_rawTransaction, h] at hsent
    exact submitted_ne_decoded h haccepted.2.2.1 (Option.some.inj hsent)
  · intro hnot run hrun
    exact absurd ((settle_eq_ok h).mp hrun).1 hnot

theorem of_settle_broadcasted {run : Run} {node : Node}
    (hrun : settle svc settlementID req = .ok run)
    (hnode : svc.chains req.blockchain = some node)
    (hstatus : run.settlement.status = .broadcasted) :
    Accepted svc req ∧ run.sent = node.rawTransaction (utf8Bytes req.signedTransaction.toList) ∧
      node.broadcastTransaction svc (utf8Bytes req.signedTransaction.toList) =
        .ok run.settlement.transactionHash := by
  obtain ⟨haccepted, node', hnode', rfl⟩ := (settle_eq_ok h).mp hrun
  obtain rfl := Option.mem_unique hnode hnode'
  rcases broadcast_cases svc node (pendingSettlement settlementID req)
    (utf8Bytes req.signedTransaction.toList) with hfailed | ⟨txHash, hok, -, hhash⟩
  · rw [hfailed] at hstatus
    cases hstatus
  · exact ⟨haccepted, broadcast_sent .., hhash ▸ hok⟩

theorem exists_settle_broadcasted {node : Node} {txHash : String}
    (haccepted : Accepted svc req) (hnode : svc.chains req.blockchain = some node)
    (hok : node.broadcastTransaction svc (utf8Bytes req.signedTransaction.toList) = .ok txHash) :
    ∃ run, settle svc settlementID req = .ok run ∧ run.settlement.status = .broadcasted ∧
      run.settlement.transactionHash = txHash ∧
      run.sent = node.rawTransaction (utf8Bytes req.signedTransaction.toList) := by
  refine ⟨_, (settle_eq_ok h).mpr ⟨haccepted, node, hnode, rfl⟩, ?_⟩
  rw [broadcast, hok]
  exact ⟨rfl, rfl, rfl⟩

theorem recordsHash_iff :
    RecordsHash svc settlementID req ↔ ¬(Accepted svc req ∧ Misnamed svc req) := by
  constructor
  · rintro hrecords ⟨haccepted, send, transaction, txid, hnode, hsend, hne⟩
    have hok : (Node.bitcoin send transaction).broadcastTransaction svc
        (utf8Bytes req.signedTransaction.toList) = .ok txid := by
      rw [Node.broadcastTransaction, Node.rawTransaction, hsend]
    obtain ⟨run, hrun, hstatus, hhash, hsent⟩ :=
      exists_settle_broadcasted h haccepted hnode hok
    have hrecorded := hrecords run _ _ hrun hnode hstatus (hsent ▸ decoded_rawTransaction _ _)
    exact hne (hhash.symm.trans hrecorded)
  · intro hnot run node sent hrun hnode hstatus hsent
    obtain ⟨haccepted, hraw, hok⟩ := of_settle_broadcasted h hrun hnode hstatus
    rw [hraw, decoded_rawTransaction] at hsent
    cases hsent
    rcases broadcastTransaction_eq_ok hok with ⟨send, receipt, -, hhash⟩ |
      ⟨send, transaction, rfl, hsend⟩
    · exact hhash
    · by_contra hne
      exact hnot ⟨haccepted, send, transaction, _, hnode, hsend, hne⟩

theorem revertedFails_iff :
    RevertedFails svc settlementID req ↔ ¬(Accepted svc req ∧ RevertReported svc req) := by
  constructor
  · rintro hfails ⟨haccepted, node, txHash, k, hnode, hok, hpolled, hreverted⟩
    obtain ⟨run, hrun, hstatus, rfl, -⟩ :=
      exists_settle_broadcasted h haccepted hnode hok
    -- the polls end after `maxAttempts`, and never as failed
    obtain ⟨final, hfinal⟩ := exists_trackLoop_eq_some
      (fun k => node.getTransactionStatus k run.settlement.transactionHash)
      (Nat.zero_le maxAttempts) (show maxAttempts < 0 + (maxAttempts + 1) by decide)
    have hfailed := hfails run node k hrun hnode hstatus hpolled hreverted _ final hfinal
    rcases trackConfirmation_eq_some hfinal with ⟨hconfirmed, -⟩ | htimeout
    · cases hconfirmed.symm.trans hfailed
    · cases htimeout.symm.trans hfailed
  · intro hnot run node k hrun hnode hstatus hpolled hreverted
    obtain ⟨haccepted, -, hok⟩ := of_settle_broadcasted h hrun hnode hstatus
    exact absurd ⟨haccepted, node, _, k, hnode, hok, hpolled, hreverted⟩ hnot

end

theorem movesForward (svc : Service) (store : Store) (settlementID : String)
    (h : decoded req.signedTransaction = some tx) : MovesForward svc store settlementID req := by
  intro ticks
  unfold history
  split
  · next run node hrun hnode =>
    obtain ⟨-, node', hnode', rfl⟩ := (settle_eq_ok h).mp hrun
    rcases broadcast_cases svc node' (pendingSettlement settlementID req)
      (utf8Bytes req.signedTransaction.toList) with hfailed | ⟨-, -, hstatus, -⟩
    · left
      rw [hfailed]
      cases store.created <;> simp
    · right
      rw [hstatus]
      cases hfinal : trackConfirmation node _ ticks with
      | none =>
        cases store.created <;> cases store.updated <;> simp
      | some final =>
        refine ⟨final, ?_, ?_⟩
        · rcases trackConfirmation_eq_some hfinal with ⟨rfl, -⟩ | rfl
          · decide
          · decide
        · cases store.created <;> cases store.updated <;> simp
  · exact .inl (by simp)

theorem confirmedAfterSuccess (svc : Service) (store : Store) (settlementID : String)
    (h : decoded req.signedTransaction = some tx) :
    ConfirmedAfterSuccess svc store settlementID req := by
  intro ticks hmem
  unfold history at hmem
  split at hmem
  · next run node hrun hnode =>
    refine ⟨run, node, hrun, hnode, ?_⟩
    have hstart : run.settlement.status ≠ .confirmed := by
      obtain ⟨-, node', -, rfl⟩ := (settle_eq_ok h).mp hrun
      rcases broadcast_cases svc node' (pendingSettlement settlementID req)
        (utf8Bytes req.signedTransaction.toList) with hfailed | ⟨-, -, hstatus, -⟩
      · rw [hfailed]; decide
      · rw [hstatus]; decide
    have hfinal : trackConfirmation node run.settlement ticks = some .confirmed := by
      split at hmem
      · split at hmem
        · rcases List.mem_cons.mp hmem with heq | hmem
          · exact absurd heq.symm hstart
          · exact Option.mem_toList.mp hmem
        · exact absurd (List.mem_singleton.mp hmem).symm hstart
      · cases hmem
    rcases trackConfirmation_eq_some hfinal with ⟨-, hk⟩ | htimeout
    · exact hk
    · cases htimeout
  · cases hmem

/--
**A settlement of a transaction in hex tells the truth exactly if nothing is submitted.** What is
submitted is the hex text itself. The other parts hold apart from that: the stored status only moves
forward and is `confirmed` only after a success, the hash is that of what was submitted unless a
Bitcoin node misnames it, and a reverted transaction ends as failed exactly if none is reported.
-/
theorem truthful_iff (svc : Service) (store : Store) (settlementID : String)
    (req : SettlementRequest) (tx : Bytes) (h : decoded req.signedTransaction = some tx) :
    (Truthful svc store settlementID req ↔ ¬Accepted svc req) ∧
    (RecordsHash svc settlementID req ↔ ¬(Accepted svc req ∧ Misnamed svc req)) ∧
    MovesForward svc store settlementID req ∧ ConfirmedAfterSuccess svc store settlementID req ∧
    (RevertedFails svc settlementID req ↔ ¬(Accepted svc req ∧ RevertReported svc req)) := by
  refine ⟨?_, recordsHash_iff h, movesForward svc store settlementID h,
    confirmedAfterSuccess svc store settlementID h, revertedFails_iff h⟩
  constructor
  · intro htruthful
    exact (submitsDecoded_iff h).mp htruthful.submitted
  · intro hnot
    exact {
      submitted := (submitsDecoded_iff h).mpr hnot
      recorded := (recordsHash_iff h).mpr fun hboth => hnot hboth.1
      moves := movesForward svc store settlementID h
      confirmed := confirmedAfterSuccess svc store settlementID h
      reverted := (revertedFails_iff h).mpr fun hboth => hnot hboth.1 }

/-! ## A legacy transaction on Ethereum -/

def etherTransfer : Bytes :=
  toBytes 0xf86c098504a817c800825208943535353535353535353535353535353535353535 ++
    toBytes 0x880de0b6b3a76400008025 ++
    toBytes 0xa028ef61340bd939bc2195fe537567866003e1a15d3c71ff63e1590620aa636276 ++
    toBytes 0xa067cbe9d8997f761aecb703304b3800ccf555c9f3dc64214b297fb1966a3b6d83

def transferText : String := "0x" ++ hexEncodeToString etherTransfer

theorem decoded_transferText : decoded transferText = some etherTransfer :=
  decoded_rawTransaction (.ethereum .ok fun _ _ => .notFound) etherTransfer

def transferLib : CryptoLib where
  keccak256 b :=
    if b = etherTransfer then
      toBytes 0x33469b22e9f636356c4160a87eb19df52b7412e8eac32a4a55ffe88ea8350788
    else if b = utf8Bytes transferText.toList then
      toBytes 0x2eadef85dc4e7b6dd287f4975f4fb5f67fdc35318d4177ed73635c659f3d8fc2
    else List.replicate 32 0
  keccak256_length b := by split_ifs <;> rfl
  recoverCompact _ _ := none

/-- A node that takes what it is given, with a receipt from the third poll on. -/
def miningNode (status : Nat) : Node :=
  .ethereum (fun _ => .ok "0x2eadef85dc4e7b6dd287f4975f4fb5f67fdc35318d4177ed73635c659f3d8fc2")
    (fun k _ => if k < 2 then .notFound else .receipt status)

def miningService (status : Nat) : Service where
  chains name := if name = "ethereum" then some (miningNode status) else none
  lib := transferLib
  txid _ := ""

def transferOn (blockchain : String) : SettlementRequest where
  signingID := "signing-1"
  blockchain := blockchain
  signedTransaction := transferText

/-- On a chain without a client the record stays truthful. On Ethereum the hash is that of what was
submitted, and nothing is reported reverted. -/
theorem truthful_iff_transfer :
    decoded transferText = some etherTransfer ∧
    Truthful (miningService 1) ⟨true, true⟩ "settlement-1" (transferOn "dogecoin") ∧
    RecordsHash (miningService 1) "settlement-1" (transferOn "ethereum") ∧
    RevertedFails (miningService 1) "settlement-1" (transferOn "ethereum") := by
  have htx := decoded_transferText
  refine ⟨htx, ?_, ?_, ?_⟩
  · refine (truthful_iff _ _ _ (transferOn "dogecoin") _ htx).1.mpr ?_
    rintro ⟨-, -, -, hchain⟩
    cases hchain
  · refine (truthful_iff _ ⟨true, true⟩ _ (transferOn "ethereum") _ htx).2.1.mpr ?_
    rintro ⟨-, send, transaction, txid, hnode, -⟩
    cases Option.some.inj hnode
  · refine (truthful_iff _ ⟨true, true⟩ _ (transferOn "ethereum") _ htx).2.2.2.2.mpr ?_
    rintro ⟨-, node, txHash, k, hnode, -, -, hreverted⟩
    cases hnode
    have hreceipt : (if k < 2 then ReceiptAnswer.notFound else .receipt 1) = .receipt 0 :=
      hreverted
    split at hreceipt <;> cases hreceipt

/-- **The node is given the text of the transfer, and a transfer that it reports reverted ends as a
timeout.** -/
theorem not_truthful_transfer :
    ¬SubmitsDecoded (miningService 0) "settlement-1" (transferOn "ethereum") ∧
    ¬RevertedFails (miningService 0) "settlement-1" (transferOn "ethereum") ∧
    ¬Truthful (miningService 0) ⟨true, true⟩ "settlement-1" (transferOn "ethereum") ∧
    history (miningService 0) ⟨true, true⟩ "settlement-1" (transferOn "ethereum") 121 =
      [.broadcasted, .timeout] := by
  have htx : decoded (transferOn "ethereum").signedTransaction = some etherTransfer :=
    decoded_transferText
  have haccepted : Accepted (miningService 0) (transferOn "ethereum") := by
    refine ⟨by decide, by decide, fun hempty => ?_, rfl⟩
    have hlength := congrArg (·.toList.length) hempty
    simp [transferOn, transferText] at hlength
  have hsubmits : ¬SubmitsDecoded (miningService 0) "settlement-1" (transferOn "ethereum") :=
    fun h => (submitsDecoded_iff htx).mp h haccepted
  have hnever : ∀ k txHash, ¬(miningNode 0).Succeeded k txHash := by
    intro k txHash hsucceeded
    have hreceipt : (if k < 2 then ReceiptAnswer.notFound else .receipt 0) = .receipt 1 :=
      hsucceeded
    split at hreceipt <;> cases hreceipt
  refine ⟨hsubmits, ?_, fun h => hsubmits h.submitted, ?_⟩
  · intro h
    exact (revertedFails_iff htx).mp h ⟨haccepted, miningNode 0, _, 2, rfl, rfl,
      ⟨by decide, fun j _ => hnever j _⟩, rfl⟩
  · have hnode : (miningService 0).chains (transferOn "ethereum").blockchain = some (miningNode 0) :=
      rfl
    obtain ⟨run, hrun, hstatus, -, -⟩ :=
      @exists_settle_broadcasted _ "settlement-1" _ _ htx _ _ haccepted hnode rfl
    obtain ⟨final, hfinal⟩ : ∃ final, trackConfirmation (miningNode 0) run.settlement 121 =
        some final := exists_trackLoop_eq_some _ (by decide) (by decide)
    rcases trackConfirmation_eq_some hfinal with ⟨-, k, -, hsucceeded⟩ | rfl
    · exact absurd hsucceeded (hnever k _)
    rw [history, hrun, hnode]
    simp [hstatus, hfinal]

end OpenFireblocks.Broadcast
