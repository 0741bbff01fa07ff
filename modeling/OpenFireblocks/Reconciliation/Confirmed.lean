import OpenFireblocks.Reconciliation.ForeignSpends

/-!
# What a confirmed transfer moved

* A token transfer is confirmed by a `Transfer` log with the ledger's asset, sender, recipient and
  amount.
* A native transfer is confirmed by its receipt: what was signed is not compared with the ledger.
* Every status but 0 counts as success, so having none does.
-/

namespace OpenFireblocks.Reconciliation

open Outcome

/-- What was signed pays the ledger's recipient the ledger's amount. -/
def Parsed.SignedAsRecorded (lib : EvmLib) (p : Parsed) : Prop :=
  (truthy p.entry.effectiveTo).mapM lib.getAddress = .ok p.recipient ∧
    p.entry.effectiveAmount.mapM lib.bigInt = .ok (some (p.value : Int))

/-- A log has the transfer the ledger has. -/
def Parsed.Logged (lib : EvmLib) (p : Parsed) (asset : String) (logs : List Log) : Prop :=
  ∃ t : Transfer, lib.getAddress asset = .ok t.contract ∧ lib.getAddress p.sender = .ok t.sender ∧
    (truthy p.entry.effectiveTo).mapM lib.getAddress = .ok (some t.recipient) ∧
    p.entry.effectiveAmount.mapM lib.bigInt = .ok (some t.amount) ∧
    ∃ l ∈ logs, l.isTransfer ∧ l.transfer lib = .ok t

/-- The transfer moved what the ledger says. -/
def Parsed.Moved (lib : EvmLib) (p : Parsed) (logs : List Log) : Prop :=
  match truthy p.entry.assetContract with
  | none => p.SignedAsRecorded lib
  | some asset => p.Logged lib asset logs

/-- `ethers` throws on no `Transfer` log. -/
def Readable (lib : EvmLib) (logs : List Log) : Prop :=
  ∀ l ∈ logs, l.isTransfer → ∃ t, l.transfer lib = .ok t

/-- What `classify` takes for moved. -/
def Parsed.TakenForMoved (lib : EvmLib) (p : Parsed) (logs : List Log) : Prop :=
  ∀ asset, truthy p.entry.assetContract = some asset → p.Logged lib asset logs ∧ Readable lib logs

variable {lib : EvmLib} {p : Parsed} {now : Int} {missingAfterMinutes : Nat}

theorem exists_transfers_iff {logs : List Log} :
    (∃ ts, (logs.filter Log.isTransfer).mapM (Log.transfer lib) = .ok ts) ↔ Readable lib logs := by
  simp [exists_mapM_eq_ok, Readable, List.mem_filter, and_imp]

theorem movedWhatLedgerSays_iff {receipt : Receipt} :
    (∃ detail, movedWhatLedgerSays lib p receipt = .ok (true, detail)) ↔
      p.TakenForMoved lib receipt.logs := by
  rw [movedWhatLedgerSays, Parsed.TakenForMoved]
  cases truthy p.entry.assetContract with
  | none => simp
  | some asset =>
    simp only [Option.some.injEq, forall_eq', ← exists_transfers_iff]
    constructor
    · rintro ⟨detail, h⟩
      simp only [bind_eq_ok] at h
      obtain ⟨contract, hcontract, sender, hsender, recipient, hrecipient, amount, hamount,
        transfers, htransfers, h⟩ := h
      refine ⟨?_, transfers, htransfers⟩
      split at h
      · next t ht =>
        have hwanted := List.find?_some ht
        obtain ⟨rfl, rfl, rfl, rfl⟩ := of_decide_eq_true hwanted
        obtain ⟨l, hl, hlt⟩ := (mem_mapM_eq_ok htransfers t).mp (List.mem_of_find?_eq_some ht)
        obtain ⟨hl, htopic⟩ := List.mem_filter.mp hl
        exact ⟨t, hcontract, hsender, hrecipient, hamount, l, hl, htopic, hlt⟩
      · cases h
    · rintro ⟨⟨t, hcontract, hsender, hrecipient, hamount, l, hl, htopic, hlt⟩, transfers, htransfers⟩
      have hmem := (mem_mapM_eq_ok htransfers t).mpr ⟨l, List.mem_filter.mpr ⟨hl, htopic⟩, hlt⟩
      simp only [hcontract, hsender, hrecipient, hamount, htransfers, ok_bind]
      cases hfind : transfers.find? _ with
      | some found => exact ⟨_, rfl⟩
      | none =>
        have := List.find?_eq_none.mp hfind t hmem
        simp at this

theorem classify_confirmed_iff {receipt : Option Receipt} {knownToNode : Bool} :
    (∃ detail, classify lib p receipt knownToNode now missingAfterMinutes =
        .ok (.confirmed, detail)) ↔
      ∃ r, receipt = some r ∧ r.status ≠ some 0 ∧ p.TakenForMoved lib r.logs := by
  cases receipt with
  | none =>
    simp only [classify]
    repeat' split
    all_goals simp
  | some r =>
    simp only [classify, Option.some.injEq, exists_eq_left', ← movedWhatLedgerSays_iff]
    split
    · next h => simp [h]
    · next h =>
      constructor
      · rintro ⟨detail, hd⟩
        obtain ⟨⟨moved, text⟩, hmoved, hd⟩ := bind_eq_ok.mp hd
        cases moved with
        | true => exact ⟨h, text, hmoved⟩
        | false => cases hd
      · rintro ⟨-, text, hmoved⟩
        exact ⟨_, by rw [hmoved]; rfl⟩

/-! ## Solana and Cosmos -/

theorem classifyNative_confirmed {e : NativeLedgerEntry} {st : NativeChainStatus} {detail : String}
    (h : classifyNative e st now missingAfterMinutes = (.confirmed, detail)) :
    ∃ moved, st = .landed moved ∧
      ∀ m ∈ moved, e.recipient = some m.1 ∧ e.amount = some m.2 := by
  cases st with
  | notFound =>
    simp only [classifyNative] at h
    split at h <;> cases h
  | failed | pending => cases h
  | landed moved =>
    refine ⟨moved, rfl, ?_⟩
    rintro m rfl
    rw [classifyNative] at h
    split at h
    · cases h
    · next hne =>
      simp only [not_or, not_not] at hne
      exact ⟨hne.1.symm, hne.2.symm⟩

/-! ## Both -/

/-- The receipt of a transfer that is taken for moved has the status of success, and a native
transfer was signed as the ledger has it. -/
def Parsed.Settles (lib : EvmLib) (p : Parsed) (r : Receipt) : Prop :=
  r.status = some 0 ∨ ¬ p.TakenForMoved lib r.logs ∨
    r.status = some 1 ∧ (truthy p.entry.assetContract = none → p.SignedAsRecorded lib)

theorem Parsed.TakenForMoved.moved_iff {logs : List Log} (h : p.TakenForMoved lib logs) :
    p.Moved lib logs ↔ (truthy p.entry.assetContract = none → p.SignedAsRecorded lib) := by
  rw [Parsed.Moved]
  cases hasset : truthy p.entry.assetContract with
  | none => simp
  | some asset => simp [(h asset hasset).1]

/-- **A confirmed transfer succeeded and moved what the ledger says exactly if its receipt has a
status and, for a native transfer, what was signed is what the ledger has.** On Solana and Cosmos it
always did, as far as the node reported what moved. -/
theorem confirmed_moved_iff (lib : EvmLib) (p : Parsed) (receipt : Option Receipt)
    (knownToNode : Bool) (now : Int) (missingAfterMinutes : Nat) (e : NativeLedgerEntry)
    (st : NativeChainStatus) :
    ((∀ detail, classify lib p receipt knownToNode now missingAfterMinutes =
        .ok (.confirmed, detail) →
      ∃ r, receipt = some r ∧ r.status = some 1 ∧ p.Moved lib r.logs) ↔
      ∀ r, receipt = some r → p.Settles lib r) ∧
    ∀ detail, classifyNative e st now missingAfterMinutes = (.confirmed, detail) →
      ∃ moved, st = .landed moved ∧
        ∀ m ∈ moved, e.recipient = some m.1 ∧ e.amount = some m.2 := by
  refine ⟨?_, fun detail => classifyNative_confirmed⟩
  rw [← exists_imp, classify_confirmed_iff]
  constructor
  · rintro h r rfl
    by_cases hstatus : r.status = some 0
    · exact .inl hstatus
    by_cases htaken : p.TakenForMoved lib r.logs
    · obtain ⟨r', hr, hone, hmoved⟩ := h ⟨r, rfl, hstatus, htaken⟩
      cases hr
      exact .inr (.inr ⟨hone, htaken.moved_iff.mp hmoved⟩)
    · exact .inr (.inl htaken)
  · rintro h ⟨r, rfl, hstatus, htaken⟩
    rcases h r rfl with hzero | hnot | ⟨hone, hsigned⟩
    · exact absurd hzero hstatus
    · exact absurd htaken hnot
    · exact ⟨r, rfl, hone, htaken.moved_iff.mpr hsigned⟩

/-- The ledger's recipient of `firstTransfer`, which was signed for another. -/
def otherPayee : String := "0x4646464646464646464646464646464646464646"

def paidElsewhere : Parsed :=
  { firstParsed with entry :=
      ⟨"request-1", firstTransfer, 0, none, some otherPayee, some "1"⟩ }

/-- `ethers` on the texts of `paidElsewhere`. -/
def payeeLib : EvmLib where
  transactionFrom := treasuryLib.transactionFrom
  getAddress text :=
    if text = otherPayee ∨ text = firstPayee then .ok text else .error "invalid address"
  bigInt text := if text = "1" then .ok 1 else .error "Cannot convert to a BigInt"

/-- **A transfer signed for one payee and recorded for another is confirmed, with a success status
and with none.** -/
theorem confirmed_not_moved :
    parseSigned payeeLib paidElsewhere.entry = .ok paidElsewhere ∧
    (∀ status ∈ [some 1, none], ∃ detail,
      classify payeeLib paidElsewhere (some ⟨status, 7, []⟩) true 0 30 = .ok (.confirmed, detail)) ∧
    ¬ paidElsewhere.Moved payeeLib [] := by
  refine ⟨?_, ?_, ?_⟩
  · simp [parseSigned, payeeLib, treasuryLib, paidElsewhere, firstParsed,
      Pure.pure, Except.pure]
  · intro status hstatus
    refine classify_confirmed_iff.mpr ⟨_, rfl, ?_, fun asset hasset => by cases hasset⟩
    rcases List.mem_pair.mp hstatus with rfl | rfl <;> simp
  · rintro ⟨hpayee, -⟩
    simp [paidElsewhere, firstParsed, payeeLib, truthy, otherPayee, firstPayee, Option.filter_some] at hpayee

end OpenFireblocks.Reconciliation
