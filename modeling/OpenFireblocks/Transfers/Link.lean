import OpenFireblocks.Approval.Records
import OpenFireblocks.Transfers.PendingTransfers

/-!
# A pending transfer and its approval

Sessions of any tenant send whatever they like to `pending_transfers`, while the approvals go on.
`LinkKept` is what the table promises of a row that was inserted as waiting: its terms and its
approval stay, and it executes only if that approval is approved.
-/

namespace OpenFireblocks.Transfers

open Approval Outcome

variable {U J : Type} [DecidableEq U] [DecidableEq J] {pg : Pg U} {db db' : Tables U J}
  {tenant : Option U}

/-! ## Runs -/

/-- What a session may send. -/
inductive Command (U J : Type) where
  | insert (tenant : Option U) (row : PendingTransfer U J)
  | update (tenant : Option U) (changes : List (U × PendingTransfer U J))
  | delete (tenant : Option U) (id : U)
  | approval (statement : Statement U)

def execCommand (pg : Pg U) (db : Tables U J) : Command U J → Sql (Tables U J)
  | .insert tenant row => insertTransfer db tenant row
  | .update tenant changes => updateTransfers db tenant changes
  | .delete tenant id => deleteTransfer db tenant id
  | .approval statement => execApproval db pg statement

def afterCommand (pg : Pg U) (db : Tables U J) (command : Command U J) : Tables U J :=
  match execCommand pg db command with
  | .ok db' => db'
  | .error _ => db

def afterCommands (pg : Pg U) (db : Tables U J) (commands : List (Command U J)) : Tables U J :=
  commands.foldl (afterCommand pg) db

/-- The command gives no row another approval, and no approval request another name. -/
def Command.KeepsLinks : Command U J → Prop
  | .update _ changes => ∀ change ∈ changes, change.2.approvalID = change.1
  | .approval statement => statement.KeepsIDs
  | _ => True

/-! ## What is kept of one row -/

def Tables.Approved (db : Tables U J) (id : U) : Prop :=
  ∃ r ∈ db.approvals.requests, r.approvalID = id ∧ r.status = .approved

def TransferStatus.started : TransferStatus → Bool
  | .executing | .completed | .failed => true
  | _ => false

/-- Row `n` is still `row`, and has been executing only if the approval of `row` is approved. -/
def LinkKept (row : PendingTransfer U J) (n : Nat) (db : Tables U J) : Prop :=
  ∃ t, db.transfers[n]? = some t ∧ SameTransfer row t ∧
    (t.status.started → db.Approved row.approvalID)

structure Tables.Sound (db : Tables U J) : Prop where
  approvals : Approval.Sound db.approvals
  ids : (db.transfers.map PendingTransfer.approvalID).Nodup

structure Linked (row : PendingTransfer U J) (n : Nat) (db : Tables U J) : Prop where
  kept : LinkKept row n db
  own : ∃ r ∈ db.approvals.requests, r.approvalID = row.approvalID ∧ r.customerID = row.customerID

variable {id : U} {n : Nat} {new : PendingTransfer U J}

omit [DecidableEq U] [DecidableEq J] in
theorem Tables.Approved.evolves {opened : List String} (h : db.Approved id)
    (he : Evolves opened db.approvals db'.approvals) : db'.Approved id := by
  obtain ⟨r, hr, hid, ha⟩ := h
  obtain ⟨r', hr', hl⟩ := he.requests r hr
  exact ⟨r', hr', hl.approvalID.trans hid, (hl.closed (by rw [ha]; decide)).trans ha⟩

omit [DecidableEq U] [DecidableEq J] in
theorem Linked.evolves {row : PendingTransfer U J} {opened : List String} (h : Linked row n db)
    (he : Evolves opened db.approvals db'.approvals) (ht : db'.transfers = db.transfers) :
    Linked row n db' := by
  obtain ⟨⟨t, hn, hsame, hstarted⟩, r, hr, hid, hcustomer⟩ := h
  obtain ⟨r', hr', hl⟩ := he.requests r hr
  exact ⟨⟨t, ht ▸ hn, hsame, fun hs => (hstarted hs).evolves he⟩,
    r', hr', hl.approvalID.trans hid, hl.customerID.trans hcustomer⟩

omit [DecidableEq J] in
theorem Tables.Sound.eq_of_approvalID (h : db.Sound) {t t' : PendingTransfer U J}
    (ht : t ∈ db.transfers) (ht' : t' ∈ db.transfers) (hid : t.approvalID = t'.approvalID) :
    t = t' :=
  List.inj_on_of_nodup_map h.ids ht ht' hid

omit [DecidableEq J] in
theorem Tables.Sound.replace (h : db.Sound) (hid : new.approvalID = id) :
    (db.replace id new).Sound := by
  refine ⟨h.approvals, ?_⟩
  have hmap : (db.replace id new).transfers.map PendingTransfer.approvalID =
      db.transfers.map PendingTransfer.approvalID := by
    rw [Tables.replace, List.map_map]
    refine List.map_congr_left fun t _ => ?_
    show (if t.approvalID = id then new else t).approvalID = t.approvalID
    by_cases ht : t.approvalID = id
    · rw [if_pos ht, hid, ht]
    · rw [if_neg ht]
  rw [hmap]
  exact h.ids

omit [DecidableEq J] in
theorem visibleStatus_eq (h : db.Sound) {r : Request U} (hr : r ∈ db.approvals.requests)
    (hcustomer : some r.customerID = tenant) :
    visibleStatus db tenant r.approvalID = some r.status := by
  unfold visibleStatus
  cases hfind : findRequest db.approvals r.approvalID with
  | none =>
    have hnone := List.find?_eq_none.mp hfind r hr
    simp at hnone
  | some r' =>
    obtain ⟨hr', hid⟩ := mem_of_findRequest hfind
    obtain rfl := h.approvals.eq_of_approvalID hr' hr hid
    simp [hcustomer]

theorem Tables.Sound.updateTransfer (hs : db.Sound) (hid : new.approvalID = id)
    (hok : updateTransfer db tenant id new = .ok db') : db'.Sound := by
  rcases updateTransfer_eq_ok hok with ⟨-, rfl⟩ | ⟨old, -, -, -, rfl⟩
  · exact hs
  · exact hs.replace hid

variable {row : PendingTransfer U J}

/-- **One row of an update keeps the link of every row.** -/
theorem Linked.updateTransfer (h : Linked row n db) (hs : db.Sound) (hid : new.approvalID = id)
    (hok : updateTransfer db tenant id new = .ok db') : Linked row n db' := by
  rcases updateTransfer_eq_ok hok with ⟨-, rfl⟩ | ⟨old, hfind, hmoves, -, rfl⟩
  · exact h
  obtain ⟨hold, hoid, hcustomer⟩ := mem_of_findTransfer hfind
  obtain ⟨⟨t, hn, hsame, hstarted⟩, r, hr, hrid, hrcustomer⟩ := h
  by_cases ht : t.approvalID = id
  · -- the row is this one
    obtain rfl : t = old := hs.eq_of_approvalID (List.mem_of_getElem? hn) hold (ht.trans hoid.symm)
    refine ⟨⟨{ new with updatedAt := db.approvals.now }, ?_, ?_, ?_⟩, r, hr, hrid, hrcustomer⟩
    · rw [Tables.replace, List.getElem?_map, hn, Option.map_some, if_pos ht]
    · have hs' := hmoves.same (hid.trans ht.symm)
      exact hsame.trans ⟨hs'.approvalID, hs'.customerID, hs'.keyID, hs'.kind, hs'.request, hs'.createdAt⟩
    · intro hnew
      by_cases hwas : t.status.started
      · exact hstarted hwas
      -- it starts now, and the session sees the request
      have hmove : t.status = .awaitingApproval ∧ new.status = .executing := by
        have hnew' : new.status.started := hnew
        rcases hmoves.status with he | he
        · rw [he] at hnew'
          exact absurd hnew' hwas
        · revert hwas hnew' he
          cases t.status <;> cases new.status <;> simp [TransferStatus.started, TransferStatus.mayBecome]
      have hvisible : visibleStatus db tenant r.approvalID = some r.status :=
        visibleStatus_eq hs hr (by rw [hrcustomer, ← hsame.customerID, hcustomer])
      refine ⟨r, hr, hrid, hmoves.approved hmove.2 hmove.1 r.status ?_⟩
      rw [hid, ← ht, hsame.approvalID, ← hrid]
      exact hvisible
  · refine ⟨⟨t, ?_, hsame, hstarted⟩, r, hr, hrid, hrcustomer⟩
    rw [Tables.replace, List.getElem?_map, hn, Option.map_some, if_neg ht]

variable {changes : List (U × PendingTransfer U J)}

theorem updateTransferRows_preserves {P : Tables U J → Prop}
    (hstep : ∀ change ∈ changes, ∀ {x y}, P x → updateTransfer x tenant change.1 change.2 = .ok y → P y)
    (h : P db) (hok : updateTransferRows tenant db changes = .ok db') : P db' := by
  induction changes generalizing db with
  | nil =>
    cases hok
    exact h
  | cons change changes ih =>
    obtain ⟨next, hnext, hok⟩ := bind_eq_ok.mp hok
    exact ih (fun c hc => hstep c (List.mem_cons_of_mem change hc))
      (hstep change List.mem_cons_self h hnext) hok

theorem Tables.Sound.updateTransferRows (hs : db.Sound)
    (hids : ∀ change ∈ changes, change.2.approvalID = change.1)
    (hok : updateTransferRows tenant db changes = .ok db') : db'.Sound :=
  updateTransferRows_preserves (fun change hc _ _ hs => hs.updateTransfer (hids change hc)) hs hok

theorem Linked.updateTransferRows (h : Linked row n db) (hs : db.Sound)
    (hids : ∀ change ∈ changes, change.2.approvalID = change.1)
    (hok : updateTransferRows tenant db changes = .ok db') : Linked row n db' := by
  refine (updateTransferRows_preserves (P := fun x => x.Sound ∧ Linked row n x) ?_ ⟨hs, h⟩ hok).2
  rintro change hc x y ⟨hs, h⟩ hxy
  exact ⟨hs.updateTransfer (hids change hc) hxy, h.updateTransfer hs (hids change hc) hxy⟩

/-! ## Every command -/

omit [DecidableEq J] in
theorem insertTransfer_eq_ok {row : PendingTransfer U J}
    (hok : insertTransfer db tenant row = .ok db') :
    some row.customerID = tenant ∧ (∀ t ∈ db.transfers, t.approvalID ≠ row.approvalID) ∧
      db' = { db with transfers := db.transfers ++ [row] } := by
  simp only [insertTransfer, hiddenRow, duplicateTransfer, raise, ite_error_eq_ok] at hok
  obtain ⟨hcustomer, hfree, hok⟩ := hok
  split at hok
  · cases hok
    refine ⟨not_not.mp hcustomer, fun t ht hid => hfree ?_, rfl⟩
    exact List.any_eq_true.mpr ⟨t, ht, decide_eq_true hid⟩
  · simp [missingRequest] at hok

omit [DecidableEq J] in
theorem Tables.Sound.insertTransfer {row : PendingTransfer U J} (h : db.Sound)
    (hok : insertTransfer db tenant row = .ok db') : db'.Sound := by
  obtain ⟨-, hfree, rfl⟩ := insertTransfer_eq_ok hok
  refine ⟨h.approvals, ?_⟩
  exact Approval.nodup_map_concat h.ids (by simpa using hfree)

omit [DecidableEq J] in
theorem execApproval_eq_ok {statement : Statement U} (hok : execApproval db pg statement = .ok db') :
    exec pg db.approvals statement = .ok db'.approvals ∧ db'.transfers = db.transfers := by
  obtain ⟨approvals, hexec, hok⟩ := bind_eq_ok.mp hok
  simp only at hok
  split at hok
  · cases hok
    exact ⟨hexec, rfl⟩
  · simp [missingRequest] at hok

omit [DecidableEq J] in
theorem deleteTransfer_eq_ok (hok : deleteTransfer db tenant id = .ok db') : db' = db := by
  unfold deleteTransfer at hok
  split at hok
  · simp at hok
  cases hok
  rfl

theorem updateTransfers_eq_ok (hok : updateTransfers db tenant changes = .ok db') :
    updateTransferRows tenant db changes = .ok db' := by
  obtain ⟨next, hnext, hok⟩ := bind_eq_ok.mp hok
  split at hok
  · cases hok
    exact hnext
  · simp [missingRequest] at hok

theorem Tables.Sound.execCommand {command : Command U J} (hs : db.Sound) (hlinks : command.KeepsLinks)
    (hok : execCommand pg db command = .ok db') : db'.Sound := by
  cases command with
  | insert => exact hs.insertTransfer hok
  | update => exact hs.updateTransferRows hlinks (updateTransfers_eq_ok hok)
  | delete =>
    obtain rfl := deleteTransfer_eq_ok hok
    exact hs
  | approval statement =>
    obtain ⟨hexec, ht⟩ := execApproval_eq_ok hok
    exact ⟨(exec_sound hs.approvals hlinks hexec).1, ht ▸ hs.ids⟩

theorem Linked.execCommand {command : Command U J} (h : Linked row n db) (hs : db.Sound)
    (hlinks : command.KeepsLinks) (hok : execCommand pg db command = .ok db') :
    Linked row n db' := by
  cases command with
  | insert =>
    obtain ⟨-, -, rfl⟩ := insertTransfer_eq_ok hok
    obtain ⟨⟨t, hn, hrest⟩, hown⟩ := h
    refine ⟨⟨t, ?_, hrest⟩, hown⟩
    rw [List.getElem?_append_left (List.getElem?_eq_some_iff.mp hn).1]
    exact hn
  | update => exact h.updateTransferRows hs hlinks (updateTransfers_eq_ok hok)
  | delete =>
    obtain rfl := deleteTransfer_eq_ok hok
    exact h
  | approval statement =>
    obtain ⟨hexec, ht⟩ := execApproval_eq_ok hok
    exact h.evolves (exec_sound hs.approvals hlinks hexec).2 ht

/-! ## Every run -/

theorem afterCommands_sound {commands : List (Command U J)} (hs : db.Sound)
    (hlinks : ∀ c ∈ commands, c.KeepsLinks) : (afterCommands pg db commands).Sound := by
  induction commands generalizing db with
  | nil => exact hs
  | cons command commands ih =>
    refine ih ?_ fun c hc => hlinks c (List.mem_cons_of_mem command hc)
    unfold afterCommand
    split
    · next hok => exact hs.execCommand (hlinks command List.mem_cons_self) hok
    · exact hs

theorem afterCommands_linked {commands : List (Command U J)} (h : Linked row n db) (hs : db.Sound)
    (hlinks : ∀ c ∈ commands, c.KeepsLinks) : Linked row n (afterCommands pg db commands) := by
  induction commands generalizing db with
  | nil => exact h
  | cons command commands ih =>
    have hkeeps := hlinks command List.mem_cons_self
    refine ih ?_ ?_ fun c hc => hlinks c (List.mem_cons_of_mem command hc)
    · unfold afterCommand
      split
      · next hok => exact h.execCommand hs hkeeps hok
      · exact h
    · unfold afterCommand
      split
      · next hok => exact hs.execCommand hkeeps hok
      · exact hs

/-- No rows. -/
structure Tables.Empty (db : Tables U J) : Prop where
  requests : db.approvals.requests = []
  decisions : db.approvals.decisions = []
  transfers : db.transfers = []

omit [DecidableEq J] in
theorem Tables.Empty.sound (h : db.Empty) : db.Sound := by
  refine ⟨sound_of_empty h.requests h.decisions, ?_⟩
  rw [h.transfers]
  exact List.nodup_nil

/--
**A pending transfer keeps its approval, and executes only if it is approved**, whatever sessions
send, as long as no `UPDATE` gives a row another approval and the approval request is one of the
row's own organisation.
-/
theorem pending_transfer_link_kept {db₀ db₁ : Tables U J} (hempty : db₀.Empty)
    {earlier later : List (Command U J)} {row : PendingTransfer U J}
    (hinsert : insertTransfer (afterCommands pg db₀ earlier) tenant row = .ok db₁)
    (hwaiting : row.status = .awaitingApproval)
    (hown : ∃ r ∈ (afterCommands pg db₀ earlier).approvals.requests,
      r.approvalID = row.approvalID ∧ r.customerID = row.customerID)
    (hlinks : ∀ c ∈ earlier ++ later, c.KeepsLinks) :
    LinkKept row (afterCommands pg db₀ earlier).transfers.length (afterCommands pg db₁ later) := by
  have hs : (afterCommands pg db₀ earlier).Sound :=
    afterCommands_sound hempty.sound fun c hc => hlinks c (List.mem_append_left _ hc)
  have hs₁ := hs.insertTransfer hinsert
  obtain ⟨-, -, rfl⟩ := insertTransfer_eq_ok hinsert
  have hlinked : Linked row (afterCommands pg db₀ earlier).transfers.length
      { afterCommands pg db₀ earlier with
        transfers := (afterCommands pg db₀ earlier).transfers ++ [row] } := by
    refine ⟨⟨row, by simp, .refl row, ?_⟩, hown⟩
    rw [hwaiting]
    intro hstarted
    cases hstarted
  exact (afterCommands_linked hlinked hs₁ fun c hc => hlinks c (List.mem_append_right _ hc)).kept

/-! ### Three runs -/

/-- No rows, and the people of `twoTransfers`. -/
def noTransfers : Tables Nat String where
  approvals := twoTransfers
  transfers := []

/-- A transfer of this organisation that waits for approval 7, or is in another state. -/
def transferRow (customer approval : Nat) (status : TransferStatus) : PendingTransfer Nat String where
  approvalID := approval
  customerID := customer
  keyID := 4
  kind := .bitcoin
  request := "\x7b\"destination\":\"bc1q\",\"amount\":\"1000\"\x7d"
  prepared := none
  status := status
  result := none
  error := none
  createdAt := 0
  updatedAt := 0

def openRequests : List (Command Nat String) :=
  [.approval (.insertRequest (transferOf 7 "native:a" 2)),
    .approval (.insertRequest (transferOf 6 "native:b" 2))]

def approveAndExecute : List (Command Nat String) :=
  [.update (some 9) [(7, transferRow 9 7 .executing)],
    .approval (.insertDecision (approveAs 7 1)), .approval (.insertDecision (approveAs 7 3)),
    .update (some 9) [(7, transferRow 9 7 .executing)]]

theorem pending_transfer_link_kept_approved :
    ∃ db, insertTransfer (afterCommands numbers noTransfers openRequests) (some 9)
        (transferRow 9 7 .awaitingApproval) = .ok db ∧
      LinkKept (transferRow 9 7 .awaitingApproval) 0 (afterCommands numbers db approveAndExecute) ∧
      (afterCommands numbers db approveAndExecute).transfers =
        [transferRow 9 7 .executing] := by
  refine ⟨_, rfl, ?_, rfl⟩
  have hempty : noTransfers.Empty := ⟨rfl, rfl, rfl⟩
  have hinsert : insertTransfer (afterCommands numbers noTransfers openRequests) (some 9)
      (transferRow 9 7 .awaitingApproval) = .ok _ := rfl
  refine pending_transfer_link_kept hempty hinsert rfl ⟨_, List.mem_cons_self, rfl, rfl⟩ ?_
  simp [openRequests, approveAndExecute, Command.KeepsLinks, Statement.KeepsIDs, transferRow]

/-- What `LinkKept` says of the row that is inserted after `earlier`. -/
def KeepsLink (earlier later : List (Command Nat String)) (tenant : Nat)
    (row : PendingTransfer Nat String) : Prop :=
  ∀ db, insertTransfer (afterCommands numbers noTransfers earlier) (some tenant) row = .ok db →
    LinkKept row (afterCommands numbers noTransfers earlier).transfers.length
      (afterCommands numbers db later)

/--
**Neither condition can be left out.** Organisation 8 inserts a transfer for a request of
organisation 9, which it cannot see, and sets it to executing: nobody has approved. Or the session
of organisation 9 first moves its transfer from request 6, which nobody has approved, to request 7,
which is approved.
-/
theorem unapproved_transfer_executes :
    ¬ KeepsLink openRequests [.update (some 8) [(7, transferRow 8 7 .executing)]] 8
        (transferRow 8 7 .awaitingApproval) ∧
    ¬ KeepsLink
        (openRequests ++ [.approval (.insertDecision (approveAs 7 1)),
          .approval (.insertDecision (approveAs 7 3))])
        [.update (some 9) [(6, transferRow 9 7 .awaitingApproval)],
          .update (some 9) [(7, transferRow 9 7 .executing)]] 9
        (transferRow 9 6 .awaitingApproval) := by
  constructor
  · intro h
    obtain ⟨t, ht, -, happroved⟩ := h _ rfl
    cases ht
    obtain ⟨r, hr, hid, ha⟩ := happroved rfl
    rcases List.mem_cons.mp hr with rfl | hr
    · cases ha
    rcases List.mem_cons.mp hr with rfl | hr
    · cases ha
    · cases hr
  · intro h
    obtain ⟨t, ht, hsame, -⟩ := h _ rfl
    cases ht
    exact absurd hsame.approvalID (by decide)

end OpenFireblocks.Transfers
