import OpenFireblocks.Evm.Governed
import OpenFireblocks.Nonces.Runs

/-!
# A nonce is used for one payment

* While nobody has the lock, the node has accepted everything that was signed, and so its count is
  above every nonce in use. A call that has the lock relies on nobody else signing.
* A nonce that was saved is not read again, so the lock says nothing about it. Neither does it help
  when a transaction is signed and the node does not get it before the lock is let go of, or when an
  agent brings its own nonce. `Safe` excludes the three; `nonce_used_twice` shows what they do.
-/

namespace OpenFireblocks.Nonces

open Approval Eth Evm Gateway Threads Transfers

variable {U J : Type} {pg : Pg U} {acc : Account U J} {s s' : Store U J}

/-! ## The property and its condition -/

/-- No two signed transactions that move different things have one nonce. -/
def NonceUnique (s : Store U J) : Prop :=
  ∀ e ∈ s.signed, ∀ e' ∈ s.signed, e.tx.nonce = e'.tx.nonce →
    ∀ tokens, moved tokens e.tx = moved tokens e'.tx

variable (acc) in
/-- The node has accepted nothing at the nonce or above it, unless it was this very transfer. -/
def Current (s : Store U J) (caller : Caller U J) (p : Prepared) : Prop :=
  ∀ e ∈ s.accepted, e.tx.nonce < p.nonce ∨
    (e.origin ≠ none ∧ e.origin = (caller.request acc).map fun request => (request, p))

variable (acc) in
/--
A saved nonce is used only while it is current, what is signed gets to the node before the lock is
let go of, and agents bring no nonce.
-/
def Safe (s : Store U J) : Option (Call U J) → Action U J → Prop
  | none, .pay _ transfer => transfer.nonce = none
  | some (.locked caller (.signing p saved)), .sign _ _ reply =>
    reply.isLost = false ∧ (saved = true → Current acc s caller p)
  | some (.locked _ (.broadcasting _)), .broadcast reply => reply.isFailed = false
  | some (.locked _ (.broadcasting _)), .crash => False
  | _, _ => True

instance {caller : Caller U J} {p : Prepared} : Decidable (Current acc s caller p) :=
  inferInstanceAs (Decidable (∀ e ∈ s.accepted, _))

instance {call : Option (Call U J)} {action : Action U J} : Decidable (Safe acc s call action) := by
  unfold Safe
  split <;> infer_instance

/-! ## What is signed -/

variable (acc) in
/-- What is signed for a request with these fees is always the same. -/
def Builds (request : EvmTransferRequest) (p : Prepared) (tx : Transaction) : Prop :=
  buildUnsignedTransaction acc.lib (unsignedTx (request.transaction p)) = .ok tx

variable {p : Prepared} {m : Call U J} {sent : Sent}

theorem Builds.unique {request : EvmTransferRequest} {tx tx' : Transaction}
    (h : Builds acc request p tx) (h' : Builds acc request p tx') : tx = tx' :=
  Except.ok.inj (h.symm.trans h')

variable {caller : Caller U J}

theorem Caller.sign_eq_ok {env : EvmServices} {customer : Customer} {signed : Signed}
    (h : caller.sign pg acc env customer p = .ok signed) :
    signed.tx.nonce = p.nonce ∧
      ∀ request, caller.request acc = some request → Builds acc request p signed.tx := by
  cases caller with
  | approved =>
    have hbuild := build_of_signTransaction h
    refine ⟨nonce_of_build hbuild, ?_⟩
    intro request hrequest
    cases hrequest
    exact hbuild
  | direct =>
    have hbuild := build_of_signTransaction h
    refine ⟨nonce_of_build hbuild, ?_⟩
    intro request' hrequest
    cases hrequest
    exact hbuild
  | agent =>
    refine ⟨(sendToken_eq_ok h).2, ?_⟩
    intro request hrequest
    cases hrequest

/-! ## What holds at every moment -/

variable (acc) in
structure Sound (s : Store U J) : Prop where
  unique : ∀ e ∈ s.signed, ∀ e' ∈ s.signed, e.tx.nonce = e'.tx.nonce → e.tx = e'.tx
  built : ∀ e ∈ s.signed, ∀ request p, e.origin = some (request, p) → Builds acc request p e.tx
  accepted : s.accepted ⊆ s.signed
  /-- While nobody has the lock, everything that was signed has got to the node. -/
  settled : s.locked = false → s.signed ⊆ s.accepted

def Phase.Knows (s : Store U J) : Phase J → Prop
  | .choosing | .signing _ true | .leaving _ => s.signed ⊆ s.accepted
  | .saving p | .signing p false =>
    s.signed ⊆ s.accepted ∧ ∀ e ∈ s.accepted, e.tx.nonce < p.nonce
  | .broadcasting sent => sent ∈ s.signed ∧ ∀ e ∈ s.signed, e ∈ s.accepted ∨ e = sent

def Call.Locked : Call U J → Prop
  | .locked _ _ => True
  | _ => False

def Call.Knows (s : Store U J) : Call U J → Prop
  | .locked _ phase => s.locked = true ∧ phase.Knows s
  | .unlocked _ _ => False
  | .transfer _ | .waiting _ => True

theorem Call.Knows.of_not_locked (h : m.Knows s) (hm : ¬ m.Locked) : m.Knows s' := by
  cases m with
  | locked => exact absurd trivial hm
  | unlocked => exact h
  | transfer call | waiting caller => trivial

theorem Call.Knows.locked (h : m.Knows s) (hm : m.Locked) : s.locked := by
  cases m with
  | locked => exact h.1
  | unlocked | transfer call | waiting caller => cases hm

theorem Sound.nonceUnique (h : Sound acc s) : NonceUnique s := by
  intro e he e' he' hnonce tokens
  rw [h.unique e he e' he' hnonce]

theorem sound_fresh (tables : Tables U J) : Sound acc (.fresh tables) where
  unique := fun _ he => by cases he
  built := fun _ he => by cases he
  accepted := List.Subset.refl _
  settled := fun _ => List.Subset.refl _

/-! ## Signing -/

theorem Sound.sign {env : EvmServices} {customer : Customer} {signed : Signed} (h : Sound acc s)
    (hlocked : s.locked) (hsettled : s.signed ⊆ s.accepted)
    (hcurrent : Current acc s caller p) (hsign : caller.sign pg acc env customer p = .ok signed) :
    Sound acc { s with signed := s.signed ++ [caller.sent acc p signed.tx] } := by
  obtain ⟨hnonce, hbuilds⟩ := caller.sign_eq_ok hsign
  have hbuilt : ∀ request q, (caller.sent acc p signed.tx).origin = some (request, q) →
      Builds acc request q signed.tx := by
    intro request q horigin
    obtain ⟨request', hrequest, hpair⟩ := Option.map_eq_some_iff.mp horigin
    cases hpair
    exact hbuilds request hrequest
  -- what has the nonce already is the same transfer
  have hsame : ∀ e ∈ s.signed, e.tx.nonce = p.nonce → e.tx = signed.tx := by
    intro e he heq
    rcases hcurrent e (hsettled he) with hlt | ⟨hne, horigin⟩
    · rw [heq] at hlt
      exact absurd hlt (UInt64.lt_irrefl p.nonce)
    · cases hrequest : caller.request acc with
      | none =>
        rw [hrequest] at horigin
        exact absurd horigin hne
      | some request =>
        rw [hrequest] at horigin
        exact (h.built e he request p horigin).unique (hbuilds request hrequest)
  constructor
  · intro e he e' he' heq
    rcases List.mem_append.mp he with he | he
    · rcases List.mem_append.mp he' with he' | he'
      · exact h.unique e he e' he' heq
      · rw [List.mem_singleton.mp he'] at heq ⊢
        exact hsame e he (heq.trans hnonce)
    · rw [List.mem_singleton.mp he] at heq ⊢
      rcases List.mem_append.mp he' with he' | he'
      · exact (hsame e' he' (heq.symm.trans hnonce)).symm
      · rw [List.mem_singleton.mp he']
  · intro e he request q horigin
    rcases List.mem_append.mp he with he | he
    · exact h.built e he request q horigin
    rw [List.mem_singleton.mp he] at horigin ⊢
    exact hbuilt request q horigin
  · exact fun e he => List.mem_append_left _ (h.accepted he)
  · intro hfree
    rw [hlocked] at hfree
    cases hfree

theorem Sound.accept (h : Sound acc s) (hsent : sent ∈ s.signed) : Sound acc (s.accept sent) where
  unique := h.unique
  built := h.built
  accepted := by
    intro e he
    rcases List.mem_append.mp he with he | he
    · exact h.accepted he
    rw [List.mem_singleton.mp he]
    exact hsent
  settled := fun hfree e he => List.mem_append_left _ (h.settled hfree he)

theorem Call.Knows.accept (h : m.Knows s) (hsent : sent ∈ s.signed) : m.Knows (s.accept sent) := by
  have hmore : ∀ e ∈ s.accepted, e ∈ (s.accept sent).accepted := fun e he =>
    List.mem_append_left _ he
  cases m with
  | unlocked => exact h
  | transfer call | waiting caller => trivial
  | locked caller phase =>
    obtain ⟨hlocked, h⟩ := h
    refine ⟨hlocked, ?_⟩
    have hbelow : ∀ p : Prepared, (s.signed ⊆ s.accepted ∧ ∀ e ∈ s.accepted, e.tx.nonce < p.nonce) →
        s.signed ⊆ (s.accept sent).accepted ∧
          ∀ e ∈ (s.accept sent).accepted, e.tx.nonce < p.nonce := by
      rintro p ⟨hsettled, hbelow⟩
      refine ⟨fun e he => hmore e (hsettled he), ?_⟩
      intro e he
      rcases List.mem_append.mp he with he | he
      · exact hbelow e he
      rw [List.mem_singleton.mp he]
      exact hbelow sent (hsettled hsent)
    cases phase with
    | choosing | leaving outcome => exact fun e he => hmore e (h he)
    | saving p => exact hbelow p h
    | signing p saved =>
      cases saved with
      | true => exact fun e he => hmore e (h he)
      | false => exact hbelow p h
    | broadcasting sent' => exact ⟨h.1, fun e he => (h.2 e he).imp_left (hmore e)⟩

/-! ## Steps -/

variable (acc) in
structure Steps (s : Store U J) (call : Option (Call U J)) (s' : Store U J)
    (call' : Option (Call U J)) : Prop where
  sound : Sound acc s'
  own : ∀ m, call' = some m → m.Knows s'
  others : ∀ m : Call U J, m.Knows s → (∀ n, call = some n → n.Locked → ¬ m.Locked) → m.Knows s'
  lock : ∀ m, call' = some m → m.Locked → s.locked = false ∨ ∃ n, call = some n ∧ n.Locked

variable {call' : Option (Call U J)}

theorem Steps.of_locked {phase : Phase J} (hsound : Sound acc s')
    (hown : ∀ m, call' = some m → m.Knows s') :
    Steps acc s (some (.locked caller phase)) s' call' where
  sound := hsound
  own := hown
  others := fun _ hm hfree => hm.of_not_locked (hfree _ rfl trivial)
  lock := fun _ _ _ => .inr ⟨_, rfl, trivial⟩

theorem Sound.tables (h : Sound acc s) (tables : Tables U J) : Sound acc { s with tables } where
  unique := h.unique
  built := h.built
  accepted := h.accepted
  settled := h.settled

theorem Call.Knows.tables (h : m.Knows s) (tables : Tables U J) : m.Knows { s with tables } := by
  cases m with
  | locked caller phase => cases phase with
    | signing p saved => cases saved <;> exact h
    | _ => exact h
  | _ => exact h

theorem Steps.quiet {call : Option (Call U J)} (h : Sound acc s) (tables : Tables U J)
    (hown : ∀ m, call' = some m → m.Knows s ∧ ¬ m.Locked) :
    Steps acc s call { s with tables } call' where
  sound := h.tables tables
  own := fun m hm => (hown m hm).1.tables tables
  others := fun _ hm _ => hm.tables tables
  lock := fun m hm hlocked => absurd hlocked (hown m hm).2

theorem Caller.finish_knows (s : Store U J) {outcome : Except String J}
    (h : caller.finish outcome = some m) : m.Knows s ∧ ¬ m.Locked := by
  cases caller with
  | approved =>
    obtain ⟨call, -, rfl⟩ := Option.map_eq_some_iff.mp h
    exact ⟨trivial, fun h => h⟩
  | direct | agent => cases h

theorem Caller.start_knows (caller : Caller U J) (h : s.signed ⊆ s.accepted) :
    (caller.start acc).Knows { s with locked := true } := by
  cases caller with
  | approved c a run =>
    cases hprepared : run.prepared with
    | none | some j =>
      rw [Caller.start, hprepared]
      exact h
  | direct | agent => exact h

theorem Sound.unlock (h : Sound acc s) (hsettled : s.signed ⊆ s.accepted) :
    Sound acc { s with locked := false } where
  unique := h.unique
  built := h.built
  accepted := h.accepted
  settled := fun _ => hsettled

theorem Phase.Knows.settled {phase : Phase J} (h : phase.Knows s)
    (hphase : ∀ sent, phase ≠ .broadcasting sent) : s.signed ⊆ s.accepted := by
  cases phase with
  | choosing => exact h
  | saving p => exact h.1
  | signing p saved =>
    cases saved with
    | true => exact h
    | false => exact h.1
  | broadcasting sent => exact absurd rfl (hphase sent)
  | leaving outcome => exact h

theorem Steps.locking (h : Sound acc s) (hfree : s.locked = false) :
    Steps acc s (some (.waiting caller)) { s with locked := true }
      (some (.locked caller (caller.start acc))) where
  sound := ⟨h.unique, h.built, h.accepted, fun hlocked => by cases hlocked⟩
  own := by
    intro m hm
    cases hm
    exact ⟨rfl, caller.start_knows (h.settled hfree)⟩
  others := by
    intro m hm _
    refine hm.of_not_locked fun hlocked => ?_
    rw [hm.locked hlocked] at hfree
    cases hfree
  lock := fun _ _ _ => .inl hfree

theorem Steps.relay {call : Option (Call U J)} (h : Sound acc s) (hsent : sent ∈ s.signed) :
    Steps acc s call (s.accept sent) none where
  sound := h.accept hsent
  own := fun _ hm => by cases hm
  others := fun _ hm _ => hm.accept hsent
  lock := fun _ hm => by cases hm

section

variable [DecidableEq U] [DecidableEq J]

theorem Store.transfers_steps {call : Option (Transfers.Call U J)} {before : Option (Call U J)}
    {action : Transfers.Action U J} (h : Sound acc s)
    (hstep : s.transfers pg acc call action = some (s', call')) : Steps acc s before s' call' := by
  obtain ⟨r, -, hr⟩ := Option.map_eq_some_iff.mp hstep
  cases hr
  refine .quiet h r.1 ?_
  intro m hm
  obtain ⟨call, -, rfl⟩ := Option.map_eq_some_iff.mp hm
  unfold Call.ofTransfer
  split
  · split <;> exact ⟨trivial, fun h => h⟩
  · exact ⟨trivial, fun h => h⟩

variable {action : Action U J}

theorem Phase.next_knows {phase phase' : Phase J} (h : Sound acc s) (hlocked : s.locked)
    (hknows : phase.Knows s) (hsafe : Safe acc s (some (.locked caller phase)) action)
    (hstep : phase.next pg acc s caller action = some (s', phase')) :
    Sound acc s' ∧ s'.locked ∧ phase'.Knows s' := by
  unfold Phase.next at hstep
  split at hstep
  · -- the nonce is above everything that the node has accepted
    next answer =>
    rcases answer with message | ⟨nonce, fee, estimate⟩
    · cases hstep
      exact ⟨h, hlocked, hknows⟩
    · unfold Caller.choose at hstep
      dsimp only at hstep
      split at hstep
      · next hbelow =>
        cases hstep
        have hnonce : ∀ e ∈ s.accepted, e.tx.nonce < (prepare nonce fee estimate).nonce :=
          fun e he => of_decide_eq_true (List.all_eq_true.mp hbelow e he)
        refine ⟨h, hlocked, ?_⟩
        cases caller <;> exact ⟨hknows, hnonce⟩
      · cases hstep
  · next p reply =>
    cases caller with
    | approved =>
      cases hstep
      refine ⟨h.tables _, hlocked, ?_⟩
      split
      · exact hknows
      · exact hknows.1
    | direct | agent => cases hstep
  · next p saved env customer reply =>
    obtain ⟨hlost, hsaved⟩ := hsafe
    have hsettled : s.signed ⊆ s.accepted := by
      cases saved with
      | true => exact hknows
      | false => exact hknows.1
    have hcurrent : Current acc s caller p := by
      cases saved with
      | true => exact hsaved rfl
      | false => exact fun e he => .inl (hknows.2 e he)
    have houtcome := Option.some.inj hstep
    unfold Caller.signed at houtcome
    cases hsign : caller.sign pg acc env customer p with
    | error e =>
      rw [hsign] at houtcome
      cases reply <;> cases houtcome <;> exact ⟨h, hlocked, hsettled⟩
    | ok signed =>
      rw [hsign] at houtcome
      cases reply with
      | lost message => cases hlost
      | failed message =>
        cases houtcome
        exact ⟨h, hlocked, hsettled⟩
      | answered =>
        cases houtcome
        refine ⟨h.sign hlocked hsettled hcurrent hsign, hlocked, ?_, ?_⟩
        · exact List.mem_append_right _ List.mem_cons_self
        · intro e he
          exact (List.mem_append.mp he).imp (fun he => hsettled he) List.mem_singleton.mp
  · next sent reply =>
    obtain ⟨hsent, hrest⟩ := hknows
    have hsettled : s.signed ⊆ (s.accept sent).accepted := by
      intro e he
      rcases hrest e he with he | rfl
      · exact List.mem_append_left _ he
      · exact List.mem_append_right _ List.mem_cons_self
    cases reply with
    | failed message => cases hsafe
    | answered | lost message =>
      cases hstep
      exact ⟨h.accept hsent, hlocked, hsettled⟩
  · cases hstep

theorem Caller.locked_steps {phase : Phase J} (h : Sound acc s)
    (hknows : (Call.locked caller phase).Knows s)
    (hsafe : Safe acc s (some (.locked caller phase)) action)
    (hstep : caller.locked pg acc s phase action = some (s', call')) :
    Steps acc s (some (.locked caller phase)) s' call' := by
  obtain ⟨hlocked, hknows⟩ := hknows
  unfold Caller.locked at hstep
  split at hstep
  · next outcome =>
    cases hstep
    exact .of_locked (h.unlock hknows) fun m hm => (Caller.finish_knows _ hm).1
  · -- a gateway that stops does so before it signs, or when the node has the transaction
    cases hstep
    refine .of_locked (h.unlock (hknows.settled ?_)) (fun m hm => by cases hm)
    rintro sent rfl
    exact hsafe
  · obtain ⟨r, hr, hout⟩ := Option.map_eq_some_iff.mp hstep
    cases hout
    obtain ⟨hsound, hlocked', hknows'⟩ := Phase.next_knows h hlocked hknows hsafe hr
    refine .of_locked hsound ?_
    intro m hm
    cases hm
    exact ⟨hlocked', hknows'⟩

/-- **One step**: what was signed stays unique, and every call keeps what it relies on. -/
theorem next_steps {call : Option (Call U J)} (h : Sound acc s)
    (hknows : ∀ m, call = some m → m.Knows s) (hsafe : Safe acc s call action)
    (hstep : next pg acc s call action = some (s', call')) : Steps acc s call s' call' := by
  have hwaiting : ∀ caller m : _, some (Call.waiting caller) = some m →
      m.Knows s ∧ ¬ m.Locked := by
    intro caller m hm
    cases hm
    exact ⟨trivial, fun h => h⟩
  unfold next at hstep
  split at hstep
  · exact Store.transfers_steps h hstep
  · split at hstep
    · cases hstep
      exact .quiet h s.tables (hwaiting _)
    · cases hstep
  · next keyId transfer =>
    have hnonce : transfer.nonce = none := hsafe
    rw [hnonce] at hstep
    split at hstep
    · cases hstep
      exact .quiet h s.tables (hwaiting _)
    · cases hstep
  · obtain ⟨sent, hsent, hr⟩ := Option.map_eq_some_iff.mp hstep
    cases hr
    exact .relay h (List.mem_of_getElem? hsent)
  · exact Store.transfers_steps h hstep
  · cases hstep
    exact .quiet h s.tables fun m hm => Caller.finish_knows s hm
  · split at hstep
    · cases hstep
    · next hfree =>
      cases hstep
      exact .locking h (by simpa using hfree)
  · exact Caller.locked_steps h (hknows _ rfl) hsafe hstep
  · exact (hknows _ rfl).elim
  · cases hstep
    exact .quiet h s.tables fun m hm => by cases hm
  · exact (hknows _ rfl).elim
  · cases hstep

/-! ## Runs -/

variable (acc) in
def outline : Outline (Store U J) (Call U J) where
  shared := Sound acc
  thread := fun s m => m.Knows s
  pair := fun m n => ¬ (m.Locked ∧ n.Locked)
  pair_symm := fun h hmn => h ⟨hmn.2, hmn.1⟩

theorem step_holds {t t' : System (Store U J) (Call U J)} {e : Nat × Action U J}
    (h : (outline acc).Holds t) (hsafe : Safe acc t.shared (t.threads e.1) e.2)
    (hstep : step (next pg acc) t e = some t') : (outline acc).Holds t' := by
  obtain ⟨s', call', hnext, rfl⟩ := step_eq_some.mp hstep
  have hsteps := next_steps h.shared (fun m hm => h.thread hm) hsafe hnext
  -- two calls do not have the lock at once
  have hapart : ∀ n, t.threads e.1 = some n → n.Locked → ∀ j m, j ≠ e.1 → t.threads j = some m →
      ¬ m.Locked := fun n hn hlocked j m hj hm hlocked' => h.pair hj hm hn ⟨hlocked', hlocked⟩
  refine h.step (fun hpair => hpair) hsteps.sound hsteps.own ?_ ?_
  · intro j m hj hm
    exact hsteps.others m (h.thread hm) fun n hn hlocked => hapart n hn hlocked j m hj hm
  · rintro m' hm' j m hj hm ⟨hlocked', hlocked⟩
    rcases hsteps.lock m' hm' hlocked' with hfree | ⟨n, hn, hn'⟩
    · rw [Call.Knows.locked (h.thread hm) hlocked] at hfree
      cases hfree
    · exact hapart n hn hn' j m hj hm hlocked

/--
**A nonce is used for one payment**, for every interleaving of approved transfers, retries, transfers
that need no approval and agents' payments on any number of gateways, in every run whose steps are
all safe.
-/
theorem run_nonceUnique {tables : Tables U J} {es : List (Nat × Action U J)}
    {t : System (Store U J) (Call U J)}
    (hrun : Machine.run (step (next pg acc)) (.idle (.fresh tables)) es = some t)
    (hsafe : Machine.Guarded (step (next pg acc))
      (fun t e => Safe acc t.shared (t.threads e.1) e.2) (.idle (.fresh tables)) es) :
    NonceUnique t.shared := by
  have hholds : (outline acc).Holds t :=
    Machine.run_guarded_invariant (fun h hs hstep => step_holds h hs hstep)
      (Outline.holds_idle (sound_fresh tables)) hsafe hrun
  exact hholds.shared.nonceUnique

end

/-! ### One key that pays twice -/

inductive Stored where
  | request (request : EvmTransferRequest)
  | prepared (p : Prepared)
  | result (hash : String)
deriving DecidableEq

theorem firstChain_min : (1 : Int) ≤ 1 := by decide

theorem payeeText_matches : matchesAddress payeeText := by decide

theorem zero_matches : matchesDigits "0" := by decide

def payWei (amount : String) (h : matchesDigits amount = true := by decide) :
    EvmTransferRequest where
  chainId := 1
  destination := payeeText
  amount := amount
  data := none
  country := none
  chainId_min := firstChain_min
  destination_matches := payeeText_matches
  amount_matches := h
  data_matches := by simp

def onlyKey : Account Nat Stored where
  chainId := 1
  hasAddress := fun _ _ => true
  lib := (whitelisting payeeText).lib
  request
    | .request request => request
    | _ => payWei "0" zero_matches
  readPrepared
    | .prepared p => p
    | _ => prepare 0 ⟨none, none, none⟩ 0
  prepared := .prepared
  result := fun _ => .result "0x"
  chainId_min := firstChain_min

/-- What user 2 of organisation 9 asks for. -/
def parked (approval : Nat) (request : EvmTransferRequest) : ParkedTransfer Nat Stored where
  approvalID := approval
  workflow := request.amount
  customerID := 9
  initiatedByUserID := some 2
  initiatedByLabel := "user 2"
  policy := Approval.twoWithinAnHour
  summary := request.amount
  keyID := 4
  kind := .evm
  request := .request request

def payToken (nonce : UInt64) : AgentTransferDto where
  token := "USDC"
  recipient := payeeText
  amount := "0.000005"
  chainId := 1
  nonce := some nonce
  gasPrice := some 1
  maxFeePerGas := none
  maxPriorityFeePerGas := none
  recipient_matches := payeeText_matches

abbrev Event := Nat × Action Nat Stored

def noRows : Tables Nat Stored := ⟨noTransfers.approvals, []⟩

def queries (i : Nat) : List Event := List.replicate 3 (i, .transfers (.query .answered))

def signing (i : Nat) (reply : Reply) : Event :=
  (i, .sign { whitelisting payeeText with controls := some ⟨false, none, false⟩ } tenant reply)

def sending (i : Nat) : List Event := [signing i .answered, (i, .broadcast .answered), (i, .unlock)]

/-- A transfer is parked and approved, and a gateway runs it until it has saved this nonce. -/
def running (i approval : Nat) (request : EvmTransferRequest) (nonce : UInt64) : List Event :=
  [(i, .transfers (.park (parked approval request))),
    (i, .transfers (.records ⟨.insertDecision (approveAs approval 1), trivial⟩)),
    (i, .transfers (.records ⟨.insertDecision (approveAs approval 3), trivial⟩)),
    (i, .transfers (.onDecision 9 approval .approved))] ++ queries i ++
  [(i, .lock), (i, .prepare (.ok (nonce, ⟨none, none, some 1⟩, 21000))), (i, .save .answered)]

def retried : List Event :=
  running 0 7 (payWei "1") 5 ++ [signing 0 (.failed "party 2 is unreachable"), (0, .unlock),
    (0, .transfers (.query .answered)), (0, .transfers (.retry 9 7))] ++ queries 0

def Store.used (s : Store Nat Stored) : List (UInt64 × Nat) :=
  s.signed.map fun e => (e.tx.nonce, (moved none e.tx).amount)

/-- A transfer is retried with the nonce it saved, and then two more wei are sent. -/
def sentAfterRetry : List Event :=
  retried ++ (0, .lock) :: sending 0 ++ running 1 8 (payWei "2") 6 ++ sending 1

theorem run_nonceUnique_retried :
    ∃ t, Machine.run (step (next numbers onlyKey)) (.idle (.fresh noRows)) sentAfterRetry = some t ∧
      t.shared.used = [(5, 1), (6, 2)] ∧ NonceUnique t.shared := by
  have hused : (Machine.run (step (next numbers onlyKey)) (.idle (.fresh noRows))
      sentAfterRetry).map (fun t => t.shared.used) = some [(5, 1), (6, 2)] := by
    decide +kernel
  obtain ⟨t, hrun, hused⟩ := Option.map_eq_some_iff.mp hused
  exact ⟨t, hrun, hused, run_nonceUnique hrun (by decide +kernel)⟩

/-- Another transfer takes the nonce before the retry, the node does not get the first transfer, or
an agent brings the nonce. Each with the two amounts that are signed. -/
def reuses : List (List Event × Nat × Nat) :=
  [(retried ++ running 1 8 (payWei "2") 5 ++ sending 1 ++ (0, .lock) :: sending 0, 2, 1),
    (running 0 7 (payWei "1") 5 ++
      [signing 0 .answered, (0, .broadcast (.failed "timeout")), (0, .unlock)] ++
      running 1 8 (payWei "2") 5 ++ sending 1, 1, 2),
    (running 0 7 (payWei "1") 5 ++ sending 0 ++
      [(1, .pay "key" (payToken 5)), signing 1 .answered], 1, 0)]

/-- One nonce is signed with for two payments. -/
theorem nonce_used_twice : reuses.Forall fun r =>
    ∃ t, Machine.run (step (next numbers onlyKey)) (.idle (.fresh noRows)) r.1 = some t ∧
      t.shared.used = [(5, r.2.1), (5, r.2.2)] ∧ ¬ NonceUnique t.shared := by
  refine List.forall_iff_forall_mem.mpr fun r hr => ?_
  have hused : ∀ r ∈ reuses, (Machine.run (step (next numbers onlyKey)) (.idle (.fresh noRows))
      r.1).map (fun t => t.shared.used) = some [(5, r.2.1), (5, r.2.2)] := by
    decide +kernel
  have hne : ∀ r ∈ reuses, r.2.1 ≠ r.2.2 := by decide
  obtain ⟨t, hrun, hvalue⟩ := Option.map_eq_some_iff.mp (hused r hr)
  refine ⟨t, hrun, hvalue, fun hunique => hne r hr ?_⟩
  have hfirst : (5, r.2.1) ∈ t.shared.used := by
    rw [hvalue]
    exact List.mem_cons_self
  have hsecond : (5, r.2.2) ∈ t.shared.used := by
    rw [hvalue]
    exact List.mem_cons_of_mem _ List.mem_cons_self
  obtain ⟨e, he, heq⟩ := List.mem_map.mp hfirst
  obtain ⟨e', he', heq'⟩ := List.mem_map.mp hsecond
  obtain ⟨hnonce, hamount⟩ := Prod.mk.inj heq
  obtain ⟨hnonce', hamount'⟩ := Prod.mk.inj heq'
  rw [← hamount, ← hamount', hunique e he e' he' (hnonce.trans hnonce'.symm) none]

end OpenFireblocks.Nonces
