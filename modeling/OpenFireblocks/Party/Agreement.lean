import OpenFireblocks.Party.Roles

/-!
# Parties at one epoch hold shares of one polynomial

A network of parties refreshes one source ceremony. Each refresh produces shares of a polynomial
of its own, so the save data it delivers carries its id as a tag, and the key generation's carries
another. Signing needs the parties at an epoch to have the same tag.

The code lets two refreshes of one source run at the same time towards the same next epoch, and
the last one to complete on a party wins there (`refreshes_disagree`). `OneRefresh` is the
condition under which it does not matter.
-/

namespace OpenFireblocks.Party

open Go Threads Machine

section

variable [TssLib] {S : Type}

/-! ## The network -/

/-- Party `e.1` runs a critical section. -/
def netStep {ι : Type} [DecidableEq ι] (cfg : ι → Config S) (net : ι → Process S)
    (e : ι × Nat × Label S) : Option (ι → Process S) :=
  (step (cfg e.1) (net e.1) e.2).map (Function.update net e.1)

/-- A refresh of `c` with this id was accepted for the epoch. -/
def Registered (c reshareID : String) (epoch : Int) (p : Process S) : Prop :=
  ∃ k y, p.shared.resharings.get reshareID k = some y ∧ y.plan.sourceCeremonyID = c ∧
    y.plan.newEpoch = epoch

section Statement

variable (tag : S → String) (c : String)

/-- The party has nothing of `c` but shares of one epoch and tag, and nothing runs for `c`. -/
structure HoldsAt (epoch : Int) (t : String) (p : Process S) : Prop where
  records : ∀ n x share, p.shared.ceremonies.get c n = some x → x.saveData = some share →
    x.epoch = epoch ∧ tag share.save = t
  sealedShare : ∀ e cc, p.shared.store c = some e → e.context = some cc →
    cc.epoch = epoch ∧ tag e.share.save = t
  idle : ∀ i task, p.threads i = some task → task.role c = .bystander

/-- Two parties that have `c` at the same epoch have it under the same tag, in memory and in the
sealed store. -/
def Agree {ι : Type} (net : ι → Process S) : Prop :=
  ∀ i j,
    (∀ n n' x x' share share', (net i).shared.ceremonies.current c = some n →
      (net i).shared.ceremonies.get c n = some x → x.saveData = some share →
      (net j).shared.ceremonies.current c = some n' →
      (net j).shared.ceremonies.get c n' = some x' → x'.saveData = some share' →
      x.epoch = x'.epoch → tag share.save = tag share'.save) ∧
    (∀ e e' cc cc', (net i).shared.store c = some e → e.context = some cc →
      (net j).shared.store c = some e' → e'.context = some cc' →
      cc.epoch = cc'.epoch → tag e.share.save = tag e'.share.save)

/-- What the protocol does, and that the ceremony is not generated anew: a refresh of `c` delivers
save data with its own id as the tag. -/
def Tagging {ι : Type} (net : ι → Process S) (e : ι × Nat × Label S) : Prop :=
  match e.2.2, (net e.1).threads e.2.1 with
  | .startKeygen id _ _ _ _, _ => id ≠ c
  | .deliver save, some (.reshare reshareID _ plan) =>
    plan.sourceCeremonyID = c → tag save = reshareID
  | _, _ => True

/-- The condition: a refresh of `c` is registered for an epoch only if no other one has been, at
any party, and the epoch is not the one the parties began with. -/
def OneRefresh (epoch₀ : Int) {ι : Type} (net : ι → Process S) (e : ι × Nat × Label S) : Prop :=
  match e.2.2, (net e.1).threads e.2.1 with
  | .advance, some (.reshareRegister reshareID plan _) =>
    plan.sourceCeremonyID = c → plan.newEpoch ≠ epoch₀ ∧
      ∀ j other, Registered c other plan.newEpoch (net j) → other = reshareID
  | _, _ => True

end Statement

/-! ## One party -/

section Outline

variable (tag : S → String) (c : String) (T : Int → Option String)

/-- Every share of `c` in the maps and the store has the tag of its epoch. -/
structure TaggedManager (m : Manager S) : Prop where
  records : ∀ n x share, m.ceremonies.get c n = some x → x.saveData = some share →
    T x.epoch = some (tag share.save)
  sealedShare : ∀ e cc, m.store c = some e → e.context = some cc →
    T cc.epoch = some (tag e.share.save)

/-- What a task carries for `c`. -/
def Task.Tagged : Task S → Prop
  | .keygen id _ | .keygenSeal id _ _ _ _ | .keygenRecord id _ _ _ _ _ | .keygenFail id _ _
  | .keygenFailed id _ _ => id ≠ c
  | .reshareStart reshareID _ plan _ | .reshare reshareID _ plan =>
    plan.sourceCeremonyID = c → T plan.newEpoch = some reshareID
  | .reshareAccept _ _ plan share _ _ | .reshareSeal _ _ plan share _ _
  | .reshareMark _ _ plan share _ | .reshareFind plan share | .reshareReplace plan share _ =>
    plan.sourceCeremonyID = c → T plan.newEpoch = some (tag share.save)
  | .restoreRegister id x =>
    id = c → ∀ share, x.saveData = some share → T x.epoch = some (tag share.save)
  | _ => True

def taggedOutline : Outline (Manager S) (Task S) where
  shared m := TaggedManager tag c T m
  thread _ t := t.Tagged tag c T
  pair _ _ := True
  pair_symm := id

end Outline

variable {tag : S → String} {c : String} {T T' : Int → Option String} {cfg : Config S}
variable {p p' : Process S} {i : Nat} {label : Label S}

variable {t : Task S}

omit [TssLib] in
theorem tagged_of_bystander (h : t.role c = .bystander) : t.Tagged tag c T := by
  cases t with
  | keygen | keygenFail | keygenFailed | keygenSeal | keygenRecord | reshareStart | reshare
  | reshareAccept | reshareSeal | reshareMark | reshareFind | reshareReplace | restoreRegister =>
    intro hc
    simp [Task.role, hc] at h
  | _ => exact trivial

omit [TssLib] in
theorem Task.Tagged.mono (hT : ∀ epoch t, T epoch = some t → T' epoch = some t)
    (h : t.Tagged tag c T) : t.Tagged tag c T' := by
  cases t with
  | reshareStart | reshare
  | reshareAccept | reshareSeal | reshareMark | reshareFind | reshareReplace =>
    intro hc
    exact hT _ _ (h hc)
  | restoreRegister =>
    intro hc share hshare
    exact hT _ _ (h hc share hshare)
  | _ => exact h

/-! ## The maps and the store after a write -/

namespace TaggedManager

variable {m m' : Manager S} {id : String}

variable (h : TaggedManager tag c T m)
include h

omit [TssLib] in
theorem congr (hc : m'.ceremonies = m.ceremonies)
    (hs : m'.store = m.store) : TaggedManager tag c T m' where
  records := by
    rw [hc]
    exact h.records
  sealedShare := by
    rw [hs]
    exact h.sealedShare

omit [TssLib] in
theorem registerKeygen {x : KeygenCeremony S}
    (hx : id = c → ∀ share, x.saveData = some share → T x.epoch = some (tag share.save)) :
    TaggedManager tag c T ((Effect.registerKeygen id x).apply m) where
  records := by
    intro n y share hy hshare
    simp only [Effect.apply, Registry.get_register] at hy
    split at hy
    · next hn =>
      cases hy
      exact hx hn.1.symm share hshare
    · exact h.records n y share hy hshare
  sealedShare := h.sealedShare

omit [TssLib] in
theorem modify {f : KeygenCeremony S → KeygenCeremony S} {n : Nat}
    (hf : id = c → ∀ x share, (f x).saveData = some share →
      (∀ share, x.saveData = some share → T x.epoch = some (tag share.save)) →
        T (f x).epoch = some (tag share.save)) :
    TaggedManager tag c T { m with ceremonies := m.ceremonies.modify id n f } where
  records := by
    intro k y share hy hshare
    simp only [Registry.get_modify] at hy
    split at hy
    · next hn =>
      obtain ⟨rfl, rfl⟩ := hn
      obtain ⟨x, hx, rfl⟩ := Option.map_eq_some_iff.mp hy
      exact hf rfl x share hshare fun share' hs => h.records k x share' hx hs
    · exact h.records k y share hy hshare
  sealedShare := h.sealedShare

omit [TssLib] in
theorem forget : TaggedManager tag c T ((Effect.forget id).apply m) := by
  simp only [Effect.apply]
  split
  · exact h
  next n _ =>
  have hmod : TaggedManager tag c T { m with
      ceremonies := m.ceremonies.modify id n fun x => { x with saveData := none } } :=
    h.modify fun _ x share hs => by cases hs
  exact ⟨hmod.records, hmod.sealedShare⟩

omit [TssLib] in
theorem writeSealed {e : SealedShare S}
    (he : id = c → ∀ cc, e.context = some cc → T cc.epoch = some (tag e.share.save)) :
    TaggedManager tag c T ((Effect.writeSealed id e).apply m) where
  records := h.records
  sealedShare := by
    intro e' cc he' hcc
    by_cases hc : c = id
    · subst hc
      simp only [Effect.apply, Function.update_self, Option.some.injEq] at he'
      subst he'
      exact he rfl cc hcc
    · simp only [Effect.apply, Function.update_of_ne hc] at he'
      exact h.sealedShare e' cc he' hcc

omit [TssLib] in
theorem destroySealed : TaggedManager tag c T ((Effect.destroySealed id).apply m) where
  records := h.records
  sealedShare := by
    intro e cc he hcc
    by_cases hc : c = id
    · subst hc
      simp [Effect.apply] at he
    · simp only [Effect.apply, Function.update_of_ne hc] at he
      exact h.sealedShare e cc he hcc

end TaggedManager

/-! ## One step of a party -/

omit [TssLib] in
theorem tagged_step {m' : Manager S} {task : Option (Task S)} (hp : (taggedOutline tag c T).Holds p)
    (hm : TaggedManager tag c T m') (htask : ∀ t, task = some t → t.Tagged tag c T) :
    (taggedOutline tag c T).Holds ⟨m', Function.update p.threads i task⟩ :=
  hp.step id hm htask (fun _ _ _ hu => hp.thread hu) fun _ _ _ _ _ _ => trivial

omit [TssLib] in
/-- The outline after a section that writes no ceremony and nothing sealed. -/
theorem tagged_quiet {m' : Manager S} (hp : (taggedOutline tag c T).Holds p)
    (hc : m'.ceremonies = p.shared.ceremonies) (hs : m'.store = p.shared.store)
    (ht : t.Tagged tag c T) :
    (taggedOutline tag c T).Holds ⟨m', Function.update p.threads i (some t)⟩ := by
  refine tagged_step hp (hp.shared.congr hc hs) ?_
  rintro u ⟨⟩
  exact ht

/--
A step of a party keeps the tags, if it does not generate `c` anew, if what a refresh delivers has
the tag of that refresh, and if a refresh is registered for an epoch that has its tag.
-/
theorem step_tagged (hp : (taggedOutline tag c T).Holds p)
    (hkeygen : ∀ threshold peers curve blockchain,
      label ≠ .startKeygen c threshold peers curve blockchain)
    (hdeliver : ∀ save reshareID k plan, label = .deliver save →
      p.threads i = some (.reshare reshareID k plan) → plan.sourceCeremonyID = c →
        tag save = reshareID) (hregister : ∀ reshareID plan share, label = .advance →
      p.threads i = some (.reshareRegister reshareID plan share) → plan.sourceCeremonyID = c →
        T plan.newEpoch = some reshareID) (h : step cfg p (i, label) = some p') :
    (taggedOutline tag c T).Holds p' := by
  obtain ⟨e, task, hsec, rfl⟩ := step_section h
  generalize hi : p.threads i = old at hsec
  cases hsec with
  | elsewhere he _ ht =>
    exact tagged_step hp (hp.shared.congr he.ceremonies he.store)
      fun t hte => tagged_of_bystander ((ht t hte).role c)
  | @startKeygen id threshold peers curve blockchain x hx =>
    have hid : id ≠ c := fun hc => hkeygen threshold peers curve blockchain (by rw [hc])
    refine tagged_step hp (hp.shared.registerKeygen fun hc => absurd hc hid) ?_
    rintro t ⟨⟩
    exact hid
  | startResharing | restore => exact tagged_quiet hp rfl rfl trivial
  | retire =>
    refine tagged_step hp hp.shared.forget ?_
    rintro t ⟨⟩
    exact trivial
  | keygenDelivers | keygenFails | keygenNotSealed | keygenUnsealed | keygenFailFinds =>
    exact tagged_quiet hp rfl rfl (hp.thread hi)
  | keygenSealed =>
    have hid := hp.thread hi
    refine tagged_step hp (hp.shared.writeSealed fun hc => absurd hc hid) ?_
    rintro t ⟨⟩
    exact hid
  | keygenRecords =>
    have hid := hp.thread hi
    exact tagged_step hp (hp.shared.modify fun hc => absurd hc hid) (by rintro t ⟨⟩)
  | keygenFailed =>
    exact tagged_step hp (hp.shared.modify fun _ _ share hs hx => hx share hs) (by rintro t ⟨⟩)
  | reshareReads => exact tagged_quiet hp rfl rfl trivial
  | @reshareRegisters reshareID plan share =>
    exact tagged_quiet hp rfl rfl fun hc => hregister reshareID plan share rfl hi hc
  | reshareStarts => exact tagged_quiet hp rfl rfl (hp.thread hi)
  | @reshareDelivers reshareID k plan save publicKey address hr =>
    refine tagged_quiet hp rfl rfl fun hc => ?_
    rw [hdeliver save reshareID k plan rfl hi hc]
    exact hp.thread hi hc
  | reshareAccepts | reshareNotSealed | reshareMarks | reshareFinds =>
    exact tagged_quiet hp rfl rfl (hp.thread hi)
  | reshareSealed =>
    refine tagged_step hp (hp.shared.writeSealed fun hc cc hcc => ?_) ?_
    · cases hcc
      exact hp.thread hi hc
    · rintro t ⟨⟩
      exact hp.thread hi
  | reshareReplaces =>
    refine tagged_step hp (hp.shared.modify fun hc x share hs _ => ?_) (by rintro t ⟨⟩)
    cases hs
    exact hp.thread hi hc
  | @restoreLoads id peers e x hl hx =>
    refine tagged_quiet hp rfl rfl ?_
    rintro rfl share hshare
    obtain ⟨_, hsave, ⟨cc, hcc, hepoch, _⟩, _⟩ := restoreCeremony_eq_ok hx
    obtain ⟨_, hstore⟩ := loadSealedShare_eq_ok hl
    rw [hsave] at hshare
    cases hshare
    rw [hepoch]
    exact hp.shared.sealedShare e cc hstore hcc
  | restoreRegisters =>
    exact tagged_step hp (hp.shared.registerKeygen (hp.thread hi)) (by rintro t ⟨⟩)
  | reshareLost => exact tagged_step hp hp.shared (by rintro t ⟨⟩)
  | retireDestroys => exact tagged_step hp hp.shared.destroySealed (by rintro t ⟨⟩)

/-! ## The network -/

section Network

variable {ι : Type} [DecidableEq ι] {cfgs : ι → Config S} {net net' : ι → Process S} {epoch₀ : Int}

structure NetTagged (tag : S → String) (c : String) (epoch₀ : Int) (T : Int → Option String)
    (net : ι → Process S) : Prop where
  parties : ∀ j, (taggedOutline tag c T).Holds (net j)
  registered : ∀ epoch r, T epoch = some r → epoch = epoch₀ ∨ ∃ j, Registered c r epoch (net j)

variable {e : ι × Nat × Label S}

theorem netStep_eq_some (h : netStep cfgs net e = some net') :
    ∃ q, step (cfgs e.1) (net e.1) e.2 = some q ∧ net' = Function.update net e.1 q := by
  obtain ⟨q, hq, rfl⟩ := Option.map_eq_some_iff.mp h
  exact ⟨q, hq, rfl⟩

theorem registered_netStep {reshareID : String} {epoch : Int} {j : ι}
    (h : Registered c reshareID epoch (net j)) (hstep : netStep cfgs net e = some net') :
    Registered c reshareID epoch (net' j) := by
  obtain ⟨q, hq, rfl⟩ := netStep_eq_some hstep
  by_cases hj : j = e.1
  · subst hj
    rw [Function.update_self]
    obtain ⟨k, y, hy, hsource, hepoch⟩ := h
    obtain ⟨effect, task, _, rfl⟩ := step_section hq
    obtain ⟨y', hy', hplan⟩ := resharing_apply effect hy
    exact ⟨k, y', hy', by rw [hplan]; exact hsource, by rw [hplan]; exact hepoch⟩
  · rw [Function.update_of_ne hj]
    exact h

omit [DecidableEq ι] in
omit [TssLib] in
theorem netTagged_start {t₀ : String} (h : ∀ j, HoldsAt tag c epoch₀ t₀ (net j)) :
    ∃ T, NetTagged tag c epoch₀ T net := by
  let T : Int → Option String := fun epoch => if epoch = epoch₀ then some t₀ else none
  refine ⟨T, fun j => ?_, fun epoch r hr => ?_⟩
  · refine ⟨⟨fun n x share hx hs => ?_, fun e cc he hcc => ?_⟩, fun hm => ?_, fun _ _ _ => trivial⟩
    · obtain ⟨hepoch, ht⟩ := (h j).records n x share hx hs
      exact (if_pos hepoch).trans (congrArg some ht.symm)
    · obtain ⟨hepoch, ht⟩ := (h j).sealedShare e cc he hcc
      exact (if_pos hepoch).trans (congrArg some ht.symm)
    · exact tagged_of_bystander ((h j).idle _ _ hm)
  · by_cases he : epoch = epoch₀
    · exact .inl he
    · have h := (if_neg he).symm.trans hr
      cases h

theorem registered_of_register {reshareID : String} {plan : ResharePlan} {share : KeyShare S}
    (hlabel : e.2.2 = .advance)
    (hi : (net e.1).threads e.2.1 = some (.reshareRegister reshareID plan share))
    (hc : plan.sourceCeremonyID = c) (hstep : netStep cfgs net e = some net') :
    Registered c reshareID plan.newEpoch (net' e.1) := by
  obtain ⟨q, hq, rfl⟩ := netStep_eq_some hstep
  obtain ⟨party, i, label⟩ := e
  cases hlabel
  obtain ⟨effect, task, hr, rfl⟩ := step_task hi hq
  cases hr
  rw [Function.update_self]
  exact ⟨_, { plan }, Registry.get_register_fresh _ _ _, hc, rfl⟩

theorem parties_tagged_step (hn : ∀ j, (taggedOutline tag c T).Holds (net j))
    (htag : Tagging tag c net e)
    (hregister : ∀ reshareID plan share, e.2.2 = .advance → (net e.1).threads e.2.1 = some (.reshareRegister reshareID plan share) → plan.sourceCeremonyID = c → T plan.newEpoch = some reshareID)
    (hstep : netStep cfgs net e = some net') : ∀ j, (taggedOutline tag c T).Holds (net' j) := by
  obtain ⟨q, hq, rfl⟩ := netStep_eq_some hstep
  intro j
  by_cases hj : j = e.1
  · subst hj
    rw [Function.update_self]
    obtain ⟨party, i, label⟩ := e
    refine step_tagged (hn party) ?_ ?_ hregister hq
    · rintro threshold peers curve blockchain rfl
      exact htag rfl
    · rintro save reshareID k plan rfl hi hc
      simp only [Tagging, hi] at htag
      exact htag hc
  · rw [Function.update_of_ne hj]
    exact hn j

theorem netTagged_step (hn : NetTagged tag c epoch₀ T net) (htag : Tagging tag c net e)
    (hone : OneRefresh c epoch₀ net e) (hstep : netStep cfgs net e = some net') :
    ∃ T', NetTagged tag c epoch₀ T' net' := by
  have hkeep : ∀ epoch r, T epoch = some r →
      epoch = epoch₀ ∨ ∃ j, Registered c r epoch (net' j) := by
    intro epoch r hr
    rcases hn.registered epoch r hr with h | ⟨j, h⟩
    · exact .inl h
    · exact .inr ⟨j, registered_netStep h hstep⟩
  by_cases hreg : ∃ reshareID plan share, e.2.2 = .advance ∧
      (net e.1).threads e.2.1 = some (.reshareRegister reshareID plan share) ∧
      plan.sourceCeremonyID = c
  · obtain ⟨reshareID, plan, share, hlabel, hi, hc⟩ := hreg
    simp only [OneRefresh, hlabel, hi] at hone
    obtain ⟨hne, hother⟩ := hone hc
    -- the epoch has no tag yet, or the tag of this refresh
    have hfree : ∀ r, T plan.newEpoch = some r → r = reshareID := by
      intro r hr
      rcases hn.registered _ r hr with h | ⟨j, h⟩
      · exact absurd h hne
      · exact hother j r h
    have hmono : ∀ epoch r, T epoch = some r →
        Function.update T plan.newEpoch (some reshareID) epoch = some r := by
      intro epoch r hr
      by_cases he : epoch = plan.newEpoch
      · subst he
        rw [Function.update_self, hfree r hr]
      · rw [Function.update_of_ne he, hr]
    refine ⟨Function.update T plan.newEpoch (some reshareID), ?_, ?_⟩
    · have hparties : ∀ j, (taggedOutline tag c (Function.update T plan.newEpoch (some reshareID))).Holds
          (net j) := fun j =>
        ⟨⟨fun n x share hx hs => hmono _ _ ((hn.parties j).shared.records n x share hx hs),
          fun e cc he hcc => hmono _ _ ((hn.parties j).shared.sealedShare e cc he hcc)⟩,
          fun hm => ((hn.parties j).thread hm).mono hmono, fun _ _ _ => trivial⟩
      refine parties_tagged_step hparties htag ?_ hstep
      intro r plan' share' _ hi' _
      have h := hi.symm.trans hi'
      cases h
      rw [Function.update_self]
    · intro epoch r hr
      by_cases he : epoch = plan.newEpoch
      · subst he
        rw [Function.update_self] at hr
        cases hr
        exact .inr ⟨e.1, registered_of_register hlabel hi hc hstep⟩
      · rw [Function.update_of_ne he] at hr
        exact hkeep epoch r hr
  · refine ⟨T, parties_tagged_step hn.parties htag ?_ hstep, hkeep⟩
    intro reshareID plan share hlabel hi hc
    exact absurd ⟨reshareID, plan, share, hlabel, hi, hc⟩ hreg

/--
**Parties at one epoch hold shares of one polynomial.** From a network in which every party that
has the source has it at one epoch and tag, through every run in which refreshes are registered as
`OneRefresh` says, whatever else the parties do.
-/
theorem shares_agree {t₀ : String} {es : List (ι × Nat × Label S)}
    (hstart : ∀ j, HoldsAt tag c epoch₀ t₀ (net j))
    (htag : Guarded (netStep cfgs) (Tagging tag c) net es)
    (hone : Guarded (netStep cfgs) (OneRefresh c epoch₀) net es)
    (hrun : run (netStep cfgs) net es = some net') : Agree tag c net' := by
  obtain ⟨T, hT⟩ : ∃ T, NetTagged tag c epoch₀ T net' := by
    refine run_guarded_invariant (P := fun net => ∃ T, NetTagged tag c epoch₀ T net) ?_
      (netTagged_start hstart) (htag.and hone) hrun
    rintro s t e ⟨T, hs⟩ ⟨h1, h2⟩ hstep
    exact netTagged_step hs h1 h2 hstep
  intro i j
  constructor
  · intro n n' x x' share share' _ hx hs _ hx' hs' hepoch
    have h := (hT.parties i).shared.records n x share hx hs
    have h' := (hT.parties j).shared.records n' x' share' hx' hs'
    rw [hepoch, h'] at h
    exact (Option.some.inj h).symm
  · intro e e' cc cc' he hcc he' hcc' hepoch
    have h := (hT.parties i).shared.sealedShare e cc he hcc
    have h' := (hT.parties j).shared.sealedShare e' cc' he' hcc'
    rw [hepoch, h'] at h
    exact (Option.some.inj h).symm

end Network

end

open scoped Insertion

/-! ## Two parties -/

/-- Two parties of a committee, with save data that is its own tag. -/
def sampleNetwork (second : Bool) : Config String :=
  { sampleConfig true with
    partyID := if second then 2 else 1
    publicKey := fun _ => .ok ("K", "K") }

def atParty (second : Bool) (es : List (Nat × Label String)) : List (Bool × Nat × Label String) :=
  es.map fun e => (second, e)

/-- Both parties generate the key. -/
def sampleKeygens : List (Bool × Nat × Label String) :=
  [false, true].flatMap fun b => atParty b (sampleKeygen 0 "k" "dkg" ++ [(0, .advance)])

/-- The network when both are done. -/
def sampleHolding : Bool → Process String :=
  (run (netStep sampleNetwork) (fun _ => sampleStart) sampleKeygens).getD fun _ => sampleStart

theorem sampleHolding_holdsAt (j : Bool) : HoldsAt id "k" 0 "dkg" (sampleHolding j) := by
  cases j <;>
  · refine ⟨fun n x share hx hs => ?_, fun e cc he hcc => ?_, fun i task hi => ?_⟩
    · cases n with
      | zero =>
        cases hx
        cases hs
        exact ⟨rfl, rfl⟩
      | succ n => cases hx
    · cases he
      cases hcc
      exact ⟨rfl, rfl⟩
    · cases i <;> cases hi

def oneRefresh : List (Bool × Nat × Label String) :=
  [false, true].flatMap fun b => atParty b (sampleBegin 0 "r1" "k" ++ sampleFinish 0 "r1")

/-- After one refresh the parties are at epoch 1 with its tag. -/
theorem shares_agree_one_refresh :
    ∃ net, run (netStep sampleNetwork) sampleHolding oneRefresh = some net ∧ Agree id "k" net := by
  obtain ⟨net, hnet⟩ : ∃ net,
      run (netStep sampleNetwork) sampleHolding oneRefresh = some net := ⟨_, rfl⟩
  have htag : Guarded (netStep sampleNetwork) (Tagging id "k") sampleHolding oneRefresh := by
    repeat' first
    | exact trivial
    | exact fun _ => rfl
    | refine guarded_cons rfl ?_ ?_
  have hone : Guarded (netStep sampleNetwork) (OneRefresh "k" 0) sampleHolding oneRefresh := by
    repeat' first
    | exact trivial
    | refine guarded_cons rfl ?_ ?_
    -- the two events that register the refresh
    all_goals
      intro _
      refine ⟨by decide, ?_⟩
      rintro j other ⟨k, y, hy, _⟩
    · cases j <;> cases hy
    · cases j with
      | true => cases hy
      | false =>
        change Registry.get (((Registry.empty.register "r1" _).modify "r1" 0 _).modify "r1" 0 _)
          other k = some y at hy
        by_contra hne
        simp [Registry.get_modify, Registry.get_register, hne] at hy
  exact ⟨net, hnet, shares_agree sampleHolding_holdsAt htag hone hnet⟩

/-- Two refreshes that run at the same time, completed in one order at the first party and in the
other at the second. -/
def crossedRefreshes : List (Bool × Nat × Label String) :=
  atParty false (sampleBegin 0 "r1" "k" ++ sampleBegin 1 "r2" "k") ++
  atParty true (sampleBegin 0 "r1" "k" ++ sampleBegin 1 "r2" "k") ++
  atParty false (sampleFinish 0 "r1" ++ sampleFinish 1 "r2") ++
  atParty true (sampleFinish 1 "r2" ++ sampleFinish 0 "r1")

/-- Both parties end at epoch 1, one with the shares of one refresh and one with those of the
other. -/
theorem refreshes_disagree :
    run (netStep sampleNetwork) (fun _ => sampleStart) sampleKeygens = some sampleHolding ∧
      (∀ j, HoldsAt id "k" 0 "dkg" (sampleHolding j)) ∧
      Guarded (netStep sampleNetwork) (Tagging id "k") sampleHolding crossedRefreshes ∧
      ∃ net, run (netStep sampleNetwork) sampleHolding crossedRefreshes = some net ∧
        ¬ Agree id "k" net := by
  refine ⟨rfl, sampleHolding_holdsAt, ?_, _, rfl, ?_⟩
  · repeat' first
    | exact trivial
    | exact fun _ => rfl
    | refine guarded_cons rfl ?_ ?_
  · intro h
    have hsame := (h false true).1 0 0 _ _ _ _ rfl rfl rfl rfl rfl rfl rfl
    simp at hsame

end OpenFireblocks.Party
