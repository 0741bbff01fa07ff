import OpenFireblocks.Party.RetentionOutline

/-!
# The committee of a key

The majority rule is checked where a key is made. A refresh and a restore take a new map of
endpoints: the refresh checks that this party is in it, the restore counts it and checks the same.
Neither compares it with the nodes that made the key.

The runs here go over restarts: a process dies at any moment, and the next one finds the store.
-/

namespace OpenFireblocks.Party

open Go Machine Threads

section

variable [TssLib] {S : Type}

/-- One critical section, or a restart. -/
def lifeStep (cfg : Config S) (s : Process S) : Option (Nat × Label S) → Option (Process S)
  | some e => step cfg s e
  | none => some (.idle (.start s.shared.store))

def newParty : Process S := .idle (.start fun _ => none)

/-- What a key generation was asked for. -/
structure DKG where
  threshold : Int
  nodes : List Int

/-- The threshold and the nodes of `d`. -/
def DKG.Is (d : DKG) (threshold : Int) (peers : Peers) : Prop :=
  threshold = d.threshold ∧ peers.ids.Perm d.nodes

def DKG.Majority (d : DKG) : Prop :=
  2 ≤ (d.nodes.length : Int) → (d.nodes.length : Int) / 2 + 1 ≤ wrap64 (d.threshold + 1)

/-- `x` has the committee of `d`, and an endpoint for each of its nodes. -/
structure KeygenCeremony.HasCommittee (x : KeygenCeremony S) (d : DKG) : Prop where
  threshold : x.threshold = d.threshold
  nodes : ∃ q : Peers, q.ids.Perm d.nodes ∧ x.sortedIDs = committeePartyIDs q x.epoch
  count : x.sortedIDs.length = d.nodes.length
  endpoints : x.peers.ids.Perm d.nodes
  majority : d.Majority

section

variable (cfg : Config S) (made : String → DKG)

/-- `made` is the key generation that made a key. A refresh and a restore name its nodes, and a
refresh that is done puts its share into a completed ceremony of the key it has refreshed. -/
def SameNodes (s : Process S) (e : Option (Nat × Label S)) : Prop :=
  match e.map Prod.snd, e.bind fun e => s.threads e.1 with
  | some (.deliver save), some (.keygen id n) => ∀ x K, s.shared.ceremonies.get id n = some x →
    KeyOf cfg ⟨x.curve, save⟩ K → (made K).Is x.threshold x.peers
  | some .advance, some (.reshareRead _ source peers n) => ∀ x,
    s.shared.ceremonies.get source n = some x → x.status = .completed →
    peers.ids.Perm (made x.publicKeyHex).nodes
  | some .advance, some (.reshareReplace plan _ n) => ∀ x,
    s.shared.ceremonies.get plan.sourceCeremonyID n = some x →
    x.status = .completed ∧ x.publicKeyHex = plan.expectedPublicKey
  | some .advance, some (.restoreLoad id peers) => ∀ e K, s.shared.store id = some e →
    KeyOf cfg e.share K → peers.ids.Perm (made K).nodes
  | _, _ => True

/-! ## The invariant -/

/-- A record is of the nodes it has endpoints for, and once it is completed these are the nodes of
its key. -/
structure KeygenCeremony.Member (x : KeygenCeremony S) : Prop where
  nodes : ∃ q : Peers, q.ids.Perm x.peers.ids ∧ x.sortedIDs = committeePartyIDs q x.epoch
  majority : DKG.Majority ⟨x.threshold, x.peers.ids⟩
  key : x.status = .completed → (made x.publicKeyHex).Is x.threshold x.peers

def SealedShare.Member (e : SealedShare S) : Prop :=
  ∀ cc K, e.context = some cc → KeyOf cfg e.share K →
    cc.threshold = (made K).threshold ∧ (made K).Majority

structure ResharePlan.Member (plan : ResharePlan) : Prop where
  newSorted : plan.newSorted = committeePartyIDs plan.peers plan.newEpoch
  key : (made plan.expectedPublicKey).Is plan.threshold plan.peers
  majority : (made plan.expectedPublicKey).Majority

def Completing (m : Manager S) (id : String) (n : Nat) (share : KeyShare S) (K : String) : Prop :=
  KeyOf cfg share K ∧ ∃ x, m.ceremonies.get id n = some x ∧ (made K).Is x.threshold x.peers

def Task.Member (m : Manager S) : Task S → Prop
  | .keygenSeal id n share K _ | .keygenRecord id n share K _ _ => Completing cfg made m id n share K
  | .reshareRegister _ plan _ | .reshareStart _ _ plan _ | .reshare _ _ plan
  | .reshareMark _ _ plan _ _ | .reshareFind plan _ | .reshareReplace plan _ _ => plan.Member made
  | .reshareAccept _ _ plan share K _ | .reshareSeal _ _ plan share K _ =>
    plan.Member made ∧ KeyOf cfg share K ∧ K = plan.expectedPublicKey
  | .restoreRegister _ x => x.Member made
  | _ => True

structure Manager.Members (m : Manager S) : Prop where
  records : ∀ {id n x}, m.ceremonies.get id n = some x → x.Member made
  store : ∀ {id e}, m.store id = some e → e.Member cfg made

def memberOutline : Outline (Manager S) (Task S) where
  shared := Manager.Members cfg made
  thread := Task.Member cfg made
  pair := fun _ _ => True
  pair_symm := id

end

variable {cfg : Config S} {made : String → DKG} {m : Manager S} {e : Effect S}

variable {peers : Peers} {x : KeygenCeremony S} {n : Nat} {share : KeyShare S}

omit [TssLib] in
theorem DKG.Is.majority {d : DKG} {threshold : Int} (h : d.Is threshold peers) :
    DKG.Majority ⟨threshold, peers.ids⟩ ↔ d.Majority := by
  unfold DKG.Majority
  simp [h.1, h.2.length_eq]

theorem KeygenCeremony.Member.hasCommittee (h : x.Member made) (hdone : x.status = .completed) :
    x.HasCommittee (made x.publicKeyHex) := by
  obtain ⟨q, hq, hsorted⟩ := h.nodes
  obtain ⟨hthreshold, hpeers⟩ := h.key hdone
  refine ⟨hthreshold, ⟨q, hq.trans hpeers, hsorted⟩, ?_, hpeers, (h.key hdone).majority.mp h.majority⟩
  have hlength := length_committeePartyIDs q x.epoch
  have hsize : q.size = q.ids.length := by rw [Peers.ids, List.length_map, Peers.size]
  rw [← (hq.trans hpeers).length_eq, hsorted]
  omega

omit [TssLib] in
theorem ceremony_apply {id : String} (e : Effect S) (h : m.ceremonies.get id n = some x) :
    ∃ y, (e.apply m).ceremonies.get id n = some y ∧ y.threshold = x.threshold ∧
      y.peers = x.peers := by
  have hmodify : ∀ {c k} {f : KeygenCeremony S → KeygenCeremony S},
      (∀ y, (f y).threshold = y.threshold ∧ (f y).peers = y.peers) →
      ∃ y, (m.ceremonies.modify c k f).get id n = some y ∧ y.threshold = x.threshold ∧
        y.peers = x.peers := by
    intro c k f hf
    rw [Registry.get_modify]
    split
    · next he =>
      obtain ⟨rfl, rfl⟩ := he
      exact ⟨f x, by rw [h]; rfl, hf x⟩
    · exact ⟨x, h, rfl, rfl⟩
  cases e with
  | registerKeygen => exact ⟨x, Registry.get_register_of_get h, rfl, rfl⟩
  | failKeygen | recordKeygen | replaceShare => exact hmodify fun _ => ⟨rfl, rfl⟩
  | forget c =>
    simp only [Effect.apply]
    split
    · exact ⟨x, h, rfl, rfl⟩
    · exact hmodify fun _ => ⟨rfl, rfl⟩
  | _ => exact ⟨x, h, rfl, rfl⟩

theorem Task.Member.apply {t : Task S} (h : t.Member cfg made m) (e : Effect S) :
    t.Member cfg made (e.apply m) := by
  cases t with
  | keygenSeal | keygenRecord =>
    obtain ⟨hkey, x, hx, hthreshold, hpeers⟩ := h
    obtain ⟨y, hy, hy', hy''⟩ := ceremony_apply e hx
    exact ⟨hkey, y, hy, hy'.trans hthreshold, hy'' ▸ hpeers⟩
  | _ => exact h

namespace Manager.Members

theorem register (h : m.Members cfg made) {id : String} {x : KeygenCeremony S}
    (hx : x.Member made) : ((Effect.registerKeygen id x).apply m).Members cfg made where
  records := by
    intro c n y hy
    simp only [Effect.apply, Registry.get_register] at hy
    split at hy
    · cases hy
      exact hx
    · exact h.records hy
  store := h.store

theorem modify (h : m.Members cfg made) {id : String} {n : Nat}
    {f : KeygenCeremony S → KeygenCeremony S}
    (hf : ∀ x, m.ceremonies.get id n = some x → x.Member made → (f x).Member made) :
    ({ m with ceremonies := m.ceremonies.modify id n f } : Manager S).Members cfg made where
  records := by
    intro c k y hy
    rw [Registry.get_modify] at hy
    split at hy
    · obtain ⟨x, hx, rfl⟩ := Option.map_eq_some_iff.mp hy
      exact hf x hx (h.records hx)
    · exact h.records hy
  store := h.store

theorem forget (h : m.Members cfg made) {id : String} :
    ((Effect.forget id).apply m).Members cfg made := by
  simp only [Effect.apply]
  split
  · exact h
  next n _ =>
  have hforgot := @modify _ _ _ _ _ h id n (fun x => { x with saveData := none })
    fun x _ hx => ⟨hx.nodes, hx.majority, hx.key⟩
  exact ⟨hforgot.records, hforgot.store⟩

theorem writeStore (h : m.Members cfg made) {id : String} {entry : Option (SealedShare S)}
    (hentry : ∀ e, entry = some e → e.Member cfg made) :
    ({ m with store := Function.update m.store id entry } : Manager S).Members cfg made where
  records := h.records
  store := by
    intro c e he
    simp only [Function.update_apply] at he
    split at he
    · exact hentry e he
    · exact h.store he

end Manager.Members

/-! ## The sections that write a record or the store -/

theorem Completing.sealed {id : String} {K address : String}
    (h : Completing cfg made m id n share K) (hx : m.ceremonies.get id n = some x)
    (hmember : x.Member made) : (x.sealedShare share K address).Member cfg made := by
  obtain ⟨⟨a, hkey⟩, y, hy, hmade⟩ := h
  cases hy.symm.trans hx
  rintro cc K' ⟨⟩ ⟨a', hkey'⟩
  cases hkey.symm.trans hkey'
  exact ⟨hmade.1, hmade.majority.mp hmember.majority⟩

/-- **A refreshed share in a completed ceremony of its key.** -/
theorem ResharePlan.Member.replace {plan : ResharePlan} (h : plan.Member made)
    (hmember : x.Member made)
    (hx : x.status = .completed ∧ x.publicKeyHex = plan.expectedPublicKey) :
    KeygenCeremony.Member made { x with
      saveData := some share, sortedIDs := plan.newSorted, epoch := plan.newEpoch } := by
  refine ⟨⟨plan.peers, ?_, h.newSorted⟩, hmember.majority, hmember.key⟩
  have hkey := (hmember.key hx.1).2
  rw [hx.2] at hkey
  exact h.key.2.trans hkey.symm

/-! ## Runs -/

variable {s t : Process S}

omit [TssLib] in
theorem no_task {P : Task S → Prop} : ∀ u, none = some u → P u := fun _ h => by cases h

/-- **One critical section** that meets the condition. -/
theorem section_members {i : Nat} {label : Label S} {new : Option (Task S)}
    (hs : (memberOutline cfg made).Holds s) (hsame : SameNodes cfg made s (some (i, label)))
    (hsec : Section cfg s.shared (s.threads i) label e new) :
    (e.apply s.shared).Members cfg made ∧ ∀ u, new = some u → u.Member cfg made (e.apply s.shared) := by
  have hshared : s.shared.Members cfg made := hs.shared
  have hown : ∀ u, s.threads i = some u → u.Member cfg made s.shared := fun u hu => hs.thread hu
  simp only [SameNodes, Option.bind_some] at hsame
  generalize s.threads i = old at hsec hown hsame
  cases hsec with
  | startKeygen h =>
    obtain ⟨-, hmajority, -, -, rfl⟩ := startKeygen_eq_ok.mp h
    rw [Peers.size, ← List.length_map Prod.fst] at hmajority
    refine ⟨hshared.register ⟨⟨_, .refl _, rfl⟩, hmajority, nofun⟩, ?_⟩
    rintro u ⟨⟩
    exact trivial
  | keygenDelivers hx h =>
    refine ⟨hshared, ?_⟩
    rintro u ⟨⟩
    have hkey := completeCeremony_eq_ok h
    exact ⟨hkey, _, hx, hsame _ _ hx hkey⟩
  | keygenSealed hc hx =>
    have hcompleting : Completing .. := hown _ rfl
    refine ⟨hshared.writeStore ?_, ?_⟩
    · rintro _ ⟨⟩
      exact hcompleting.sealed hx (hshared.records hx)
    · rintro u ⟨⟩
      exact hcompleting
  | keygenRecords =>
    obtain ⟨-, y, hy, hmade⟩ : Completing .. := hown _ rfl
    refine ⟨hshared.modify fun x hx hmember => ?_, no_task⟩
    cases hy.symm.trans hx
    exact ⟨hmember.nodes, hmember.majority, fun _ => hmade⟩
  | keygenFailed =>
    exact ⟨hshared.modify fun x _ hx => ⟨hx.nodes, hx.majority, nofun⟩, no_task⟩
  | reshareReads hx h =>
    refine ⟨hshared, ?_⟩
    rintro u ⟨⟩
    obtain ⟨hdone, -, -, -, rfl⟩ := readSource_eq_ok.mp h
    have hmember := hshared.records hx
    have hkey := hmember.key hdone
    exact ⟨rfl, ⟨hkey.1, hsame _ hx hdone⟩, hkey.majority.mp hmember.majority⟩
  | reshareDelivers h =>
    refine ⟨hshared, ?_⟩
    rintro u ⟨⟩
    obtain ⟨hK, hkey⟩ := completeResharing_eq_ok h
    exact ⟨hown _ rfl, hkey, hK⟩
  | reshareSealed hc =>
    obtain ⟨hplan, hkey, hK⟩ := hown _ rfl
    refine ⟨hshared.writeStore ?_, ?_⟩
    · rintro _ ⟨⟩ cc K' ⟨⟩ hkey'
      obtain ⟨a, hkey⟩ := hkey
      obtain ⟨a', hkey'⟩ := hkey'
      cases hkey.symm.trans hkey'
      rw [hK]
      exact ⟨hplan.key.1, hplan.majority⟩
    · rintro u ⟨⟩
      exact hplan
  | reshareNotSealed =>
    refine ⟨hshared, ?_⟩
    rintro u ⟨⟩
    exact (hown _ rfl).1
  | reshareReplaces =>
    have hplan : ResharePlan.Member .. := hown _ rfl
    exact ⟨hshared.modify fun x hx hmember => hplan.replace hmember (hsame x hx), no_task⟩
  | @restoreLoads _ _ _ x hl h =>
    refine ⟨hshared, ?_⟩
    rintro u ⟨⟩
    have hstore := (loadSealedShare_eq_ok hl).2
    obtain ⟨-, -, ⟨cc, hcc, -, hthreshold⟩, hkey, rfl, hsorted⟩ := restoreCeremony_eq_ok h
    obtain ⟨hcc, hmajority⟩ := hshared.store hstore cc _ hcc hkey
    have hmade : (made x.publicKeyHex).Is x.threshold x.peers :=
      ⟨hthreshold.trans hcc, hsame _ _ hstore hkey⟩
    exact ⟨⟨x.peers, .refl _, hsorted⟩, hmade.majority.mpr hmajority, fun _ => hmade⟩
  | restoreRegisters => exact ⟨hshared.register (hown _ rfl), no_task⟩
  | retire =>
    refine ⟨hshared.forget, ?_⟩
    rintro u ⟨⟩
    exact trivial
  | retireDestroys => exact ⟨hshared.writeStore nofun, no_task⟩
  | reshareLost => exact ⟨hshared, no_task⟩
  | elsewhere he _ ht =>
    refine ⟨⟨?_, ?_⟩, fun u hu => ?_⟩
    · rw [he.ceremonies]
      exact hshared.records
    · rw [he.store]
      exact hshared.store
    · have := ht u hu
      cases u <;> first | exact trivial | cases this
  | keygenUnsealed | reshareRegisters | reshareStarts | reshareAccepts | reshareMarks
  | reshareFinds =>
    refine ⟨⟨hshared.records, hshared.store⟩, ?_⟩
    rintro u ⟨⟩
    have hplan := hown _ rfl
    exact hplan
  | _ =>
    refine ⟨hshared, ?_⟩
    rintro u ⟨⟩
    exact trivial

theorem holds_lifeStep {e : Option (Nat × Label S)} (hs : (memberOutline cfg made).Holds s)
    (hsame : SameNodes cfg made s e) (h : lifeStep cfg s e = some t) :
    (memberOutline cfg made).Holds t := by
  match e, h with
  | some (i, label), h =>
    obtain ⟨effect, task, hsec, rfl⟩ := step_section h
    obtain ⟨hshared, hown⟩ := section_members hs hsame hsec
    exact hs.step id hshared hown (fun j u _ hu => (hs.thread hu).apply effect)
      fun _ _ _ _ _ _ => trivial
  | none, h =>
    cases h
    exact Outline.holds_idle ⟨nofun, hs.shared.store⟩

/-- **In every run, over any number of restarts, in which refreshes and restores name the nodes of
the key and a refresh ends in a ceremony of its key**, every completed ceremony has the threshold and
the nodes of the key generation that made its key, with an endpoint for each, and signs by a
majority. -/
theorem committee_kept {es : List (Option (Nat × Label S))} {id : String} {n : Nat}
    {x : KeygenCeremony S} (hrun : run (lifeStep cfg) newParty es = some s)
    (hsame : Guarded (lifeStep cfg) (SameNodes cfg made) newParty es)
    (hx : s.shared.ceremonies.get id n = some x) (hdone : x.status = .completed) :
    x.HasCommittee (made x.publicKeyHex) := by
  have hstart : (memberOutline cfg made).Holds (newParty : Process S) :=
    Outline.holds_idle ⟨nofun, nofun⟩
  have hs := run_guarded_invariant holds_lifeStep hstart hsame hrun
  exact (hs.shared.records hx).hasCommittee hdone

end

open scoped Insertion

/-! ## A key of three nodes -/

/-- A key generation, a restart, and a restore. -/
def restoredWith (peers : Peers) : List (Option (Nat × Label String)) :=
  (sampleKeygen 0 "k" "dkg").map some ++
    [some (0, .advance), none, some (0, .restore "k" peers), some (0, .advance), some (0, .advance)]

def sampleMade (_ : String) : DKG := ⟨1, [1, 2, 3]⟩

theorem committee_kept_restored :
    ∃ s x, run (lifeStep (sampleConfig true)) newParty (restoredWith samplePeers) = some s ∧
      s.shared.ceremonies.get "k" 0 = some x ∧ x.status = .completed ∧
      x.HasCommittee (sampleMade x.publicKeyHex) := by
  refine ⟨_, _, rfl, rfl, rfl, @committee_kept _ String (sampleConfig true) sampleMade _
    (restoredWith samplePeers) "k" 0 _ rfl ?_ rfl rfl⟩
  refine guarded_cons rfl trivial (guarded_cons rfl ?deliver (guarded_cons rfl trivial
    (guarded_cons rfl trivial (guarded_cons rfl trivial (guarded_cons rfl trivial
      (guarded_cons rfl ?load (guarded_cons rfl trivial trivial)))))))
  case deliver =>
    rintro x K ⟨⟩ -
    exact ⟨rfl, .refl _⟩
  case load =>
    rintro e K ⟨⟩ -
    exact .refl _

def sampleStrangers : Peers where
  entries := [(1, "http://party1"), (4, "http://party4"), (5, "http://party5")]
  nodup := by decide
  inInt64 := by decide
  length_lt := by decide

theorem restored_with_strangers :
    ∃ s x, run (lifeStep (sampleConfig true)) newParty (restoredWith sampleStrangers) = some s ∧
      s.shared.ceremonies.get "k" 0 = some x ∧ x.status = .completed ∧ x.publicKeyHex = "dkg" ∧
      ¬ x.HasCommittee ⟨1, samplePeers.ids⟩ := by
  refine ⟨_, _, rfl, rfl, rfl, rfl, fun h => ?_⟩
  have hmem := h.endpoints.mem_iff.mp (show (4 : Int) ∈ _ by decide)
  revert hmem
  decide

end OpenFireblocks.Party
