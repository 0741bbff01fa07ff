import OpenFireblocks.Party.Roles

/-!
# What the party keeps for a key

Once a key generation or a restore is completed, the party has a share of its key under the id, in
memory and in the sealed store, and a refresh replaces both by a share of the same key. `Keeping` is
the invariant of the runs in which the requests for the id come one after the other (`InTurn`).

A refresh goes on when the store refuses its share. Where the store refuses none (`strict`), what is
sealed is what is in memory, except between the seal of a refresh and the replacement
(`Task.Replacing`).
-/

namespace OpenFireblocks.Party

open Go Threads Machine Outcome

section

variable {S : Type}

section Key

variable (cfg : Config S)

/-- The share is a share of the public key `K`. -/
def KeyOf (share : KeyShare S) (K : String) : Prop :=
  ∃ address, cfg.publicKey share = .ok (K, address)

/-- What the functions of the other packages do, as far as a restore needs it. -/
structure Config.Lawful : Prop where
  /-- `strings.EqualFold(s, s)` -/
  equalFold_self : ∀ s, cfg.equalFold s s = true
  /-- a public key in hex has digits -/
  publicKey_ne : ∀ {share K address}, cfg.publicKey share = .ok (K, address) → K ≠ ""

end Key

/-- What a share is dealt for. -/
structure Terms where
  threshold : Int
  sortedIDs : List PartyID
  epoch : Int
  curve : Curve

def KeygenCeremony.terms (x : KeygenCeremony S) : Terms :=
  ⟨x.threshold, x.sortedIDs, x.epoch, x.curve⟩

def ResharePlan.terms (plan : ResharePlan) : Terms :=
  ⟨plan.threshold, plan.newSorted, plan.newEpoch, plan.curve⟩

structure KeygenCeremony.SameKey (x y : KeygenCeremony S) : Prop where
  saveData : y.saveData = x.saveData
  publicKeyHex : y.publicKeyHex = x.publicKeyHex
  terms : y.terms = x.terms

/-- Record `n` is under the id and its key generation has not ended. -/
def View.Running (v : View S) (n : Nat) : Prop :=
  v.current = some n ∧ ∃ x, v.get n = some x ∧ x.status = .inProgress

/-- The record the map of the key generations has under the id. -/
def Manager.loaded (m : Manager S) (c : String) : Option (KeygenCeremony S) :=
  (m.ceremonies.current c).bind (m.ceremonies.get c)

/-- A completed ceremony stays under the id, with its key. -/
def View.Keeps (v w : View S) : Prop :=
  ∀ n x, v.current = some n → v.get n = some x → x.status = .completed → w.current = some n ∧
    ∃ y, w.get n = some y ∧ y.status = .completed ∧ y.publicKeyHex = x.publicKeyHex

/-! ## The runs -/

/-- The requests that write under an id of their own choosing. -/
def Label.isConditional : Label S → Bool
  | .startKeygen _ _ _ _ _ | .restore _ _ | .retire _ => true
  | _ => false

/-- Nothing else works for `c`. -/
abbrev Process.Alone (s : Process S) (i : Nat) (c : String) : Prop :=
  s.Others i fun t => t.role c = .bystander

/-- The requests for `c` come while nothing runs for it. It is generated while it is not completed,
and it is not retired. -/
def InTurn (c : String) (s : Process S) (e : Nat × Label S) : Prop :=
  match e.2 with
  | .startKeygen id _ _ _ _ => id = c → ¬ (s.shared.view c).Completed ∧ s.Alone e.1 c
  | .startResharing _ id _ | .restore id _ => id = c → s.Alone e.1 c
  | .retire id => id ≠ c
  | _ => True

/-- The store does not refuse the share of a refresh of `c`. -/
def NotRefused (c : String) (s : Process S) (e : Nat × Label S) : Prop :=
  match e.2 with
  | .notStored _ => ∀ reshareID k plan share publicKey address,
      s.threads e.1 = some (.reshareSeal reshareID k plan share publicKey address) →
        plan.sourceCeremonyID ≠ c
  | _ => True

/-- A refresh of `c` between its seal and the replacement of the share. -/
def Task.Replacing (c : String) : Task S → Prop
  | .reshareMark _ _ plan _ _ | .reshareFind plan _ | .reshareReplace plan _ _ =>
    plan.sourceCeremonyID = c
  | _ => False

/-- No refresh of `c` stands there. -/
def Steady (c : String) (s : Process S) : Prop :=
  ∀ i t, s.threads i = some t → ¬ t.Replacing c

/-- Nothing is under the id and nothing works for it. -/
structure Quiet (c : String) (s : Process S) : Prop where
  current : s.shared.ceremonies.current c = none
  tasks : ∀ i t, s.threads i = some t → t.role c = .bystander

end

section

variable [TssLib] {S : Type}

section Definitions

variable (cfg : Config S) (dealt : KeyShare S → Terms → Prop) (c : String)

/-- What the library delivers is dealt for the committee it is kept with, and a restore of `c` names
the nodes that the sealed share is dealt for. -/
def Delivered (s : Process S) (e : Nat × Label S) : Prop :=
  match e.2, s.threads e.1 with
  | .deliver save, some (.keygen id n) =>
    ∀ x, s.shared.ceremonies.get id n = some x → dealt ⟨x.curve, save⟩ x.terms
  | .deliver save, some (.reshare _ _ plan) => dealt ⟨plan.curve, save⟩ plan.terms
  | .advance, some (.restoreLoad id peers) => id = c → ∀ e x,
      s.shared.store id = some e → restoreCeremony cfg id peers e = .ok x →
        dealt e.share x.terms ∧ peers.Numbered x.epoch
  | _, _ => True

/-- What is assumed of the party and its environment. -/
structure Sane : Prop extends cfg.Lawful where
  pos : 0 < cfg.partyID
  lt : cfg.partyID < 1000000
  /-- the library deals to committees whose members have different keys -/
  distinct : ∀ {share t}, dealt share t → (t.sortedIDs.map PartyID.key).Nodup

/-! ## Records -/

/-- The committee of the record is that of some nodes at the epoch of the record, and this party is
in it. -/
structure KeygenCeremony.Placed (x : KeygenCeremony S) : Prop where
  nodes : ∃ nodes : Peers, x.sortedIDs = committeePartyIDs nodes x.epoch
  self : (findPartyIDByKey x.sortedIDs (committeeKey cfg.partyID x.epoch)).isSome
  range : InRange cfg.partyID x.epoch

/-- The record has a share of its key that was dealt for its committee. -/
structure KeygenCeremony.Sound (x : KeygenCeremony S) : Prop extends x.Placed cfg where
  share : ∃ share, x.saveData = some share ∧ KeyOf cfg share x.publicKeyHex ∧ dealt share x.terms

/-- The sealed share restores to the record, given the nodes of the record, wherever they are. -/
def KeygenCeremony.Restores (x : KeygenCeremony S) (e : SealedShare S) : Prop :=
  ∀ nodes peers : Peers, x.sortedIDs = committeePartyIDs nodes x.epoch →
    peers.ids.Perm nodes.ids → ∃ y, restoreCeremony cfg c peers e = .ok y ∧ x.SameKey y

/-- What is under the id has a place in its committee, and once it is completed a share in memory.
What is sealed then restores to a record of the same key. -/
structure View.Kept (v : View S) : Prop where
  placed : ∀ n x, v.current = some n → v.get n = some x → x.Placed cfg
  sound : ∀ n x, v.current = some n → v.get n = some x → x.status = .completed → x.Sound cfg dealt
  stored : ∀ n x, v.current = some n → v.get n = some x → x.status = .completed → cfg.sealing →
    ∃ e, ∃ y : KeygenCeremony S, v.sealedShare = some e ∧ y.Sound cfg dealt ∧
      y.publicKeyHex = x.publicKeyHex ∧ y.Restores cfg c e

/-- What is sealed restores to what is in memory. -/
def View.Matched (v : View S) : Prop :=
  ∀ n x, v.current = some n → v.get n = some x → x.status = .completed → cfg.sealing →
    ∃ e, v.sealedShare = some e ∧ x.Restores cfg c e

/-! ## What a task knows -/

def ResharePlan.Resolved (plan : ResharePlan) : Prop :=
  (findPartyIDByKey plan.newSorted (committeeKey plan.selfPartyID plan.newEpoch)).isSome

/-- The plan is for the key under the id. -/
structure View.Plans (v : View S) (plan : ResharePlan) : Prop where
  self : plan.selfPartyID = cfg.partyID
  committee : plan.newSorted = committeePartyIDs plan.peers plan.newEpoch
  range : plan.Resolved → InRange cfg.partyID plan.newEpoch
  source : ∃ n x, v.current = some n ∧ v.get n = some x ∧ x.status = .completed ∧
    x.threshold = plan.threshold ∧ x.curve = plan.curve ∧ x.publicKeyHex = plan.expectedPublicKey

structure View.Obtains (v : View S) (plan : ResharePlan) (share : KeyShare S) : Prop
    extends v.Plans cfg plan where
  resolved : plan.Resolved
  key : KeyOf cfg share plan.expectedPublicKey
  dealt : dealt share plan.terms

def View.Stores (v : View S) (plan : ResharePlan) (share : KeyShare S) : Prop :=
  cfg.sealing →
    ∃ address, v.sealedShare = some (plan.sealedShare share plan.expectedPublicKey address)

variable (strict : Prop)

/-- What a task for `c` has established. -/
def Task.Has (v : View S) : Task S → Prop
  | .keygen id n | .keygenFail id n _ | .keygenFailed id n _ => id = c → v.Running n
  | .keygenSeal id n share pubKeyHex _ => id = c → v.Running n ∧ KeyOf cfg share pubKeyHex ∧
      ∃ x, v.get n = some x ∧ dealt share x.terms
  | .keygenRecord id n share pubKeyHex address _ => id = c → v.Running n ∧
      KeyOf cfg share pubKeyHex ∧ ∃ x, v.get n = some x ∧ dealt share x.terms ∧
        (cfg.sealing → v.sealedShare = some (x.sealedShare share pubKeyHex address))
  | .reshareRead _ source _ n => source = c → v.current = some n
  | .reshareRegister _ plan _ | .reshareStart _ _ plan _ =>
    plan.sourceCeremonyID = c → v.Plans cfg plan
  | .reshare _ _ plan => plan.sourceCeremonyID = c → v.Plans cfg plan ∧ plan.Resolved
  | .reshareAccept _ _ plan share publicKey _ | .reshareSeal _ _ plan share publicKey _ =>
    plan.sourceCeremonyID = c → publicKey = plan.expectedPublicKey ∧ v.Obtains cfg dealt plan share
  | .reshareMark _ _ plan share _ | .reshareFind plan share => plan.sourceCeremonyID = c →
      v.Obtains cfg dealt plan share ∧ (strict → v.Stores cfg plan share)
  | .reshareReplace plan share n => plan.sourceCeremonyID = c → v.current = some n ∧
      v.Obtains cfg dealt plan share ∧ (strict → v.Stores cfg plan share)
  | .restoreLoad id _ => id = c → v.current = none
  | .restoreRegister id x => id = c → v.current = none ∧ x.Sound cfg dealt ∧
      ∃ e, v.sealedShare = some e ∧ x.Restores cfg c e
  | .retire id => id ≠ c
  | _ => True

/-- One task at a time works for `c`. -/
def keepingOutline : Outline (Manager S) (Task S) where
  shared m := (m.view c).Kept cfg dealt c
  thread m t := t.Has cfg dealt c strict (m.view c)
  pair t u := t.role c = .bystander ∨ u.role c = .bystander
  pair_symm := Or.symm

/-- The invariant. -/
structure Keeping (s : Process S) : Prop where
  outline : (keepingOutline cfg dealt c strict).Holds s
  matched : strict → Steady c s → (s.shared.view c).Matched cfg c

/-- What a step does: the invariant holds, and a completed ceremony stays. -/
structure Steps (s t : Process S) : Prop where
  keeping : Keeping cfg dealt c strict t
  keeps : (s.shared.view c).Keeps (t.shared.view c)

end Definitions

variable {cfg : Config S} {dealt : KeyShare S → Terms → Prop} {c : String} {strict : Prop}
variable {x y : KeygenCeremony S} {share : KeyShare S} {plan : ResharePlan}

omit [TssLib] in
theorem Curve.ofString_toString (curve : Curve) : Curve.ofString curve.toString = curve := by
  cases curve with
  | secp256k1 | ed25519 => rfl
  | other name h => simp [Curve.toString, Curve.ofString, h.1, h.2]

/-- What restores once restores again, from the same nodes. -/
theorem restores_of_restored {peers : Peers} {e : SealedShare S}
    (hdistinct : (x.sortedIDs.map PartyID.key).Nodup)
    (h : restoreCeremony cfg c peers e = .ok x) : x.Restores cfg c e := by
  intro nodes peers' hnodes hperm
  obtain ⟨cc, K, a, address, hcc, hsize, hself, hkey, haddress, rfl⟩ :=
    restoreCeremony_eq_ok_iff.mp h
  have hsame : committeePartyIDs peers' cc.epoch = committeePartyIDs peers cc.epoch := by
    simp only at hnodes hdistinct
    rw [hnodes] at hdistinct ⊢
    exact committeePartyIDs_congr hperm hdistinct
  refine ⟨_, restoreCeremony_eq_ok_iff.mpr ⟨cc, K, a, address, hcc, ?_, ?_, hkey, haddress, rfl⟩,
    rfl, rfl, by simp [KeygenCeremony.terms, hsame]⟩
  · rw [← length_committeePartyIDs peers' cc.epoch, hsame, length_committeePartyIDs, hsize]
  · rw [hsame]
    exact hself

theorem KeygenCeremony.Restores.of_same {e : SealedShare S} (h : y.Restores cfg c e)
    (hsame : x.SameKey y) : x.Restores cfg c e := by
  intro nodes peers hnodes hperm
  obtain ⟨hsave, hkey, hterms⟩ := hsame
  have hsorted : y.sortedIDs = x.sortedIDs := congrArg Terms.sortedIDs hterms
  have hepoch : y.epoch = x.epoch := congrArg Terms.epoch hterms
  obtain ⟨z, hz, hzsave, hzkey, hzterms⟩ := h nodes peers (by rw [hsorted, hepoch, hnodes]) hperm
  exact ⟨z, hz, hzsave.trans hsave, hzkey.trans hkey, hzterms.trans hterms⟩

/-- **What is sealed for a record restores to it.** -/
theorem KeygenCeremony.Sound.restores (henv : Sane cfg dealt) (h : x.Sound cfg dealt)
    (hsave : x.saveData = some share) (address : String) :
    x.Restores cfg c (x.sealedShare share x.publicKeyHex address) := by
  obtain ⟨share', hsave', ⟨a, hkey⟩, hdealt⟩ := h.share
  obtain rfl := Option.mem_unique hsave hsave'
  obtain ⟨nodes, hnodes⟩ := h.nodes
  have hself := h.range.findPartyIDByNode henv.pos henv.lt h.self
  have hsize : nodes.size = x.sortedIDs.length := by rw [hnodes, length_committeePartyIDs]
  have hrestored : restoreCeremony cfg c nodes (x.sealedShare share x.publicKeyHex address) = .ok _ :=
    restoreCeremony_eq_ok_iff.mpr ⟨_, x.publicKeyHex, a, if address ≠ "" then address else a, rfl,
      hsize, hnodes ▸ hself, hkey,
      by simp [restoredAddress, henv.publicKey_ne hkey, henv.equalFold_self], rfl⟩
  refine (restores_of_restored ?_ hrestored).of_same ⟨hsave.symm, rfl, ?_⟩
  · simp only [← hnodes]
    exact henv.distinct hdealt
  · simp [terms, ← hnodes, Curve.ofString_toString]

theorem restored_sound {peers : Peers} {entry : SealedShare S}
    (h : restoreCeremony cfg c peers entry = .ok x) (hdealt : dealt entry.share x.terms)
    (hnumbered : peers.Numbered x.epoch) : x.Sound cfg dealt := by
  obtain ⟨cc, K, a, address, -, -, hself, hkey, -, rfl⟩ := restoreCeremony_eq_ok_iff.mp h
  obtain ⟨id, hid, hnode⟩ := findPartyIDByNode_isSome.mp hself
  obtain ⟨h0, hlt, hrange⟩ := hnumbered id hid
  rw [hrange.nodeOf_committeeKey h0 hlt] at hnode
  subst hnode
  refine ⟨⟨⟨peers, rfl⟩, ?_, hrange⟩, entry.share, rfl, ⟨a, hkey⟩, hdealt⟩
  refine Option.isSome_iff_exists.mpr (findPartyIDByKey_member hid ?_)
  rw [hrange.committeeKey_eq h0]
  have hepoch := hrange.1
  simp only [committeeEpochStride] at hepoch ⊢
  omega

/-! ## Views -/

section Views

variable {v w : View S} {n : Nat} {m : Manager S}

omit [TssLib] in
theorem view_registerKeygen (x : KeygenCeremony S) :
    ((Effect.registerKeygen c x).apply m).view c =
      ⟨some (m.ceremonies.fresh c),
        fun n => if n = m.ceremonies.fresh c then some x else m.ceremonies.get c n, m.store c⟩ := by
  unfold Manager.view
  simp only [Effect.apply, Registry.current_register, if_true, View.mk.injEq, true_and, and_true]
  funext n
  simp [Registry.get_register]

omit [TssLib] in
/-- What is under the id once a record is registered there. -/
theorem eq_of_registered (hn : (((Effect.registerKeygen c x).apply m).view c).current = some n)
    (hy : (((Effect.registerKeygen c x).apply m).view c).get n = some y) : x = y := by
  rw [view_registerKeygen] at hn hy
  cases hn
  simpa using hy

omit [TssLib] in
/-- While a key generation is running the id does not report a completed ceremony. -/
theorem View.Running.not_completed (h : v.Running n) : ¬ v.Completed := by
  obtain ⟨hcur, x, hx, hs⟩ := h
  rintro ⟨n', x', hcur', hx', hs'⟩
  rw [hcur] at hcur'
  cases hcur'
  rw [hx] at hx'
  cases hx'
  rw [hs] at hs'
  cases hs'

omit [TssLib] in
theorem View.keeps_refl (v : View S) : v.Keeps v :=
  fun _ x hn hx hdone => ⟨hn, x, hx, hdone, rfl⟩

theorem has_of_bystander {t : Task S} (h : t.role c = .bystander) : t.Has cfg dealt c strict v := by
  cases t with
  | restoreLoad | restoreRegister | retire | keygen | keygenFail | keygenFailed | keygenSeal
  | keygenRecord | reshareRead | reshareRegister | reshareStart | reshare | reshareAccept
  | reshareSeal | reshareMark | reshareFind | reshareReplace =>
    intro hc
    simp [Task.role, hc] at h
  | _ => exact trivial

omit [TssLib] in
theorem not_replacing_of_bystander {t : Task S} (h : t.role c = .bystander) : ¬ t.Replacing c := by
  cases t with
  | reshareMark | reshareFind | reshareReplace =>
    intro hc
    simp only [Task.Replacing] at hc
    simp [Task.role, hc] at h
  | _ => exact id

/-- The record once the share of the refresh is in place. -/
abbrev KeygenCeremony.refresh (x : KeygenCeremony S) (plan : ResharePlan) (share : KeyShare S) :
    KeygenCeremony S :=
  { x with saveData := some share, sortedIDs := plan.newSorted, epoch := plan.newEpoch }

theorem View.Obtains.refresh (h : v.Obtains cfg dealt plan share)
    (hcur : v.current = some n) (hx : v.get n = some x) :
    x.status = .completed ∧ x.publicKeyHex = plan.expectedPublicKey ∧
      (x.refresh plan share).Sound cfg dealt ∧ (x.refresh plan share).terms = plan.terms := by
  obtain ⟨k, y, hk, hy, hdone, hthreshold, hcurve, hkey⟩ := h.source
  obtain rfl := Option.mem_unique hcur hk
  obtain rfl := Option.mem_unique hx hy
  have hterms : (x.refresh plan share).terms = plan.terms := by
    simp [KeygenCeremony.terms, ResharePlan.terms, hthreshold, hcurve]
  refine ⟨hdone, hkey, ⟨⟨⟨plan.peers, h.committee⟩, ?_, h.range h.resolved⟩, share, rfl, ?_, ?_⟩,
    hterms⟩
  · exact h.self ▸ h.resolved
  · exact hkey ▸ h.key
  · exact hterms ▸ h.dealt

/-- What a refresh seals restores to the record it leads to. -/
theorem View.Obtains.restores {address : String} (henv : Sane cfg dealt)
    (h : v.Obtains cfg dealt plan share) (hcur : v.current = some n) (hx : v.get n = some x) :
    (x.refresh plan share).Restores cfg c
      (plan.sealedShare share plan.expectedPublicKey address) := by
  obtain ⟨-, hkey, hsound, hterms⟩ := h.refresh hcur hx
  have hsealed : plan.sealedShare share plan.expectedPublicKey address =
      (x.refresh plan share).sealedShare share plan.expectedPublicKey address := by
    simp only [KeygenCeremony.terms, ResharePlan.terms, Terms.mk.injEq] at hterms
    obtain ⟨hthreshold, -, -, hcurve⟩ := hterms
    simp [ResharePlan.sealedShare, KeygenCeremony.sealedShare, hthreshold, hcurve]
  rw [hsealed, ← hkey]
  exact hsound.restores henv rfl address

end Views

/-! ## Steps -/

section Steps

variable {s t : Process S} {i n : Nat} {label : Label S} {e : Effect S} {task : Option (Task S)}
variable {m' : Manager S} {old new : Task S}

namespace Keeping

variable (hs : Keeping cfg dealt c strict s)
include hs

/-- The other tasks have nothing to do with the ceremony while this one works for it. -/
theorem alone (hi : s.threads i = some old) (h : old.role c ≠ .bystander) : s.Alone i c :=
  fun _ _ hj hu => (hs.outline.pair hj hu hi).resolve_right h

/-- A step while nothing else works for the ceremony. -/
theorem moved (halone : s.Alone i c) (hkept : (m'.view c).Kept cfg dealt c)
    (hkeeps : (s.shared.view c).Keeps (m'.view c))
    (hown : ∀ u, task = some u → u.Has cfg dealt c strict (m'.view c))
    (hmatched : strict → (∀ u, task = some u → ¬ u.Replacing c) → (m'.view c).Matched cfg c) :
    Steps cfg dealt c strict s ⟨m', Function.update s.threads i task⟩ := by
  refine ⟨⟨hs.outline.step id hkept hown ?_ ?_, fun hstrict hst => hmatched hstrict fun u hu => ?_⟩,
    hkeeps⟩
  · intro j u hj hu
    exact has_of_bystander (halone j u hj hu)
  · intro u _ j w hj hw
    exact .inr (halone j w hj hw)
  · exact hst i u ((Function.update_self ..).trans hu)

/-- The same, when the write leaves what is under the id alone. -/
theorem unmoved (halone : s.Alone i c) (hv : (e.apply s.shared).view c = s.shared.view c)
    (hown : ∀ u, task = some u → u.Has cfg dealt c strict (s.shared.view c))
    (hsteady : (∀ u, s.threads i = some u → ¬ u.Replacing c) ∨ ∃ u, task = some u ∧ u.Replacing c) :
    Steps cfg dealt c strict s (s.after i e task) := by
  refine hs.moved halone ?_ ?_ ?_ fun hstrict hnot => ?_
  all_goals rw [hv]
  · exact hs.outline.shared
  · exact View.keeps_refl _
  · exact hown
  · rcases hsteady with hold | ⟨u, hu, hrep⟩
    · refine hs.matched hstrict fun j u hu => ?_
      by_cases hj : j = i
      · exact hold u (hj ▸ hu)
      · exact not_replacing_of_bystander (halone j u hj hu)
    · exact absurd hrep (hnot u hu)

/-- A step of a task that works for the ceremony and goes on doing so. -/
theorem goOn (hi : s.threads i = some old) (hrole : old.role c ≠ .bystander) (he : e.target = none)
    (hown : new.Has cfg dealt c strict (s.shared.view c))
    (hsteady : old.Replacing c → new.Replacing c) :
    Steps cfg dealt c strict s (s.after i e (some new)) := by
  refine hs.unmoved (hs.alone hi hrole) (view_apply_of_target_ne (by rw [he]; simp))
    (by rintro u ⟨⟩; exact hown) ?_
  by_cases hrep : old.Replacing c
  · exact .inr ⟨new, rfl, hsteady hrep⟩
  · refine .inl fun u hu => ?_
    obtain rfl := Option.mem_unique hi hu
    exact hrep

/-- A step of a task that has nothing to do with `c`, before and after. -/
theorem bystander (he : e.target ≠ some c) (hold : ∀ u, s.threads i = some u → ¬ u.Replacing c)
    (hnew : ∀ u, task = some u → u.role c = .bystander) :
    Steps cfg dealt c strict s (s.after i e task) := by
  have hv : (e.apply s.shared).view c = s.shared.view c := view_apply_of_target_ne he
  refine ⟨⟨hs.outline.step id ?_ (fun u hu => has_of_bystander (hnew u hu)) ?_ ?_, ?_⟩, ?_⟩
  · show ((e.apply s.shared).view c).Kept cfg dealt c
    rw [hv]
    exact hs.outline.shared
  · intro j u _ hu
    show u.Has cfg dealt c strict ((e.apply s.shared).view c)
    rw [hv]
    exact hs.outline.thread hu
  · intro u hu j w _ _
    exact .inl (hnew u hu)
  · intro hstrict hsteady
    show ((e.apply s.shared).view c).Matched cfg c
    rw [hv]
    refine hs.matched hstrict fun j u hu => ?_
    by_cases hj : j = i
    · exact hold u (hj ▸ hu)
    · exact hsteady j u ((Function.update_of_ne hj ..).trans hu)
  · show (s.shared.view c).Keeps ((e.apply s.shared).view c)
    rw [hv]
    exact View.keeps_refl _

/-! ## Writes -/

/-- A record is registered under the id. -/
theorem register (halone : s.Alone i c) (hnot : ¬ (s.shared.view c).Completed)
    (hplaced : x.Placed cfg) (hsound : x.status = .completed → x.Sound cfg dealt ∧
      ∃ entry, s.shared.store c = some entry ∧ x.Restores cfg c entry)
    (hown : ∀ u, task = some u →
      u.Has cfg dealt c strict (((Effect.registerKeygen c x).apply s.shared).view c)) :
    Steps cfg dealt c strict s (s.after i (.registerKeygen c x) task) := by
  refine hs.moved halone ⟨?_, ?_, ?_⟩ ?_ hown fun _ _ => ?_
  · intro k y hn hy
    exact eq_of_registered hn hy ▸ hplaced
  · intro k y hn hy hdone
    obtain rfl := eq_of_registered hn hy
    exact (hsound hdone).1
  · intro k y hn hy hdone _
    obtain rfl := eq_of_registered hn hy
    obtain ⟨hx, entry, hentry, hrestores⟩ := hsound hdone
    exact ⟨entry, x, hentry, hx, rfl, hrestores⟩
  · exact fun k y hn hy hdone => absurd ⟨k, y, hn, hy, hdone⟩ hnot
  · intro k y hn hy hdone _
    obtain rfl := eq_of_registered hn hy
    exact (hsound hdone).2

/-- A write through the reference of the task, which then ends. -/
theorem modify {f : KeygenCeremony S → KeygenCeremony S} (halone : s.Alone i c)
    (hcur : s.shared.ceremonies.current c = some n) (hx : s.shared.ceremonies.get c n = some x)
    (hplaced : (f x).Placed cfg) (hsound : (f x).status = .completed → (f x).Sound cfg dealt)
    (hkeeps : x.status = .completed →
      (f x).status = .completed ∧ (f x).publicKeyHex = x.publicKeyHex)
    (hstored : (f x).status = .completed → cfg.sealing → ∃ entry, ∃ y : KeygenCeremony S,
      s.shared.store c = some entry ∧ y.Sound cfg dealt ∧
        y.publicKeyHex = (f x).publicKeyHex ∧ y.Restores cfg c entry ∧ (strict → y = f x)) :
    Steps cfg dealt c strict s ⟨{ s.shared with ceremonies := s.shared.ceremonies.modify c n f },
      Function.update s.threads i none⟩ := by
  have hget : (s.shared.ceremonies.modify c n f).get c n = some (f x) := by
    rw [Registry.get_modify, if_pos ⟨rfl, rfl⟩, hx]
    rfl
  have hloaded : ∀ {k y}, s.shared.ceremonies.current c = some k →
      (s.shared.ceremonies.modify c n f).get c k = some y → f x = y := by
    intro k y hk hy
    obtain rfl := Option.mem_unique hcur hk
    exact Option.mem_unique hget hy
  refine hs.moved halone ⟨?_, ?_, ?_⟩ ?_ (by rintro u ⟨⟩) fun hstrict _ => ?_
  · intro k y hk hy
    exact hloaded hk hy ▸ hplaced
  · intro k y hk hy hdone
    obtain rfl := hloaded hk hy
    exact hsound hdone
  · intro k y hk hy hdone hsealing
    obtain rfl := hloaded hk hy
    obtain ⟨entry, z, hentry, hz, hkey, hrestores, -⟩ := hstored hdone hsealing
    exact ⟨entry, z, hentry, hz, hkey, hrestores⟩
  · intro k y hk hy hdone
    obtain rfl := Option.mem_unique hcur hk
    obtain rfl := Option.mem_unique hx hy
    exact ⟨hcur, f x, hget, hkeeps hdone⟩
  · intro k y hk hy hdone hsealing
    obtain rfl := hloaded hk hy
    obtain ⟨entry, z, hentry, -, -, hrestores, hz⟩ := hstored hdone hsealing
    exact ⟨entry, hentry, hz hstrict ▸ hrestores⟩

/-- The store takes a share of the key. -/
theorem sealing {entry : SealedShare S} (halone : s.Alone i c)
    (hstored : ∀ n x, s.shared.ceremonies.current c = some n →
      s.shared.ceremonies.get c n = some x → x.status = .completed →
        ∃ y : KeygenCeremony S,
          y.Sound cfg dealt ∧ y.publicKeyHex = x.publicKeyHex ∧ y.Restores cfg c entry)
    (hown : new.Has cfg dealt c strict { s.shared.view c with sealedShare := some entry })
    (hsteady : (s.shared.view c).Completed → new.Replacing c) :
    Steps cfg dealt c strict s (s.after i (.writeSealed c entry) (some new)) := by
  have hview : ((Effect.writeSealed c entry).apply s.shared).view c =
      { s.shared.view c with sealedShare := some entry } := by
    simp [Effect.apply, Manager.view]
  refine hs.moved halone ?_ ?_ ?_ fun _ hnot => ?_
  all_goals rw [hview]
  · refine ⟨hs.outline.shared.placed, hs.outline.shared.sound, fun n x hn hx hdone _ => ?_⟩
    obtain ⟨y, hy⟩ := hstored n x hn hx hdone
    exact ⟨entry, y, rfl, hy⟩
  · exact View.keeps_refl _
  · rintro u ⟨⟩
    exact hown
  · exact fun k y hk hy hdone => absurd (hsteady ⟨k, y, hk, hy, hdone⟩) (hnot new rfl)

theorem failKeygen {msg : String} (hi : s.threads i = some (.keygenFailed c n msg)) :
    Steps cfg dealt c strict s (s.after i (.failKeygen c n msg) none) := by
  obtain ⟨hcur, x, hx, hrun⟩ := hs.outline.thread hi rfl
  have hplaced := hs.outline.shared.placed n x hcur hx
  exact hs.modify (hs.alone hi (by simp [Task.role])) hcur hx
    ⟨hplaced.nodes, hplaced.self, hplaced.range⟩ (by simp) (by simp [hrun]) (by simp)

theorem sealKeygen {pubKeyHex address : String}
    (hi : s.threads i = some (.keygenSeal c n share pubKeyHex address))
    (hx : s.shared.ceremonies.get c n = some x) :
    Steps cfg dealt c strict s (s.after i (.writeSealed c (x.sealedShare share pubKeyHex address))
      (some (.keygenRecord c n share pubKeyHex address true))) := by
  obtain ⟨hrun, hkey, y, hy, hdealt⟩ := hs.outline.thread hi rfl
  obtain rfl := Option.mem_unique hx hy
  refine hs.sealing (hs.alone hi (by simp [Task.role])) ?_ ?_ (fun h => absurd h hrun.not_completed)
  · exact fun k y hk hy hdone => absurd ⟨k, y, hk, hy, hdone⟩ hrun.not_completed
  · exact fun _ => ⟨hrun, hkey, x, hx, hdealt, fun _ => rfl⟩

variable (henv : Sane cfg dealt)
include henv

theorem recordKeygen {pubKeyHex address : String} {isSealed : Bool}
    (hi : s.threads i = some (.keygenRecord c n share pubKeyHex address isSealed)) :
    Steps cfg dealt c strict s
      (s.after i (.recordKeygen c n share pubKeyHex address isSealed) none) := by
  obtain ⟨⟨hcur, y, hy, hrun⟩, hkey, x, hx, hdealt, hstore⟩ := hs.outline.thread hi rfl
  obtain rfl := Option.mem_unique hx hy
  have hplaced := hs.outline.shared.placed n x hcur hx
  have hsound : KeygenCeremony.Sound cfg dealt { x with
      status := .completed, saveData := some share, publicKeyHex := pubKeyHex, address, isSealed } :=
    ⟨⟨hplaced.nodes, hplaced.self, hplaced.range⟩, share, rfl, hkey, hdealt⟩
  refine hs.modify (hs.alone hi (by simp [Task.role])) hcur hx hsound.toPlaced (fun _ => hsound)
    (by simp [hrun]) fun _ hsealing => ?_
  exact ⟨_, _, hstore hsealing, hsound, rfl, hsound.restores henv rfl address, fun _ => rfl⟩

theorem sealReshare {reshareID publicKey address : String} {k : Nat}
    (hi : s.threads i = some (.reshareSeal reshareID k plan share publicKey address))
    (hc : plan.sourceCeremonyID = c) :
    Steps cfg dealt c strict s (s.after i (.writeSealed c (plan.sealedShare share publicKey address))
      (some (.reshareMark reshareID k plan share true))) := by
  obtain ⟨rfl, hobtains⟩ := hs.outline.thread hi hc
  refine hs.sealing (hs.alone hi (by simp [Task.role, hc])) ?_ ?_ fun _ => hc
  · intro n x hn hx _
    obtain ⟨-, -, hsound, -⟩ := hobtains.refresh hn hx
    exact ⟨x.refresh plan share, hsound, rfl, hobtains.restores henv hn hx⟩
  · obtain ⟨hplans, hresolved, hkey, hdealt⟩ := hobtains
    exact fun _ => ⟨⟨⟨hplans.self, hplans.committee, hplans.range, hplans.source⟩, hresolved, hkey,
      hdealt⟩, fun _ _ => ⟨address, rfl⟩⟩

theorem replaceShare (hi : s.threads i = some (.reshareReplace plan share n))
    (hc : plan.sourceCeremonyID = c) :
    Steps cfg dealt c strict s
      (s.after i (.replaceShare c n share plan.newSorted plan.newEpoch) none) := by
  obtain ⟨hcur, hobtains, hstores⟩ := hs.outline.thread hi hc
  obtain ⟨k, x, hk, hx, hdone, _⟩ := hobtains.source
  obtain rfl := Option.mem_unique hcur hk
  obtain ⟨-, -, hsound, -⟩ := hobtains.refresh hcur hx
  refine hs.modify (f := (·.refresh plan share)) (hs.alone hi (by simp [Task.role, hc])) hcur hx
    hsound.toPlaced (fun _ => hsound) (fun _ => ⟨hdone, rfl⟩) fun _ hsealing => ?_
  by_cases hstrict : strict
  · obtain ⟨address, hstore⟩ := hstores hstrict hsealing
    exact ⟨_, _, hstore, hsound, rfl, hobtains.restores henv hcur hx, fun _ => rfl⟩
  · obtain ⟨entry, y, hy⟩ := hs.outline.shared.stored n x hcur hx hdone hsealing
    exact ⟨entry, y, hy.1, hy.2.1, hy.2.2.1, hy.2.2.2, fun h => absurd h hstrict⟩

/-! ## Every step -/

theorem request (hturn : InTurn c s (i, label)) (hi : s.threads i = none)
    (hsec : Section cfg s.shared none label e task) :
    Steps cfg dealt c strict s (s.after i e task) := by
  have hidle : ∀ u, s.threads i = some u → ¬ u.Replacing c := by
    intro u hu
    rw [hi] at hu
    cases hu
  cases hsec with
  | elsewhere he _ ht =>
    exact hs.bystander (by rw [he.target]; simp) hidle fun u hu => (ht u hu).role c
  | @startKeygen id _ _ _ _ x hx =>
    by_cases hc : id = c
    · subst hc
      obtain ⟨hnot, halone⟩ := hturn rfl
      obtain ⟨-, -, -, hself, rfl⟩ := startKeygen_eq_ok.mp hx
      have hpos := henv.pos
      have hlt := henv.lt
      have hkey := committeeKey_zero (show InInt64 cfg.partyID from ⟨by omega, by omega⟩)
      rw [findPartyID_eq, ← hkey] at hself
      refine hs.register halone hnot
        ⟨⟨_, rfl⟩, hself, le_refl 0, by simp only [Int.zero_mul]; omega⟩ (by simp) ?_
      rintro u ⟨⟩ _
      rw [view_registerKeygen]
      exact ⟨rfl, _, if_pos rfl, rfl⟩
    · refine hs.bystander (by simpa [Effect.target] using hc) hidle ?_
      rintro u ⟨⟩
      exact if_neg hc
  | @startResharing _ id _ _ hn | @restore id _ hn =>
    by_cases hc : id = c
    · subst hc
      exact hs.unmoved (hturn rfl) rfl (by rintro u ⟨⟩ _; exact hn) (.inl hidle)
    · refine hs.bystander (by simp [Effect.target]) hidle ?_
      rintro u ⟨⟩
      exact if_neg hc
  | @retire id =>
    have hc : id ≠ c := hturn
    refine hs.bystander (by simpa [Effect.target] using hc) hidle ?_
    rintro u ⟨⟩
    exact if_neg hc

/-- The steps of a task for `c`. -/
theorem own (hd : Delivered cfg dealt c s (i, label)) (hrefused : strict → NotRefused c s (i, label))
    (hi : s.threads i = some old) (hrole : old.role c ≠ .bystander)
    (hsec : Section cfg s.shared (some old) label e task) :
    Steps cfg dealt c strict s (s.after i e task) := by
  have hhas : old.Has cfg dealt c strict (s.shared.view c) := hs.outline.thread hi
  simp only [Delivered, hi] at hd
  cases hsec with
  | elsewhere he _ ht hend =>
    refine hs.unmoved (hs.alone hi hrole) (view_apply_of_target_ne (by rw [he.target]; simp))
      (fun u hu => has_of_bystander ((ht u hu).role c)) (.inl fun u hu => ?_)
    obtain rfl := Option.mem_unique hi hu
    cases old <;> first | exact id | cases hend
  | keygenDelivers hx hk =>
    refine hs.goOn hi hrole rfl (fun hc => ?_) id
    exact ⟨hhas hc, completeCeremony_eq_ok hk, _, hc ▸ hx, hd _ hx⟩
  | keygenFails => exact hs.goOn hi hrole rfl hhas id
  | keygenNotSealed => exact hs.goOn hi hrole rfl (fun hc => (hhas hc).1) id
  | keygenUnsealed hsealing =>
    refine hs.goOn hi hrole rfl (fun hc => ?_) id
    obtain ⟨hrun, hkey, x, hx, hdealt⟩ := hhas hc
    exact ⟨hrun, hkey, x, hx, hdealt, by simp [hsealing]⟩
  | @keygenSealed id n share pubKeyHex address x _ hx =>
    obtain rfl : id = c := by simpa [Task.role] using hrole
    exact hs.sealKeygen hi hx
  | @keygenRecords id n share pubKeyHex address isSealed =>
    obtain rfl : id = c := by simpa [Task.role] using hrole
    exact hs.recordKeygen henv hi
  | @keygenFailFinds id n n' msg hn =>
    obtain rfl : id = c := by simpa [Task.role] using hrole
    obtain rfl : n = n' := Option.some.inj ((hhas rfl).1.symm.trans hn)
    exact hs.goOn hi hrole rfl hhas fun h => h
  | @keygenFailed id n msg =>
    obtain rfl : id = c := by simpa [Task.role] using hrole
    exact hs.failKeygen hi
  | @reshareReads reshareID source peers n x plan share hx hr =>
    refine hs.goOn hi hrole rfl (fun _ => ?_) id
    obtain rfl : source = c := by simpa [Task.role] using hrole
    obtain ⟨hdone, -, -, -, rfl⟩ := readSource_eq_ok.mp hr
    have hplaced := hs.outline.shared.placed n x (hhas rfl) hx
    exact ⟨rfl, rfl, fun hres => hplaced.range.next henv.pos henv.lt hres, n, x, hhas rfl, hx, hdone,
      rfl, rfl, rfl⟩
  | reshareRegisters | reshareAccepts | reshareMarks => exact hs.goOn hi hrole rfl hhas id
  | reshareStarts hr =>
    refine hs.goOn hi hrole rfl (fun hc => ⟨hhas hc, ?_⟩) id
    obtain ⟨_, _, _, hnew⟩ := runResharing_eq_ok.mp hr
    exact Option.isSome_of_mem hnew
  | reshareDelivers hr =>
    refine hs.goOn hi hrole rfl (fun hc => ?_) id
    obtain ⟨hpublic, hkey⟩ := completeResharing_eq_ok hr
    exact ⟨hpublic, (hhas hc).1, (hhas hc).2, hpublic ▸ hkey, hd⟩
  | @reshareSealed reshareID k plan share publicKey address =>
    have hc : plan.sourceCeremonyID = c := by simpa [Task.role] using hrole
    rw [hc]
    exact hs.sealReshare henv hi hc
  | reshareNotSealed hnot =>
    refine hs.goOn hi hrole rfl (fun hc => ⟨(hhas hc).2, fun hstrict hsealing => ?_⟩) False.elim
    obtain ⟨msg, rfl⟩ := hnot hsealing
    exact absurd hc (hrefused hstrict _ _ _ _ _ _ hi)
  | reshareFinds hn => exact hs.goOn hi hrole rfl (fun hc => ⟨hc ▸ hn, hhas hc⟩) id
  | @reshareLost plan share hn =>
    have hc : plan.sourceCeremonyID = c := by simpa [Task.role] using hrole
    obtain ⟨n, x, hcur, -⟩ := (hhas hc).1.source
    cases (hc ▸ hn).symm.trans hcur
  | @reshareReplaces plan share n =>
    have hc : plan.sourceCeremonyID = c := by simpa [Task.role] using hrole
    rw [hc]
    exact hs.replaceShare henv hi hc
  | restoreLoads hl hx =>
    refine hs.goOn hi hrole rfl (fun hc => ?_) id
    subst hc
    obtain ⟨-, hstore⟩ := loadSealedShare_eq_ok hl
    obtain ⟨hdealt, hnumbered⟩ := hd rfl _ _ hstore hx
    exact ⟨hhas rfl, restored_sound hx hdealt hnumbered, _, hstore,
      restores_of_restored (henv.distinct hdealt) hx⟩
  | @restoreRegisters id x =>
    obtain rfl : id = c := by simpa [Task.role] using hrole
    obtain ⟨hnone, hsound, hrestores⟩ := hhas rfl
    refine hs.register (hs.alone hi hrole) ?_ hsound.toPlaced (fun _ => ⟨hsound, hrestores⟩)
      (by rintro u ⟨⟩)
    rintro ⟨n, y, hn, -⟩
    cases hnone.symm.trans hn
  | retireDestroys => exact absurd (by simpa [Task.role] using hrole) hhas

/-- **One step keeps the invariant, and a completed ceremony.** -/
theorem step (hturn : InTurn c s (i, label)) (hrefused : strict → NotRefused c s (i, label))
    (hd : Delivered cfg dealt c s (i, label)) (h : step cfg s (i, label) = some t) :
    Steps cfg dealt c strict s t := by
  obtain ⟨e, task, hsec, rfl⟩ := step_section h
  cases hi : s.threads i with
  | none => exact hs.request henv hturn hi (hi ▸ hsec)
  | some old =>
    by_cases hrole : old.role c = .bystander
    · obtain ⟨he, -, hnew⟩ := (hi ▸ hsec).bystander hrole
      refine hs.bystander he (fun u hu => ?_) hnew
      obtain rfl := Option.mem_unique hi hu
      exact not_replacing_of_bystander hrole
    · exact hs.own henv hd hrefused hi hrole (hi ▸ hsec)

end Keeping

theorem Quiet.keeping (h : Quiet c s) : Keeping cfg dealt c strict s := by
  have hnone : ∀ {n : Nat} {P : Prop}, (s.shared.view c).current = some n → P :=
    fun hn => absurd (h.current.symm.trans hn) (by simp)
  refine ⟨⟨⟨fun _ _ => hnone, fun _ _ => hnone, fun _ _ => hnone⟩, ?_, ?_⟩, fun _ _ _ _ => hnone⟩
  · exact fun hu => has_of_bystander (h.tasks _ _ hu)
  · exact fun _ hu _ => .inl (h.tasks _ _ hu)

end Steps

end

end OpenFireblocks.Party
