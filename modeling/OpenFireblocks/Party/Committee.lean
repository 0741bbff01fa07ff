import OpenFireblocks.Go.Basic
import Mathlib.RingTheory.Coprime.Lemmas

/-!
# Committees and the identities of their members

A node is known to the operators by its number and to the threshold library by a key. The two
are the same at the key generation; every refresh moves the committee to the next epoch, where the
key of a node is its number plus a multiple of `committeeEpochStride`.

What is used of the threshold library itself is `TssLib`: how an identity is made and how a committee
is sorted. `NewPartyID` keeps the magnitude of the key it is given, and `KeyInt` reads that magnitude
back, so a key is a natural number here.
-/

namespace OpenFireblocks.Party

open Go

/-- `map[int]string`: the members of a committee and the base URL of each. -/
structure Peers where
  entries : List (Int × String)
  nodup : (entries.map Prod.fst).Nodup
  inInt64 : ∀ id ∈ entries.map Prod.fst, InInt64 id
  /-- The length of a map is an `int`. -/
  length_lt : entries.length < 2 ^ 63

namespace Peers

def ids (peers : Peers) : List Int := peers.entries.map Prod.fst

/-- `len(peers)`. -/
def size (peers : Peers) : Int := peers.entries.length

/-- `peers[id]`, the empty string for a number that is not a key. -/
def url (peers : Peers) (id : Int) : String := (peers.entries.lookup id).getD ""

end Peers

/-- `tss.PartyID`. Its index is its position in a sorted list. -/
structure PartyID where
  id : String
  moniker : String
  key : Nat
deriving DecidableEq

/-- What a `*tss.PartyID` points to. -/
structure PartyObject where
  identity : PartyID
  /-- `-1` until the object is sorted. -/
  index : Int := -1

/-- The identity behind a pointer. -/
def identityAt (heap : List PartyObject) (ref : Nat) : PartyID :=
  (heap[ref]?.map PartyObject.identity).getD ⟨"", "", 0⟩

/-- `NewPartyID` and `SortPartyIDs` of the threshold library. -/
class TssLib where
  newPartyID : (id moniker : String) → (key : Int) → PartyID
  /-- The key is the magnitude of the number given. -/
  newPartyID_eq : ∀ id moniker key, newPartyID id moniker key = ⟨id, moniker, key.natAbs⟩
  sortPartyIDs : List PartyID → List PartyID
  sortPartyIDs_perm : ∀ ids, (sortPartyIDs ids).Perm ids
  sortPartyIDs_sorted : ∀ ids, (sortPartyIDs ids).Pairwise fun a b => a.key ≤ b.key
  /-- `SortPartyIDs` on pointers: the sorted pointers, and the objects after it. -/
  sortRefs : List PartyObject → List Nat → List Nat × List PartyObject
  /-- No object is written but those it is given. -/
  sortRefs_of_notMem : ∀ heap {refs ref}, ref ∉ refs → (sortRefs heap refs).2[ref]? = heap[ref]?
  /-- Pointers are sorted as their identities are, and the index of an object is its place. -/
  sortRefs_map : ∀ {heap refs}, refs.Nodup → (∀ ref ∈ refs, ref < heap.length) →
    ((sortRefs heap refs).1.map fun ref => (sortRefs heap refs).2[ref]?) =
      (sortPartyIDs (refs.map (identityAt heap))).mapIdx fun k p => some ⟨p, k⟩

export TssLib (newPartyID newPartyID_eq sortPartyIDs sortPartyIDs_perm sortRefs)

/-! ## Keys and nodes -/

def partyKey (partyID : Int) : Int := partyID

def findPartyID (sorted : List PartyID) (partyID : Int) : Option PartyID :=
  sorted.find? fun id => (id.key : Int) = partyKey partyID

def committeeEpochStride : Int := 1000000

/-- A node's key in a refresh epoch, in `int64` arithmetic. -/
def committeeKey (node epoch : Int) : Int :=
  wrap64 (wrap64 (epoch * committeeEpochStride) + node)

def findPartyIDByKey (sorted : List PartyID) (key : Int) : Option PartyID :=
  sorted.find? fun id => (id.key : Int) = key

def nodeForPartyKey (id : PartyID) : Int × Int :=
  let key := wrap64 id.key
  if key ≤ 0 then (-1, 0) else (key % committeeEpochStride, key / committeeEpochStride)

def findPartyIDByNode (sorted : List PartyID) (node : Int) : Option PartyID :=
  sorted.find? fun id => (nodeForPartyKey id).1 = node

theorem committeeKey_eq (node epoch : Int) :
    committeeKey node epoch = wrap64 (epoch * committeeEpochStride + node) := by
  simp [committeeKey]

variable {node : Int}

theorem committeeKey_zero (h : InInt64 node) : committeeKey node 0 = node := by
  rw [committeeKey_eq, Int.zero_mul, Int.zero_add, wrap64_of_inInt64 h]

variable {epoch : Int}

/-- The stride is an odd number times `2 ^ 6`. -/
theorem dvd_mul_committeeEpochStride : 2 ^ 64 ∣ epoch * committeeEpochStride ↔ 2 ^ 58 ∣ epoch := by
  have hodd : IsCoprime ((2 : Int) ^ 58) 15625 := Int.isCoprime_iff_gcd_eq_one.mpr rfl
  have hstride : epoch * committeeEpochStride = epoch * 15625 * 2 ^ 6 := by
    rw [committeeEpochStride]
    ring
  rw [hstride, show (2 : Int) ^ 64 = 2 ^ 58 * 2 ^ 6 by norm_num,
    Int.mul_dvd_mul_iff_right (by norm_num)]
  exact ⟨hodd.dvd_of_dvd_mul_right, fun h => h.mul_right _⟩

theorem committeeKey_eq_node_iff (h0 : 0 < node) (h : node < 1000000) :
    committeeKey node epoch = node ↔ 2 ^ 58 ∣ epoch := by
  rw [committeeKey_eq, wrap64_eq_iff ⟨by omega, by omega⟩, add_sub_cancel_right]
  exact dvd_mul_committeeEpochStride

theorem committeeKey_succ (h0 : 0 < node) (h : node < 1000000) (he : 2 ^ 58 ∣ epoch) :
    committeeKey node (epoch + 1) = 1000000 + node := by
  have hd := dvd_mul_committeeEpochStride.mpr he
  rw [committeeKey_eq, wrap64_eq_iff ⟨by omega, by omega⟩]
  simp only [committeeEpochStride] at hd ⊢
  omega

variable {sorted : List PartyID}

theorem findPartyIDByKey_key {key : Int} {q : PartyID} (h : findPartyIDByKey sorted key = some q) :
    (q.key : Int) = key := by
  simpa using List.find?_some h

theorem findPartyID_eq (sorted : List PartyID) (partyID : Int) :
    findPartyID sorted partyID = findPartyIDByKey sorted partyID := rfl

def nodeOf (key : Nat) : Int :=
  if wrap64 key ≤ 0 then -1 else wrap64 key % committeeEpochStride

theorem nodeForPartyKey_fst (id : PartyID) : (nodeForPartyKey id).1 = nodeOf id.key := by
  unfold nodeForPartyKey nodeOf
  by_cases h : wrap64 id.key ≤ 0
  · simp [if_pos h]
  · simp [if_neg h]

theorem nodeForPartyKey_fst_eq : (fun id => (nodeForPartyKey id).1) = nodeOf ∘ PartyID.key := by
  funext id
  rw [Function.comp_apply]
  exact nodeForPartyKey_fst id

def InRange (node epoch : Int) : Prop := 0 ≤ epoch ∧ epoch * committeeEpochStride + node < 2 ^ 63

section

variable (h : InRange node epoch)
include h

theorem InRange.committeeKey_eq (h0 : 0 < node) :
    committeeKey node epoch = epoch * committeeEpochStride + node := by
  obtain ⟨he, hlt⟩ := h
  rw [Party.committeeKey_eq, wrap64_of_nonneg _ hlt]
  simp only [committeeEpochStride]
  omega

theorem InRange.nodeForPartyKey (h0 : 0 < node) (hlt : node < 1000000)
    {p : PartyID} (hp : p.key = (committeeKey node epoch).natAbs) :
    Party.nodeForPartyKey p = (node, epoch) ∧ (p.key : Int) = committeeKey node epoch := by
  have hkey := h.committeeKey_eq h0
  obtain ⟨he, hmax⟩ := h
  simp only [committeeEpochStride] at hkey hmax
  have hnat : (p.key : Int) = epoch * 1000000 + node := by omega
  unfold Party.nodeForPartyKey
  simp only [hnat, wrap64_of_nonneg (show 0 ≤ epoch * 1000000 + node by omega) hmax,
    if_neg (show ¬ epoch * 1000000 + node ≤ 0 by omega), committeeEpochStride, Prod.mk.injEq]
  omega

theorem InRange.nodeOf_committeeKey (h0 : 0 < node) (hlt : node < 1000000)
    : nodeOf (committeeKey node epoch).natAbs = node := by
  let p : PartyID := ⟨"", "", (committeeKey node epoch).natAbs⟩
  have hnode := (h.nodeForPartyKey h0 hlt (p := p) rfl).1
  rw [← nodeForPartyKey_fst p, hnode]

theorem InRange.findPartyIDByNode (h0 : 0 < node) (hlt : node < 1000000)
    (hfound : (findPartyIDByKey sorted (committeeKey node epoch)).isSome) :
    (Party.findPartyIDByNode sorted node).isSome := by
  obtain ⟨q, hq⟩ := Option.isSome_iff_exists.mp hfound
  rw [Party.findPartyIDByNode, List.find?_isSome]
  refine ⟨q, List.mem_of_find?_eq_some hq, ?_⟩
  have hkey : q.key = (committeeKey node epoch).natAbs := by
    have := findPartyIDByKey_key hq
    omega
  simp only [decide_eq_true_eq, nodeForPartyKey_fst, hkey]
  exact h.nodeOf_committeeKey h0 hlt

/-- The next epoch is in range if the node has an identity there: a key that has wrapped around is
negative, and no identity has it. -/
theorem InRange.next (h0 : 0 < node) (hlt : node < 1000000)
    (hfound : (findPartyIDByKey sorted (committeeKey node (wrap64 (epoch + 1)))).isSome) :
    InRange node (wrap64 (epoch + 1)) := by
  obtain ⟨q, hq⟩ := Option.isSome_iff_exists.mp hfound
  have hkey := findPartyIDByKey_key hq
  obtain ⟨he, hmax⟩ := h
  simp only [committeeEpochStride] at hmax
  rw [wrap64_of_nonneg (by omega) (by omega)] at hkey ⊢
  refine ⟨by omega, ?_⟩
  by_contra hover
  simp only [committeeEpochStride] at hover
  have hwrapped : committeeKey node (epoch + 1) = (epoch + 1) * 1000000 + node - 2 ^ 64 := by
    rw [Party.committeeKey_eq, wrap64_eq_iff ⟨by omega, by omega⟩]
    simp only [committeeEpochStride]
    exact ⟨1, by omega⟩
  omega

end

/-! ## The keys of a committee -/

section

variable [TssLib]

def deterministicPartyIDs (peers : Peers) : List PartyID :=
  sortPartyIDs <| peers.ids.map fun id =>
    newPartyID (toString id) ("party" ++ toString id) (partyKey id)

def committeePartyIDs (peers : Peers) (epoch : Int) : List PartyID :=
  if epoch = 0 then deterministicPartyIDs peers
  else sortPartyIDs <| peers.ids.map fun id =>
    newPartyID ("e" ++ toString epoch ++ "-" ++ toString id)
      ("party" ++ toString id ++ ".e" ++ toString epoch) (committeeKey id epoch)

theorem map_key_sortPartyIDs (ids : List PartyID) :
    ((sortPartyIDs ids).map PartyID.key).Perm (ids.map PartyID.key) :=
  (sortPartyIDs_perm ids).map _

/-- **The keys of a committee are the keys of its nodes**, in every epoch. -/
theorem map_key_committeePartyIDs (peers : Peers) (epoch : Int) :
    ((committeePartyIDs peers epoch).map PartyID.key).Perm
      (peers.ids.map fun id => (committeeKey id epoch).natAbs) := by
  unfold committeePartyIDs
  split
  · next h =>
    subst h
    refine (map_key_sortPartyIDs _).trans (List.Perm.of_eq ?_)
    rw [List.map_map]
    refine List.map_congr_left fun id hid => ?_
    rw [Function.comp_apply, newPartyID_eq, committeeKey_zero (peers.inInt64 id hid), partyKey]
  · refine (map_key_sortPartyIDs _).trans (List.Perm.of_eq ?_)
    rw [List.map_map]
    refine List.map_congr_left fun id hid => ?_
    rw [Function.comp_apply, newPartyID_eq]

variable {peers : Peers}

theorem exists_mem_committeePartyIDs {p : Nat → Prop} :
    (∃ q ∈ committeePartyIDs peers epoch, p q.key) ↔
      ∃ id ∈ peers.ids, p (committeeKey id epoch).natAbs := by
  have h := map_key_committeePartyIDs peers epoch
  constructor
  · rintro ⟨q, hq, hp⟩
    obtain ⟨id, hid, he⟩ := List.mem_map.mp (h.mem_iff.mp (List.mem_map_of_mem hq))
    exact ⟨id, hid, he ▸ hp⟩
  · rintro ⟨id, hid, hp⟩
    have hm : (committeeKey id epoch).natAbs ∈
        peers.ids.map fun id => (committeeKey id epoch).natAbs := List.mem_map_of_mem hid
    obtain ⟨q, hq, he⟩ := List.mem_map.mp (h.mem_iff.mpr hm)
    exact ⟨q, hq, he ▸ hp⟩

theorem findPartyIDByKey_isSome {key : Int} :
    (findPartyIDByKey (committeePartyIDs peers epoch) key).isSome ↔
      ∃ id ∈ peers.ids, ((committeeKey id epoch).natAbs : Int) = key := by
  rw [findPartyIDByKey, List.find?_isSome]
  simp only [decide_eq_true_eq]
  exact exists_mem_committeePartyIDs (p := fun k => (k : Int) = key)

theorem findPartyIDByKey_member (hn : node ∈ peers.ids) (h0 : 0 ≤ committeeKey node epoch) :
    ∃ q, findPartyIDByKey (committeePartyIDs peers epoch) (committeeKey node epoch) = some q := by
  refine Option.isSome_iff_exists.mp (findPartyIDByKey_isSome.mpr ⟨node, hn, ?_⟩)
  omega

theorem findPartyIDByNode_isSome :
    (findPartyIDByNode (committeePartyIDs peers epoch) node).isSome ↔
      ∃ id ∈ peers.ids, nodeOf (committeeKey id epoch).natAbs = node := by
  rw [findPartyIDByNode, List.find?_isSome]
  simp only [decide_eq_true_eq, nodeForPartyKey_fst]
  exact exists_mem_committeePartyIDs (p := fun k => nodeOf k = node)

/-! ## The order of a committee -/

theorem length_committeePartyIDs (peers : Peers) (epoch : Int) :
    ((committeePartyIDs peers epoch).length : Int) = peers.size := by
  have h := (map_key_committeePartyIDs peers epoch).length_eq
  rw [List.length_map, List.length_map] at h
  rw [h, Peers.ids, List.length_map]
  rfl

/-- By distinct keys a list has one order. -/
theorem sortPartyIDs_congr {ids ids' : List PartyID} (h : ids.Perm ids')
    (hkeys : (ids'.map PartyID.key).Nodup) : sortPartyIDs ids = sortPartyIDs ids' := by
  have hmem : ∀ {l : List PartyID} {a : PartyID}, a ∈ sortPartyIDs l → a ∈ l :=
    fun ha => (sortPartyIDs_perm _).mem_iff.mp ha
  have hperm : (sortPartyIDs ids).Perm (sortPartyIDs ids') :=
    ((sortPartyIDs_perm ids).trans h).trans (sortPartyIDs_perm ids').symm
  refine List.Perm.eq_of_pairwise ?_ (TssLib.sortPartyIDs_sorted ids)
    (TssLib.sortPartyIDs_sorted ids') hperm
  intro a b ha hb hab hba
  exact List.inj_on_of_nodup_map hkeys (h.mem_iff.mp (hmem ha)) (hmem hb) (Nat.le_antisymm hab hba)

/-- **The committee of a set of nodes does not depend on the endpoints**, nor on the order in which
the map is ranged over. -/
theorem committeePartyIDs_congr {peers' : Peers} (h : peers'.ids.Perm peers.ids)
    (hkeys : ((committeePartyIDs peers epoch).map PartyID.key).Nodup) :
    committeePartyIDs peers' epoch = committeePartyIDs peers epoch := by
  unfold committeePartyIDs at hkeys ⊢
  split at hkeys
  · next he =>
    rw [if_pos he, if_pos he]
    exact sortPartyIDs_congr (h.map _) ((map_key_sortPartyIDs _).nodup_iff.mp hkeys)
  · next he =>
    rw [if_neg he, if_neg he]
    exact sortPartyIDs_congr (h.map _) ((map_key_sortPartyIDs _).nodup_iff.mp hkeys)

/-! ## A committee whose keys do not wrap around -/

/-- Nodes with numbers below the stride, in an epoch in which their keys do not wrap around. -/
def Peers.Numbered (peers : Peers) (epoch : Int) : Prop :=
  ∀ id ∈ peers.ids, 0 < id ∧ id < 1000000 ∧ InRange id epoch

namespace Peers.Numbered

variable {peers : Peers} {epoch : Int}

/-- **The numbers that a committee's keys stand for are its nodes.** -/
theorem map_node (h : peers.Numbered epoch) :
    ((committeePartyIDs peers epoch).map fun id => (nodeForPartyKey id).1).Perm peers.ids := by
  have hkeys := (map_key_committeePartyIDs peers epoch).map nodeOf
  have hids : (peers.ids.map fun id => (committeeKey id epoch).natAbs).map nodeOf = peers.ids := by
    rw [List.map_map]
    conv_rhs => rw [← List.map_id peers.ids]
    refine List.map_congr_left fun id hid => ?_
    obtain ⟨h0, hlt, hrange⟩ := h id hid
    rw [Function.comp_apply, hrange.nodeOf_committeeKey h0 hlt, id_eq]
  rwa [hids, List.map_map, ← nodeForPartyKey_fst_eq] at hkeys

theorem of_mem (h : peers.Numbered epoch) {p : PartyID} (hp : p ∈ committeePartyIDs peers epoch) :
    (nodeForPartyKey p).2 = epoch ∧ (p.key : Int) = committeeKey (nodeForPartyKey p).1 epoch := by
  obtain ⟨id, hid, hkey⟩ := List.mem_map.mp
    ((map_key_committeePartyIDs peers epoch).mem_iff.mp (List.mem_map_of_mem hp))
  obtain ⟨h0, hlt, hrange⟩ := h id hid
  obtain ⟨hnode, hkey⟩ := hrange.nodeForPartyKey h0 hlt hkey.symm
  rw [hnode]
  exact ⟨rfl, hkey⟩

variable {node : Int}

theorem nodup_node (h : peers.Numbered epoch) :
    ((committeePartyIDs peers epoch).map fun id => (nodeForPartyKey id).1).Nodup :=
  h.map_node.nodup_iff.mpr peers.nodup

theorem nodup_key (h : peers.Numbered epoch) :
    ((committeePartyIDs peers epoch).map PartyID.key).Nodup := by
  have hnodes := h.nodup_node
  rw [nodeForPartyKey_fst_eq, ← List.map_map] at hnodes
  exact hnodes.of_map nodeOf

end Peers.Numbered

end

/-! ## A library that sorts by insertion -/

namespace Insertion

/-- The last loop of `SortPartyIDs`. -/
def setIndexes (heap : List PartyObject) : List Nat → Nat → List PartyObject
  | [], _ => heap
  | ref :: refs, i => setIndexes (heap.modify ref ({ · with index := i })) refs (i + 1)

theorem setIndexes_of_notMem {refs : List Nat} {ref : Nat} (h : ref ∉ refs)
    (heap : List PartyObject) (i : Nat) : (setIndexes heap refs i)[ref]? = heap[ref]? := by
  induction refs generalizing heap i with
  | nil => rfl
  | cons r refs ih =>
    obtain ⟨hne, hnot⟩ := not_or.mp (List.mem_cons.not.mp h)
    rw [setIndexes, ih hnot, List.getElem?_modify_ne _ _ (Ne.symm hne)]

theorem map_setIndexes {refs : List Nat} (h : refs.Nodup) {heap : List PartyObject}
    (hrefs : ∀ ref ∈ refs, ref < heap.length) (i : Nat) :
    (refs.map fun ref => (setIndexes heap refs i)[ref]?) =
      (refs.map (identityAt heap)).mapIdx fun k p => some ⟨p, (i + k : Nat)⟩ := by
  induction refs generalizing heap i with
  | nil => rfl
  | cons ref refs ih =>
    obtain ⟨hnot, hnodup⟩ := List.nodup_cons.mp h
    have hlt := hrefs ref List.mem_cons_self
    have hkeep : ∀ r ∈ refs, identityAt (heap.modify ref ({ · with index := i })) r =
        identityAt heap r := by
      intro r hr
      have hne : ref ≠ r := fun he => hnot (he ▸ hr)
      rw [identityAt, List.getElem?_modify_ne _ _ hne, identityAt]
    have hrest := @ih hnodup (heap.modify ref ({ · with index := i }))
      (fun r hr => by rw [List.length_modify]; exact hrefs r (List.mem_cons_of_mem _ hr)) (i + 1)
    rw [List.map_congr_left hkeep] at hrest
    rw [List.map_cons, List.map_cons, setIndexes, hrest,
      setIndexes_of_notMem hnot, List.getElem?_modify_eq]
    simp [identityAt, hlt, Nat.add_assoc, Nat.add_comm 1]

/-- Insertion sort, and `setIndexes` after it. -/
scoped instance tssLib : TssLib where
  newPartyID id moniker key := ⟨id, moniker, key.natAbs⟩
  newPartyID_eq _ _ _ := rfl
  sortPartyIDs := List.insertionSort fun a b => a.key ≤ b.key
  sortPartyIDs_perm := List.perm_insertionSort _
  sortPartyIDs_sorted := List.pairwise_insertionSort _
  sortRefs heap refs :=
    let sorted := refs.insertionSort fun a b => (identityAt heap a).key ≤ (identityAt heap b).key
    (sorted, setIndexes heap sorted 0)
  sortRefs_of_notMem heap _ _ h :=
    setIndexes_of_notMem (fun hmem => h ((List.mem_insertionSort _).mp hmem)) heap 0
  sortRefs_map hnodup hrefs := by
    rw [map_setIndexes ((List.perm_insertionSort _ _).nodup_iff.mpr hnodup)
        fun ref href => hrefs ref ((List.mem_insertionSort _).mp href),
      List.map_insertionSort _ (fun a b : PartyID => a.key ≤ b.key) _ _ fun _ _ _ _ => Iff.rfl]
    simp

end Insertion

end OpenFireblocks.Party
