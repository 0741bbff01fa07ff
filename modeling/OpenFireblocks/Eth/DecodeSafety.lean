import OpenFireblocks.Eth.TransactionRoundTrip

/-!
# Where the reader panics

The reader panics exactly where the bytes begin with a length field whose end does not fit a
`uint64` (`isPanic_readItem`): the bounds check compares the length of the input with `start + n`,
and a sum that has wrapped passes it.
-/

namespace OpenFireblocks.Eth

open BigEndian Go Outcome Transaction

/-- The bytes begin with a length field of eight bytes, and the item's end is at `2 ^ 64` or
beyond. -/
def EndOverflows (isList : Bool) (b : Bytes) : Prop :=
  ∃ lengthBytes tail, b = (kindOffset isList + 63) :: (lengthBytes ++ tail) ∧
    lengthBytes.length = 8 ∧ 2 ^ 64 ≤ 1 + 8 + toNat lengthBytes

/-- A computation that panicked. -/
def IsPanic {α : Type} (r : Result α) : Prop := ∃ msg, r = .error (.panic msg)

variable {α : Type} {k p : UInt8} {b rest : Bytes} {n : Nat} {isList : Bool}

@[simp] theorem not_isPanic_errorf (msg : String) : ¬IsPanic (errorf msg : Result α) := by
  rintro ⟨m, h⟩
  simp [errorf] at h

@[simp] theorem not_isPanic_ok (a : α) : ¬IsPanic (.ok a : Result α) := by
  rintro ⟨m, h⟩
  cases h

theorem isPanic_bind {β : Type} {x : Result α} {f : α → Result β} :
    IsPanic (x >>= f) ↔ IsPanic x ∨ ∃ a, x = .ok a ∧ IsPanic (f a) := by
  cases x with
  | ok a => simp
  | error e =>
    have hbind : (.error e : Result α) >>= f = .error e := rfl
    rw [hbind]
    simp [IsPanic]

/-! ## One item -/

theorem errorf_ne_panic {m msg : String} : (errorf m : Result α) ≠ .error (.panic msg) := by
  simp [errorf]

theorem isPanic_readLong (h1 : 1 ≤ k.toNat) (h8 : k.toNat ≤ 8)
    (hlen : (p :: rest).length < 2 ^ 63) :
    IsPanic (readLong (p :: rest) k) ↔
      ∃ lb tail, rest = lb ++ tail ∧ lb.length = 8 ∧ k = 8 ∧ 2 ^ 64 ≤ 1 + 8 + toNat lb := by
  constructor
  · rintro ⟨msg, h⟩
    rcases readLong_cases p rest h1 h8 with ⟨msg, he⟩ | ⟨lb, tail, rfl, hlb⟩
    · exact absurd (he.symm.trans h) errorf_ne_panic
    rw [readLong_eq hlb.symm (by omega) (by omega) hlen] at h
    split at h
    · exact absurd h errorf_ne_panic
    split at h
    · exact absurd h errorf_ne_panic
    split at h
    · next hwrap =>
      -- seven bytes of length are too few for the sum to wrap
      have h8' : lb.length = 8 := by
        by_contra hne
        have hlt : toNat lb < 256 ^ 7 :=
          lt_of_lt_of_le (toNat_lt lb) (Nat.pow_le_pow_right (by decide) (by omega))
        omega
      exact ⟨lb, tail, rfl, h8', UInt8.toNat_inj.mp (by rw [← hlb, h8']; rfl), by omega⟩
    split at h
    · exact absurd h errorf_ne_panic
    · cases h
  · rintro ⟨lb, tail, rfl, hlb, rfl, hwrap⟩
    obtain ⟨first, lb', rfl⟩ := List.exists_cons_of_length_pos (show 0 < lb.length by omega)
    have hfirst : first ≠ 0 := by
      rintro rfl
      have hlt := toNat_lt lb'
      rw [toNat_cons, UInt8.toNat_zero, Nat.zero_mul] at hwrap
      rw [List.length_cons] at hlb
      rw [show lb'.length = 7 by omega] at hlt
      omega
    refine ⟨"slice bounds out of range", ?_⟩
    rw [readLong_eq (by rw [hlb]; rfl) (by omega) (by omega) hlen, List.headD_cons,
      if_neg hfirst, if_neg (by omega), if_pos (by omega)]

theorem not_isPanic_readShort {msg : String} : ¬IsPanic (readShort (p :: rest) n msg) := by
  unfold readShort
  split
  · simp
  rw [slice, if_pos (by omega), slice, if_pos (by omega)]
  exact not_isPanic_ok _

/-- **The reader panics exactly on a length field whose end does not fit.** -/
theorem isPanic_readItem (hlen : b.length < 2 ^ 63) :
    IsPanic (readItem b isList) ↔ EndOverflows isList b := by
  have hoff : (kindOffset isList + 63).toNat = (kindOffset isList).toNat + 55 + 8 := by
    cases isList <;> rfl
  cases b with
  | nil => simp [readItem, EndOverflows]
  | cons p rest =>
    rcases readItem_cases isList p rest with ⟨rfl, hp, he⟩ | ⟨n, msg, hn, hp, he⟩ |
      ⟨k, h1, h8, hp, he⟩ | ⟨msg, he, hp⟩
    · rw [he]
      refine iff_of_false (not_isPanic_ok _) ?_
      rintro ⟨lb, tail, hb, -, -⟩
      cases hb
      exact absurd hp (by decide)
    · rw [he]
      refine iff_of_false not_isPanic_readShort ?_
      rintro ⟨lb, tail, hb, -, -⟩
      cases hb
      omega
    · rw [he, isPanic_readLong h1 h8 hlen]
      constructor
      · rintro ⟨lb, tail, rfl, hlb, rfl, hwrap⟩
        refine ⟨lb, tail, ?_, hlb, hwrap⟩
        rw [UInt8.toNat_inj.mp (hp.trans hoff.symm)]
      · rintro ⟨lb, tail, hb, hlb, hwrap⟩
        cases hb
        exact ⟨lb, tail, rfl, hlb, UInt8.toNat_inj.mp (show k.toNat = 8 by omega), hwrap⟩
    · rw [he]
      refine iff_of_false (not_isPanic_errorf _) ?_
      rintro ⟨lb, tail, hb, -, -⟩
      cases hb
      omega

theorem isPanic_readAny (hlen : b.length < 2 ^ 63) :
    IsPanic (readAny b) ↔ ∃ isList, EndOverflows isList b := by
  cases b with
  | nil => simp [readAny, EndOverflows]
  | cons p rest =>
    have h : IsPanic (readAny (p :: rest)) ↔ EndOverflows (decide (0xc0 ≤ p)) (p :: rest) :=
      isPanic_readItem hlen
    rw [h]
    constructor
    · exact fun h => ⟨_, h⟩
    · rintro ⟨isList, lb, tail, hb, hlb, hwrap⟩
      obtain ⟨rfl, rfl⟩ := List.cons.inj hb
      refine ⟨lb, tail, ?_, hlb, hwrap⟩
      cases isList <;> rfl

/-! ## A list of items -/

theorem isPanic_splitItems (hlen : b.length < 2 ^ 63) :
    IsPanic (splitItems b) ↔
      ∃ (pieces : List Piece) (isList : Bool) (tail : Bytes),
        b = concat (pieces.map Piece.bytes) ++ tail ∧ EndOverflows isList tail := by
  constructor
  · intro h
    induction hn : b.length using Nat.strong_induction_on generalizing b with
    | _ n ih =>
    by_cases hb : b = []
    · rw [hb, splitItems] at h
      simp at h
    · rw [splitItems_eq hb, isPanic_bind] at h
      rcases h with h | ⟨⟨item, remaining⟩, hread, h⟩
      · obtain ⟨isList, hover⟩ := (isPanic_readAny hlen).mp h
        exact ⟨[], isList, b, rfl, hover⟩
      · have hlt := readAny_rest_lt hread
        obtain ⟨piece, rfl, rfl⟩ := (readAny_eq_ok hlen).mp hread
        have h : IsPanic (splitItems remaining) := by
          rw [isPanic_bind] at h
          rcases h with h | ⟨items, _, h⟩
          · exact h
          · exact absurd h (not_isPanic_ok _)
        obtain ⟨pieces, isList, tail, rfl, hover⟩ :=
          ih remaining.length (by simpa [hn] using hlt) (lt_trans hlt hlen) h rfl
        refine ⟨piece :: pieces, isList, tail, ?_, hover⟩
        simp [concat]
  · rintro ⟨pieces, isList, tail, rfl, hover⟩
    induction pieces with
    | nil =>
      have htail : tail ≠ [] := by
        obtain ⟨lb, rest, rfl, _⟩ := hover
        simp
      simp only [concat, List.map_nil, List.flatten_nil, List.nil_append] at hlen ⊢
      rw [splitItems_eq htail, isPanic_bind]
      exact .inl ((isPanic_readAny hlen).mpr ⟨isList, hover⟩)
    | cons piece pieces ih =>
      simp only [concat, List.map_cons, List.flatten_cons, List.append_assoc] at hlen ih ⊢
      have hread := (readAny_eq_ok hlen).mpr ⟨piece, rfl, rfl⟩
      rw [List.length_append] at hlen
      rw [splitItems_eq (by simp [bytes_ne_nil piece]), hread, ok_bind]
      rw [isPanic_bind]
      exact .inl (ih (by omega))

/-- A list, or one of the items in it up to which the list is well formed, has a length field whose
end does not fit. -/
def ListOverflows (b : Bytes) : Prop :=
  EndOverflows true b ∨
    ∃ (pieces : List Piece) (isList : Bool) (tail : Bytes),
      b = rlpList (concat (pieces.map Piece.bytes) ++ tail) ∧ EndOverflows isList tail

theorem isPanic_splitList (hlen : b.length < 2 ^ 63) : IsPanic (splitList b) ↔ ListOverflows b := by
  constructor
  · intro h
    rcases isPanic_bind.mp h with hread | ⟨⟨payload, rest⟩, hread, hrest⟩
    · exact .inl ((isPanic_readItem hlen).mp hread)
    obtain ⟨enc, henc, hb⟩ := (readItem_eq_ok hlen).mp hread
    simp only at hrest
    split at hrest
    · exact absurd hrest (not_isPanic_errorf _)
    next hnil =>
    obtain rfl := List.length_eq_zero_iff.mp (not_not.mp hnil)
    obtain rfl : b = rlpList payload := by rw [hb, List.append_nil, encodes_list.mp henc]
    obtain ⟨pieces, isList, tail, hp, hover⟩ :=
      (isPanic_splitItems (length_payload_lt hlen)).mp hrest
    exact .inr ⟨pieces, isList, tail, by rw [hp], hover⟩
  · rintro (hover | ⟨pieces, isList, tail, rfl, hover⟩)
    · unfold splitList
      exact isPanic_bind.mpr (.inl ((isPanic_readItem hlen).mpr hover))
    · rw [splitList_of_rlpList hlen]
      exact (isPanic_splitItems (length_payload_lt hlen)).mpr ⟨pieces, isList, tail, rfl, hover⟩

/-! ## A transaction -/

/-- A legacy transaction, or an EIP-1559 one behind its type byte, in which the reader comes to a
length field whose end does not fit. -/
def ReachesOverflow (raw : Bytes) : Prop :=
  ∃ body, (raw = body ∨ raw = dynamicFeeTxType :: body) ∧ ListOverflows body

theorem head_of_listOverflows (h : ListOverflows (p :: rest)) (hlen : (p :: rest).length < 2 ^ 63) :
    ¬p < 0xc0 := by
  rcases h with ⟨lb, tail, hb, -, -⟩ | ⟨pieces, isList, tail, hb, -⟩
  · cases hb
    decide
  · rw [hb] at hlen
    obtain ⟨q, qs, hq, hge⟩ := head_rlpList hlen
    obtain ⟨rfl, -⟩ := List.cons.inj (hb.trans hq)
    exact UInt8.not_lt.mpr hge

theorem not_isPanic_dynamicInfo (hash : Bytes) (items : List Bytes) :
    ¬IsPanic (dynamicInfo hash items) := by
  unfold dynamicInfo
  split <;> simp

theorem not_isPanic_legacyInfo (hash : Bytes) (items : List Bytes) :
    ¬IsPanic (legacyInfo hash items) := by
  unfold legacyInfo
  split <;> simp

theorem isPanic_decodeSignedTransaction (lib : CryptoLib) {raw : Bytes}
    (hlen : raw.length < 2 ^ 63) :
    IsPanic (decodeSignedTransaction lib raw) ↔ ReachesOverflow raw := by
  cases raw with
  | nil =>
    refine iff_of_false (not_isPanic_errorf _) ?_
    rintro ⟨body, rfl | hb, hover⟩
    · have := (isPanic_splitList (by decide)).mpr hover
      exact not_isPanic_errorf _ this
    · cases hb
  | cons first rest =>
    have hrest : rest.length < 2 ^ 63 := by
      rw [List.length_cons] at hlen
      omega
    simp only [decodeSignedTransaction]
    split
    · next hlow =>
      -- a type byte: the list is behind it
      have hbody : ReachesOverflow (first :: rest) ↔
          first = dynamicFeeTxType ∧ ListOverflows rest := by
        constructor
        · rintro ⟨body, rfl | hb, hover⟩
          · exact absurd hlow (head_of_listOverflows hover hlen)
          · cases hb
            exact ⟨rfl, hover⟩
        · rintro ⟨rfl, hover⟩
          exact ⟨rest, .inr rfl, hover⟩
      rw [hbody]
      split
      · next hne => exact iff_of_false (not_isPanic_errorf _) fun h => hne h.1
      next heq =>
      rw [isPanic_bind, isPanic_splitList hrest]
      simp [not_isPanic_dynamicInfo, not_not.mp heq]
    · next hhigh =>
      rw [isPanic_bind, isPanic_splitList hlen]
      simp only [not_isPanic_legacyInfo, and_false, exists_false, or_false]
      constructor
      · exact fun hover => ⟨_, .inl rfl, hover⟩
      · rintro ⟨body, rfl | hb, hover⟩
        · exact hover
        · cases hb
          exact absurd (by decide) hhigh

/--
**The decoder stays within its input exactly if it comes to no length field whose end does not fit
a `uint64`.** The one hypothesis is that the input is a Go slice.
-/
theorem decodeSignedTransaction_safe_iff (lib : CryptoLib) {raw : Bytes}
    (hlen : raw.length < 2 ^ 63) :
    (∀ msg, decodeSignedTransaction lib raw ≠ .error (.panic msg)) ↔ ¬ReachesOverflow raw := by
  rw [← isPanic_decodeSignedTransaction lib hlen]
  exact not_exists.symm

theorem decodeSignedTransaction_safe_iff_vector :
    zeroValueRaw.length < 2 ^ 63 ∧ ¬ReachesOverflow zeroValueRaw := by
  have hlen : zeroValueRaw.length < 2 ^ 63 := by decide
  refine ⟨hlen, (decodeSignedTransaction_safe_iff vectorLib hlen).mp fun msg h => ?_⟩
  obtain ⟨-, -, -, r, s, hraw, -⟩ := withSignature_eq_ok withSignature_vector
  change zeroValueRaw = _ at hraw
  rw [hraw] at h hlen
  rw [decodeSignedTransaction_enclose hlen] at h
  cases h

/-- Nine bytes are enough: with the largest length the sum wraps to `8`, below where the payload
would start. -/
theorem decodeSignedTransaction_panics :
    decodeSignedTransaction vectorLib (List.replicate 9 0xff)
      = .error (.panic "slice bounds out of range") := rfl

end OpenFireblocks.Eth
