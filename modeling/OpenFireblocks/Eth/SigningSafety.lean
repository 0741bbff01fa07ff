import OpenFireblocks.Eth.TransactionRoundTrip

/-!
# Which transactions the encoder panics on

`rlpBig` panics on a negative integer. `validate` sees to the chain id and the value and does not
look at the sign of the fees, so `SigningHash` and `WithSignature` return for a transaction that
validates exactly if none of its fees is negative (`signing_returns_iff`).
-/

namespace OpenFireblocks.Eth

open BigEndian Go Outcome

/-- **The encoder returns exactly on an integer that is not negative.** -/
theorem returns_rlpBig {v : Option Int} : Returns (rlpBig v) ↔ 0 ≤ v.getD 0 := by
  constructor
  · intro h
    cases v with
    | none => simp
    | some v =>
      by_contra hneg
      have hlt : v < 0 := by simpa using hneg
      rw [rlpBig, if_pos hlt] at h
      exact h
  · intro h
    rw [rlpBig_of_nonneg h]
    exact returns_ok _

namespace Transaction

variable {t : Transaction}

theorem Valid.feesNonneg_iff (hv : t.Valid) :
    t.FeesNonneg ↔
      if t.isDynamic then 0 ≤ t.tip.getD 0 ∧ 0 ≤ t.maxFee.getD 0 else 0 ≤ t.gasPrice.getD 0 := by
  unfold FeesNonneg
  cases hd : t.isDynamic with
  | true =>
    simp only [hv.gasPrice_of_dynamic hd, if_true]
    tauto
  | false =>
    simp only [isDynamic, Bool.or_eq_false_iff, Option.isSome_eq_false_iff,
      Option.isNone_iff_eq_none] at hd
    simp [hd.1, hd.2]

theorem returns_signingPreimage (hvalid : t.validate = .ok ()) :
    Returns t.signingPreimage ↔ t.FeesNonneg := by
  have hv := valid_of_validate hvalid
  rw [signingPreimage, hvalid, ok_bind, hv.feesNonneg_iff]
  cases hd : t.isDynamic with
  | true =>
    simp only [if_true, returns_bind, returns_rlpBig, returns_alloc, implies_true, and_true,
      hv.chainID_pos.le, hv.value_nonneg, true_and]
    constructor
    · intro h
      obtain ⟨htip, h⟩ := h _ (rlpBig_of_nonneg hv.chainID_pos.le)
      exact ⟨htip, h _ (rlpBig_of_nonneg htip)⟩
    · rintro ⟨htip, hmax⟩ _ -
      exact ⟨htip, fun _ _ => hmax⟩
  | false =>
    simp [returns_bind, returns_rlpBig, returns_alloc, hv.chainID_pos.le,
      hv.value_nonneg]

/-- Behind the signing hash nothing panics any more. -/
theorem returns_signedBytes (hv : t.Valid) (hfees : t.FeesNonneg) (r s : Nat) (recovery : UInt8) :
    Returns (t.signedBytes r s recovery) := by
  obtain ⟨hgas, hmax, htip⟩ := hfees
  have hchain := hv.chainID_pos
  have hr : Returns (rlpBig (some (r : Int))) := returns_rlpBig.mpr (Int.natCast_nonneg r)
  have hs : Returns (rlpBig (some (s : Int))) := returns_rlpBig.mpr (Int.natCast_nonneg s)
  have hvv : Returns (rlpBig (some (((recovery.toUInt64 + 35).toNat : Int) + t.chainID.getD 0 * 2))) :=
    returns_rlpBig.mpr (by rw [Option.getD_some]; omega)
  unfold signedBytes
  cases t.isDynamic with
  | true =>
    simp [returns_bind, returns_rlpBig, returns_alloc, hchain.le, htip, hmax, hv.value_nonneg,
      hr, hs]
  | false =>
    simp only [Bool.false_eq_true, if_false, returns_bind, returns_alloc, implies_true, and_true,
      returns_rlpBig.mpr hgas, returns_rlpBig.mpr hv.value_nonneg, hr, hs, hvv]

theorem returns_recoverAddress (lib : CryptoLib) (digest sig : Bytes) :
    Returns (recoverAddress lib digest sig) := by
  rw [recoverAddress, returns_bind]
  refine ⟨?_, fun _ _ => returns_pure _⟩
  unfold sigToPub
  split
  · exact returns_errorf _
  split
  · exact returns_errorf _
  simp only
  split
  · exact returns_errorf _
  split
  · exact returns_errorf _
  · exact returns_ok _

/-- **Signing returns exactly if no fee is negative**, for every transaction that validates and every
signature of 65 bytes. -/
theorem signing_returns_iff (lib : CryptoLib) (t : Transaction) (hvalid : t.validate = .ok ())
    (sig : Bytes) (hsig : sig.length = signatureLength) (expectedFrom : String) :
    (Returns (t.signingHash lib) ∧ Returns (t.withSignature lib sig expectedFrom)) ↔
      t.FeesNonneg := by
  have hhash : Returns (t.signingHash lib) ↔ t.FeesNonneg := by
    rw [signingHash, returns_bind, returns_signingPreimage hvalid]
    exact and_iff_left fun _ _ => returns_pure _
  rw [hhash]
  refine and_iff_left_of_imp fun hfees => ?_
  rw [withSignature, hvalid, ok_bind, if_neg (not_not.mpr hsig), returns_bind]
  refine ⟨hhash.mpr hfees, fun digest _ => returns_bind.mpr
    ⟨returns_wrapError.mpr (returns_recoverAddress lib digest sig), fun sender _ => ?_⟩⟩
  split
  · exact returns_errorf _
  exact returns_bind.mpr ⟨returns_signedBytes (valid_of_validate hvalid) hfees _ _ _,
    fun _ _ => returns_pure _⟩

theorem signing_returns_iff_vector :
    zeroValueTx.validate = .ok () ∧
      Returns (zeroValueTx.withSignature vectorLib zeroValueSig "") ∧
      Returns ({ zeroValueTx with gasPrice := some 0 }.signingHash vectorLib) := by
  refine ⟨rfl, ?_, ?_⟩
  · exact ((signing_returns_iff vectorLib zeroValueTx rfl zeroValueSig rfl "").mpr
      ⟨by decide, by decide, by decide⟩).2
  · exact ((signing_returns_iff vectorLib { zeroValueTx with gasPrice := some 0 } rfl zeroValueSig
      rfl "").mpr ⟨by decide, by decide, by decide⟩).1

theorem signing_panics :
    ({ zeroValueTx with gasPrice := some (-1) }.validate = .ok () ∧
      { zeroValueTx with gasPrice := some (-1) }.signingHash vectorLib
        = .error (.panic "ethtypes: refusing to RLP-encode a negative integer")) ∧
    { zeroValueTx with gasPrice := none, maxFee := some 1, tip := some (-1) }.validate = .ok () ∧
      { zeroValueTx with gasPrice := none, maxFee := some 1, tip := some (-1) }.withSignature vectorLib
        zeroValueSig "" = .error (.panic "ethtypes: refusing to RLP-encode a negative integer") :=
  ⟨⟨rfl, rfl⟩, rfl, rfl⟩

end Transaction

end OpenFireblocks.Eth
