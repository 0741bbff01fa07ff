import OpenFireblocks.Go.Basic

/-!
# Hex text and the bytes it stands for

Two spellings of one byte differ only in the case of the letters: decoding forgets the case and
encoding writes lower case. So a text that decodes is, up to case, the encoding of its bytes.
-/

namespace OpenFireblocks.Go

open BigEndian

/-- The characters of `hex.EncodeToString`. -/
def hexChars (b : Bytes) : List Char := b.flatMap fun c => [hexDigit (c / 16), hexDigit (c % 16)]

@[simp] theorem toList_hexEncodeToString (b : Bytes) :
    (hexEncodeToString b).toList = hexChars b := by
  simp [hexEncodeToString, hexChars]

@[simp] theorem hexChars_cons (c : UInt8) (b : Bytes) :
    hexChars (c :: b) = hexDigit (c / 16) :: hexDigit (c % 16) :: hexChars b := rfl

theorem hexChars_append (b c : Bytes) : hexChars (b ++ c) = hexChars b ++ hexChars c :=
  List.flatMap_append

@[simp] theorem length_hexChars (b : Bytes) : (hexChars b).length = 2 * b.length := by
  induction b with
  | nil => rfl
  | cons c b ih => simp only [hexChars_cons, List.length_cons]; omega

/-! ## One digit -/

variable {v : UInt8} {bs : Bytes}

/-- What holds of a character that is a hex digit is checked on the ASCII characters. -/
theorem of_hexValue_eq_some (p : Char → UInt8 → Bool)
    (hp : ∀ n < 128, (hexValue (Char.ofNat n)).all (p (Char.ofNat n))) {c : Char}
    (h : hexValue c = some v) : p c v := by
  have hlt : c.toNat < 128 := by
    have le_f : ∀ {d : Char}, d.toNat ≤ 0x66 → c ≤ d → c.toNat < 128 := by
      intro d hd hc
      have : c.toNat ≤ d.toNat := hc
      omega
    unfold hexValue at h
    split at h
    · next hr => exact le_f (by decide) hr.2
    split at h
    · next hr => exact le_f (by decide) hr.2
    split at h
    · next hr => exact le_f (by decide) hr.2
    · cases h
  have hc := hp c.toNat hlt
  rw [Char.ofNat_toNat, h] at hc
  exact hc

theorem hexDigit_hexValue {c : Char} (h : hexValue c = some v) :
    hexDigit v = c.toLower ∧ v < 16 := by
  have := of_hexValue_eq_some (fun c v => hexDigit v == c.toLower && v < 16) (by decide) h
  simpa using this

theorem hexValue_hexDigit (h : v < 16) : hexValue (hexDigit v) = some v := by
  have hall : ∀ n : Nat, n < 16 →
      hexValue (hexDigit (UInt8.ofNat n)) = some (UInt8.ofNat n) := by decide
  have := hall v.toNat h
  rwa [UInt8.ofNat_toNat] at this

theorem byte_halves (c : UInt8) : c / 16 * 16 + c % 16 = c := by
  apply UInt8.toNat_inj.mp
  have := c.toNat_lt
  simp only [UInt8.toNat_add, UInt8.toNat_mul, UInt8.toNat_div, UInt8.toNat_mod, UInt8.reduceToNat]
  omega

theorem halves_of_digits {h l : UInt8} (hh : h < 16) (hl : l < 16) :
    (h * 16 + l) / 16 = h ∧ (h * 16 + l) % 16 = l ∧
      (h * 16 + l).toNat = h.toNat * 16 + l.toNat := by
  have hh' : h.toNat < 16 := hh
  have hl' : l.toNat < 16 := hl
  have hsum : (h * 16 + l).toNat = h.toNat * 16 + l.toNat := by
    simp only [UInt8.toNat_add, UInt8.toNat_mul, UInt8.reduceToNat]
    omega
  refine ⟨?_, ?_, hsum⟩
  · apply UInt8.toNat_inj.mp
    simp only [UInt8.toNat_div, UInt8.reduceToNat]
    omega
  · apply UInt8.toNat_inj.mp
    simp only [UInt8.toNat_mod, UInt8.reduceToNat]
    omega

/-! ## Whole texts -/

theorem hexDecodeChars_cons_cons {hi lo : Char} {rest : List Char}
    (h : hexDecodeChars (hi :: lo :: rest) = some bs) :
    ∃ a b cs, hexValue hi = some a ∧ hexValue lo = some b ∧ hexDecodeChars rest = some cs ∧
      bs = (a * 16 + b) :: cs := by
  rw [hexDecodeChars] at h
  split at h
  · next a b cs ha hb hcs => exact ⟨a, b, cs, ha, hb, hcs, (Option.some.inj h).symm⟩
  · cases h

/-- **What was encoded decodes to the bytes it was written from.** -/
@[simp] theorem hexDecodeChars_hexChars (b : Bytes) : hexDecodeChars (hexChars b) = some b := by
  induction b with
  | nil => rfl
  | cons c b ih =>
    have hhi : c / 16 < 16 := by
      have : (c / 16).toNat < 16 := by
        have := c.toNat_lt
        simp only [UInt8.toNat_div, UInt8.reduceToNat]
        omega
      exact this
    have hlo : c % 16 < 16 := by
      have : (c % 16).toNat < 16 := by
        simp only [UInt8.toNat_mod, UInt8.reduceToNat]
        omega
      exact this
    simp [hexChars_cons, hexDecodeChars, hexValue_hexDigit hhi, hexValue_hexDigit hlo, ih,
      byte_halves]

theorem strip0x_hexEncodeToString (b : Bytes) :
    strip0x (hexEncodeToString b) = hexEncodeToString b := by
  cases b with
  | nil => rfl
  | cons c rest =>
    have hlow : hexValue (hexDigit (c % 16)) = some (c % 16) :=
      hexValue_hexDigit (UInt8.mod_lt c (by decide))
    unfold strip0x
    split
    · next h =>
      rw [toList_hexEncodeToString] at h
      injection h with _ h
      injection h with h _
      rw [h] at hlow
      cases hlow
    · next h =>
      rw [toList_hexEncodeToString] at h
      injection h with _ h
      injection h with h _
      rw [h] at hlow
      cases hlow
    · rfl

theorem decode_hexEncodeToString (b : Bytes) :
    hexDecodeString (strip0x (hexEncodeToString b)) = some b := by
  rw [strip0x_hexEncodeToString, hexDecodeString, toList_hexEncodeToString, hexDecodeChars_hexChars]

/-- **A text that decodes is, in lower case, the encoding of its bytes.** -/
theorem hexChars_of_hexDecodeChars : ∀ {cs : List Char} {bs : Bytes},
    hexDecodeChars cs = some bs → hexChars bs = cs.map Char.toLower
  | [], bs, h => by
    obtain rfl : [] = bs := Option.some.inj h
    rfl
  | [_], _, h => by cases h
  | hi :: lo :: rest, bs, h => by
    obtain ⟨a, b, ds, ha, hb, hds, rfl⟩ := hexDecodeChars_cons_cons h
    obtain ⟨hhi, ha16⟩ := hexDigit_hexValue ha
    obtain ⟨hlo, hb16⟩ := hexDigit_hexValue hb
    obtain ⟨hdiv, hmod, -⟩ := halves_of_digits ha16 hb16
    simp [hexChars_cons, hdiv, hmod, hhi, hlo, hexChars_of_hexDecodeChars hds, List.map_cons]

theorem map_toLower_hexChars (b : Bytes) : (hexChars b).map Char.toLower = hexChars b :=
  (hexChars_of_hexDecodeChars (hexDecodeChars_hexChars b)).symm

theorem length_of_hexDecodeChars {cs : List Char} (h : hexDecodeChars cs = some bs) :
    cs.length = 2 * bs.length := by
  rw [← length_hexChars, hexChars_of_hexDecodeChars h, List.length_map]

/-- Cutting the text after `2 * n` characters cuts the bytes after `n`. -/
theorem hexDecodeChars_cut : ∀ (n : Nat) {cs : List Char} {bs : Bytes},
    hexDecodeChars cs = some bs →
    hexDecodeChars (cs.take (2 * n)) = some (bs.take n) ∧
      hexDecodeChars (cs.drop (2 * n)) = some (bs.drop n)
  | 0, cs, bs, h => by simpa [hexDecodeChars] using h
  | n + 1, [], bs, h => by
    obtain rfl : [] = bs := Option.some.inj h
    simp [hexDecodeChars]
  | n + 1, [_], _, h => by cases h
  | n + 1, hi :: lo :: rest, bs, h => by
    obtain ⟨a, b, ds, ha, hb, hds, rfl⟩ := hexDecodeChars_cons_cons h
    obtain ⟨htake, hdrop⟩ := hexDecodeChars_cut n hds
    rw [show 2 * (n + 1) = 2 * n + 1 + 1 from by omega]
    simp [List.take_succ_cons, List.drop_succ_cons, hexDecodeChars, ha, hb, htake, hdrop,
      and_self]

/-- A text decodes exactly when it is an even number of hex digits. -/
theorem exists_hexDecodeChars : ∀ {cs : List Char},
    (∃ bs, hexDecodeChars cs = some bs) ↔
      cs.all (fun c => (hexValue c).isSome) ∧ cs.length % 2 = 0
  | [] | [_] => by simp [hexDecodeChars]
  | hi :: lo :: rest => by
    have ih := @exists_hexDecodeChars rest
    have hlen : (hi :: lo :: rest).length % 2 = rest.length % 2 := by
      simp only [List.length_cons]
      omega
    rw [hlen]
    simp only [List.all_cons, Bool.and_eq_true, and_assoc, ← ih]
    constructor
    · rintro ⟨bs, h⟩
      obtain ⟨a, b, ds, ha, hb, hds, -⟩ := hexDecodeChars_cons_cons h
      exact ⟨by rw [ha]; rfl, by rw [hb]; rfl, ds, hds⟩
    · rintro ⟨ha, hb, ds, hds⟩
      obtain ⟨a, ha⟩ := Option.isSome_iff_exists.mp ha
      obtain ⟨b, hb⟩ := Option.isSome_iff_exists.mp hb
      exact ⟨(a * 16 + b) :: ds, by simp [hexDecodeChars, ha, hb, hds]⟩

/-- The number hex digits stand for: `BigInt('0x' + text)`. -/
def hexNat (cs : List Char) : Nat :=
  cs.foldl (fun n c => n * 16 + ((hexValue c).getD 0).toNat) 0

theorem foldl_hexNat : ∀ {cs : List Char} {bs : Bytes} (n : Nat), hexDecodeChars cs = some bs →
    cs.foldl (fun n c => n * 16 + ((hexValue c).getD 0).toNat) n
      = bs.foldl (fun v c => v * 256 + c.toNat) n
  | [], bs, n, h => by
    obtain rfl : [] = bs := Option.some.inj h
    rfl
  | [_], _, _, h => by cases h
  | hi :: lo :: rest, bs, n, h => by
    obtain ⟨a, b, ds, ha, hb, hds, rfl⟩ := hexDecodeChars_cons_cons h
    have hsum := (halves_of_digits (hexDigit_hexValue ha).2 (hexDigit_hexValue hb).2).2.2
    have hstep : (n * 16 + a.toNat) * 16 + b.toNat = n * 256 + (a * 16 + b).toNat := by
      rw [hsum]
      ring
    simp only [List.foldl_cons, ha, hb, Option.getD_some, hstep]
    exact foldl_hexNat _ hds

theorem hexNat_eq {cs : List Char} (h : hexDecodeChars cs = some bs) : hexNat cs = toNat bs :=
  foldl_hexNat 0 h

end OpenFireblocks.Go
