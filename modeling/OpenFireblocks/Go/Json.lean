import OpenFireblocks.Go.Basic
import OpenFireblocks.Lib.Json
import OpenFireblocks.Lib.Numeral

/-!
# `encoding/json` on byte slices

The bytes that `json.Marshal` writes and what `json.Unmarshal` sets a Go value to.

* A byte that is part of no character is read as U+FFFD, as `utf8.DecodeRune` does.
* A member sets the field with its name, whatever the case of the letters; other members are ignored.
  U+212A and U+017F are another case of `k` and `s`.
* `null` sets nothing. A value of the wrong type is an error.
-/

namespace OpenFireblocks.Go

open BigEndian

/-! ## UTF-8 -/

def utf8Bytes (s : List Char) : Bytes := s.flatMap String.utf8EncodeChar

/-- The characters of bytes, with U+FFFD for what is no character. -/
def runes (b : Bytes) : List Char :=
  match b with
  | [] => []
  | b :: rest =>
    match (b :: rest).toByteArray.utf8DecodeChar? 0 with
    | some c => c :: runes (rest.drop (c.utf8Size - 1))
    | none => Char.ofNat 0xFFFD :: runes rest
termination_by b.length
decreasing_by
  · simp only [List.length_drop, List.length_cons]
    omega
  · simp only [List.length_cons]
    omega

theorem runes_utf8EncodeChar (c : Char) (rest : Bytes) :
    runes (String.utf8EncodeChar c ++ rest) = c :: runes rest := by
  have hdecode : (String.utf8EncodeChar c ++ rest).toByteArray.utf8DecodeChar? 0 = some c := by
    rw [List.toByteArray_append]
    exact ByteArray.utf8DecodeChar?_utf8EncodeChar_append
  have hlength := String.length_utf8EncodeChar c
  have hpos := c.utf8Size_pos
  obtain ⟨b, bs, hbytes⟩ : ∃ b bs, String.utf8EncodeChar c = b :: bs := by
    cases hbytes : String.utf8EncodeChar c with
    | nil =>
      rw [hbytes, List.length_nil] at hlength
      omega
    | cons b bs => exact ⟨b, bs, rfl⟩
  rw [hbytes, List.cons_append] at hdecode ⊢
  rw [hbytes, List.length_cons] at hlength
  rw [runes, hdecode]
  dsimp only
  rw [← hlength, Nat.add_sub_cancel, List.drop_left]

/-- Text is read as it was written. -/
theorem runes_utf8Bytes (s : List Char) : runes (utf8Bytes s) = s := by
  induction s with
  | nil => rw [utf8Bytes, List.flatMap_nil, runes]
  | cons c s ih =>
    rw [utf8Bytes, List.flatMap_cons, runes_utf8EncodeChar]
    exact congrArg (c :: ·) ih

/-! ## Integers -/

def decimalDigit (n : Nat) : Char := Char.ofNat (48 + n % 10)

def decimal (n : Nat) : List Char :=
  if n < 10 then [decimalDigit n] else decimal (n / 10) ++ [decimalDigit n]

/-- `strconv.AppendInt` in base 10. -/
def appendInt (n : Int) : List Char :=
  if n < 0 then '-' :: decimal n.natAbs else decimal n.natAbs

def parseDigits (s : List Char) : Option Nat :=
  if s.isEmpty ∨ ¬ s.all Char.isDigit then none
  else some (s.foldl (fun n c => n * 10 + (c.toNat - 48)) 0)

def parseSigned : List Char → Option Int
  | '-' :: s => (parseDigits s).map fun n : Nat => -(n : Int)
  | s => (parseDigits s).map fun n : Nat => (n : Int)

/-- `new(big.Int).SetString(v, 10)`. -/
def bigSetString : List Char → Option Int
  | '-' :: s => (parseDigits s).map fun n : Nat => -(n : Int)
  | '+' :: s => (parseDigits s).map fun n : Nat => (n : Int)
  | s => (parseDigits s).map fun n : Nat => (n : Int)

/-- `strconv.ParseInt(s, 10, 64)` of a JSON number. -/
def parseInt64 (s : List Char) : Option Int := (parseSigned s).filter fun n => InInt64 n

theorem parseDigits_eq_some {s : List Char} {n : Nat} : parseDigits s = some n ↔
    s ≠ [] ∧ (∀ c ∈ s, c.isDigit) ∧ Nat.ofDigitChars 10 s 0 = n := by
  simp [parseDigits, Numeral.foldl_eq_ofDigitChars, and_assoc]

theorem decimal_eq_toDigits (n : Nat) : decimal n = Nat.toDigits 10 n := by
  have hall : ∀ m < 10, Char.ofNat (48 + m) = Nat.digitChar m := by decide
  have hdigit (n : Nat) : decimalDigit n = Nat.digitChar (n % 10) := hall _ (Nat.mod_lt _ (by decide))
  fun_induction decimal n with
  | case1 n hn => rw [hdigit, Nat.mod_eq_of_lt hn, Nat.toDigits_of_lt_base hn]
  | case2 n hn ih => rw [hdigit, ih, ← Nat.toDigits_of_base_le (by decide) (by omega)]

theorem all_isDigit_decimal (n : Nat) : (decimal n).all Char.isDigit := by
  rw [decimal_eq_toDigits, List.all_eq_true]
  exact fun c => Nat.isDigit_of_mem_toDigits (by decide) (by decide)

/-- No zero comes first, except for the number 0. -/
theorem decimal_eq_cons (n : Nat) :
    ∃ d s, decimal n = d :: s ∧ (n ≠ 0 → d ≠ '0') ∧ (n = 0 → s = []) := by
  rw [decimal_eq_toDigits]
  obtain ⟨d, s, h⟩ := List.exists_cons_of_ne_nil (Nat.toDigits_ne_nil : Nat.toDigits 10 n ≠ [])
  refine ⟨d, s, h, fun hne hd => ?_, fun hzero => ?_⟩
  · have hfirst := List.dropWhile_eq_self_iff.mp (Numeral.dropWhile_toDigits hne)
    simp [h, hd] at hfirst
  · rw [hzero] at h
    exact (List.cons.inj h).2.symm

theorem parseDigits_decimal (n : Nat) : parseDigits (decimal n) = some n := by
  rw [parseDigits_eq_some, decimal_eq_toDigits]
  exact ⟨Nat.toDigits_ne_nil, fun c => Nat.isDigit_of_mem_toDigits (by decide) (by decide),
    Nat.ofDigitChars_ten_toDigits⟩

theorem decimal_ne_minus (n : Nat) {s : List Char} : decimal n ≠ '-' :: s := by
  intro h
  have hall := all_isDigit_decimal n
  rw [h] at hall
  simp at hall

theorem parseSigned_appendInt (n : Int) : parseSigned (appendInt n) = some n := by
  unfold appendInt
  split
  · rw [parseSigned, parseDigits_decimal, Option.map_some, Option.some_inj]
    omega
  · unfold parseSigned
    split
    · next s hminus => exact absurd hminus (decimal_ne_minus _)
    rw [parseDigits_decimal, Option.map_some, Option.some_inj]
    omega

theorem parseInt64_appendInt {n : Int} (h : InInt64 n) : parseInt64 (appendInt n) = some n := by
  rw [parseInt64, parseSigned_appendInt]
  exact if_pos (decide_eq_true h)

theorem isUnsigned_decimal (n : Nat) : Json.isUnsigned (decimal n) := by
  obtain ⟨d, s, hdecimal, hne, hzero⟩ := decimal_eq_cons n
  have hall := all_isDigit_decimal n
  rw [hdecimal, List.all_cons, Bool.and_eq_true] at hall
  have hrest : s.dropWhile Char.isDigit = [] :=
    List.dropWhile_eq_nil_iff.mpr (List.all_eq_true.mp hall.2)
  rw [hdecimal]
  by_cases hn : n = 0
  · rw [hzero hn] at hdecimal ⊢
    rw [hn] at hdecimal
    obtain rfl : decimalDigit 0 = d := by
      rw [decimal] at hdecimal
      exact (List.cons.inj hdecimal).1
    rfl
  · rw [Json.isUnsigned.eq_2 d s (hne hn), hall.1, hrest]
    rfl

theorem isNumChar_of_isDigit {c : Char} (h : c.isDigit) : Json.isNumChar c := by
  simp [Json.isNumChar, h]

/-- An integer, as it is written. -/
def jsonInt (n : Int) : Json.Number where
  text := appendInt n
  valid := by
    have hchars : (decimal n.natAbs).all Json.isNumChar = true := by
      rw [List.all_eq_true]
      intro c hc
      exact isNumChar_of_isDigit (List.all_eq_true.mp (all_isDigit_decimal _) c hc)
    rw [Bool.and_eq_true]
    unfold appendInt
    split
    · exact ⟨isUnsigned_decimal _, by rw [List.all_cons, hchars]; rfl⟩
    refine ⟨?_, hchars⟩
    unfold Json.isNumber
    split
    · next s hminus => exact absurd hminus (decimal_ne_minus _)
    · exact isUnsigned_decimal _

/-! ## Setting a value -/

/-- `json.Marshal`, or `json.MarshalIndent`, of a value. -/
def marshal (layout : Json.Layout) (v : Json) : Bytes := utf8Bytes (Json.text layout 0 v)

/-- The value that `json.Unmarshal` finds in a text. -/
def jsonOf (data : Bytes) : Option Json := Json.parse (runes data)

theorem jsonOf_marshal {layout : Json.Layout} (hlayout : layout.Blank) (v : Json) :
    jsonOf (marshal layout v) = some v := by
  rw [jsonOf, marshal, runes_utf8Bytes, Json.parse_text hlayout]

/-- The case of the letters of the field names does not matter. -/
def foldRune (c : Char) : Char :=
  if c.toNat = 0x212A then 'k' else if c.toNat = 0x017F then 's' else c.toLower

/-- A member's name is that of a field. Fields have small letters, digits and underscores. -/
def isField (field : String) (name : List Char) : Bool := name.map foldRune = field.toList

def setString (old : String) : Json → Option String
  | .str s => some (String.ofList s)
  | .null => some old
  | _ => none

def setInt64 (old : Int) : Json → Option Int
  | .num n => parseInt64 n.text
  | .null => some old
  | _ => none

@[simp] theorem setString_str (old s : String) : setString old (.str s.toList) = some s :=
  congrArg some String.ofList_toList

theorem setInt64_num {old n : Int} (h : InInt64 n) : setInt64 old (.num (jsonInt n)) = some n :=
  parseInt64_appendInt h

end OpenFireblocks.Go
