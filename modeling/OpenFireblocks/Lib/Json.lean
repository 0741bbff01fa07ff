import Mathlib.Data.List.TakeDrop

/-!
# JSON text

A JSON value, the text that Go's `encoding/json` writes for it, compact or indented, and a parser of
RFC 8259 text. `parse_text`: parsing what was written gives the value back.

* Numbers are kept as they are spelled.
* A string is written with the escapes of `encoding/json`: quotes, backslashes, control characters,
  the characters that matter in HTML, and the two line separators.
* The parser has fuel, which the length of the text is enough of. It has no limit on nesting.
-/

namespace Json

/-! ## Numbers -/

def isNumChar (c : Char) : Bool := c.isDigit || c = '-' || c = '+' || c = '.' || c = 'e' || c = 'E'

/-- What may follow the digits of a number: nothing, or an exponent. -/
def isExponent : List Char → Bool
  | [] => true
  | e :: s =>
    let digits := match s with
      | '+' :: s => s
      | '-' :: s => s
      | s => s
    (e = 'e' || e = 'E') && !digits.isEmpty && digits.all Char.isDigit

def isFraction : List Char → Bool
  | '.' :: d :: s => d.isDigit && isExponent (s.dropWhile Char.isDigit)
  | s => isExponent s

def isUnsigned : List Char → Bool
  | '0' :: s => isFraction s
  | d :: s => d.isDigit && isFraction (s.dropWhile Char.isDigit)
  | [] => false

def isNumber : List Char → Bool
  | '-' :: s => isUnsigned s
  | s => isUnsigned s

structure Number where
  text : List Char
  valid : (isNumber text && text.all isNumChar) = true

end Json

inductive Json
  | null
  | bool (b : Bool)
  | num (n : Json.Number)
  | str (s : List Char)
  | arr (xs : List Json)
  | obj (members : List (List Char × Json))

namespace Json

/-! ## Strings -/

def quote : Char := Char.ofNat 34
def backslash : Char := Char.ofNat 92

def hexDigit (n : Nat) : Char := Char.ofNat (if n < 10 then 48 + n else 87 + n)

def hexValue (c : Char) : Option Nat :=
  if '0' ≤ c ∧ c ≤ '9' then some (c.toNat - 48)
  else if 'a' ≤ c ∧ c ≤ 'f' then some (c.toNat - 87)
  else if 'A' ≤ c ∧ c ≤ 'F' then some (c.toNat - 55)
  else none

def shortEscapes : List (Nat × Char) := [(8, 'b'), (12, 'f'), (10, 'n'), (13, 'r'), (9, 't')]

/-- Characters that are written as `\u` and four digits. -/
def isHidden (c : Char) : Bool :=
  c.toNat < 32 || c = '<' || c = '>' || c = '&' || c.toNat = 0x2028 || c.toNat = 0x2029

def escape (c : Char) : List Char :=
  if c = quote ∨ c = backslash then [backslash, c]
  else
    match shortEscapes.lookup c.toNat with
    | some letter => [backslash, letter]
    | none =>
      if isHidden c then
        [backslash, 'u', hexDigit (c.toNat / 4096), hexDigit (c.toNat / 256 % 16),
          hexDigit (c.toNat / 16 % 16), hexDigit (c.toNat % 16)]
      else [c]

def quoted (s : List Char) : List Char := quote :: s.flatMap escape ++ [quote]

def unescape (e : Char) : Option Char :=
  if e = quote ∨ e = backslash ∨ e = '/' then some e
  else (shortEscapes.find? fun p => p.2 = e).map fun p => Char.ofNat p.1

def hex4 (a b c d : Char) : Option Nat := do
  let a ← hexValue a
  let b ← hexValue b
  let c ← hexValue c
  let d ← hexValue d
  return ((a * 16 + b) * 16 + c) * 16 + d

/-- The rest of a string up to its closing quote, as characters and, for `\u`, UTF-16 code units. -/
def stringUnits : List Char → Option (List (Char ⊕ Nat) × List Char)
  | [] => none
  | c :: s =>
    if c = quote then some ([], s)
    else if c = backslash then
      match s with
      | [] => none
      | e :: s =>
        if e = 'u' then
          match s with
          | a :: b :: c :: d :: s =>
            match hex4 a b c d with
            | none => none
            | some code => (stringUnits s).map fun p => (.inr code :: p.1, p.2)
          | _ => none
        else
          match unescape e with
          | none => none
          | some c => (stringUnits s).map fun p => (.inl c :: p.1, p.2)
    else if c.toNat < 32 then none
    else (stringUnits s).map fun p => (.inl c :: p.1, p.2)

/-- Half of a surrogate pair that has no other half is replaced. -/
def unpaired : Option Nat → List Char
  | none => []
  | some _ => [Char.ofNat 0xFFFD]

/-- Surrogate pairs are put together. -/
def joinUnits : Option Nat → List (Char ⊕ Nat) → List Char
  | high, [] => unpaired high
  | high, .inl c :: us => unpaired high ++ c :: joinUnits none us
  | high, .inr code :: us =>
    if 0xD800 ≤ code ∧ code < 0xDC00 then unpaired high ++ joinUnits (some code) us
    else if 0xDC00 ≤ code ∧ code < 0xE000 then
      match high with
      | some high =>
        Char.ofNat (0x10000 + (high - 0xD800) * 0x400 + (code - 0xDC00)) :: joinUnits none us
      | none => Char.ofNat 0xFFFD :: joinUnits none us
    else unpaired high ++ Char.ofNat code :: joinUnits none us

def stringBody (s : List Char) : Option (List Char × List Char) :=
  (stringUnits s).map fun p => (joinUnits none p.1, p.2)

/-! ### A string is read as it was written -/

variable {c : Char} {n : Nat} {ws : List Char}

theorem of_isHidden (p : Char → Bool) (hlow : ∀ n < 32, p (Char.ofNat n))
    (hhtml : p '<' ∧ p '>' ∧ p '&')
    (hline : p (Char.ofNat 0x2028) ∧ p (Char.ofNat 0x2029)) (h : isHidden c) :
    p c := by
  simp only [isHidden, Bool.or_eq_true, decide_eq_true_eq] at h
  rcases h with ((((h | rfl) | rfl) | rfl) | h) | h
  · have hc := hlow c.toNat h
    rwa [Char.ofNat_toNat] at hc
  · exact hhtml.1
  · exact hhtml.2.1
  · exact hhtml.2.2
  · have hc := hline.1
    rwa [← h, Char.ofNat_toNat] at hc
  · have hc := hline.2
    rwa [← h, Char.ofNat_toNat] at hc

def unitOf (c : Char) : Char ⊕ Nat :=
  if c ≠ quote ∧ c ≠ backslash ∧ (shortEscapes.lookup c.toNat).isNone ∧ isHidden c then .inr c.toNat
  else .inl c

theorem joinUnits_map_unitOf (s : List Char) : joinUnits none (s.map unitOf) = s := by
  induction s with
  | nil => rfl
  | cons c s ih =>
    rw [List.map_cons]
    unfold unitOf
    split
    · next h =>
      have hcode : (c.toNat < 0xD800) := by
        have := of_isHidden (fun c => c.toNat < 0xD800) (by decide) (by decide) (by decide) h.2.2.2
        simpa using this
      rw [joinUnits, if_neg (by omega), if_neg (by omega), Char.ofNat_toNat]
      show [] ++ c :: joinUnits none (s.map unitOf) = c :: s
      rw [ih, List.nil_append]
    · rw [joinUnits]
      show [] ++ c :: joinUnits none (s.map unitOf) = c :: s
      rw [ih, List.nil_append]

theorem hexValue_hexDigit (h : n < 16) : hexValue (hexDigit n) = some n := by
  have hall : ∀ n < 16, hexValue (hexDigit n) = some n := by decide
  exact hall n h

theorem hex4_hexDigit (h : n < 65536) :
    hex4 (hexDigit (n / 4096)) (hexDigit (n / 256 % 16)) (hexDigit (n / 16 % 16))
      (hexDigit (n % 16)) = some n := by
  unfold hex4
  rw [hexValue_hexDigit (show n / 4096 < 16 by omega),
    hexValue_hexDigit (show n / 256 % 16 < 16 by omega),
    hexValue_hexDigit (show n / 16 % 16 < 16 by omega),
    hexValue_hexDigit (show n % 16 < 16 by omega)]
  refine congrArg some ?_
  omega

/-- A character after a backslash, other than `u`. -/
theorem stringUnits_backslash {e : Char} (he : e ≠ 'u') (hc : unescape e = some c) (s : List Char) :
    stringUnits (backslash :: e :: s) = (stringUnits s).map fun p => (.inl c :: p.1, p.2) := by
  rw [stringUnits.eq_def]
  dsimp only
  rw [if_neg (by decide), if_pos rfl, if_neg he, hc]

theorem unescape_of_lookup {letter : Char} (h : shortEscapes.lookup c.toNat = some letter) :
    letter ≠ 'u' ∧ unescape letter = some c := by
  have hall : ((List.range 14).all fun n => (shortEscapes.lookup n).all fun letter =>
      letter ≠ 'u' ∧ unescape letter = some (Char.ofNat n)) := by
    decide
  have hlt : c.toNat < 14 := by
    by_contra hge
    simp only [shortEscapes, List.lookup_cons] at h
    repeat' split at h
    all_goals simp_all
  have hc := List.all_eq_true.mp hall c.toNat (List.mem_range.mpr hlt)
  rw [h, Char.ofNat_toNat] at hc
  exact of_decide_eq_true hc

theorem stringUnits_escape (c : Char) (s : List Char) :
    stringUnits (escape c ++ s) = (stringUnits s).map fun p => (unitOf c :: p.1, p.2) := by
  unfold escape unitOf
  by_cases hquote : c = quote ∨ c = backslash
  · rw [if_pos hquote, if_neg (by tauto)]
    have hun : unescape c = some c := if_pos (by tauto)
    have hne : c ≠ 'u' := by rcases hquote with rfl | rfl <;> decide
    exact stringUnits_backslash hne hun s
  rw [if_neg hquote]
  cases hshort : shortEscapes.lookup c.toNat with
  | some letter =>
    obtain ⟨hne, hun⟩ := unescape_of_lookup hshort
    dsimp only
    rw [if_neg (by simp)]
    exact stringUnits_backslash hne hun s
  | none =>
    by_cases hhidden : isHidden c
    · have hlt : c.toNat < 65536 := by
        have := of_isHidden (fun c => c.toNat < 65536) (by decide) (by decide) (by decide) hhidden
        simpa using this
      rw [if_pos hhidden, if_pos ⟨fun h => hquote (.inl h), fun h => hquote (.inr h), rfl, hhidden⟩]
      change stringUnits (backslash :: 'u' :: _ :: _ :: _ :: _ :: s) = _
      rw [stringUnits, if_neg (by decide), if_pos rfl, if_pos rfl, hex4_hexDigit hlt]
    · have hlow : ¬ c.toNat < 32 := by
        intro hlt
        exact hhidden (by simp [isHidden, hlt])
      rw [if_neg hhidden, if_neg (by tauto), List.singleton_append, stringUnits.eq_def]
      dsimp only
      rw [if_neg fun h => hquote (.inl h), if_neg fun h => hquote (.inr h), if_neg hlow]

/-- **A string is read as it was written.** -/
theorem stringBody_quoted (s rest : List Char) :
    stringBody (s.flatMap escape ++ quote :: rest) = some (s, rest) := by
  have hunits : stringUnits (s.flatMap escape ++ quote :: rest) = some (s.map unitOf, rest) := by
    induction s with
    | nil =>
      rw [List.flatMap_nil, stringUnits.eq_def]
      exact if_pos rfl
    | cons c s ih =>
      rw [List.flatMap_cons, List.append_assoc, stringUnits_escape, ih]
      rfl
  rw [stringBody, hunits]
  show some (joinUnits none (s.map unitOf), rest) = some (s, rest)
  rw [joinUnits_map_unitOf]

/-! ## Writing -/

/-- Where the whitespace goes. -/
structure Layout where
  /-- after an opening bracket or a comma, and before a closing bracket, at a depth -/
  newline : Nat → List Char
  /-- after a colon -/
  space : List Char

def isSpace (c : Char) : Bool :=
  c = ' ' || c.toNat = 9 || c.toNat = 10 || c.toNat = 13

def Layout.Blank (l : Layout) : Prop :=
  (∀ depth, ∀ c ∈ l.newline depth, isSpace c = true) ∧ ∀ c ∈ l.space, isSpace c = true

/-- `json.Marshal`. -/
def compact : Layout := ⟨fun _ => [], []⟩

/-- `json.MarshalIndent` with two spaces. -/
def indented : Layout := ⟨fun depth => Char.ofNat 10 :: List.replicate (2 * depth) ' ', [' ']⟩

theorem compact_blank : compact.Blank := ⟨fun _ _ h => absurd h List.not_mem_nil, nofun⟩

theorem indented_blank : indented.Blank := by
  refine ⟨fun depth c hc => ?_, fun c hc => ?_⟩
  · rcases List.mem_cons.mp hc with rfl | hc
    · decide
    · obtain rfl := List.eq_of_mem_replicate hc
      decide
  · obtain rfl := List.mem_singleton.mp hc
    decide

def leftBrace : Char := Char.ofNat 123
def rightBrace : Char := Char.ofNat 125

mutual
def text (l : Layout) (depth : Nat) : Json → List Char
  | .null => ['n', 'u', 'l', 'l']
  | .bool true => ['t', 'r', 'u', 'e']
  | .bool false => ['f', 'a', 'l', 's', 'e']
  | .num n => n.text
  | .str s => quoted s
  | .arr [] => ['[', ']']
  | .arr (x :: xs) =>
    '[' :: l.newline (depth + 1) ++ (text l (depth + 1) x ++ moreElements l (depth + 1) xs) ++
      (l.newline depth ++ [']'])
  | .obj [] => [leftBrace, rightBrace]
  | .obj ((k, v) :: ms) =>
    leftBrace :: l.newline (depth + 1) ++
      (quoted k ++ ':' :: l.space ++ text l (depth + 1) v ++ moreMembers l (depth + 1) ms) ++
      (l.newline depth ++ [rightBrace])
def moreElements (l : Layout) (depth : Nat) : List Json → List Char
  | [] => []
  | x :: xs => ',' :: l.newline depth ++ (text l depth x ++ moreElements l depth xs)
def moreMembers (l : Layout) (depth : Nat) : List (List Char × Json) → List Char
  | [] => []
  | (k, v) :: ms =>
    ',' :: l.newline depth ++
      (quoted k ++ ':' :: l.space ++ text l depth v ++ moreMembers l depth ms)
end

/-! ## Reading -/

def skip (s : List Char) : List Char := s.dropWhile isSpace

def name (s : List Char) : Option (List Char × List Char) :=
  match skip s with
  | [] => none
  | c :: s =>
    if c = quote then
      match stringBody s with
      | none => none
      | some (k, s) =>
        match skip s with
        | ':' :: s => some (k, s)
        | _ => none
    else none

mutual
def value : Nat → List Char → Option (Json × List Char)
  | 0, _ => none
  | fuel + 1, s =>
    match skip s with
    | [] => none
    | c :: s =>
      if c = quote then (stringBody s).map fun p => (.str p.1, p.2)
      else if c = '[' then
        match skip s with
        | ']' :: s => some (.arr [], s)
        | s => (elements fuel s).map fun p => (.arr p.1, p.2)
      else if c = leftBrace then
        match skip s with
        | [] => none
        | d :: s =>
          if d = rightBrace then some (.obj [], s)
          else (members fuel (d :: s)).map fun p => (.obj p.1, p.2)
      else if isNumChar c then
        let t := c :: s.takeWhile isNumChar
        if h : (isNumber t && t.all isNumChar) = true then
          some (.num ⟨t, h⟩, s.dropWhile isNumChar)
        else none
      else
        match c :: s with
        | 'n' :: 'u' :: 'l' :: 'l' :: s => some (.null, s)
        | 't' :: 'r' :: 'u' :: 'e' :: s => some (.bool true, s)
        | 'f' :: 'a' :: 'l' :: 's' :: 'e' :: s => some (.bool false, s)
        | _ => none
def elements : Nat → List Char → Option (List Json × List Char)
  | 0, _ => none
  | fuel + 1, s =>
    match value fuel s with
    | none => none
    | some (x, s) =>
      match skip s with
      | ',' :: s => (elements fuel s).map fun p => (x :: p.1, p.2)
      | ']' :: s => some ([x], s)
      | _ => none
def members : Nat → List Char → Option (List (List Char × Json) × List Char)
  | 0, _ => none
  | fuel + 1, s =>
    match name s with
    | none => none
    | some (k, s) =>
      match value fuel s with
      | none => none
      | some (v, s) =>
        match skip s with
        | [] => none
        | c :: s =>
          if c = ',' then (members fuel s).map fun p => ((k, v) :: p.1, p.2)
          else if c = rightBrace then some ([(k, v)], s)
          else none
end

def parse (s : List Char) : Option Json :=
  match value (s.length + 1) s with
  | some (v, rest) => if (skip rest).isEmpty then some v else none
  | none => none

/-! ## What was written is read -/

theorem skip_blank (h : ∀ c ∈ ws, isSpace c) (s : List Char) : skip (ws ++ s) = skip s :=
  List.dropWhile_append_of_pos h

theorem skip_cons (h : isSpace c = false) (s : List Char) : skip (c :: s) = c :: s := by
  rw [skip, List.dropWhile_cons_of_neg]
  rw [h]
  decide

section

variable (h : ∀ c ∈ ws, isSpace c) (fuel : Nat) (s : List Char)
include h

theorem value_blank : value fuel (ws ++ s) = value fuel s := by
  cases fuel with
  | zero => rfl
  | succ fuel => rw [value, value, skip_blank h]

theorem elements_blank : elements fuel (ws ++ s) = elements fuel s := by
  cases fuel with
  | zero => rfl
  | succ fuel => rw [elements, elements, value_blank h]

theorem members_blank : members fuel (ws ++ s) = members fuel s := by
  cases fuel with
  | zero => rfl
  | succ fuel => rw [members, members, name, name, skip_blank h]

end

/-- A number's characters are none of those that other tokens start with. -/
theorem ne_of_isNumChar (h : isNumChar c) :
    isSpace c = false ∧ c ≠ ']' ∧ c ≠ rightBrace ∧ c ≠ quote ∧ c ≠ '[' ∧ c ≠ leftBrace := by
  have hcases : c.isDigit ∨ c = '-' ∨ c = '+' ∨ c = '.' ∨ c = 'e' ∨ c = 'E' := by
    simpa [isNumChar, or_assoc] using h
  rcases hcases with hd | rfl | rfl | rfl | rfl | rfl
  · have hrange : 48 ≤ c.toNat ∧ c.toNat ≤ 57 := by
      have hval : 48 ≤ c.val ∧ c.val ≤ 57 := by simpa [Char.isDigit] using hd
      exact ⟨UInt32.le_iff_toNat_le.mp hval.1, UInt32.le_iff_toNat_le.mp hval.2⟩
    have hall : ∀ n < 58, 48 ≤ n → isSpace (Char.ofNat n) = false ∧ Char.ofNat n ≠ ']' ∧
        Char.ofNat n ≠ rightBrace ∧ Char.ofNat n ≠ quote ∧ Char.ofNat n ≠ '[' ∧
        Char.ofNat n ≠ leftBrace := by
      decide
    have hc := hall c.toNat (by omega) hrange.1
    rwa [Char.ofNat_toNat] at hc
  all_goals decide

theorem Number.text_eq_cons (n : Number) :
    ∃ c t, n.text = c :: t ∧ isNumChar c ∧ t.all isNumChar := by
  obtain ⟨text, valid⟩ := n
  cases text with
  | nil => simp [isNumber, isUnsigned] at valid
  | cons c t =>
    rw [Bool.and_eq_true, List.all_cons, Bool.and_eq_true] at valid
    exact ⟨c, t, rfl, valid.2⟩

theorem text_eq_cons (l : Layout) (depth : Nat) (v : Json) :
    ∃ c t, text l depth v = c :: t ∧ isSpace c = false ∧ c ≠ ']' := by
  cases v with
  | null => exact ⟨_, _, rfl, by decide, by decide⟩
  | bool b => cases b <;> exact ⟨_, _, rfl, by decide, by decide⟩
  | num n =>
    obtain ⟨c, t, htext, hc, -⟩ := n.text_eq_cons
    have hne := ne_of_isNumChar hc
    exact ⟨c, t, by rw [text, htext], hne.1, hne.2.1⟩
  | str s => exact ⟨quote, _, by rw [text]; rfl, by decide, by decide⟩
  | arr xs =>
    cases xs with
    | nil => exact ⟨_, _, by rw [text], by decide, by decide⟩
    | cons => exact ⟨'[', _, by rw [text]; rfl, by decide, by decide⟩
  | obj ms =>
    cases ms with
    | nil => exact ⟨_, _, by rw [text], by decide, by decide⟩
    | cons => exact ⟨leftBrace, _, by rw [text]; rfl, by decide, by decide⟩

theorem quoted_append (k s : List Char) :
    quoted k ++ s = quote :: (k.flatMap escape ++ quote :: s) := by
  simp [quoted]

theorem name_quoted (k s : List Char) : name (quoted k ++ ':' :: s) = some (k, s) := by
  rw [quoted_append, name, skip_cons (by decide)]
  dsimp only
  rw [stringBody_quoted]
  dsimp only
  rfl

/-- What follows a value does not go on with a number. -/
def Stops (s : List Char) : Prop := ∀ c, s.head? = some c → isNumChar c = false

theorem stops_cons (h : isNumChar c = false) (s : List Char) : Stops (c :: s) := by
  rintro d ⟨⟩
  exact h

theorem stops_blank (h : ∀ c ∈ ws, isSpace c) (hc : isNumChar c = false) (s : List Char) :
    Stops (ws ++ c :: s) := by
  cases ws with
  | nil => exact stops_cons hc s
  | cons w ws =>
    refine stops_cons ?_ _
    by_contra hw
    have hspace := (ne_of_isNumChar (by simpa using hw)).1
    rw [h w List.mem_cons_self] at hspace
    cases hspace

theorem takeWhile_stops {t s : List Char} (ht : t.all isNumChar) (hs : Stops s) :
    (t ++ s).takeWhile isNumChar = t ∧ (t ++ s).dropWhile isNumChar = s := by
  have hall : ∀ c ∈ t, isNumChar c := List.all_eq_true.mp ht
  rw [List.takeWhile_append_of_pos hall, List.dropWhile_append_of_pos hall]
  cases s with
  | nil => simp
  | cons c s =>
    have hc : ¬ isNumChar c := by
      rw [hs c rfl]
      decide
    rw [List.takeWhile_cons_of_neg hc, List.dropWhile_cons_of_neg hc, List.append_nil]
    exact ⟨rfl, rfl⟩

theorem value_number (n : Number) {s : List Char} (hs : Stops s) (fuel : Nat) :
    value (fuel + 1) (n.text ++ s) = some (.num n, s) := by
  obtain ⟨c, t, htext, hc, ht⟩ := n.text_eq_cons
  obtain ⟨hspace, -, -, hquote, hbracket, hbrace⟩ := ne_of_isNumChar hc
  obtain ⟨htake, hdrop⟩ := takeWhile_stops ht hs
  have hvalid := n.valid
  rw [htext] at hvalid
  rw [htext, List.cons_append, value, skip_cons hspace]
  dsimp only
  rw [if_neg hquote, if_neg hbracket, if_neg hbrace, if_pos hc, htake, hdrop, dif_pos hvalid]
  obtain ⟨text, valid⟩ := n
  cases htext
  rfl

section

variable {l : Layout} (hl : l.Blank)

include hl

structure Reads (l : Layout) (fuel : Nat) : Prop where
  value : ∀ v depth rest, (text l depth v).length < fuel → Stops rest →
    value fuel (text l depth v ++ rest) = some (v, rest)
  elements : ∀ x xs depth outer rest,
    (text l depth x ++ moreElements l depth xs).length + 1 < fuel →
    elements fuel (text l depth x ++ moreElements l depth xs ++ (l.newline outer ++ ']' :: rest)) =
      some (x :: xs, rest)
  members : ∀ k v ms depth outer rest,
    (quoted k ++ ':' :: l.space ++ text l depth v ++ moreMembers l depth ms).length + 1 < fuel →
    members fuel (quoted k ++ ':' :: l.space ++ text l depth v ++ moreMembers l depth ms ++
      (l.newline outer ++ rightBrace :: rest)) = some ((k, v) :: ms, rest)

variable {fuel : Nat}

theorem elements_text {fuel : Nat} (ih : Reads l fuel) (x : Json) (xs : List Json)
    (depth outer : Nat) (rest : List Char)
    (hfuel : (text l depth x ++ moreElements l depth xs).length + 1 < fuel + 1) :
    elements (fuel + 1)
      (text l depth x ++ moreElements l depth xs ++ (l.newline outer ++ ']' :: rest)) =
      some (x :: xs, rest) := by
  rw [List.length_append] at hfuel
  cases xs with
  | nil =>
    have hvalue := ih.value x depth (l.newline outer ++ ']' :: rest) (by omega)
      (stops_blank (hl.1 outer) (by decide) rest)
    rw [moreElements, List.append_nil, elements, hvalue]
    dsimp only
    rw [skip_blank (hl.1 outer)]
    rfl
  | cons y ys =>
    have hvalue := ih.value x depth (moreElements l depth (y :: ys) ++ (l.newline outer ++ ']' :: rest))
      (by omega) (by rw [moreElements]; exact stops_cons (by decide) _)
    rw [moreElements, List.length_append, List.length_cons] at hfuel
    have hrest := ih.elements y ys depth outer rest (by omega)
    rw [List.append_assoc, elements, hvalue, moreElements, List.cons_append, List.cons_append]
    dsimp only
    show (elements fuel _).map _ = _
    rw [List.append_assoc, elements_blank (hl.1 depth), hrest]
    rfl

theorem members_text (ih : Reads l fuel) (k : List Char) (v : Json) (ms : List (List Char × Json))
    (depth outer : Nat) (rest : List Char)
    (hfuel : (quoted k ++ ':' :: l.space ++ text l depth v ++ moreMembers l depth ms).length + 1 <
      fuel + 1) :
    members (fuel + 1) (quoted k ++ ':' :: l.space ++ text l depth v ++ moreMembers l depth ms ++
      (l.newline outer ++ rightBrace :: rest)) = some ((k, v) :: ms, rest) := by
  rw [List.length_append, List.length_append, List.length_append] at hfuel
  have hname : ∀ s, members (fuel + 1) (quoted k ++ ':' :: l.space ++ text l depth v ++ s) =
      match value fuel (text l depth v ++ s) with
      | none => none
      | some (v, s) =>
        match skip s with
        | [] => none
        | c :: s =>
          if c = ',' then (members fuel s).map fun p => ((k, v) :: p.1, p.2)
          else if c = rightBrace then some ([(k, v)], s)
          else none := by
    intro s
    rw [List.append_assoc, List.append_assoc, List.cons_append, members, name_quoted]
    dsimp only
    rw [value_blank hl.2]
  rw [List.append_assoc _ (moreMembers l depth ms), hname]
  cases ms with
  | nil =>
    have hvalue := ih.value v depth (l.newline outer ++ rightBrace :: rest) (by omega)
      (stops_blank (hl.1 outer) (by decide) rest)
    rw [moreMembers, List.nil_append, hvalue]
    dsimp only
    rw [skip_blank (hl.1 outer), skip_cons (by decide)]
    dsimp only
    rw [if_neg (by decide), if_pos rfl]
  | cons m ms =>
    obtain ⟨k', v'⟩ := m
    have hvalue := ih.value v depth
      (moreMembers l depth ((k', v') :: ms) ++ (l.newline outer ++ rightBrace :: rest))
      (by omega) (by rw [moreMembers]; exact stops_cons (by decide) _)
    rw [moreMembers, List.length_append, List.length_cons] at hfuel
    have hrest := ih.members k' v' ms depth outer rest (by omega)
    rw [hvalue, moreMembers, List.cons_append, List.cons_append]
    dsimp only
    rw [skip_cons (by decide)]
    dsimp only
    rw [List.append_assoc, members_blank (hl.1 depth), hrest]
    rfl

theorem value_text (ih : Reads l fuel) (v : Json) (depth : Nat) (rest : List Char)
    (hfuel : (text l depth v).length < fuel + 1) (hrest : Stops rest) :
    value (fuel + 1) (text l depth v ++ rest) = some (v, rest) := by
  cases v with
  | null =>
    rfl
  | bool b =>
    cases b <;>
    · rw [text, value, List.cons_append]
      rfl
  | num n =>
    exact value_number n hrest fuel
  | str s =>
    rw [text, quoted_append, value, skip_cons (by decide)]
    dsimp only
    rw [stringBody_quoted]
    rfl
  | arr xs =>
    cases xs with
    | nil =>
      rw [text, value, List.cons_append]
      dsimp only
      rfl
    | cons x xs =>
      have helements := ih.elements x xs (depth + 1) depth rest (by
        simp only [text, List.length_append, List.length_cons] at hfuel ⊢
        omega)
      obtain ⟨c, t, htext, hspace, hne⟩ := text_eq_cons l (depth + 1) x
      have hskip : skip (l.newline (depth + 1) ++ (text l (depth + 1) x ++
          moreElements l (depth + 1) xs ++ (l.newline depth ++ ']' :: rest))) =
          text l (depth + 1) x ++ moreElements l (depth + 1) xs ++ (l.newline depth ++ ']' :: rest) := by
        rw [skip_blank (hl.1 (depth + 1)), htext, List.cons_append, List.cons_append, skip_cons hspace]
      have hshape : text l depth (.arr (x :: xs)) ++ rest = '[' :: (l.newline (depth + 1) ++
          (text l (depth + 1) x ++ moreElements l (depth + 1) xs ++
            (l.newline depth ++ ']' :: rest))) := by
        simp [text]
      rw [hshape, value, skip_cons (by decide)]
      dsimp only
      rw [if_neg (by decide), if_pos rfl, hskip]
      split
      · next s heq =>
        rw [htext] at heq
        exact absurd (List.cons.inj heq).1 hne
      · rw [helements]
        rfl
  | obj ms =>
    cases ms with
    | nil =>
      rw [text, value, List.cons_append, skip_cons (by decide)]
      dsimp only
      rw [if_neg (by decide), List.cons_append, skip_cons (by decide)]
      dsimp only
      rfl
    | cons m ms =>
      obtain ⟨k, v⟩ := m
      have hmembers := ih.members k v ms (depth + 1) depth rest (by
        simp only [text, List.length_append, List.length_cons] at hfuel ⊢
        omega)
      have hshape : text l depth (.obj ((k, v) :: ms)) ++ rest =
          leftBrace :: (l.newline (depth + 1) ++ (quoted k ++ ':' :: l.space ++ text l (depth + 1) v ++
            moreMembers l (depth + 1) ms ++ (l.newline depth ++ rightBrace :: rest))) := by
        simp [text]
      rw [hshape, value, skip_cons (by decide)]
      dsimp only
      rw [if_neg (by decide), skip_blank (hl.1 (depth + 1))]
      rw [show quoted k ++ ':' :: l.space ++ text l (depth + 1) v ++ moreMembers l (depth + 1) ms ++
        (l.newline depth ++ rightBrace :: rest) = quote :: _ from rfl] at hmembers ⊢
      rw [skip_cons (by decide)]
      dsimp only
      rw [hmembers]
      rfl

theorem reads (fuel : Nat) : Reads l fuel := by
  induction fuel with
  | zero =>
    exact ⟨fun _ _ _ h => absurd h (Nat.not_lt_zero _), fun _ _ _ _ _ h => absurd h (Nat.not_lt_zero _),
      fun _ _ _ _ _ _ h => absurd h (Nat.not_lt_zero _)⟩
  | succ fuel ih => exact ⟨value_text hl ih, elements_text hl ih, members_text hl ih⟩

/-- **Parsing what was written gives the value back.** -/
theorem parse_text (v : Json) : parse (text l 0 v) = some v := by
  have hvalue := (reads hl ((text l 0 v).length + 1)).value v 0 [] (Nat.lt_succ_self _) nofun
  rw [List.append_nil] at hvalue
  rw [parse, hvalue]
  rfl

end

end Json
