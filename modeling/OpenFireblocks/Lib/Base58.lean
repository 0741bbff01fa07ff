import OpenFireblocks.Lib.BigEndian

/-!
# Base58

`decode` reads a text as a number in base 58 and gives its bytes, with a zero byte for every
leading `1`. A text with any other character is read as the empty string.

`decode_injective`: apart from that failure, no two texts give the same bytes.
-/

namespace Base58

open BigEndian

/-- The digits, without `0`, `O`, `I` and `l`. -/
def alphabet : List Char :=
  ['1', '2', '3', '4', '5', '6', '7', '8', '9', 'A', 'B', 'C', 'D', 'E', 'F', 'G', 'H', 'J', 'K', 'L',
    'M', 'N', 'P', 'Q', 'R', 'S', 'T', 'U', 'V', 'W', 'X', 'Y', 'Z', 'a', 'b', 'c', 'd', 'e', 'f', 'g',
    'h', 'i', 'j', 'k', 'm', 'n', 'o', 'p', 'q', 'r', 's', 't', 'u', 'v', 'w', 'x', 'y', 'z']

def digit (c : Char) : Option Nat := alphabet.findIdx? fun a => a = c

def digitsToBytes (ds : List Nat) : Bytes :=
  List.replicate (ds.takeWhile fun d => d = 0).length 0 ++ toBytes (Nat.ofDigits 58 ds.reverse)

def decodeChars (cs : List Char) : Bytes :=
  match cs.mapM digit with
  | none => []
  | some ds => digitsToBytes ds

def decode (s : String) : Bytes := decodeChars s.toList

theorem decode_ofList (cs : List Char) : decode (String.ofList cs) = decodeChars cs := by
  rw [decode, String.toList_ofList]

variable {cs : List Char}

/-- A leading `1` is a zero byte. -/
theorem decodeChars_one (h : decodeChars cs ≠ []) :
    decodeChars ('1' :: cs) = 0 :: decodeChars cs := by
  unfold decodeChars at h ⊢
  split at h
  · exact absurd rfl h
  next ds hds =>
  have hone : ('1' :: cs).mapM digit = some (0 :: ds) := by
    rw [List.mapM_cons, hds]
    rfl
  rw [hone]
  simp [digitsToBytes, List.replicate_succ]

theorem decodeChars_ones (n : Nat) (h : decodeChars cs ≠ []) :
    decodeChars (List.replicate n '1' ++ cs) = List.replicate n 0 ++ decodeChars cs := by
  induction n with
  | zero => rfl
  | succ n ih =>
    rw [List.replicate_succ, List.cons_append, decodeChars_one (by rw [ih]; simp [h]), ih,
      List.replicate_succ, List.cons_append]

/-! ## Digits determine the text -/

theorem getElem?_of_digit {c : Char} {d : Nat} (h : digit c = some d) : alphabet[d]? = some c := by
  obtain ⟨hlt, heq, -⟩ := List.findIdx?_eq_some_iff_getElem.mp h
  rw [List.getElem?_eq_getElem hlt, of_decide_eq_true heq]

theorem digit_lt {c : Char} {d : Nat} (h : digit c = some d) : d < 58 :=
  (List.findIdx?_eq_some_iff_getElem.mp h).1

theorem mapM_digit {ds : List Nat} (h : cs.mapM digit = some ds) :
    (∀ d ∈ ds, d < 58) ∧ ds.map (fun d => alphabet[d]?) = cs.map some := by
  induction cs generalizing ds with
  | nil =>
    cases h
    exact ⟨by simp, rfl⟩
  | cons c cs ih =>
    rw [List.mapM_cons] at h
    obtain ⟨d, hd, h⟩ := Option.bind_eq_some_iff.mp h
    obtain ⟨ds', hds, h⟩ := Option.bind_eq_some_iff.mp h
    cases h
    obtain ⟨hlt, hmap⟩ := ih hds
    refine ⟨?_, by rw [List.map_cons, List.map_cons, getElem?_of_digit hd, hmap]⟩
    rintro e he
    rcases List.mem_cons.mp he with rfl | he
    · exact digit_lt hd
    · exact hlt e he

/-! ## Bytes determine the digits -/

theorem takeWhile_digitsToBytes (z n : Nat) :
    ((List.replicate z 0 ++ toBytes n).takeWhile fun c => c = 0) = List.replicate z 0 := by
  induction z with
  | zero =>
    rw [List.replicate_zero, List.nil_append]
    cases hb : toBytes n with
    | nil => rfl
    | cons c rest =>
      have hc : c ≠ 0 := head_toBytes_ne_zero hb
      rw [List.takeWhile_cons, if_neg (by simpa using hc)]
  | succ z ih =>
    rw [List.replicate_succ, List.cons_append, List.takeWhile_cons, if_pos (by simp), ih]

theorem ofDigits_append_zeros (z : Nat) (ds : List Nat) :
    Nat.ofDigits 58 (ds ++ List.replicate z 0) = Nat.ofDigits 58 ds := by
  rw [Nat.ofDigits_append, Nat.ofDigits_replicate_zero, Nat.mul_zero, Nat.add_zero]

theorem eq_replicate_append_digits {ds : List Nat} (h : ∀ d ∈ ds, d < 58) :
    ds = List.replicate (ds.takeWhile fun d => d = 0).length 0
      ++ (Nat.digits 58 (Nat.ofDigits 58 ds.reverse)).reverse := by
  induction ds with
  | nil => rfl
  | cons d ds ih =>
    by_cases hd : d = 0
    · subst hd
      have hrec := ih fun e he => h e (List.mem_cons_of_mem _ he)
      rw [List.takeWhile_cons, if_pos (by simp), List.length_cons, List.replicate_succ,
        List.cons_append, List.reverse_cons, ← List.replicate_one, ofDigits_append_zeros, ← hrec]
    · rw [List.takeWhile_cons, if_neg (by simpa using hd), List.length_nil, List.replicate_zero,
        List.nil_append, Nat.digits_ofDigits 58 (by decide) _
          (fun e he => h e (List.mem_reverse.mp he)) (by simpa using hd), List.reverse_reverse]

theorem digitsToBytes_injective {ds es : List Nat} (hds : ∀ d ∈ ds, d < 58)
    (hes : ∀ e ∈ es, e < 58) (h : digitsToBytes ds = digitsToBytes es) : ds = es := by
  have hz := congrArg (fun b => (b.takeWhile fun c => c = 0).length) h
  simp only [digitsToBytes, takeWhile_digitsToBytes, List.length_replicate] at hz
  have hn : Nat.ofDigits 58 ds.reverse = Nat.ofDigits 58 es.reverse := by
    unfold digitsToBytes at h
    rw [hz] at h
    exact toBytes_injective (List.append_cancel_left h)
  rw [eq_replicate_append_digits hds, eq_replicate_append_digits hes, hz, hn]

/-- **Decoding is injective on the texts it accepts.** -/
theorem decode_injective {s t : String} (hs : decode s ≠ []) (h : decode s = decode t) : s = t := by
  have ht : decode t ≠ [] := h ▸ hs
  unfold decode decodeChars at hs ht h
  split at hs
  · exact absurd rfl hs
  next ds hds =>
  split at ht
  · exact absurd rfl ht
  next es hes =>
  simp only [hds, hes] at h
  obtain ⟨hdlt, hdmap⟩ := mapM_digit hds
  obtain ⟨helt, hemap⟩ := mapM_digit hes
  have heq := digitsToBytes_injective hdlt helt h
  rw [heq, hemap] at hdmap
  exact String.ext (List.map_injective_iff.mpr (Option.some_injective _) hdmap.symm)

end Base58
