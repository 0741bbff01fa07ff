import Mathlib.Data.Nat.Digits.Lemmas

/-!
# Big-endian bytes of a natural number

`toBytes n` is the shortest big-endian byte string of `n`: no leading zero byte, and the empty
string for `0`. `toNat` reads any byte string, leading zeros included. `fixed k n` is `n` in `k` bytes.
The digits are Mathlib's `Nat.digits 256`, turned around.
-/

namespace BigEndian

abbrev Bytes := List UInt8

/-- The shortest big-endian byte string of `n`. -/
def toBytes (n : Nat) : Bytes := ((Nat.digits 256 n).map UInt8.ofNat).reverse

/-- The number a big-endian byte string stands for. -/
def toNat (bs : Bytes) : Nat := bs.foldl (fun v c => v * 256 + c.toNat) 0

/-! ## Reading -/

@[simp] theorem toNat_nil : toNat [] = 0 := rfl

@[simp] theorem toNat_append_singleton (bs : Bytes) (c : UInt8) :
    toNat (bs ++ [c]) = toNat bs * 256 + c.toNat := by
  simp [toNat]

theorem toNat_eq_ofDigits (bs : Bytes) :
    toNat bs = Nat.ofDigits 256 (bs.reverse.map UInt8.toNat) := by
  induction bs using List.reverseRecOn with
  | nil => rfl
  | append_singleton bs c ih =>
    rw [toNat_append_singleton, ih, List.reverse_append, List.reverse_singleton,
      List.singleton_append, List.map_cons, Nat.ofDigits_cons]
    ring

/-- A string of `k` bytes stands for a number below `256 ^ k`. -/
theorem toNat_lt (bs : Bytes) : toNat bs < 256 ^ bs.length := by
  induction bs using List.reverseRecOn with
  | nil => decide
  | append_singleton bs c ih =>
    have hc : c.toNat < 256 := c.toNat_lt
    rw [toNat_append_singleton, List.length_append, List.length_singleton]
    omega

/-! ## Writing -/

@[simp] theorem toBytes_zero : toBytes 0 = [] := by simp [toBytes]

variable {n k : Nat}

theorem toBytes_of_pos (h : 0 < n) : toBytes n = toBytes (n / 256) ++ [UInt8.ofNat (n % 256)] := by
  simp only [toBytes]
  rw [Nat.digits_def' (by decide) h, List.map_cons, List.reverse_cons]

theorem map_toNat_map_ofNat {l : List Nat} (h : ∀ d ∈ l, d < 256) :
    (l.map UInt8.ofNat).map UInt8.toNat = l := by
  induction l with
  | nil => rfl
  | cons d l ih =>
    have hd : d < 256 := h d List.mem_cons_self
    rw [List.map_cons, List.map_cons, ih fun e he => h e (List.mem_cons_of_mem _ he)]
    simp [Nat.mod_eq_of_lt hd]

/-- **Reading back what was written.** -/
@[simp] theorem toNat_toBytes (n : Nat) : toNat (toBytes n) = n := by
  rw [toNat_eq_ofDigits, toBytes, List.reverse_reverse,
    map_toNat_map_ofNat fun d hd => Nat.digits_lt_base (by decide) hd, Nat.ofDigits_digits]

theorem toBytes_injective : Function.Injective toBytes :=
  Function.LeftInverse.injective toNat_toBytes

theorem toBytes_ne_nil (h : n ≠ 0) : toBytes n ≠ [] := by
  intro he
  apply h
  rw [← toNat_toBytes n, he, toNat_nil]

theorem head_toBytes_ne_zero {b : UInt8} {bs : Bytes} (h : toBytes n = b :: bs) : b ≠ 0 := by
  have hn : n ≠ 0 := by
    intro hz
    rw [hz] at h
    simp at h
  have hd : Nat.digits 256 n ≠ [] := Nat.digits_ne_nil_iff_ne_zero.mpr hn
  have hlast := Nat.getLast_digit_ne_zero 256 hn
  have hlt : (Nat.digits 256 n).getLast hd < 256 :=
    Nat.digits_lt_base (by decide) (List.getLast_mem hd)
  have hb : b = UInt8.ofNat ((Nat.digits 256 n).getLast hd) := by
    have hh := congrArg List.head? h
    rw [toBytes, List.head?_reverse, List.getLast?_map, List.getLast?_eq_getLast_of_ne_nil hd] at hh
    simpa using hh.symm
  intro hz
  apply hlast
  have := congrArg UInt8.toNat (hb.symm.trans hz)
  simpa [Nat.mod_eq_of_lt hlt] using this

theorem length_toBytes_le_iff : (toBytes n).length ≤ k ↔ n < 256 ^ k := by
  rw [toBytes, List.length_reverse, List.length_map]
  exact Nat.digits_length_le_iff (by decide) n

/-! ## A fixed number of bytes -/

/-- The last `k` big-endian bytes of `n`. -/
def fixed : Nat → Nat → Bytes
  | 0, _ => []
  | k + 1, n => fixed k (n / 256) ++ [UInt8.ofNat (n % 256)]

@[simp] theorem length_fixed (k n : Nat) : (fixed k n).length = k := by
  induction k generalizing n with
  | zero => rfl
  | succ k ih => rw [fixed, List.length_append, ih, List.length_singleton]

theorem toNat_fixed (h : n < 256 ^ k) : toNat (fixed k n) = n := by
  induction k generalizing n with
  | zero =>
    obtain rfl : n = 0 := by simpa using h
    rfl
  | succ k ih =>
    have hdiv : n / 256 < 256 ^ k := by
      rw [Nat.div_lt_iff_lt_mul (by decide)]
      rwa [Nat.pow_succ] at h
    have hmod : n % 256 < 256 := Nat.mod_lt n (by decide)
    rw [fixed, toNat_append_singleton, ih hdiv, UInt8.toNat_ofNat']
    omega

/-- A string of `k` bytes is the one for the number it stands for. -/
theorem fixed_toNat (bs : Bytes) : fixed bs.length (toNat bs) = bs := by
  induction bs using List.reverseRecOn with
  | nil => rfl
  | append_singleton bs c ih =>
    have hc : c.toNat < 256 := c.toNat_lt
    have hdiv : (toNat bs * 256 + c.toNat) / 256 = toNat bs := by omega
    have hmod : (toNat bs * 256 + c.toNat) % 256 = c.toNat := by omega
    rw [List.length_append, List.length_singleton, fixed, toNat_append_singleton, hdiv, hmod, ih,
      UInt8.ofNat_toNat]

theorem toNat_cons (b : UInt8) (bs : Bytes) :
    toNat (b :: bs) = b.toNat * 256 ^ bs.length + toNat bs := by
  induction bs using List.reverseRecOn with
  | nil => simp [toNat]
  | append_singleton bs c ih =>
    rw [← List.cons_append, toNat_append_singleton, toNat_append_singleton, ih, List.length_append,
      List.length_singleton]
    ring

/-- A string without a leading zero is the shortest one for the number it stands for. -/
theorem toBytes_toNat {b : UInt8} {bs : Bytes} (h : b ≠ 0) :
    toBytes (toNat (b :: bs)) = b :: bs := by
  have hb : 0 < b.toNat := by
    rcases Nat.eq_zero_or_pos b.toNat with hz | hpos
    · exact absurd (UInt8.toNat_inj.mp hz) h
    · exact hpos
  have hge : 256 ^ bs.length ≤ toNat (b :: bs) := by
    rw [toNat_cons]
    exact Nat.le_add_right_of_le (Nat.le_mul_of_pos_left _ hb)
  have hlen : (toBytes (toNat (b :: bs))).length = (b :: bs).length := by
    have hle := length_toBytes_le_iff.mpr (toNat_lt (b :: bs))
    have hgt : ¬(toBytes (toNat (b :: bs))).length ≤ bs.length := by
      rw [length_toBytes_le_iff]
      omega
    rw [List.length_cons] at hle ⊢
    omega
  rw [← fixed_toNat (toBytes _), hlen, toNat_toBytes, fixed_toNat]

theorem toBytes_toNat_eq_iff {bs : Bytes} : toBytes (toNat bs) = bs ↔ bs.head? ≠ some 0 := by
  cases bs with
  | nil => simp
  | cons =>
    rw [List.head?_cons, ne_eq, Option.some_inj]
    constructor
    · rintro h rfl
      exact head_toBytes_ne_zero h rfl
    · exact toBytes_toNat

theorem fixed_inj {m : Nat} (hm : m < 256 ^ k) (hn : n < 256 ^ k) (h : fixed k m = fixed k n) :
    m = n := by
  rw [← toNat_fixed hm, h, toNat_fixed hn]

end BigEndian
