import OpenFireblocks.Lib.BigEndian
import OpenFireblocks.Lib.Outcome

/-!
# Go at run time

The parts of the language every module uses: 64-bit integers, byte slices, hex strings, and how a call
ends. It ends in a value, an `error` it returns, a panic, the run-time running out of room, or not at
all because it waits for a mutex that nobody will release. The last four are a `Fault`, kept apart
because a caller handles an `error` and not the others.
-/

namespace OpenFireblocks.Go

open BigEndian Outcome

/-- How a call ends when it does not return a value. -/
inductive Fault where
  | error (msg : String)
  | panic (msg : String)
  | outOfMemory
  | deadlock
deriving DecidableEq

/-- What a call gives back. -/
abbrev Result := Except Fault

/-- `fmt.Errorf` returned to the caller. -/
def errorf {α : Type} (msg : String) : Result α := .error (.error msg)

variable {α : Type}

@[simp] theorem errorf_ne_ok {msg : String} {a : α} : errorf msg ≠ .ok a := by
  simp [errorf]

theorem ite_errorf_eq_ok {p : Prop} [Decidable p] {msg : String} {x : Result α} {a : α} :
    (if p then errorf msg else x) = .ok a ↔ ¬p ∧ x = .ok a :=
  ite_error_eq_ok

/-- `fmt.Errorf("...: %w", err)` around the error of a call. -/
def wrapError {α : Type} (context : String) : Result α → Result α
  | .error (.error msg) => errorf (context ++ msg)
  | r => r

variable {x : Result α}

@[simp] theorem wrapError_eq_ok {context : String} {a : α} :
    wrapError context x = .ok a ↔ x = .ok a := by
  rcases x with (msg | msg | _ | _) | b <;> simp [wrapError]

/-- The call returns, with a value or with an error. It cannot be asked more of one that builds a
slice of `2 ^ 63` bytes: no process has the memory to get there. -/
def Returns {α : Type} : Result α → Prop
  | .ok _ | .error (.error _) | .error .outOfMemory => True
  | .error (.panic _) | .error .deadlock => False

@[simp] theorem returns_ok (a : α) : Returns (.ok a : Result α) := trivial

@[simp] theorem returns_pure (a : α) : Returns (pure a : Result α) := trivial

@[simp] theorem returns_errorf (msg : String) : Returns (errorf msg : Result α) := trivial

theorem returns_bind {β : Type} {f : α → Result β} :
    Returns (x >>= f) ↔ Returns x ∧ ∀ a, x = .ok a → Returns (f a) := by
  cases x with
  | ok a =>
    constructor
    · intro h
      refine ⟨trivial, fun b hb => ?_⟩
      rwa [← Except.ok.inj hb]
    · intro h
      exact h.2 a rfl
  | error e =>
    have hbind : (Except.error e : Result α) >>= f = .error e := rfl
    constructor
    · intro h
      refine ⟨?_, fun a ha => by cases ha⟩
      cases e <;> exact h
    · rintro ⟨h, -⟩
      cases e <;> exact h

@[simp] theorem returns_wrapError {context : String} :
    Returns (wrapError context x) ↔ Returns x := by
  rcases x with (msg | msg | _ | _) | b <;> exact Iff.rfl

/-! ## Integers -/

/-- The `int64` (and `int`) that arithmetic modulo `2 ^ 64` leaves. -/
def wrap64 (x : Int) : Int := Int.bmod x (2 ^ 64)

/-- The values of an `int64`. -/
def InInt64 (x : Int) : Prop := -2 ^ 63 ≤ x ∧ x < 2 ^ 63

instance (x : Int) : Decidable (InInt64 x) := inferInstanceAs (Decidable (_ ∧ _))

theorem wrap64_of_inInt64 {x : Int} (h : InInt64 x) : wrap64 x = x := by
  obtain ⟨h1, h2⟩ := h
  exact Int.bmod_eq_of_le (by norm_num; omega) (by norm_num; omega)

theorem wrap64_of_nonneg {x : Int} (h0 : 0 ≤ x) (h : x < 2 ^ 63) : wrap64 x = x :=
  wrap64_of_inInt64 ⟨by omega, h⟩

theorem inInt64_wrap64 (x : Int) : InInt64 (wrap64 x) := by
  unfold wrap64 InInt64
  rw [Int.bmod_def]
  split <;> omega

/-- An `int64` is what `x` wraps to if it differs from `x` by a multiple of `2 ^ 64`. -/
theorem wrap64_eq_iff {x y : Int} (hy : InInt64 y) : wrap64 x = y ↔ 2 ^ 64 ∣ x - y := by
  rw [wrap64, Int.bmod_def]
  obtain ⟨h1, h2⟩ := hy
  split <;> omega

/-! Wrapping early and wrapping late is the same. -/

@[simp] theorem wrap64_wrap64_add (x y : Int) : wrap64 (wrap64 x + y) = wrap64 (x + y) :=
  Int.bmod_add_bmod

@[simp] theorem wrap64_add_wrap64 (x y : Int) : wrap64 (x + wrap64 y) = wrap64 (x + y) :=
  Int.add_bmod_bmod

@[simp] theorem wrap64_wrap64_mul (x y : Int) : wrap64 (wrap64 x * y) = wrap64 (x * y) :=
  Int.bmod_mul_bmod

/-! ## Slices -/

/-- `b[lo:hi]`. -/
def slice (b : Bytes) (lo hi : Nat) : Result Bytes :=
  if lo ≤ hi ∧ hi ≤ b.length then .ok ((b.take hi).drop lo)
  else .error (.panic "slice bounds out of range")

/-- `b[i]`. -/
def index (b : Bytes) (i : Nat) : Result UInt8 :=
  match b[i]? with
  | some c => .ok c
  | none => .error (.panic "index out of range")

theorem slice_append {x y z : Bytes} :
    slice (x ++ y ++ z) x.length (x.length + y.length) = .ok y := by
  unfold slice
  rw [if_pos (by simp only [List.length_append]; omega)]
  congr 1
  rw [← List.length_append, List.take_left, List.drop_left]

/--
A byte string the code built by appending. The length of a slice is an `int`, so no run gets past
building a longer one.
-/
def alloc (b : Bytes) : Result Bytes :=
  if b.length < 2 ^ 63 then .ok b else .error .outOfMemory

theorem alloc_eq_ok {b b' : Bytes} : alloc b = .ok b' ↔ b.length < 2 ^ 63 ∧ b = b' := by
  unfold alloc
  split
  · next h => exact ⟨fun he => ⟨h, Except.ok.inj he⟩, fun he => congrArg Except.ok he.2⟩
  · next h => exact ⟨fun he => by simp at he, fun he => absurd he.1 h⟩

@[simp] theorem returns_alloc (b : Bytes) : Returns (alloc b) := by
  unfold alloc
  split <;> trivial

/-! ## Hex -/

def hexValue (c : Char) : Option UInt8 :=
  if '0' ≤ c ∧ c ≤ '9' then some (UInt8.ofNat (c.toNat - 0x30))
  else if 'a' ≤ c ∧ c ≤ 'f' then some (UInt8.ofNat (c.toNat - 0x61 + 10))
  else if 'A' ≤ c ∧ c ≤ 'F' then some (UInt8.ofNat (c.toNat - 0x41 + 10))
  else none

def hexDigit (n : UInt8) : Char :=
  if n < 10 then Char.ofNat (0x30 + n.toNat) else Char.ofNat (0x61 + n.toNat - 10)

def hexDecodeChars : List Char → Option Bytes
  | [] => some []
  | [_] => none
  | hi :: lo :: rest =>
    match hexValue hi, hexValue lo, hexDecodeChars rest with
    | some h, some l, some bs => some ((h * 16 + l) :: bs)
    | _, _, _ => none

/-- `hex.DecodeString`, with `none` for its two errors (a character that is no hex digit, an odd
number of characters). -/
def hexDecodeString (s : String) : Option Bytes := hexDecodeChars s.toList

/-- `hex.EncodeToString`. -/
def hexEncodeToString (b : Bytes) : String :=
  String.ofList (b.flatMap fun c => [hexDigit (c / 16), hexDigit (c % 16)])

/-- `strip0x` of `chains/cosmos.go`, and the same two lines of `ParseAddress`. -/
def strip0x (s : String) : String :=
  match s.toList with
  | '0' :: 'x' :: rest => String.ofList rest
  | '0' :: 'X' :: rest => String.ofList rest
  | _ => s

end OpenFireblocks.Go
