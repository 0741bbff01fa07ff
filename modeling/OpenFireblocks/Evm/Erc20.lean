import OpenFireblocks.Go.Hex

/-!
# ERC-20 calldata, as `keys/erc20.ts` reads and writes it

An ERC-20 transfer puts the recipient and the amount inside the calldata. The gateway reads them
from the text of the request and refuses what it does not know; the signer turns the same text into
the bytes that are signed. `tokenCall` is what the bytes mean; `tokenCall_of_decodeErc20Call` and
`tokenCall_of_encodeTransfer` tie the text to them.

An amount is a base-10 string in the source; it is a `Nat` here.
-/

namespace OpenFireblocks.Evm

open BigEndian Go Outcome

/-! ## Addresses -/

/-- The digits of a text that may start with `0x`. -/
def digitsOf : List Char → List Char
  | '0' :: 'x' :: rest => rest
  | text => text

def addressOf (text : String) : Option Bytes :=
  match hexDecodeChars (digitsOf text.toList) with
  | some b => if b.length = 20 then some b else none
  | none => none

/-- The text of a byte string: `0x` and lower-case hex. -/
def hexText (b : Bytes) : String := String.ofList ('0' :: 'x' :: hexChars b)

@[simp] theorem toList_hexText (b : Bytes) : (hexText b).toList = '0' :: 'x' :: hexChars b :=
  String.toList_ofList

/-- The functions of ethers that read the text of an address or of calldata. An error is the message
of what they throw. -/
structure EthersLib where
  /-- The checksummed spelling of an address. -/
  getAddress : String → Except String String
  /-- The bytes a transaction has for the text of its calldata. -/
  getBytes : String → Except String Bytes
  /-- The result spells an address, and the same one as a text in hex. -/
  getAddress_spells : ∀ {text result}, getAddress text = .ok result → ∃ addr body,
    result.toList = '0' :: 'x' :: body ∧ hexDecodeChars body = some addr ∧ addr.length = 20 ∧
    ∀ b ∈ addressOf text, b = addr
  /-- Lower case needs no checksum. -/
  getAddress_lower : ∀ addr : Bytes, addr.length = 20 → ∃ result,
    getAddress (hexText addr) = .ok result
  getBytes_hex : ∀ {text body data}, text.toList = '0' :: 'x' :: body →
    hexDecodeChars body = some data → getBytes text = .ok data

section

variable (lib : EthersLib)

/-! ## Calldata -/

def selectorTransfer : String := "0xa9059cbb"
def selectorTransferFrom : String := "0x23b872dd"
def selectorApprove : String := "0x095ea7b3"

inductive Erc20Method where
  | transfer
  | transferFrom
  | approve
deriving DecidableEq

structure Erc20Call where
  method : Erc20Method
  /-- Checksummed. -/
  recipient : String
  /-- `from`: the account a `transferFrom` debits. -/
  fromAccount : Option String
  amount : Nat
  isAllowance : Bool
deriving DecidableEq

def hasCalldata (data : Option String) : Bool :=
  data ≠ none ∧ data ≠ some "" ∧ data ≠ some "0x"

/-- `/^0x([0-9a-fA-F]{2})*$/`. -/
def isHex : List Char → Bool
  | '0' :: 'x' :: body => body.all (fun c => (hexValue c).isSome) && body.length % 2 == 0
  | _ => false

/-- The 32-byte words after the selector, by their index. -/
def words (hex : List Char) (expected : Nat) : Except String (Nat → List Char) :=
  let body := hex.drop 10
  if body.length ≠ expected * 64 then
    .error s!"expected {expected} argument word(s) after the selector, got {body.length / 2} bytes"
  else .ok fun i => (body.drop (i * 64)).take 64

def addressFromWord (word : List Char) (what : String) : Except String String :=
  let padding := word.take 24
  if padding ≠ List.replicate 24 '0' then
    .error (s!"the {what} argument has a non-zero high-order prefix (0x" ++ String.ofList padding
      ++ "); this is not an ABI-encoded address")
  else if word.drop 24 = List.replicate 40 '0' then
    .error s!"the {what} is the zero address; a transfer there burns the tokens irrecoverably"
  else
    match lib.getAddress (String.ofList ('0' :: 'x' :: word.drop 24)) with
    | .ok address => .ok address
    | .error _ => .error s!"the {what} argument is not a valid address"

/-- Reads calldata, or says why it cannot. `none` is a native transfer. -/
def decodeErc20Call (data : Option String) : Except String (Option Erc20Call) :=
  if ¬ hasCalldata data then .ok none
  else
    let hex := (data.getD "").toList
    if ¬ isHex hex then .error "calldata is not 0x-prefixed hex of whole bytes"
    else if hex.length < 10 then
      .error (s!"calldata is {(hex.length - 2) / 2} bytes; "
        ++ "a contract call is at least a 4-byte selector")
    else
      let selector := String.ofList ((hex.take 10).map Char.toLower)
      if selector = selectorTransfer then do
        let word ← words hex 2
        let recipient ← addressFromWord lib (word 0) "recipient"
        return some ⟨.transfer, recipient, none, hexNat (word 1), false⟩
      else if selector = selectorTransferFrom then do
        let word ← words hex 3
        let source ← addressFromWord lib (word 0) "source account"
        let recipient ← addressFromWord lib (word 1) "recipient"
        return some ⟨.transferFrom, recipient, some source, hexNat (word 2), false⟩
      else if selector = selectorApprove then do
        let word ← words hex 2
        let spender ← addressFromWord lib (word 0) "spender"
        return some ⟨.approve, spender, none, hexNat (word 1), true⟩
      else
        .error (s!"unrecognised contract call {selector}. The platform can only evaluate "
          ++ "transfer, transferFrom and approve against policy; anything else would be "
          ++ "signed without any control having read what it does")

def padWord (hex : List Char) : List Char := List.replicate (64 - hex.length) '0' ++ hex

/-- `value.toString(16)` of a positive value. -/
def toHexDigits (n : Nat) : List Char :=
  ((Nat.digits 16 n).map fun d => hexDigit (UInt8.ofNat d)).reverse

def encodeTransfer (recipient : String) (amount : Nat) : Except String String :=
  match lib.getAddress recipient with
  | .error _ => .error s!"{recipient} is not a valid Ethereum address"
  | .ok checksummed =>
    if checksummed.toList = '0' :: 'x' :: List.replicate 40 '0' then
      .error "refusing to transfer to the zero address; the tokens would be irrecoverable"
    else if amount = 0 then .error "amount must be greater than zero"
    else if 2 ^ 256 ≤ amount then .error "amount does not fit in uint256"
    else
      .ok (selectorTransfer
        ++ String.ofList (padWord ((checksummed.toList.drop 2).map Char.toLower))
        ++ String.ofList (padWord (toHexDigits amount)))

def decimal (digits : List Char) : Nat := digits.foldl (fun n c => n * 10 + (c.toNat - 0x30)) 0

/--
The base units of a decimal amount. More decimal places than the token has are refused, not
rounded.
-/
def parseUnits (amount : String) (decimals : Nat) : Except String Nat :=
  let whole := amount.toList.takeWhile (· ≠ '.')
  let rest := amount.toList.dropWhile (· ≠ '.')
  let frac := rest.drop 1
  if whole.isEmpty ∨ ¬ whole.all Char.isDigit ∨ ¬ frac.all Char.isDigit
      ∨ (¬ rest.isEmpty ∧ frac.isEmpty) then
    .error (s!"amount {amount} must be a non-negative decimal number "
      ++ "with no sign, exponent or separators")
  else if decimals < frac.length then
    .error (s!"amount {amount} has {frac.length} decimal places but this token has {decimals}; "
      ++ "the extra precision cannot be represented and will not be rounded away silently")
  else
    let base := decimal (whole ++ frac ++ List.replicate (decimals - frac.length) '0')
    if base = 0 then .error "amount must be greater than zero" else .ok base

/-! ## What the bytes mean -/

/-- What a token call moves: the address it pays or authorises, and the base units. -/
structure TokenCall where
  recipient : Bytes
  amount : Nat

def abiAddress (word : Bytes) : Option Bytes :=
  if word.take 12 = List.replicate 12 0 ∧ word.drop 12 ≠ List.replicate 20 0 then
    some (word.drop 12)
  else none

/-- The `i`-th argument of a call. -/
def abiWord (data : Bytes) (i : Nat) : Bytes := ((data.drop 4).drop (i * 32)).take 32

/-- The token call some bytes are: the selector, then exactly the arguments it takes. -/
def tokenCall (data : Bytes) : Option TokenCall :=
  if data.take 4 = [0xa9, 0x05, 0x9c, 0xbb] ∧ data.length = 4 + 2 * 32
      ∨ data.take 4 = [0x09, 0x5e, 0xa7, 0xb3] ∧ data.length = 4 + 2 * 32 then
    match abiAddress (abiWord data 0) with
    | some recipient => some ⟨recipient, toNat (abiWord data 1)⟩
    | none => none
  else if data.take 4 = [0x23, 0xb8, 0x72, 0xdd] ∧ data.length = 4 + 3 * 32 then
    match abiAddress (abiWord data 0), abiAddress (abiWord data 1) with
    | some _, some recipient => some ⟨recipient, toNat (abiWord data 2)⟩
    | _, _ => none
  else none

end

/-! ## Spellings of an address -/

variable {lib : EthersLib} {text : String} {addr : Bytes}

theorem addressOf_eq_some (h : addressOf text = some addr) :
    hexDecodeChars (digitsOf text.toList) = some addr ∧ addr.length = 20 := by
  unfold addressOf at h
  split at h
  · next b hb =>
    split at h
    · next hlen =>
      cases h
      exact ⟨hb, hlen⟩
    · cases h
  · cases h

theorem addressOf_of_digits {body : List Char} (htext : text.toList = '0' :: 'x' :: body)
    (hdec : hexDecodeChars body = some addr) (h : addr.length = 20) :
    addressOf text = some addr := by
  simp [addressOf, htext, digitsOf, hdec, h]

theorem addressOf_hexText (h : addr.length = 20) : addressOf (hexText addr) = some addr :=
  addressOf_of_digits (toList_hexText addr) (hexDecodeChars_hexChars addr) h

theorem addressOf_getAddress {address : String} (ht : addressOf text = some addr)
    (h : lib.getAddress text = .ok address) : addressOf address = some addr := by
  obtain ⟨addr', body, hbody, hdec, hlen, hsame⟩ := lib.getAddress_spells h
  obtain rfl := hsame addr ht
  exact addressOf_of_digits hbody hdec hlen

/-! ## From the text of a call to its bytes -/

theorem exists_of_isHex {hex : List Char} (h : isHex hex) :
    ∃ body bs, hex = '0' :: 'x' :: body ∧ hexDecodeChars body = some bs := by
  unfold isHex at h
  split at h
  · next body =>
    simp only [Bool.and_eq_true, beq_iff_eq] at h
    obtain ⟨bs, hbs⟩ := exists_hexDecodeChars.mpr h
    exact ⟨body, bs, rfl, hbs⟩
  · cases h

theorem toLower_eq_zero {c : Char} (h : c.toLower = '0') : c = '0' := by
  unfold Char.toLower at h
  split at h
  · next hc =>
    have hv := congrArg Char.toNat h
    have h1 : 65 ≤ c.toNat := hc.1
    have h2 : c.toNat ≤ 90 := hc.2
    simp at hv
    omega
  · exact h

section

variable {body : List Char} {bs : Bytes} (hbs : hexDecodeChars body = some bs)
include hbs

theorem eq_replicate_zero_iff (n : Nat) :
    body = List.replicate (2 * n) '0' ↔ bs = List.replicate n 0 := by
  have hzeros : hexChars (List.replicate n 0) = List.replicate (2 * n) '0' := by
    induction n with
    | zero => rfl
    | succ n ih =>
      simp only [List.replicate_succ, hexChars_cons, ih]
      rfl
  constructor
  · intro h
    rw [h, ← hzeros, hexDecodeChars_hexChars] at hbs
    exact (Option.some.inj hbs).symm
  · intro h
    have hlow := hexChars_of_hexDecodeChars hbs
    rw [h, hzeros] at hlow
    refine List.eq_replicate_iff.mpr ⟨by simpa using (congrArg List.length hlow).symm, ?_⟩
    intro c hc
    have := List.mem_map_of_mem (f := Char.toLower) hc
    rw [← hlow] at this
    exact toLower_eq_zero (List.eq_of_mem_replicate this)

theorem take_four_of_selector {selector : String} {s : Bytes}
    (hs : selector.toList = '0' :: 'x' :: hexChars s)
    (h : String.ofList ((('0' :: 'x' :: body).take 10).map Char.toLower) = selector) :
    bs.take 4 = s := by
  have htext := congrArg String.toList h
  rw [String.toList_ofList, hs] at htext
  simp only [List.take_succ_cons, List.map_cons, List.cons.injEq] at htext
  have hcut := (hexDecodeChars_cut 4 hbs).1
  have hchars : hexChars (bs.take 4) = hexChars s :=
    (hexChars_of_hexDecodeChars hcut).trans htext.2.2
  have := congrArg hexDecodeChars hchars
  simpa using this

theorem words_eq_ok {k : Nat} {word : Nat → List Char} (hlen : 8 ≤ body.length)
    (h : words ('0' :: 'x' :: body) k = .ok word) :
    bs.length = 4 + k * 32 ∧ ∀ i, hexDecodeChars (word i) = some (abiWord bs i) := by
  unfold words at h
  simp only [List.drop_succ_cons] at h
  split at h
  · cases h
  next hk =>
  cases h
  have hargs := (hexDecodeChars_cut 4 hbs).2
  have hl := length_of_hexDecodeChars hbs
  simp only [List.length_drop] at hk
  refine ⟨by omega, fun i => ?_⟩
  have hi := (hexDecodeChars_cut (i * 32) hargs).2
  rw [show 2 * (i * 32) = i * 64 from by omega] at hi
  exact (hexDecodeChars_cut 32 hi).1

theorem addressFromWord_eq_ok {what address : String} (hlen : bs.length = 32)
    (h : addressFromWord lib body what = .ok address) :
    ∃ addr, abiAddress bs = some addr ∧ addressOf address = some addr := by
  obtain ⟨hpad, haddr⟩ := hexDecodeChars_cut 12 hbs
  simp only [addressFromWord, ite_error_eq_ok] at h
  obtain ⟨hp, hz, h⟩ := h
  split at h
  · next a ha =>
    cases h
    have hl : (bs.drop 12).length = 20 := by simp [hlen]
    refine ⟨bs.drop 12, ?_,
      addressOf_getAddress (addressOf_of_digits String.toList_ofList haddr hl) ha⟩
    rw [abiAddress, if_pos]
    refine ⟨(eq_replicate_zero_iff hpad 12).mp (Decidable.not_not.mp hp), fun hzero => hz ?_⟩
    exact (eq_replicate_zero_iff haddr 20).mpr hzero
  · cases h

end

theorem length_abiWord {data : Bytes} {k i : Nat} (h : data.length = 4 + k * 32) (hi : i < k) :
    (abiWord data i).length = 32 := by
  simp only [abiWord, List.length_take, List.length_drop]
  omega

def Erc20Method.selector : Erc20Method → Bytes
  | .transfer => [0xa9, 0x05, 0x9c, 0xbb]
  | .transferFrom => [0x23, 0xb8, 0x72, 0xdd]
  | .approve => [0x09, 0x5e, 0xa7, 0xb3]

def Erc20Method.arity : Erc20Method → Nat
  | .transferFrom => 3
  | _ => 2

/-- The call is what the bytes say. -/
structure Erc20Call.ReadFrom (call : Erc20Call) (bs : Bytes) : Prop where
  selector : bs.take 4 = call.method.selector
  length : bs.length = 4 + call.method.arity * 32
  source : call.fromAccount.isSome = (call.method = .transferFrom) ∧ ∀ s ∈ call.fromAccount,
    ∃ addr, abiAddress (abiWord bs 0) = some addr ∧ addressOf s = some addr
  recipient : ∃ addr, abiAddress (abiWord bs (call.method.arity - 2)) = some addr ∧
    addressOf call.recipient = some addr
  amount : call.amount = toNat (abiWord bs (call.method.arity - 1))
  isAllowance : call.isAllowance = (call.method = .approve)

variable {call : Erc20Call}

theorem decodeErc20Call_eq_ok (h : decodeErc20Call lib (some text) = .ok (some call)) :
    ∃ body bs, text.toList = '0' :: 'x' :: body ∧ hexDecodeChars body = some bs ∧
      call.ReadFrom bs := by
  unfold decodeErc20Call at h
  split at h
  · cases h
  simp only [Option.getD_some] at h
  split at h
  · cases h
  next hhex =>
  split at h
  · cases h
  next hlen =>
  obtain ⟨body, bs, htext, hbs⟩ := exists_of_isHex (Decidable.not_not.mp hhex)
  rw [htext] at h hlen
  have hlen8 : 8 ≤ body.length := by
    simp only [List.length_cons] at hlen
    omega
  refine ⟨body, bs, htext, hbs, ?_⟩
  split at h
  · next hsel =>
    obtain ⟨word, hw, h⟩ := bind_eq_ok.mp h
    obtain ⟨recipient, hr, h⟩ := bind_eq_ok.mp h
    cases h
    obtain ⟨hl, hword⟩ := words_eq_ok hbs hlen8 hw
    exact ⟨take_four_of_selector hbs rfl hsel, hl, by simp,
      addressFromWord_eq_ok (hword 0) (length_abiWord hl (by decide)) hr, hexNat_eq (hword 1),
      by simp⟩
  split at h
  · next hsel =>
    obtain ⟨word, hw, h⟩ := bind_eq_ok.mp h
    obtain ⟨source, hs, h⟩ := bind_eq_ok.mp h
    obtain ⟨recipient, hr, h⟩ := bind_eq_ok.mp h
    cases h
    obtain ⟨hl, hword⟩ := words_eq_ok hbs hlen8 hw
    refine ⟨take_four_of_selector hbs rfl hsel, hl, ⟨by simp, ?_⟩,
      addressFromWord_eq_ok (hword 1) (length_abiWord hl (by decide)) hr, hexNat_eq (hword 2),
      by simp⟩
    rintro s ⟨⟩
    exact addressFromWord_eq_ok (hword 0) (length_abiWord hl (by decide)) hs
  split at h
  · next hsel =>
    obtain ⟨word, hw, h⟩ := bind_eq_ok.mp h
    obtain ⟨spender, hr, h⟩ := bind_eq_ok.mp h
    cases h
    obtain ⟨hl, hword⟩ := words_eq_ok hbs hlen8 hw
    exact ⟨take_four_of_selector hbs rfl hsel, hl, by simp,
      addressFromWord_eq_ok (hword 0) (length_abiWord hl (by decide)) hr, hexNat_eq (hword 1),
      by simp⟩
  · cases h

/-- **The call the decoder reads in a text is the call its bytes make.** -/
theorem tokenCall_of_decodeErc20Call (h : decodeErc20Call lib (some text) = .ok (some call)) :
    ∃ body bs addr, text.toList = '0' :: 'x' :: body ∧ hexDecodeChars body = some bs ∧
      addressOf call.recipient = some addr ∧ tokenCall bs = some ⟨addr, call.amount⟩ := by
  obtain ⟨body, bs, htext, hbs, hread⟩ := decodeErc20Call_eq_ok h
  obtain ⟨addr, habi, haddr⟩ := hread.recipient
  refine ⟨body, bs, addr, htext, hbs, haddr, ?_⟩
  obtain ⟨hsel, hlen, ⟨hfrom, hsource⟩, -, hamount, -⟩ := hread
  rw [hamount]
  cases hm : call.method with
  | transfer =>
    rw [hm] at hsel hlen habi
    rw [tokenCall, if_pos (.inl ⟨hsel, hlen⟩), show abiAddress (abiWord bs 0) = _ from habi]
    rfl
  | transferFrom =>
    rw [hm] at hsel hlen habi
    obtain ⟨source, hs⟩ := Option.isSome_iff_exists.mp (hfrom.mpr hm)
    obtain ⟨_, hs, -⟩ := hsource source hs
    rw [tokenCall, if_neg (by simp [hsel, Erc20Method.selector]), if_pos ⟨hsel, hlen⟩, hs,
      show abiAddress (abiWord bs 1) = _ from habi]
    rfl
  | approve =>
    rw [hm] at hsel hlen habi
    rw [tokenCall, if_pos (.inr ⟨hsel, hlen⟩), show abiAddress (abiWord bs 0) = _ from habi]
    rfl

/-! ## The encoding of a call -/

def addressWord (text : String) : Bytes := List.replicate 12 0 ++ (addressOf text).getD []

/-- The selector, then 32 bytes for each argument. -/
def abiEncode (call : Erc20Call) : Bytes :=
  call.method.selector ++ (call.fromAccount.elim [] addressWord ++
    (addressWord call.recipient ++ fixed 32 call.amount))

theorem abiWord_eq_addressWord {bs : Bytes} {i : Nat} (habi : abiAddress (abiWord bs i) = some addr)
    (haddr : addressOf text = some addr) : abiWord bs i = addressWord text := by
  unfold abiAddress at habi
  split at habi
  · next hzero =>
    rw [addressWord, haddr, ← hzero.1, Option.getD_some, ← Option.some.inj habi,
      List.take_append_drop]
  · cases habi

theorem eq_words {bs : Bytes} {k : Nat} (h : bs.length = 4 + k * 32) :
    bs = bs.take 4 ++ (List.range k).flatMap (abiWord bs) := by
  have hwords : ∀ (k : Nat) (args : Bytes), args.length = k * 32 →
      (List.range k).flatMap (fun i => (args.drop (i * 32)).take 32) = args := by
    intro k
    induction k with
    | zero =>
      simp_all
    | succ k ih =>
      intro args hargs
      have hrest := ih (args.drop 32) (by rw [List.length_drop]; omega)
      simp only [List.drop_drop] at hrest
      rw [List.range_succ_eq_map, List.flatMap_cons, List.flatMap_map]
      simp [hrest, Nat.add_mul, Nat.add_comm]
  have hargs := hwords k (bs.drop 4) (by rw [List.length_drop]; omega)
  exact (List.take_append_drop 4 bs).symm.trans (congrArg (bs.take 4 ++ ·) hargs.symm)

/-- **The bytes that a call was read from are its encoding.** -/
theorem Erc20Call.ReadFrom.eq_abiEncode {bs : Bytes} (h : call.ReadFrom bs) :
    bs = abiEncode call := by
  obtain ⟨addr, habi, haddr⟩ := h.recipient
  have hto := abiWord_eq_addressWord habi haddr
  obtain ⟨hsel, hlen, ⟨hfrom, hsource⟩, -, hamount, -⟩ := h
  have hlast : fixed 32 call.amount = abiWord bs (call.method.arity - 1) := by
    have hpos : call.method.arity - 1 < call.method.arity := by
      cases call.method <;> decide
    rw [hamount, ← length_abiWord hlen hpos, fixed_toNat]
  have hbs := eq_words hlen
  rw [hsel] at hbs
  rw [abiEncode, hlast, ← hto]
  cases hm : call.method with
  | transferFrom =>
    obtain ⟨source, hs⟩ := Option.isSome_iff_exists.mp (hfrom.mpr hm)
    obtain ⟨_, hs', haddr'⟩ := hsource source hs
    rw [hm] at hbs
    rw [hs, Option.elim, ← abiWord_eq_addressWord hs' haddr']
    simpa [Erc20Method.arity, List.range_succ] using hbs
  | transfer | approve =>
    have hnone : call.fromAccount = none := by simpa [hm] using hfrom
    rw [hm] at hbs
    simpa [hnone, Erc20Method.arity, List.range_succ] using hbs

/-! ## From a transfer to its calldata -/

/-- The last `k` hex digits of a number. -/
def hexPad : Nat → Nat → List Char
  | 0, _ => []
  | k + 1, n => hexPad k (n / 16) ++ [hexDigit (UInt8.ofNat (n % 16))]

theorem replicate_append_toHexDigits {k n : Nat} (h : n < 16 ^ k) :
    List.replicate (k - (toHexDigits n).length) '0' ++ toHexDigits n = hexPad k n := by
  induction k generalizing n with
  | zero =>
    obtain rfl : n = 0 := by simpa using h
    simp [toHexDigits, hexPad]
  | succ k ih =>
    have hdiv := ih (n := n / 16) (by rw [Nat.div_lt_iff_lt_mul (by decide)]; rwa [Nat.pow_succ] at h)
    rw [hexPad, ← hdiv]
    rcases Nat.eq_zero_or_pos n with rfl | hpos
    · simp [toHexDigits, List.replicate_succ', show hexDigit 0 = '0' from by decide]
    · have hcons : toHexDigits n = toHexDigits (n / 16) ++ [hexDigit (UInt8.ofNat (n % 16))] := by
        simp [toHexDigits, Nat.digits_def' (by decide : 1 < 16) hpos]
      simp [hcons]

theorem hexPad_eq_hexChars (k n : Nat) : hexPad (2 * k) n = hexChars (fixed k n) := by
  induction k generalizing n with
  | zero => rfl
  | succ k ih =>
    have hhi : UInt8.ofNat (n % 256) / 16 = UInt8.ofNat (n / 16 % 16) := by
      apply UInt8.toNat_inj.mp
      simp
      omega
    have hlo : UInt8.ofNat (n % 256) % 16 = UInt8.ofNat (n % 16) := by
      apply UInt8.toNat_inj.mp
      simp
      omega
    rw [show 2 * (k + 1) = 2 * k + 1 + 1 from by omega, hexPad, hexPad, ih, Nat.div_div_eq_div_mul,
      fixed, hexChars_append, hexChars_cons, hhi, hlo]
    simp [hexChars]

theorem padWord_toHexDigits {n : Nat} (h : n < 2 ^ 256) :
    padWord (toHexDigits n) = hexChars (fixed 32 n) := by
  rw [padWord, replicate_append_toHexDigits (by norm_num at h ⊢; exact h)]
  exact hexPad_eq_hexChars 32 n

theorem padWord_hexChars (h : addr.length = 20) :
    padWord (hexChars addr) = hexChars (List.replicate 12 0 ++ addr) := by
  rw [padWord, length_hexChars, h]
  rfl

def transferOf (recipient : String) (amount : Nat) : Erc20Call :=
  ⟨.transfer, recipient, none, amount, false⟩

variable {recipient data : String} {amount : Nat}

theorem abiEncode_transferOf (h : addressOf recipient = some addr) :
    abiEncode (transferOf recipient amount) =
      Erc20Method.transfer.selector ++ (List.replicate 12 0 ++ addr ++ fixed 32 amount) := by
  rw [abiEncode, transferOf, addressWord, h]
  rfl

theorem encodeTransfer_eq_ok (h : encodeTransfer lib recipient amount = .ok data) :
    ∃ address addr, lib.getAddress recipient = .ok address ∧ addressOf address = some addr ∧
      addr.length = 20 ∧ addr ≠ List.replicate 20 0 ∧ amount ≠ 0 ∧ amount < 2 ^ 256 ∧
      data.toList = '0' :: 'x' :: hexChars (abiEncode (transferOf address amount)) := by
  unfold encodeTransfer at h
  split at h
  · cases h
  next address hc =>
  simp only [ite_error_eq_ok] at h
  obtain ⟨hz, hamount, hmax, h⟩ := h
  cases h
  obtain ⟨addr, body, htext, hdec, hlen, -⟩ := lib.getAddress_spells hc
  have haddr := addressOf_of_digits htext hdec hlen
  refine ⟨address, addr, hc, haddr, hlen, fun hzero => ?_, hamount, Nat.not_le.mp hmax, ?_⟩
  · rw [htext, (eq_replicate_zero_iff hdec 20).mpr hzero] at hz
    exact hz rfl
  · have hlow : (address.toList.drop 2).map Char.toLower = hexChars addr := by
      rw [htext]
      exact (hexChars_of_hexDecodeChars hdec).symm
    have hsel : selectorTransfer.toList = '0' :: 'x' :: hexChars Erc20Method.transfer.selector := by
      decide
    rw [abiEncode_transferOf haddr, hlow, padWord_hexChars hlen,
      padWord_toHexDigits (Nat.not_le.mp hmax)]
    simp only [String.toList_append, String.toList_ofList, hsel, hexChars_append, List.cons_append,
      List.append_assoc]

theorem tokenCall_transferOf (haddr : addressOf recipient = some addr) (hlen : addr.length = 20)
    (hnonzero : addr ≠ List.replicate 20 0) (hamount : amount < 2 ^ 256) :
    tokenCall (abiEncode (transferOf recipient amount)) = some ⟨addr, amount⟩ := by
  have habi : abiAddress (List.replicate 12 0 ++ addr) = some addr := by
    rw [abiAddress, if_pos ⟨by simp, by simpa using hnonzero⟩]
    simp
  rw [abiEncode_transferOf haddr]
  generalize hdata : Erc20Method.transfer.selector ++ (List.replicate 12 0 ++ addr ++
    fixed 32 amount) = data
  have hto : abiWord data 0 = List.replicate 12 0 ++ addr ∧ abiWord data 1 = fixed 32 amount ∧
      data.length = 4 + 2 * 32 := by
    simp [← hdata, abiWord, hlen, Erc20Method.selector]
  rw [tokenCall, if_pos (.inl ⟨hdata ▸ rfl, hto.2.2⟩), hto.1, habi, hto.2.1,
    toNat_fixed (by norm_num at hamount ⊢; exact hamount)]

section

variable (h : encodeTransfer lib recipient amount = .ok data)
include h

theorem encodeTransfer_ne_zero : amount ≠ 0 := by
  obtain ⟨_, _, -, -, -, -, hne, -⟩ := encodeTransfer_eq_ok h
  exact hne

/-- **The calldata the platform encodes pays the recipient and the amount it was given.** -/
theorem tokenCall_of_encodeTransfer (haddr : addressOf recipient = some addr) :
    ∃ body bs, data.toList = '0' :: 'x' :: body ∧ hexDecodeChars body = some bs ∧
      tokenCall bs = some ⟨addr, amount⟩ := by
  obtain ⟨address, addr', hget, haddr', hlen, hnonzero, -, hmax, htext⟩ := encodeTransfer_eq_ok h
  obtain rfl := Option.some.inj ((addressOf_getAddress haddr hget).symm.trans haddr')
  exact ⟨_, _, htext, hexDecodeChars_hexChars _, tokenCall_transferOf haddr' hlen hnonzero hmax⟩

theorem decodeErc20Call_encodeTransfer :
    ∃ address addr recipient', lib.getAddress recipient = .ok address ∧
      addressOf address = some addr ∧ addressOf recipient' = some addr ∧
      decodeErc20Call lib (some data) = .ok (some (transferOf recipient' amount)) := by
  obtain ⟨address, addr, hget, haddr, hlen, hnonzero, -, hmax, htext⟩ := encodeTransfer_eq_ok h
  obtain ⟨recipient', hget'⟩ := lib.getAddress_lower addr hlen
  have haddr' := addressOf_getAddress (addressOf_hexText hlen) hget'
  refine ⟨address, addr, recipient', hget, haddr, haddr', ?_⟩
  have hbody : data.toList = selectorTransfer.toList ++
      (List.replicate 24 '0' ++ hexChars addr ++ hexChars (fixed 32 amount)) := by
    rw [htext, abiEncode_transferOf haddr]
    simp only [hexChars_append]
    rfl
  have hlong : data.toList.length = 10 + 2 * 64 := by
    simp only [hbody, List.length_append, length_hexChars, hlen, length_fixed]
    rfl
  have hdata : hasCalldata (some data) := by
    have hne : ∀ t : String, t.toList.length < 10 → data ≠ t := by
      rintro _ ht rfl
      omega
    simp [hasCalldata, hne "" (by decide), hne "0x" (by decide)]
  have hhex : isHex data.toList := by
    rw [htext, isHex, Bool.and_eq_true, beq_iff_eq]
    exact exists_hexDecodeChars.mp ⟨_, hexDecodeChars_hexChars _⟩
  have hsel : String.ofList ((data.toList.take 10).map Char.toLower) = selectorTransfer := by
    rw [hbody]
    rfl
  have hargs : data.toList.drop 10 = (List.replicate 24 '0' ++ hexChars addr) ++
      hexChars (fixed 32 amount) := by
    rw [hbody]
    rfl
  have hpad : (List.replicate 24 '0' ++ hexChars addr).length = 64 := by
    simp only [List.length_append, List.length_replicate, length_hexChars, hlen]
  have hto : addressFromWord lib (List.replicate 24 '0' ++ hexChars addr) "recipient" =
      .ok recipient' := by
    have hne : hexChars addr ≠ List.replicate 40 '0' := fun hzero =>
      hnonzero ((eq_replicate_zero_iff (hexDecodeChars_hexChars addr) 20).mp hzero)
    rw [addressFromWord, List.take_left' List.length_replicate,
      List.drop_left' List.length_replicate, if_neg (not_not.mpr rfl), if_neg hne]
    rw [hexText] at hget'
    simp only [hget']
  have hamount : hexNat (hexChars (fixed 32 amount)) = amount := by
    rw [hexNat_eq (hexDecodeChars_hexChars _), toNat_fixed (by norm_num at hmax ⊢; exact hmax)]
  have hwords : words data.toList 2 = .ok fun i => ((data.toList.drop 10).drop (i * 64)).take 64 := by
    rw [words, if_neg (by rw [List.length_drop]; omega)]
  rw [decodeErc20Call, if_neg (not_not.mpr hdata)]
  simp only [Option.getD_some, hhex, hlong, hsel, hwords, hargs, ok_bind, Nat.zero_mul, List.drop_zero]
  rw [List.take_left' hpad, List.drop_left' hpad, hto,
    List.take_of_length_le (by rw [length_hexChars, length_fixed]), hamount]
  rfl

end

/-- Calldata that is there is never taken for a native transfer. -/
theorem hasCalldata_of_decodeErc20Call {data : Option String}
    (h : decodeErc20Call lib data = .ok none) : hasCalldata data = false := by
  by_contra hdata
  rw [decodeErc20Call, if_neg (not_not.mpr (Bool.not_eq_false _ ▸ hdata))] at h
  dsimp only at h
  -- every other branch throws or returns a call
  repeat' first | split at h | obtain ⟨_, -, h⟩ := bind_eq_ok.mp h | cases h

/-- `encodeTransfer` of the source: `bigInt` is how `BigInt` reads the text of an amount, after the
address has been looked at. -/
def encodeTransferText (lib : EthersLib) (bigInt : String → Option Int)
    (recipient amount : String) : Except String String :=
  match bigInt amount with
  | some value => encodeTransfer lib recipient value.toNat
  | none => do
    let _ ← encodeTransfer lib recipient 1
    .error s!"amount {amount} is not a base-10 integer"

/--
**ERC-20 calldata is read exactly.** A call is read from its own encoding only, in any case of the
hex digits, and what the platform encodes is read as the transfer that was asked for: to the address
that `getAddress` reads in the recipient, which is the one a recipient in hex spells.
-/
theorem erc20_exact (lib : EthersLib) :
    (∀ data, decodeErc20Call lib data = .ok none → hasCalldata data = false) ∧
    (∀ data call, decodeErc20Call lib data = .ok (some call) → ∃ text ∈ data,
      text.toList.map Char.toLower = '0' :: 'x' :: hexChars (abiEncode call)) ∧
    ∀ bigInt recipient amount data,
      encodeTransferText lib bigInt recipient amount = .ok data → ∃ address addr call,
        lib.getAddress recipient = .ok address ∧ addressOf address = some addr ∧
        (∀ b ∈ addressOf recipient, b = addr) ∧
        decodeErc20Call lib (some data) = .ok (some call) ∧ call.method = .transfer ∧
        addressOf call.recipient = some addr ∧ bigInt amount = some (call.amount : Int) := by
  refine ⟨fun _ => hasCalldata_of_decodeErc20Call, ?_, ?_⟩
  · rintro (_ | text) call h
    · simp [decodeErc20Call, hasCalldata] at h
    obtain ⟨body, bs, htext, hbs, hread⟩ := decodeErc20Call_eq_ok h
    refine ⟨text, rfl, ?_⟩
    rw [htext, ← hread.eq_abiEncode, hexChars_of_hexDecodeChars hbs]
    rfl
  · intro bigInt recipient amount data h
    unfold encodeTransferText at h
    split at h
    · next value hvalue =>
      obtain ⟨address, addr, recipient', hget, haddr, haddr', hdecode⟩ :=
        decodeErc20Call_encodeTransfer h
      have hpos := encodeTransfer_ne_zero h
      refine ⟨address, addr, _, hget, haddr, fun b hb => ?_, hdecode, rfl, haddr',
        hvalue.trans (congrArg some ?_)⟩
      · exact Option.some.inj ((addressOf_getAddress hb hget).symm.trans haddr)
      · show value = (value.toNat : Int)
        omega
    · obtain ⟨_, -, h⟩ := bind_eq_ok.mp h
      cases h

/-- Agrees with ethers on addresses without letters. -/
def digitsLib : EthersLib where
  getAddress text := ((addressOf text).map hexText).elim (.error "invalid address") .ok
  getBytes text :=
    match text.toList with
    | '0' :: 'x' :: body => (hexDecodeChars body).elim (.error "invalid BytesLike value") .ok
    | _ => .error "invalid BytesLike value"
  getAddress_spells {text result} h := by
    cases hb : addressOf text with
    | none => simp [hb] at h
    | some addr =>
      simp only [hb, Option.map_some, Option.elim, Except.ok.injEq] at h
      exact ⟨addr, _, h ▸ toList_hexText addr, hexDecodeChars_hexChars addr,
        (addressOf_eq_some hb).2, fun b h => (Option.some.inj h).symm⟩
  getAddress_lower addr h := ⟨hexText addr, by rw [addressOf_hexText h]; rfl⟩
  getBytes_hex htext hdec := by simp [htext, hdec]

end OpenFireblocks.Evm
