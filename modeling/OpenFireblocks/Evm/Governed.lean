import OpenFireblocks.Evm.Routes

/-!
# What is signed is what was governed

What a signed transaction moves is read from the transaction alone: if its bytes are a call of a
verified token, the recipient and amount of that call, and otherwise the envelope's. `Governs` says
that the policy approved exactly that and that an enforced whitelist holds its recipient, and that
calldata nobody recognises was allowed.
-/

namespace OpenFireblocks.Evm

open BigEndian Go Eth Gateway Outcome

/-! ## What a transaction moves -/

/-- What leaves the account: an amount of a token, or of the chain's own coin. -/
structure Moved where
  recipient : Bytes
  token : Option String
  amount : Nat

def verifiedToken (tokens : Option Registry) (chainId : Int) (contract : String) : Option Token :=
  match tokens with
  | none => none
  | some registry => (registry.byContract chainId contract).filter (·.status = .verified)

def tokenPayment (tokens : Option Registry) (chainId : Int) (contract : String) (data : Bytes) :
    Option Moved :=
  match verifiedToken tokens chainId contract, tokenCall data with
  | some token, some call => some ⟨call.recipient, some token.symbol, call.amount⟩
  | _, _ => none

def recipientOf (tx : Transaction) : Bytes := tx.recipient.getD []

def paymentOf (tokens : Option Registry) (tx : Transaction) : Option Moved :=
  tokenPayment tokens (tx.chainID.getD 0) (hexText (recipientOf tx)) tx.data

def moved (tokens : Option Registry) (tx : Transaction) : Moved :=
  (paymentOf tokens tx).getD ⟨recipientOf tx, none, (tx.value.getD 0).toNat⟩

/-- A call the tokenisation module vouches for: no value, and an act on one of the tenant's tokens. -/
def governedCall (governed : Option Tokenisation) (customerId : String) (chainId : Int)
    (contract : String) (value : Nat) (data : Bytes) : Bool :=
  match governed with
  | none => false
  | some m => value == 0 && (m.recognise customerId chainId contract "0" (hexText data)).isSome

/-! ## What was asked -/

def evaluatedAmount (asked : PolicyInput) : Nat := asked.assetAmount.getD asked.value

/-- The policy takes a question that names no asset to be about the chain's own coin. -/
def evaluatedAsset (asked : PolicyInput) : String :=
  match asked.asset with
  | none => "NATIVE"
  | some asset => if asset = "" then "NATIVE" else asset

def envelopeAssets : List String := ["NATIVE", "UNKNOWN", "GOVERNED"]

/-- The policy was asked about the recipient, asset and amount that move. -/
structure PolicyAgrees (asked : PolicyInput) (m : Moved) : Prop where
  recipient : addressOf asked.toAddr = some m.recipient
  amount : evaluatedAmount asked = m.amount
  asset : match m.token with
    | some symbol => evaluatedAsset asked = symbol
    | none => evaluatedAsset asked ∈ envelopeAssets

/-- The policy approved what the transaction moves, an enforced whitelist holds the recipient, and
calldata nobody recognises was allowed. -/
structure Governs (s : EvmServices) (customer : Customer) (signed : Signed) : Prop where
  policy : PolicyAgrees signed.asked (moved s.tokens signed.tx)
  approved : s.Approves signed.asked
  whitelist : s.whitelistEnforced = true → ∃ d, signed.destination = some d ∧
    s.Whitelists "ethereum" d ∧ addressOf d = some (moved s.tokens signed.tx).recipient
  calldata : signed.tx.data = [] ∨ (paymentOf s.tokens signed.tx).isSome = true ∨
    customer.arbitraryContractCallsEnabled = true ∨
    governedCall s.governed customer.customerId (signed.tx.chainID.getD 0)
      (hexText (recipientOf signed.tx)) (signed.tx.value.getD 0).toNat signed.tx.data = true

/-! ## The condition -/

def calldataOf (data : Option String) : Bytes :=
  (hexDecodeChars (digitsOf (data.getD "").toList)).getD []

def Readable (lib : EthersLib) (data : Option String) : Prop :=
  ∃ call, decodeErc20Call lib data = .ok (some call)

/-- A token payment that happens to be the envelope, with the token called `asset`. -/
def Moved.IsEnvelope (m : Moved) (toAddr : String) (value : Nat) (asset : String) : Prop :=
  addressOf toAddr = some m.recipient ∧ value = m.amount ∧ m.token = some asset

/--
When a request is governed.

* `signTransaction`: if the calldata pays a verified token, the decoder reads its text, and an
  enforced whitelist may only be asked if the token pays its own contract.
* `sendToken`: the chain is not Solana.
* `sign`: if the calldata pays a verified token, the decoder reads its text.
* A settlement: the calldata pays no verified token, and what it is instead is allowed; and a person
  starts it only if no whitelist is enforced.
-/
def Route.Safe (s : EvmServices) (customer : Customer) : Route → Prop
  | .signTransaction _ req _ =>
    ∀ m, tokenPayment s.tokens req.chainId req.toAddr (calldataOf req.data) = some m →
      (Readable s.lib req.data ∧
        (s.whitelistEnforced = true → addressOf req.toAddr = some m.recipient)) ∨
      m.IsEnvelope req.toAddr (decimal req.value.toList) "UNKNOWN"
  | .sendToken _ req => req.chainId ≠ solanaChainId
  | .sign req =>
    ∀ m, tokenPayment s.tokens req.chainId req.toAddr (calldataOf req.data) = some m →
      Readable s.lib req.data ∨
      m.IsEnvelope req.toAddr (decimal (req.value.getD "0").toList) "UNKNOWN"
  | .settlement initiator req =>
    (∀ m, tokenPayment s.tokens req.chainId req.toAddr (calldataOf req.data) = some m →
      m.IsEnvelope req.toAddr (decimal (req.value.getD "0").toList) "NATIVE") ∧
    (calldataOf req.data ≠ [] →
      tokenPayment s.tokens req.chainId req.toAddr (calldataOf req.data) = none →
      customer.arbitraryContractCallsEnabled = true ∨
      governedCall s.governed customer.customerId req.chainId req.toAddr
        (decimal (req.value.getD "0").toList) (calldataOf req.data) = true) ∧
    (initiator ≠ .apiKey → s.whitelistEnforced = false)

/-! ## Spellings of an address -/

variable {text : String} {addr : Bytes}

theorem exists_of_matchesAddress (h : matchesAddress text) :
    ∃ body, text.toList = '0' :: 'x' :: body := by
  unfold matchesAddress at h
  split at h
  · next body hbody => exact ⟨body, hbody⟩
  · cases h

theorem exists_addressOf (hm : matchesAddress text) : ∃ addr, addressOf text = some addr := by
  obtain ⟨body, hbody⟩ := exists_of_matchesAddress hm
  simp only [matchesAddress, hbody, Bool.and_eq_true, beq_iff_eq] at hm
  obtain ⟨addr, hdec⟩ := exists_hexDecodeChars.mpr ⟨hm.2, by rw [hm.1]⟩
  have hlen := length_of_hexDecodeChars hdec
  exact ⟨addr, addressOf_of_digits hbody hdec (by omega)⟩

theorem lowerText_of_addressOf (hm : matchesAddress text) (h : addressOf text = some addr) :
    lowerText text = hexText addr := by
  obtain ⟨body, hbody⟩ := exists_of_matchesAddress hm
  obtain ⟨hdec, -⟩ := addressOf_eq_some h
  rw [hbody, digitsOf] at hdec
  rw [lowerText, hbody, List.map_cons, List.map_cons, ← hexChars_of_hexDecodeChars hdec]
  rfl

theorem lowerText_hexText (b : Bytes) : lowerText (hexText b) = hexText b := by
  rw [lowerText, toList_hexText, List.map_cons, List.map_cons, map_toLower_hexChars]
  rfl

/-- No mint starts with `0`. -/
theorem not_isBase58Address {rest : List Char} (h : text.toList = '0' :: rest) :
    isBase58Address text = false := by
  have h0 : base58Digits.contains '0' = false := by decide
  rw [isBase58Address, h, List.all_cons]
  rfl

variable {registry : Registry} {chainId : Int} {address keyId : String} {token : Token}
  {data : Bytes} {lib : EthersLib} {tx : Transaction} {req : SignRequestDto}

theorem Registry.byContract_eq_some (h : registry.byContract chainId address = some token) :
    token ∈ registry.rows ∧ token.chainId = chainId ∧
      (if chainId = solanaChainId then token.contractAddress = some address
       else token.contractAddress.map lowerText = some (lowerText address)) := by
  have hmem := List.mem_of_find?_eq_some h
  have hp := List.find?_some h
  simp only [Bool.and_eq_true, beq_iff_eq] at hp
  refine ⟨hmem, hp.1, ?_⟩
  split
  · next hs => simpa [hs] using hp.2
  · next hs => simpa [hs] using hp.2

/-- An address that starts with `0x` is no mint. -/
theorem Registry.byContract_solana (registry : Registry) {rest : List Char}
    (h : address.toList = '0' :: rest) : registry.byContract solanaChainId address = none := by
  cases hf : registry.byContract solanaChainId address with
  | none => rfl
  | some token =>
    obtain ⟨hmem, hchain, haddr⟩ := Registry.byContract_eq_some hf
    have hformat := registry.format token hmem address haddr
    rw [isContractAddress, if_pos hchain, not_isBase58Address h] at hformat
    cases hformat

theorem Registry.byContract_hexText (registry : Registry) (chainId : Int)
    (hm : matchesAddress text) (h : addressOf text = some addr) :
    registry.byContract chainId text = registry.byContract chainId (hexText addr) := by
  by_cases hs : chainId = solanaChainId
  · obtain ⟨body, hbody⟩ := exists_of_matchesAddress hm
    rw [hs, registry.byContract_solana hbody, registry.byContract_solana (toList_hexText addr)]
  · unfold Registry.byContract
    simp only [if_neg hs, lowerText_of_addressOf hm h, lowerText_hexText]

/-! ## The signed transaction and the request -/

structure Envelope (tx : Transaction) (chainId : Int) (toAddr : String) (value : Nat)
    (data : Option String) : Prop where
  matches_address : matchesAddress toAddr = true
  chainID : tx.chainID = some chainId
  recipient : addressOf toAddr = some (recipientOf tx)
  value : tx.value = some (value : Int)
  data : hexDecodeChars (digitsOf (data.getD "").toList) = some tx.data

namespace Envelope

variable {tx : Transaction} {chainId : Int} {toAddr : String} {value : Nat} {data : Option String}
  (e : Envelope tx chainId toAddr value data)
include e

theorem data_eq : tx.data = calldataOf data := by
  rw [calldataOf, e.data]
  rfl

theorem paymentOf_eq (tokens : Option Registry) :
    paymentOf tokens tx = tokenPayment tokens chainId toAddr (calldataOf data) := by
  rw [paymentOf, e.chainID, e.data_eq]
  cases tokens with
  | none => rfl
  | some registry =>
    rw [tokenPayment, tokenPayment, verifiedToken, verifiedToken,
      registry.byContract_hexText chainId e.matches_address e.recipient]
    rfl

theorem moved_of_payment {tokens : Option Registry} {m : Moved}
    (h : tokenPayment tokens chainId toAddr (calldataOf data) = some m) : moved tokens tx = m := by
  rw [moved, e.paymentOf_eq, h]
  rfl

theorem moved_of_none {tokens : Option Registry}
    (h : tokenPayment tokens chainId toAddr (calldataOf data) = none) :
    moved tokens tx = ⟨recipientOf tx, none, value⟩ := by
  rw [moved, e.paymentOf_eq, h, e.value]
  rfl

theorem governedCall_eq (governed : Option Tokenisation) (customerId : String) :
    governedCall governed customerId (tx.chainID.getD 0) (hexText (recipientOf tx))
        (tx.value.getD 0).toNat tx.data
      = governedCall governed customerId chainId toAddr value (calldataOf data) := by
  rw [e.chainID, e.value, e.data_eq]
  cases governed with
  | none => rfl
  | some m =>
    simp only [governedCall, Tokenisation.recognise, lowerText_hexText,
      lowerText_of_addressOf e.matches_address e.recipient]
    rfl

theorem policyAgrees_iff (tokens : Option Registry) (asked : PolicyInput) (asset : String)
    (hto : asked.toAddr = toAddr) (hamount : evaluatedAmount asked = value)
    (hasset : evaluatedAsset asked = asset) (hlabel : asset ∈ envelopeAssets) :
    PolicyAgrees asked (moved tokens tx) ↔
      ∀ m, tokenPayment tokens chainId toAddr (calldataOf data) = some m →
        m.IsEnvelope toAddr value asset := by
  cases hp : tokenPayment tokens chainId toAddr (calldataOf data) with
  | none =>
    rw [e.moved_of_none hp]
    exact ⟨fun _ m hm => by simp at hm,
      fun _ => ⟨hto ▸ e.recipient, hamount, hasset ▸ hlabel⟩⟩
  | some m =>
    rw [e.moved_of_payment hp]
    have htoken : ∃ symbol, m.token = some symbol := by
      unfold tokenPayment at hp
      split at hp
      · next token call _ _ =>
        cases hp
        exact ⟨token.symbol, rfl⟩
      · cases hp
    obtain ⟨symbol, hsymbol⟩ := htoken
    constructor
    · intro h m' hm'
      cases hm'
      have hs := h.asset
      rw [hsymbol] at hs
      exact ⟨hto ▸ h.recipient, hamount ▸ h.amount, hsymbol.trans (congrArg some (hs.symm.trans hasset))⟩
    · intro h
      obtain ⟨hr, ha, hs⟩ := h m rfl
      refine ⟨hto ▸ hr, hamount.trans ha, ?_⟩
      rw [hs]
      exact hasset

end Envelope

/-! ## The four kinds of transaction -/

theorem tokenCall_nil : tokenCall [] = none := by decide

theorem tokenCall_of_selector {op : TokenOp} (h : data.take 4 = op.selector) :
    tokenCall data = none := by
  rw [tokenCall, h, if_neg]
  · cases op <;> simp [TokenOp.selector]
  · cases op <;> simp [TokenOp.selector]

/-- Calldata that starts with `0x` in some case, and whose digits are read, starts with `0x`. -/
theorem lowerText_of_digitsOf {rest : List Char}
    (hlow : (lowerText text).toList = '0' :: 'x' :: rest)
    (hd : hexDecodeChars (digitsOf text.toList) = some data) : lowerText text = hexText data := by
  unfold digitsOf at hd
  split at hd
  · next body hbody =>
    rw [lowerText, hbody, List.map_cons, List.map_cons, ← hexChars_of_hexDecodeChars hd]
    rfl
  · have hchars := hexChars_of_hexDecodeChars hd
    rw [lowerText, String.toList_ofList] at hlow
    have hread := hexDecodeChars_hexChars data
    rw [hchars, hlow] at hread
    simp [hexDecodeChars, show hexValue 'x' = none by decide] at hread

/-- A governed call is one of the administrative acts, and governed in any spelling. -/
theorem recogniseCall_eq_some {abi : TokenAbi} {call : TokenOp × List String}
    (h : recogniseCall abi text = some call)
    (hd : hexDecodeChars (digitsOf text.toList) = some data) :
    data.take 4 = call.1.selector ∧ recogniseCall abi (hexText data) = some call := by
  unfold recogniseCall at h
  split at h
  · cases h
  next name args hparse =>
  split at h
  · cases h
  next op hop =>
  split at h
  · cases h
  next henc =>
  cases h
  -- the text is what encoding the call gives, which starts with the selector
  obtain ⟨rest, hrest⟩ := abi.encode_selector op args
  have henc := Decidable.not_not.mp henc
  have htext := congrArg String.toList henc
  rw [lowerText, hrest, String.toList_ofList] at htext
  have hlower := lowerText_of_digitsOf htext.symm hd
  rw [hlower] at henc htext
  refine ⟨?_, ?_⟩
  · rw [toList_hexText] at htext
    simp only [List.map_cons, List.map_append, map_toLower_hexChars, List.cons.injEq] at htext
    have hcut := (hexDecodeChars_cut 4 (hexDecodeChars_hexChars data)).1
    have hlen : (hexChars op.selector).length = 8 := by
      cases op <;> rfl
    rw [← htext.2.2, show 2 * 4 = (hexChars op.selector).length from hlen.symm,
      List.take_left, hexDecodeChars_hexChars] at hcut
    exact (Option.some.inj hcut).symm
  · have hparse' : abi.parseTransaction (hexText data) = some (name, args) := by
      rw [← hlower, abi.parse_lowerText, hparse]
    simp [recogniseCall, hparse', hop, henc, lowerText_hexText]

section

variable {tx : Transaction} {chainId : Int} {toAddr value : String} {data : Option String}
  (e : Envelope tx chainId toAddr (decimal value.toList) data)
include e

theorem data_eq_nil (h : hasCalldata data = false) : tx.data = [] := by
  have hd := e.data
  have hcases : data = none ∨ data = some "" ∨ data = some "0x" := by
    simp only [hasCalldata, decide_eq_false_iff_not, not_and_or, Decidable.not_not] at h
    exact h
  rcases hcases with rfl | rfl | rfl
  · exact (Option.some.inj hd).symm
  · exact (Option.some.inj hd).symm
  · exact (Option.some.inj hd).symm

theorem tokenPayment_of_tokenCall_none (tokens : Option Registry) (h : tokenCall tx.data = none) :
    tokenPayment tokens chainId toAddr (calldataOf data) = none := by
  rw [tokenPayment, ← e.data_eq]
  split <;> simp_all

theorem governed_of_recognise {m : Tokenisation} {customerId : String} {op : TokenOp}
    (h : m.recognise customerId chainId toAddr value (data.getD "") = some op) :
    decimal value.toList = 0 ∧ tokenCall tx.data = none ∧
      governedCall (some m) customerId chainId toAddr (decimal value.toList) (calldataOf data)
        := by
  unfold Tokenisation.recognise at h
  split at h
  · cases h
  next hv =>
  obtain rfl := Decidable.not_not.mp hv
  split at h
  · cases h
  next op' args hcall =>
  split at h
  · next htoken =>
    obtain ⟨hsel, hcanonical⟩ := recogniseCall_eq_some hcall e.data
    refine ⟨rfl, tokenCall_of_selector hsel, ?_⟩
    rw [← e.data_eq]
    simp [governedCall, Tokenisation.recognise, hcanonical, htoken, decimal]
  · cases h

variable {lib : EthersLib} {ctx : IntentContext}

/-- What the decoder reads in the text is what the bytes say. -/
theorem tokenCall_of_decode {call : Erc20Call} (h : decodeErc20Call lib data = .ok (some call)) :
    ∃ addr, addressOf call.recipient = some addr ∧ tokenCall tx.data = some ⟨addr, call.amount⟩ := by
  obtain ⟨text, rfl⟩ : ∃ text, data = some text := by
    cases data with
    | none => simp [decodeErc20Call, hasCalldata] at h
    | some text => exact ⟨text, rfl⟩
  obtain ⟨body, bs, addr, htext, hbs, haddr, hcall⟩ := tokenCall_of_decodeErc20Call h
  have hd := e.data
  rw [Option.getD_some, htext, digitsOf, hbs] at hd
  cases hd
  exact ⟨addr, haddr, hcall⟩

theorem tokenPayment_of_isTokenCall {call : Erc20Call} {token : Token}
    (h : IsTokenCall lib ctx chainId toAddr data call token) :
    ∃ addr, addressOf call.recipient = some addr ∧
      tokenPayment ctx.tokens chainId toAddr (calldataOf data)
        = some ⟨addr, some token.symbol, call.amount⟩ := by
  obtain ⟨hdec, registry, hr, htoken, hverified⟩ := h
  obtain ⟨addr, haddr, hcall⟩ := tokenCall_of_decode e hdec
  have hv : verifiedToken ctx.tokens chainId toAddr = some token := by
    simp [hr, verifiedToken, htoken, hverified]
  exact ⟨addr, haddr, by rw [tokenPayment, ← e.data_eq, hv, hcall]⟩

/-- The policy is asked about what moves, unless the decoder cannot read what the bytes say. -/
theorem policyAgrees_intent {customer : Customer} {country : Option String}
    {intent : TransferIntent} (h : IntentCase lib ctx chainId toAddr value data intent) :
    PolicyAgrees (policyInput customer intent.policyTo (decimal value.toList) chainId country intent)
        (moved ctx.tokens tx) ↔
      ∀ m, tokenPayment ctx.tokens chainId toAddr (calldataOf data) = some m →
        Readable lib data ∨ m.IsEnvelope toAddr (decimal value.toList) "UNKNOWN" := by
  cases h with
  | native hc =>
    have hnone := tokenPayment_of_tokenCall_none e ctx.tokens
      (by rw [data_eq_nil e hc]; exact tokenCall_nil)
    have hagrees := e.policyAgrees_iff ctx.tokens
      (policyInput customer toAddr (decimal value.toList) chainId country
        (nativeIntent toAddr (decimal value.toList))) "NATIVE" rfl rfl rfl (by decide)
    simp only [hnone, reduceCtorEq, false_implies] at hagrees ⊢
    exact hagrees
  | governed hm hop =>
    obtain ⟨hzero, hcall, -⟩ := governed_of_recognise e hop
    have hnone := tokenPayment_of_tokenCall_none e ctx.tokens hcall
    have hagrees := e.policyAgrees_iff ctx.tokens
      (policyInput customer toAddr (decimal value.toList) chainId country
        (governedIntent toAddr)) "GOVERNED" rfl hzero.symm rfl (by decide)
    simp only [hnone, reduceCtorEq, false_implies] at hagrees ⊢
    exact hagrees
  | @token call token ht =>
    obtain ⟨addr, haddr, hpay⟩ := tokenPayment_of_isTokenCall e ht
    refine ⟨fun _ _ _ => .inl ⟨_, ht.1⟩, fun _ => ?_⟩
    obtain ⟨-, registry, -, htoken, -⟩ := ht
    have hsymbol := registry.symbol_ne token (Registry.byContract_eq_some htoken).1
    rw [e.moved_of_payment hpay]
    exact ⟨haddr, rfl, if_neg hsymbol⟩
  | unreadable _ hnot =>
    rw [e.policyAgrees_iff ctx.tokens _ "UNKNOWN" rfl rfl rfl (by decide)]
    refine ⟨fun h m hm => .inr (h m hm), fun h m hm => (h m hm).resolve_left ?_⟩
    rintro ⟨call, hcall⟩
    -- the bytes pay a verified token, so a text that decodes would have been read as its call
    obtain ⟨token, htoken⟩ : ∃ token, verifiedToken ctx.tokens chainId toAddr = some token := by
      unfold tokenPayment at hm
      split at hm
      · next token _ ht _ => exact ⟨token, ht⟩
      · cases hm
    unfold verifiedToken at htoken
    split at htoken
    · cases htoken
    next registry hr =>
    obtain ⟨hfound, hverified⟩ := Option.filter_eq_some_iff.mp htoken
    exact hnot call token ⟨hcall, registry, hr, hfound, by simpa using hverified⟩

/-- Calldata that is signed was read by somebody, or its organisation accepts that it was not. -/
theorem calldata_intent {intent : TransferIntent}
    (h : IntentCase lib ctx chainId toAddr value data intent) :
    tx.data = [] ∨ (paymentOf ctx.tokens tx).isSome ∨
      ctx.arbitraryContractCallsEnabled ∨
      governedCall ctx.governed ctx.customerId (tx.chainID.getD 0) (hexText (recipientOf tx))
        (tx.value.getD 0).toNat tx.data := by
  cases h with
  | native hc => exact .inl (data_eq_nil e hc)
  | governed hm hop =>
    refine .inr (.inr (.inr ?_))
    rw [e.governedCall_eq, hm]
    exact (governed_of_recognise e hop).2.2
  | token ht =>
    obtain ⟨addr, -, hpay⟩ := tokenPayment_of_isTokenCall e ht
    exact .inr (.inl (by rw [e.paymentOf_eq, hpay]; rfl))
  | unreadable he _ => exact .inr (.inr (.inl he))

end

/-! ## The envelope of each route -/

theorem buildUnsignedTransaction_eq_ok {req : UnsignedTxRequest}
    (h : buildUnsignedTransaction lib req = .ok tx) :
    ∃ address, lib.getAddress req.toAddr = .ok address ∧
      lib.getBytes (req.data.getD "0x") = .ok tx.data ∧ tx.recipient = addressOf address ∧
      tx.value = some (req.value : Int) ∧ tx.chainID = some req.chainId ∧
      tx.nonce = req.nonce := by
  simp only [buildUnsignedTransaction, ite_error_eq_ok] at h
  obtain ⟨-, -, -, h⟩ := h
  split at h
  · cases h
  · cases h
  next address data haddress hdata =>
  split at h
  · cases h
  cases h
  exact ⟨address, haddress, hdata, rfl, rfl, rfl, rfl⟩

theorem nonce_of_build {req : UnsignedTxRequest} (h : buildUnsignedTransaction lib req = .ok tx) :
    tx.nonce = req.nonce := by
  obtain ⟨_, -, -, -, -, -, hnonce⟩ := buildUnsignedTransaction_eq_ok h
  exact hnonce

theorem orBadRequest_eq_ok {α : Type} {x : Except String α} {a : α} :
    orBadRequest x = .ok a ↔ x = .ok a := by
  cases x <;> simp [orBadRequest]

theorem addressOf_of_parseTo (hm : matchesAddress text) (h : parseTo text = .ok addr) :
    addressOf text = some addr := by
  obtain ⟨body, hbody⟩ := exists_of_matchesAddress hm
  have hlen : body.length = 40 := by
    simp only [matchesAddress, hbody, Bool.and_eq_true, beq_iff_eq] at hm
    exact hm.1
  have hp : parseAddress text = .ok addr := by
    unfold parseTo at h
    split at h
    · next a ha => rw [ha, h]
    · simp at h
  unfold parseAddress at hp
  simp only [strip0x, hbody] at hp
  split at hp
  · simp at hp
  rw [hexDecodeString, String.toList_ofList] at hp
  split at hp
  · simp at hp
  next raw hraw =>
  cases hp
  have := length_of_hexDecodeChars hraw
  rw [addressOf, hbody, digitsOf, hraw]
  simp only
  rw [if_pos (by omega)]

theorem parseBig_eq_ok {n : Nat} (h : parseBig text true = .ok n) : n = decimal text.toList := by
  unfold parseBig at h
  split at h
  · next hz =>
    cases h
    rcases hz with rfl | rfl <;> rfl
  · split at h
    · exact (Except.ok.inj h).symm
    · simp at h

theorem decodeData_eq_ok (h : decodeData text = .ok data) :
    hexDecodeChars (digitsOf text.toList) = some data := by
  unfold decodeData at h
  split at h
  · next hz =>
    cases h
    rcases hz with rfl | rfl <;> rfl
  · split at h
    · next d hd => rw [hd, Except.ok.inj h]
    · simp at h

theorem envelope_of_postSign {s : EvmServices} {req : SignRequest}
    (hm : matchesAddress req.toAddr) (h : postSign s req = .ok tx) :
    Envelope tx req.chainID req.toAddr (decimal req.value.toList) (some req.data) := by
  unfold postSign at h
  split at h
  · next tx' hs =>
    cases h
    obtain ⟨recipient, hrecipient, hs⟩ := bind_eq_ok.mp hs
    obtain ⟨value, hvalue, hs⟩ := bind_eq_ok.mp hs
    obtain ⟨data, hdata, hs⟩ := bind_eq_ok.mp hs
    obtain ⟨⟨gasPrice, maxFee, tip⟩, -, hs⟩ := bind_eq_ok.mp hs
    obtain ⟨_, -, hs⟩ := bind_eq_ok.mp hs
    obtain ⟨_, -, hs⟩ := bind_eq_ok.mp hs
    cases hs
    have hv := parseBig_eq_ok (wrapError_eq_ok.mp hvalue)
    exact ⟨hm, rfl, addressOf_of_parseTo hm hrecipient, by rw [hv], decodeData_eq_ok hdata⟩
  · cases h

theorem envelope_of_build {req : UnsignedTxRequest} (hm : matchesAddress req.toAddr)
    (hd : ∀ d, req.data = some d → ∃ body data, d.toList = '0' :: 'x' :: body ∧
      hexDecodeChars body = some data)
    (h : buildUnsignedTransaction lib req = .ok tx) :
    Envelope tx req.chainId req.toAddr req.value req.data := by
  obtain ⟨address, haddr, hdata, hr, hvalue, hchain, -⟩ := buildUnsignedTransaction_eq_ok h
  obtain ⟨addr, ht⟩ := exists_addressOf hm
  have hspelled := addressOf_getAddress ht haddr
  refine ⟨hm, hchain, by rw [recipientOf, hr, hspelled]; exact ht, hvalue, ?_⟩
  cases htext : req.data with
  | none =>
    rw [htext, Option.getD_none, lib.getBytes_hex (by rfl) (by rfl)] at hdata
    rw [← Except.ok.inj hdata]
    rfl
  | some text =>
    obtain ⟨body, data, hbody, hdec⟩ := hd text htext
    rw [htext, Option.getD_some, lib.getBytes_hex hbody hdec] at hdata
    rw [Option.getD_some, hbody, ← Except.ok.inj hdata]
    exact hdec

/-! ## The routes -/

variable {s : EvmServices} {customer : Customer} {signed : Signed}

def unsignedTx (req : SignTransactionDto) : UnsignedTxRequest where
  toAddr := req.toAddr
  value := decimal req.value.toList
  data := req.data
  gasLimit := req.gasLimit
  nonce := req.nonce
  chainId := req.chainId
  gasPrice := req.gasPrice
  maxFeePerGas := req.maxFeePerGas
  maxPriorityFeePerGas := req.maxPriorityFeePerGas

theorem build_of_signTransaction {req : SignTransactionDto} {approvalGranted : Bool}
    (h : signTransaction s customer keyId req approvalGranted = .ok signed) :
    buildUnsignedTransaction s.lib (unsignedTx req) = .ok signed.tx := by
  obtain ⟨_, -, h⟩ := bind_eq_ok.mp h
  obtain ⟨_, -, h⟩ := bind_eq_ok.mp h
  obtain ⟨_, -, h⟩ := bind_eq_ok.mp h
  obtain ⟨built, hbuilt, h⟩ := bind_eq_ok.mp h
  obtain ⟨_, -, h⟩ := bind_eq_ok.mp h
  obtain ⟨_, -, h⟩ := bind_eq_ok.mp h
  obtain ⟨_, -, h⟩ := bind_eq_ok.mp h
  obtain ⟨_, -, h⟩ := bind_eq_ok.mp h
  cases h
  exact orBadRequest_eq_ok.mp hbuilt

theorem signTransaction_eq_ok {req : SignTransactionDto} {approvalGranted : Bool}
    (h : signTransaction s customer keyId req approvalGranted = .ok signed) :
    ∃ intent,
      IntentCase s.lib (s.intentContext customer) req.chainId req.toAddr req.value req.data intent ∧
      Envelope signed.tx req.chainId req.toAddr (decimal req.value.toList) req.data ∧
      signed.asked = policyInput customer intent.policyTo (decimal req.value.toList) req.chainId
        req.country intent ∧
      signed.destination = some req.toAddr ∧ s.Approves signed.asked ∧
      (s.whitelistEnforced = true → s.Whitelists "ethereum" req.toAddr) := by
  have hbuild := build_of_signTransaction h
  obtain ⟨_, hcontrols, h⟩ := bind_eq_ok.mp h
  obtain ⟨key, -, h⟩ := bind_eq_ok.mp h
  obtain ⟨_, -, h⟩ := bind_eq_ok.mp h
  obtain ⟨built, -, h⟩ := bind_eq_ok.mp h
  obtain ⟨intent, hintent, h⟩ := bind_eq_ok.mp h
  obtain ⟨_, hpolicy, h⟩ := bind_eq_ok.mp h
  obtain ⟨_, -, h⟩ := bind_eq_ok.mp h
  obtain ⟨_, -, h⟩ := bind_eq_ok.mp h
  cases h
  refine ⟨intent, resolveTransferIntent_cases hintent, ?_, rfl, rfl, .of_policy hpolicy,
    .of_controls hcontrols⟩
  refine envelope_of_build req.to_matches (fun d hd => ?_) hbuild
  exact exists_of_isHex (req.data_matches d hd)

theorem sign_eq_ok (h : sign s customer req = .ok signed) :
    ∃ intent,
      IntentCase s.lib (s.intentContext customer) req.chainId req.toAddr (req.value.getD "0")
        req.data intent ∧
      Envelope signed.tx req.chainId req.toAddr (decimal (req.value.getD "0").toList) req.data ∧
      signed.asked = policyInput customer intent.policyTo (decimal (req.value.getD "0").toList)
        req.chainId req.country intent ∧
      signed.destination = some intent.policyTo ∧ s.Approves signed.asked ∧
      (s.whitelistEnforced = true → s.Whitelists "ethereum" intent.policyTo) := by
  obtain ⟨intent, hintent, h⟩ := bind_eq_ok.mp h
  obtain ⟨_, -, h⟩ := bind_eq_ok.mp h
  obtain ⟨_, hallowed, h⟩ := bind_eq_ok.mp h
  obtain ⟨_, hpolicy, h⟩ := bind_eq_ok.mp h
  obtain ⟨_, -, h⟩ := bind_eq_ok.mp h
  obtain ⟨tx, htx, h⟩ := bind_eq_ok.mp h
  cases h
  refine ⟨intent, resolveTransferIntent_cases hintent, ?_, rfl, rfl, .of_policy hpolicy,
    .of_allowed hallowed⟩
  have e := envelope_of_postSign req.to_matches htx
  -- a value that is left out is `0` to the gateway and empty, which is zero, to the signer
  have hvalue : decimal (req.value.getD "").toList = decimal (req.value.getD "0").toList := by
    cases req.value <;> rfl
  exact ⟨e.matches_address, e.chainID, e.recipient, hvalue ▸ e.value, e.data⟩

theorem settle_eq_ok {initiator : Initiator} (h : settle s customer initiator req = .ok signed) :
    Envelope signed.tx req.chainId req.toAddr (decimal (req.value.getD "0").toList) req.data ∧
      signed.asked = checkPolicyInput (transactionRequest customer req initiator) ∧
      s.Approves signed.asked ∧
      (initiator = .apiKey → signed.destination = some req.toAddr ∧
        (s.whitelistEnforced = true → s.Whitelists "ethereum" req.toAddr)) ∧
      (initiator ≠ .apiKey → signed.destination = none) := by
  obtain ⟨destination, hd, h⟩ := bind_eq_ok.mp h
  obtain ⟨tx, htx, h⟩ := bind_eq_ok.mp h
  cases h
  obtain ⟨policy, hpolicy, htx⟩ := bind_eq_ok.mp htx
  split at htx
  · cases htx
  next happroved =>
  split at htx
  · cases htx
  refine ⟨?_, rfl, ⟨policy, hpolicy, Decidable.not_not.mp happroved⟩, ?_⟩
  · cases initiator with
    | apiKey | person =>
      have e := envelope_of_postSign req.to_matches htx
      exact ⟨e.matches_address, e.chainID, e.recipient, e.value, e.data⟩
  · cases initiator with
    | apiKey =>
      obtain ⟨_, -, hd⟩ := bind_eq_ok.mp hd
      obtain ⟨_, hallowed, hd⟩ := bind_eq_ok.mp hd
      exact ⟨fun _ => ⟨(Except.ok.inj hd).symm, .of_allowed hallowed⟩, fun hne => absurd rfl hne⟩
    | person => exact ⟨Initiator.noConfusion, fun _ => (Except.ok.inj hd).symm⟩

/-! ## Tokens by name -/

theorem Registry.requireTransactable_eq_ok {name : String}
    (h : registry.requireTransactable chainId name = .ok token) :
    token ∈ registry.rows ∧ token.chainId = chainId ∧ token.status = .verified := by
  unfold Registry.requireTransactable at h
  simp only at h
  split at h
  · cases h
  next found hfound =>
  have hby : registry.byContract chainId name = some found ∨
      registry.bySymbol chainId name = some found := by
    split at hfound <;> split at hfound
    · exact .inl hfound
    · exact .inr hfound
    · exact .inl hfound
    · exact .inr hfound
  have hrow : found ∈ registry.rows ∧ found.chainId = chainId := by
    rcases hby with hby | hby
    · obtain ⟨hmem, hchain, -⟩ := Registry.byContract_eq_some hby
      exact ⟨hmem, hchain⟩
    · have hp := List.find?_some hby
      simp only [Bool.and_eq_true, beq_iff_eq] at hp
      exact ⟨List.mem_of_find?_eq_some hby, hp.1⟩
  split at h
  · next hstatus =>
    cases h
    exact ⟨hrow.1, hrow.2, hstatus⟩
  · cases h
  · cases h
  · cases h

theorem matchesAddress_of_format (hs : chainId ≠ solanaChainId)
    (h : isContractAddress chainId address) :
    matchesAddress address ∧ lowerText address = address := by
  have hdigit : ∀ c, "0123456789abcdef".toList.contains c →
      (hexValue c).isSome ∧ c.toLower = c := by
    intro c hc
    have hmem : c ∈ "0123456789abcdef".toList := by simpa using hc
    have hall : ("0123456789abcdef".toList.all fun c =>
        (hexValue c).isSome ∧ c.toLower = c) := by decide
    exact of_decide_eq_true (List.all_eq_true.mp hall c hmem)
  rw [isContractAddress, if_neg hs] at h
  split at h
  · next body hbody =>
    simp only [Bool.and_eq_true, beq_iff_eq, List.all_eq_true] at h
    refine ⟨?_, ?_⟩
    · simp only [matchesAddress, hbody, Bool.and_eq_true, beq_iff_eq, List.all_eq_true]
      exact ⟨h.1, fun c hc => (hdigit c (h.2 c hc)).1⟩
    · have hmap : body.map Char.toLower = body :=
        (List.map_congr_left fun c hc => (hdigit c (h.2 c hc)).2).trans (List.map_id body)
      rw [lowerText, hbody, List.map_cons, List.map_cons, hmap, ← String.ofList_toList (s := address),
        hbody]
      rfl
  · cases h

theorem Registry.byContract_self {contract : String} (hmem : token ∈ registry.rows)
    (hs : token.chainId ≠ solanaChainId) (hc : token.contractAddress = some contract) :
    registry.byContract token.chainId contract = some token := by
  have hlower : ∀ t ∈ registry.rows, t.chainId = token.chainId →
      t.contractAddress.map lowerText = t.contractAddress := by
    intro t ht hchain
    cases ha : t.contractAddress with
    | none => rfl
    | some a =>
      have := (matchesAddress_of_format (hchain ▸ hs) (registry.format t ht a ha)).2
      rw [Option.map_some, this]
  cases hf : registry.byContract token.chainId contract with
  | none =>
    have := List.find?_eq_none.mp hf token hmem
    simp [hc] at this
  | some t =>
    obtain ⟨ht, hchain, haddr⟩ := Registry.byContract_eq_some hf
    rw [if_neg hs, hlower t ht hchain] at haddr
    have hself : contract = lowerText contract := by
      have := hlower token hmem rfl
      rw [hc] at this
      exact (Option.some.inj this).symm
    rw [← hself, ← hc] at haddr
    exact congrArg some (registry.unique t ht token hmem hchain haddr (by rw [haddr, hc]; simp))

structure TokenSent (s : EvmServices) (customer : Customer) (req : TokenTransferDto)
    (signed : Signed) (registry : Registry) (token : Token) (contract data : String)
    (baseUnits : Nat) : Prop where
  tokens : s.tokens = some registry
  row : token ∈ registry.rows
  chainId : token.chainId = req.chainId
  verified : token.status = .verified
  contractAddress : token.contractAddress = some contract
  encoded : encodeTransfer s.lib req.recipient baseUnits = .ok data
  built : ∃ r : UnsignedTxRequest, r.toAddr = contract ∧ r.value = 0 ∧ r.data = some data ∧
    r.chainId = req.chainId ∧ buildUnsignedTransaction s.lib r = .ok signed.tx
  toAddr : signed.asked.toAddr = req.recipient
  amount : evaluatedAmount signed.asked = baseUnits
  asset : signed.asked.asset = some token.symbol
  approved : s.Approves signed.asked
  destination : signed.destination = some req.recipient
  whitelist : s.whitelistEnforced = true → s.Whitelists "ethereum" req.recipient

theorem sendToken_eq_ok {req : TokenTransferDto} (h : sendToken s customer keyId req = .ok signed) :
    (∃ registry token contract data baseUnits,
      TokenSent s customer req signed registry token contract data baseUnits) ∧
    signed.tx.nonce = req.nonce := by
  obtain ⟨_, hcontrols, h⟩ := bind_eq_ok.mp h
  split at h
  · cases h
  next registry hregistry =>
  obtain ⟨key, -, h⟩ := bind_eq_ok.mp h
  split at h
  · cases h
  obtain ⟨token, htoken, h⟩ := bind_eq_ok.mp h
  obtain ⟨hmem, hchain, hverified⟩ := Registry.requireTransactable_eq_ok htoken
  split at h
  · cases h
  next contract hcontract =>
  obtain ⟨baseUnits, -, h⟩ := bind_eq_ok.mp h
  obtain ⟨data, hdata, h⟩ := bind_eq_ok.mp h
  obtain ⟨built, hbuilt, h⟩ := bind_eq_ok.mp h
  obtain ⟨_, hpolicy, h⟩ := bind_eq_ok.mp h
  obtain ⟨_, -, h⟩ := bind_eq_ok.mp h
  obtain ⟨_, -, h⟩ := bind_eq_ok.mp h
  cases h
  have hbuild := orBadRequest_eq_ok.mp hbuilt
  refine ⟨⟨registry, token, contract, data, baseUnits, hregistry, hmem, hchain, hverified,
    hcontract, orBadRequest_eq_ok.mp hdata, ⟨_, rfl, rfl, rfl, rfl, hbuild⟩,
    rfl, rfl, rfl, .of_policy hpolicy, rfl, .of_controls hcontrols⟩, nonce_of_build hbuild⟩

section

variable {req : TokenTransferDto} {registry : Registry} {token : Token} {contract data : String}
  {baseUnits : Nat} (t : TokenSent s customer req signed registry token contract data baseUnits)
include t

/-- On an EVM chain the transaction pays the recipient and the amount of the request. -/
theorem TokenSent.moved_eq (hs : req.chainId ≠ solanaChainId) :
    ∃ addr, addressOf req.recipient = some addr ∧
      paymentOf s.tokens signed.tx = some ⟨addr, some token.symbol, baseUnits⟩ := by
  have hs' : token.chainId ≠ solanaChainId := t.chainId ▸ hs
  have hm := (matchesAddress_of_format hs'
    (registry.format token t.row contract t.contractAddress)).1
  obtain ⟨addr, haddr⟩ := exists_addressOf req.recipient_matches
  obtain ⟨body, bs, htext, hbs, hcall⟩ := tokenCall_of_encodeTransfer t.encoded haddr
  obtain ⟨r, rfl, hvalue, hdata, hchain, hbuilt⟩ := t.built
  have e := envelope_of_build hm (fun d hd => by
    obtain rfl := Option.mem_unique hdata hd
    exact ⟨body, bs, htext, hbs⟩) hbuilt
  have hbytes : calldataOf r.data = bs := by
    rw [calldataOf, hdata, Option.getD_some, htext, digitsOf, hbs]
    rfl
  have hv : verifiedToken s.tokens r.chainId r.toAddr = some token := by
    have hfound := Registry.byContract_self t.row hs' t.contractAddress
    rw [t.chainId, ← hchain] at hfound
    simp [t.tokens, verifiedToken, hfound, t.verified]
  refine ⟨addr, haddr, ?_⟩
  rw [e.paymentOf_eq, tokenPayment, hv, hbytes, hcall]

theorem TokenSent.not_agrees (hs : req.chainId = solanaChainId) :
    ¬ PolicyAgrees signed.asked (moved s.tokens signed.tx) := by
  obtain ⟨r, -, hvalue, -, hchain, hbuilt⟩ := t.built
  obtain ⟨_, -, -, -, hv, hc, -⟩ := buildUnsignedTransaction_eq_ok hbuilt
  have hnone : paymentOf s.tokens signed.tx = none := by
    rw [paymentOf, hc, hchain, hs, t.tokens, tokenPayment, verifiedToken, Option.getD_some,
      registry.byContract_solana (toList_hexText _)]
    rfl
  intro h
  have hamount := h.amount
  rw [t.amount, moved, hnone, hv, hvalue] at hamount
  exact encodeTransfer_ne_zero t.encoded hamount

end

theorem governs_sendToken_iff {req : TokenTransferDto}
    (h : sendToken s customer keyId req = .ok signed) :
    Governs s customer signed ↔ req.chainId ≠ solanaChainId := by
  obtain ⟨⟨registry, token, contract, data, baseUnits, t⟩, -⟩ := sendToken_eq_ok h
  constructor
  · exact fun hg hs => t.not_agrees hs hg.policy
  · intro hs
    obtain ⟨addr, haddr, hpay⟩ := t.moved_eq hs
    have hmoved : moved s.tokens signed.tx = ⟨addr, some token.symbol, baseUnits⟩ := by
      rw [moved, hpay]
      rfl
    refine ⟨?_, t.approved, fun he => ?_, .inr (.inl (by rw [hpay]; rfl))⟩
    · rw [hmoved]
      have hsymbol := registry.symbol_ne token t.row
      exact ⟨t.toAddr ▸ haddr, t.amount, by simp [evaluatedAsset, t.asset, hsymbol]⟩
    · rw [hmoved]
      exact ⟨req.recipient, t.destination, t.whitelist he, haddr⟩

theorem governs_signTransaction_iff {req : SignTransactionDto} {approvalGranted : Bool}
    (h : signTransaction s customer keyId req approvalGranted = .ok signed) :
    Governs s customer signed ↔
      (Route.signTransaction keyId req approvalGranted).Safe s customer := by
  obtain ⟨intent, hcase, e, hasked, hdest, happroved, hlisted⟩ := signTransaction_eq_ok h
  have hpolicy : PolicyAgrees signed.asked (moved s.tokens signed.tx) ↔ _ :=
    hasked ▸ policyAgrees_intent e hcase
  constructor
  · intro hg m hm
    rcases hpolicy.mp hg.policy m hm with hread | henv
    · refine .inl ⟨hread, fun he => ?_⟩
      obtain ⟨d, hd, -, haddr⟩ := hg.whitelist he
      obtain rfl := Option.mem_unique hdest hd
      rw [haddr, e.moved_of_payment hm]
    · exact .inr henv
  · intro hsafe
    refine ⟨hpolicy.mpr fun m hm => (hsafe m hm).imp And.left id, happroved, fun he => ?_,
      calldata_intent e hcase⟩
    refine ⟨req.toAddr, hdest, hlisted he, ?_⟩
    cases hp : tokenPayment s.tokens req.chainId req.toAddr (calldataOf req.data) with
    | none =>
      rw [e.moved_of_none hp]
      exact e.recipient
    | some m =>
      rw [e.moved_of_payment hp]
      rcases hsafe m hp with ⟨-, hto⟩ | henv
      · exact hto he
      · exact henv.1

theorem governs_sign_iff (h : sign s customer req = .ok signed) :
    Governs s customer signed ↔ (Route.sign req).Safe s customer := by
  obtain ⟨intent, hcase, e, hasked, hdest, happroved, hlisted⟩ := sign_eq_ok h
  have hpolicy : PolicyAgrees signed.asked (moved s.tokens signed.tx) ↔ _ :=
    hasked ▸ policyAgrees_intent e hcase
  refine ⟨fun hg => hpolicy.mp hg.policy, fun hsafe => ?_⟩
  have hagrees := hpolicy.mpr hsafe
  refine ⟨hagrees, happroved, fun he => ⟨intent.policyTo, hdest, hlisted he, ?_⟩,
    calldata_intent e hcase⟩
  have hto := hagrees.recipient
  rw [hasked] at hto
  exact hto

theorem governs_settle_iff {initiator : Initiator}
    (h : settle s customer initiator req = .ok signed) :
    Governs s customer signed ↔ (Route.settlement initiator req).Safe s customer := by
  obtain ⟨e, hasked, happroved, hkey, hnokey⟩ := settle_eq_ok h
  have hpolicy := e.policyAgrees_iff s.tokens signed.asked "NATIVE"
    (by rw [hasked]; cases initiator <;> rfl) (by rw [hasked]; cases initiator <;> rfl)
    (by rw [hasked]; cases initiator <;> rfl) (by decide)
  have hto : signed.asked.toAddr = req.toAddr := by rw [hasked]; cases initiator <;> rfl
  constructor
  · intro hg
    refine ⟨hpolicy.mp hg.policy, fun hdata hnone => ?_, fun hperson => ?_⟩
    · rcases hg.calldata with hc | hc | hc | hc
      · exact absurd (e.data_eq.symm.trans hc) hdata
      · rw [e.paymentOf_eq, hnone] at hc
        cases hc
      · exact .inl hc
      · exact .inr (e.governedCall_eq s.governed customer.customerId ▸ hc)
    · by_contra he
      obtain ⟨d, hd, -⟩ := hg.whitelist (by simpa using he)
      rw [hnokey hperson] at hd
      cases hd
  · rintro ⟨hpay, hcall, hperson⟩
    have hagrees := hpolicy.mpr hpay
    refine ⟨hagrees, happroved, fun he => ?_, ?_⟩
    · have hinit : initiator = .apiKey := by
        by_contra hne
        rw [hperson hne] at he
        cases he
      obtain ⟨hdest, hlisted⟩ := hkey hinit
      exact ⟨req.toAddr, hdest, hlisted he, hto ▸ hagrees.recipient⟩
    · by_cases hdata : calldataOf req.data = []
      · exact .inl (e.data_eq.trans hdata)
      · cases hp : tokenPayment s.tokens req.chainId req.toAddr (calldataOf req.data) with
        | some m => exact .inr (.inl (by rw [e.paymentOf_eq, hp]; rfl))
        | none =>
          rcases hcall hdata hp with hc | hc
          · exact .inr (.inr (.inl hc))
          · exact .inr (.inr (.inr ((e.governedCall_eq _ _).trans hc)))

/-- **What is signed is what was governed, exactly when the request is safe.** -/
theorem signed_is_governed_iff {route : Route} (h : route.run s customer = .ok signed) :
    Governs s customer signed ↔ route.Safe s customer := by
  cases route with
  | signTransaction => exact governs_signTransaction_iff h
  | sendToken => exact governs_sendToken_iff h
  | sign req => exact governs_sign_iff h
  | settlement => exact governs_settle_iff h

/-! ## One token, one payee -/

def contractText : String := "0x1111111111111111111111111111111111111111"
def payeeText : String := "0x2222222222222222222222222222222222222222"

/-- `transfer` of five base units to the payee. -/
def transferText : String :=
  "0xa9059cbb0000000000000000000000002222222222222222222222222222222222222222" ++
    "0000000000000000000000000000000000000000000000000000000000000005"

def oneToken : Registry where
  rows := [⟨1, some contractText, "USDC", 6, some "USD", none, .verified⟩]
  symbol_ne := by decide
  format := by
    intro t ht a ha
    obtain rfl := List.mem_singleton.mp ht
    cases ha
    decide
  unique := by
    intro t ht u hu _ _ _
    rw [List.mem_singleton.mp ht, List.mem_singleton.mp hu]

/-- An organisation that enforces a whitelist with one entry, and a policy that approves. -/
def whitelisting (address : String) : EvmServices where
  controls := some ⟨false, none, true⟩
  whitelist := [⟨"ethereum", address, 0, false⟩]
  now := 1
  keys := fun keyId => some ⟨keyId, "ethereum", .active, payeeText, "", none, false⟩
  policy := fun _ => .ok ⟨true, [], false, []⟩
  lib := digitsLib
  tokens := some oneToken
  governed := none
  travelRuleBeforeSigning := fun _ => .ok ()
  runSigningCeremony := fun _ _ => .ok ()
  checkAndRecord := .ok ()
  signDigest := fun _ => .ok ()
  awaitApprovals := fun _ _ => "approved"
  erc20TransferGasLimit := 100000

def tenant : Customer := ⟨"tenant", "standard", ⟨none, none⟩, false⟩

def tokenCallDto : SignRequestDto where
  chainId := 1
  toAddr := contractText
  data := some transferText
  value := none
  gasLimit := 100000
  gasPrice := some "1"
  maxFeePerGas := none
  maxPriorityFeePerGas := none
  nonce := 0
  country := none
  to_matches := by decide
  value_matches := by simp
  gasLimit_min := by decide

def tokenCallTx : Transaction where
  chainID := some 1
  nonce := 0
  gas := 100000
  gasPrice := some 1
  maxFee := none
  tip := none
  recipient := some (List.replicate 20 0x11)
  value := some 0
  data := [0xa9, 0x05, 0x9c, 0xbb] ++ List.replicate 12 0 ++ List.replicate 20 0x22
    ++ List.replicate 31 0 ++ [5]

deriving instance DecidableEq for Transaction
deriving instance DecidableEq for Signed

def askedAboutToken : PolicyInput where
  customerId := "tenant"
  customerTier := "standard"
  toAddr := payeeText
  value := 0
  chainId := 1
  country := none
  asset := some "USDC"
  assetAmount := some 5
  assetDecimals := some 6
  pegCurrency := some "USD"
  isAllowance := some false
  whitelist := none
  blockedCountries := none

/-- `POST /sign` of a token transfer: the whitelist and the policy are asked about the payee. -/
theorem signed_is_governed_iff_sign :
    (Route.sign tokenCallDto).run (whitelisting payeeText) tenant
        = .ok ⟨tokenCallTx, askedAboutToken, some payeeText⟩ ∧
      Governs (whitelisting payeeText) tenant ⟨tokenCallTx, askedAboutToken, some payeeText⟩ := by
  have hrun : (Route.sign tokenCallDto).run (whitelisting payeeText) tenant
      = .ok ⟨tokenCallTx, askedAboutToken, some payeeText⟩ := by decide +kernel
  have hread : decodeErc20Call (whitelisting payeeText).lib tokenCallDto.data
      = .ok (some ⟨.transfer, payeeText, none, 5, false⟩) := by decide +kernel
  exact ⟨hrun, (signed_is_governed_iff hrun).mpr fun _ _ => .inl ⟨_, hread⟩⟩

def tokenCallTransaction : SignTransactionDto where
  chainId := 1
  toAddr := contractText
  data := some transferText
  value := "0"
  gasLimit := 100000
  gasPrice := some 1
  maxFeePerGas := none
  maxPriorityFeePerGas := none
  nonce := 0
  country := none
  to_matches := by decide
  value_matches := by decide
  data_matches := by
    intro d hd
    cases hd
    decide +kernel
  gasLimit_min := by decide
  chainId_min := by decide

def askedAboutEnvelope (toAddr : String) : PolicyInput where
  customerId := "tenant"
  customerTier := "standard"
  toAddr := toAddr
  value := 0
  chainId := 1
  country := some ""
  asset := none
  assetAmount := none
  assetDecimals := none
  pegCurrency := none
  isAllowance := none
  whitelist := none
  blockedCountries := none

/--
Signatures over what nobody was asked about. With the token's contract on the whitelist, a transfer
of the token to anybody is signed; a settlement of the same calldata is signed after a policy that
saw a native transfer of nothing to the contract; and a settlement a person starts is signed without
asking the whitelist.
-/
theorem ungoverned_signatures :
    ((Route.signTransaction "key" tokenCallTransaction false).run (whitelisting contractText) tenant
        = .ok ⟨tokenCallTx, askedAboutToken, some contractText⟩ ∧
      ¬ Governs (whitelisting contractText) tenant
        ⟨tokenCallTx, askedAboutToken, some contractText⟩) ∧
    ((Route.settlement .apiKey tokenCallDto).run (whitelisting contractText) tenant
        = .ok ⟨tokenCallTx, askedAboutEnvelope contractText, some contractText⟩ ∧
      ¬ Governs (whitelisting contractText) tenant
        ⟨tokenCallTx, askedAboutEnvelope contractText, some contractText⟩) ∧
    ((Route.settlement (.person "user" "user@example.com") { tokenCallDto with data := none }).run
        (whitelisting payeeText) tenant
        = .ok ⟨{ tokenCallTx with data := [] }, askedAboutEnvelope contractText, none⟩ ∧
      ¬ Governs (whitelisting payeeText) tenant
        ⟨{ tokenCallTx with data := [] }, askedAboutEnvelope contractText, none⟩) := by
  refine ⟨⟨by decide +kernel, fun h => ?_⟩, ⟨by decide +kernel, fun h => ?_⟩,
    ⟨by decide +kernel, fun h => ?_⟩⟩
  · obtain ⟨d, hd, -, haddr⟩ := h.whitelist rfl
    cases hd
    exact absurd haddr (by decide +kernel)
  · exact absurd h.policy.amount (by decide +kernel)
  · obtain ⟨d, hd, -⟩ := h.whitelist rfl
    cases hd

end OpenFireblocks.Evm
