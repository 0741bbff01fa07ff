import OpenFireblocks.Evm.Erc20
import OpenFireblocks.Gateway.Controls

/-!
# What a transaction moves, as `keys/transfer-intent.ts` works it out

Before anything decides whether a transaction is allowed, the gateway reads its calldata:

* no calldata: a native transfer;
* an administrative call to a security token of the organisation: governed by that module;
* a call of a registered and verified token: governed on the recipient and amount in the calldata;
* anything else is refused, unless the organisation has turned on arbitrary contract calls.
-/

namespace OpenFireblocks.Evm

open BigEndian Go Gateway

/-- `toLowerCase()`, and `lower()` of the database. -/
def lowerText (text : String) : String := String.ofList (text.toList.map Char.toLower)

/-! ## The token registry -/

inductive TokenStatus where
  | awaitingAddress
  | unverified
  | verified
  | suspended
deriving DecidableEq

def TokenStatus.text : TokenStatus → String
  | .awaitingAddress => "awaiting_address"
  | .unverified => "unverified"
  | .verified => "verified"
  | .suspended => "suspended"

structure Token where
  chainId : Int
  contractAddress : Option String
  symbol : String
  decimals : Nat
  pegCurrency : Option String
  issuer : Option String
  status : TokenStatus

/-- Solana mints are registered under this chain id and compared exactly. -/
def solanaChainId : Int := 501

def base58Digits : List Char :=
  "123456789ABCDEFGHJKLMNPQRSTUVWXYZabcdefghijkmnopqrstuvwxyz".toList

/-- `/^[1-9A-HJ-NP-Za-km-z]{32,44}$/`. -/
def isBase58Address (text : String) : Bool :=
  text.toList.all base58Digits.contains && 32 ≤ text.length && text.length ≤ 44

/-- A base58 text that stands for at most 32 bytes. -/
def isSolanaMint (text : String) : Bool :=
  isBase58Address text && text.toList.foldl (fun n c => n * 58 + base58Digits.idxOf c) 0 < 2 ^ 256

/-- The check constraint `tokens_contract_address_format`. -/
def isContractAddress (chainId : Int) (address : String) : Bool :=
  if chainId = solanaChainId then isBase58Address address
  else
    match address.toList with
    | '0' :: 'x' :: body => body.length == 40 && body.all "0123456789abcdef".toList.contains
    | _ => false

/--
The table `tokens`, with its check on addresses and its unique index on them. A token is registered
with a symbol of at least one character.
-/
structure Registry where
  rows : List Token
  symbol_ne : ∀ t ∈ rows, t.symbol ≠ ""
  format : ∀ t ∈ rows, ∀ a, t.contractAddress = some a → isContractAddress t.chainId a = true
  unique : ∀ t ∈ rows, ∀ u ∈ rows, t.chainId = u.chainId → t.contractAddress = u.contractAddress →
    t.contractAddress ≠ none → t = u

namespace Registry

variable (registry : Registry)

def byContract (chainId : Int) (address : String) : Option Token :=
  registry.rows.find? fun t =>
    t.chainId == chainId &&
      (if chainId = solanaChainId then t.contractAddress == some address
       else t.contractAddress.map lowerText == some (lowerText address))

def bySymbol (chainId : Int) (symbol : String) : Option Token :=
  registry.rows.find? fun t =>
    t.chainId == chainId && t.symbol.toList.map Char.toUpper == symbol.toList.map Char.toUpper

def requireTransactable (chainId : Int) (symbolOrAddress : String) : Except HttpError Token :=
  let isAddress :=
    if chainId = solanaChainId then isSolanaMint symbolOrAddress
    else symbolOrAddress.toList.take 2 == ['0', 'x']
  match if isAddress then registry.byContract chainId symbolOrAddress
      else registry.bySymbol chainId symbolOrAddress with
  | none =>
    .error (.notFound (s!"no token {symbolOrAddress} is registered on chain {chainId}. "
      ++ "Tokens are registered by an operator so that a symbol means one "
      ++ "contract for every tenant, rather than whichever contract a caller names."))
  | some token =>
    match token.status with
    | .verified => .ok token
    | .awaitingAddress =>
      let issuer := match token.issuer with
        | some name => s!" ({name})"
        | none => ""
      .error (.badRequest (s!"{token.symbol} on chain {chainId} is registered but has no confirmed "
        ++ s!"contract address yet. Obtain it from the issuer{issuer}, "
        ++ "record it, and run verification."))
    | .unverified =>
      .error (.badRequest (s!"{token.symbol} on chain {chainId} has never been verified against the "
        ++ "chain. Run verification so the contract's own symbol() and decimals() (for a Solana "
        ++ "mint, its decimals) are checked against the registry before anything is signed "
        ++ "against it."))
    | .suspended =>
      .error (.badRequest
        s!"{token.symbol} on chain {chainId} is suspended and cannot be transacted.")

end Registry

/-! ## Calls of security tokens -/

inductive TokenOp where
  | admitHolder
  | remove
  | freeze
  | unfreeze
  | pause
  | unpause
  | mint
  | burn
  | forceTransfer
  | proposeOwner

namespace TokenOp

def all : List TokenOp :=
  [admitHolder, remove, freeze, unfreeze, pause, unpause, mint, burn, forceTransfer, proposeOwner]

/-- The function of the contract. -/
def fn : TokenOp → String
  | admitHolder => "addHolder"
  | remove => "removeHolder"
  | freeze => "freeze"
  | unfreeze => "unfreeze"
  | pause => "pause"
  | unpause => "unpause"
  | mint => "mint"
  | burn => "burn"
  | forceTransfer => "forceTransfer"
  | proposeOwner => "proposeOwner"

/-- The first four bytes of the hash of the function's signature. -/
def selector : TokenOp → Bytes
  | admitHolder => [0xac, 0x1e, 0x17, 0xdf]
  | remove => [0x8d, 0xd4, 0x28, 0x08]
  | freeze => [0x8d, 0x1f, 0xdf, 0x2f]
  | unfreeze => [0x45, 0xc8, 0xb1, 0xa6]
  | pause => [0x84, 0x56, 0xcb, 0x59]
  | unpause => [0x3f, 0x4b, 0xa8, 0x3a]
  | mint => [0x40, 0xc1, 0x0f, 0x19]
  | burn => [0x9d, 0xc2, 0x9f, 0xac]
  | forceTransfer => [0x33, 0xbe, 0xbb, 0x77]
  | proposeOwner => [0xb5, 0xed, 0x29, 0x8a]

end TokenOp

/-- The `Interface` of ethers over the contract's ABI. -/
structure TokenAbi where
  /-- The name of the function that calldata calls, and its arguments as text. -/
  parseTransaction : String → Option (String × List String)
  encodeFunctionData : String → List String → String
  /-- Calldata is hex, so the case of its letters makes no difference. -/
  parse_lowerText : ∀ data, parseTransaction (lowerText data) = parseTransaction data
  /-- An encoded call starts with the selector of its function. -/
  encode_selector : ∀ (op : TokenOp) (args : List String), ∃ rest,
    (encodeFunctionData op.fn args).toList = '0' :: 'x' :: (hexChars op.selector ++ rest)

/--
Reads the calldata of an administrative act. Encoding what was read must give the same calldata
again.
-/
def recogniseCall (abi : TokenAbi) (data : String) : Option (TokenOp × List String) :=
  match abi.parseTransaction data with
  | none => none
  | some (name, args) =>
    match TokenOp.all.find? (·.fn = name) with
    | none => none
    | some op =>
      if lowerText (abi.encodeFunctionData op.fn args) ≠ lowerText data then none
      else some (op, args)

/-- A row of `security_tokens`. -/
structure SecurityToken where
  customerId : String
  chainId : Int
  contractAddress : String

structure Tokenisation where
  abi : TokenAbi
  securityTokens : List SecurityToken

def Tokenisation.recognise (m : Tokenisation) (customerId : String) (chainId : Int)
    (toAddr value data : String) : Option TokenOp :=
  if value ≠ "0" then none
  else
    match recogniseCall m.abi data with
    | none => none
    | some (op, _) =>
      if m.securityTokens.any fun t =>
          t.customerId == customerId && t.chainId == chainId && t.contractAddress == lowerText toAddr
      then some op
      else none

/-! ## The intent -/

/-- What the controls evaluate, and what is known to be moved. -/
structure TransferIntent where
  policyTo : String
  asset : String
  assetAmount : Nat
  assetDecimals : Nat
  pegCurrency : Option String
  isAllowance : Option Bool
  effectiveTo : Option String
  effectiveAmount : Option Nat

/-- What `resolveTransferIntent` reads beside the transaction. -/
structure IntentContext where
  customerId : String
  arbitraryContractCallsEnabled : Bool
  tokens : Option Registry
  governed : Option Tokenisation

def nativeIntent (toAddr : String) (amount : Nat) : TransferIntent where
  policyTo := toAddr
  asset := "NATIVE"
  assetAmount := amount
  assetDecimals := 18
  pegCurrency := none
  isAllowance := none
  effectiveTo := some toAddr
  effectiveAmount := some amount

def governedIntent (toAddr : String) : TransferIntent where
  policyTo := toAddr
  asset := "GOVERNED"
  assetAmount := 0
  assetDecimals := 18
  pegCurrency := none
  isAllowance := none
  effectiveTo := none
  effectiveAmount := none

def unreadableIntent (toAddr : String) (amount : Nat) : TransferIntent where
  policyTo := toAddr
  asset := "UNKNOWN"
  assetAmount := amount
  assetDecimals := 18
  pegCurrency := none
  isAllowance := none
  effectiveTo := none
  effectiveAmount := none

def tokenIntent (call : Erc20Call) (token : Token) : TransferIntent where
  policyTo := call.recipient
  asset := token.symbol
  assetAmount := call.amount
  assetDecimals := token.decimals
  pegCurrency := token.pegCurrency
  isAllowance := some call.isAllowance
  effectiveTo := some call.recipient
  effectiveAmount := some call.amount

def unreadableCalldata (arbitraryContractCallsEnabled : Bool) (toAddr : String) (amount : Nat)
    (why : String) : Except HttpError TransferIntent :=
  if ¬ arbitraryContractCallsEnabled then
    .error (.badRequest (s!"this transaction carries calldata the platform cannot account for: {why}. "
      ++ "Policy determines the recipient and amount by decoding the call, and it cannot "
      ++ "decode this one -- so signing it would mean no control had read what it does. "
      ++ "To send a token, register and verify it and use POST /keys/:keyId/token-transfers. "
      ++ "To call a contract that is not an ERC-20, arbitrary contract calls must be "
      ++ "enabled for this account explicitly."))
  else .ok (unreadableIntent toAddr amount)

def resolveTransferIntent (lib : EthersLib) (ctx : IntentContext) (chainId : Int)
    (toAddr value : String) (data : Option String) : Except HttpError TransferIntent :=
  let amount := decimal value.toList
  if ¬ hasCalldata data then .ok (nativeIntent toAddr amount)
  else
    match ctx.governed.bind fun m => m.recognise ctx.customerId chainId toAddr value (data.getD "") with
    | some _ => .ok (governedIntent toAddr)
    | none =>
      match decodeErc20Call lib data with
      | .error why => unreadableCalldata ctx.arbitraryContractCallsEnabled toAddr amount why
      | .ok none => .error (.badRequest "calldata could not be interpreted")
      | .ok (some call) =>
        match ctx.tokens with
        | none =>
          .error (.serviceUnavailable ("the token registry is not configured, so token transfers "
            ++ "cannot be governed or signed"))
        | some registry =>
          match registry.byContract chainId toAddr with
          | none =>
            unreadableCalldata ctx.arbitraryContractCallsEnabled toAddr amount
              s!"no token is registered at {toAddr} on chain {chainId}"
          | some token =>
            if token.status ≠ .verified then
              unreadableCalldata ctx.arbitraryContractCallsEnabled toAddr amount
                (s!"{token.symbol} on chain {chainId} is registered but not verified "
                  ++ s!"({token.status.text})")
            else .ok (tokenIntent call token)

/-! ## Which of the four a transaction is -/

theorem unreadableCalldata_eq_ok {enabled : Bool} {toAddr why : String} {amount : Nat}
    {intent : TransferIntent} (h : unreadableCalldata enabled toAddr amount why = .ok intent) :
    enabled ∧ intent = unreadableIntent toAddr amount := by
  unfold unreadableCalldata at h
  split at h
  · cases h
  · next he => exact ⟨by simpa using he, (Except.ok.inj h).symm⟩

/-- The token call a text is: the decoder reads it, and its contract is a verified token. -/
def IsTokenCall (lib : EthersLib) (ctx : IntentContext) (chainId : Int) (toAddr : String)
    (data : Option String) (call : Erc20Call) (token : Token) : Prop :=
  decodeErc20Call lib data = .ok (some call) ∧
    ∃ registry, ctx.tokens = some registry ∧ registry.byContract chainId toAddr = some token ∧
      token.status = .verified

/-- The kinds of transaction that are let through. -/
inductive IntentCase (lib : EthersLib) (ctx : IntentContext) (chainId : Int) (toAddr value : String)
    (data : Option String) : TransferIntent → Prop
  | native (h : hasCalldata data = false) :
    IntentCase lib ctx chainId toAddr value data (nativeIntent toAddr (decimal value.toList))
  | governed {m : Tokenisation} {op : TokenOp} (hm : ctx.governed = some m)
    (h : m.recognise ctx.customerId chainId toAddr value (data.getD "") = some op) :
    IntentCase lib ctx chainId toAddr value data (governedIntent toAddr)
  | token {call : Erc20Call} {token : Token} (h : IsTokenCall lib ctx chainId toAddr data call token) :
    IntentCase lib ctx chainId toAddr value data (tokenIntent call token)
  | unreadable (henabled : ctx.arbitraryContractCallsEnabled = true)
    (h : ∀ call token, ¬ IsTokenCall lib ctx chainId toAddr data call token) :
    IntentCase lib ctx chainId toAddr value data (unreadableIntent toAddr (decimal value.toList))

theorem resolveTransferIntent_cases {lib : EthersLib} {ctx : IntentContext} {chainId : Int}
    {toAddr value : String} {data : Option String} {intent : TransferIntent}
    (h : resolveTransferIntent lib ctx chainId toAddr value data = .ok intent) :
    IntentCase lib ctx chainId toAddr value data intent := by
  unfold resolveTransferIntent at h
  split at h
  · next hc =>
    cases h
    exact .native (by simpa using hc)
  · split at h
    · next op hop =>
      cases h
      obtain ⟨m, hm, hop⟩ := Option.bind_eq_some_iff.mp hop
      exact .governed hm hop
    · split at h
      · next why hdec =>
        obtain ⟨he, rfl⟩ := unreadableCalldata_eq_ok h
        refine .unreadable he ?_
        rintro call token ⟨hcall, -⟩
        rw [hdec] at hcall
        cases hcall
      · cases h
      · next call hdec =>
        split at h
        · cases h
        next registry hr =>
        split at h
        · next hnone =>
          obtain ⟨he, rfl⟩ := unreadableCalldata_eq_ok h
          refine .unreadable he ?_
          rintro call' token ⟨-, r, hr', htoken, -⟩
          obtain rfl := Option.mem_unique hr hr'
          rw [hnone] at htoken
          cases htoken
        · next token htoken =>
          split at h
          · next hstatus =>
            obtain ⟨he, rfl⟩ := unreadableCalldata_eq_ok h
            refine .unreadable he ?_
            rintro call' token' ⟨-, r, hr', htoken', hverified⟩
            obtain rfl := Option.mem_unique hr hr'
            obtain rfl := Option.mem_unique htoken htoken'
            exact hstatus hverified
          · next hstatus =>
            cases h
            exact .token ⟨hdec, registry, hr, htoken, Decidable.not_not.mp hstatus⟩

end OpenFireblocks.Evm
