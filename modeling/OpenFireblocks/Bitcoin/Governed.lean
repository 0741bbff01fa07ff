import OpenFireblocks.Bitcoin.CoinAccounting
import OpenFireblocks.Bitcoin.Send
import OpenFireblocks.Lib.Sums

/-!
# What the controls know of a signed Bitcoin transaction

A signed transaction is governed if each of its outputs is the payment that the policy approved, to
an address that an enforced whitelist holds, or pays an address of the key, and if what its outputs
do not account for is within the fee the route reports. An overflow of the `int64` arithmetic can
only make the reported fee larger than the true one (`unaccounted_le_fee`).
-/

namespace OpenFireblocks.Bitcoin

open BigEndian Go Outcome Gateway

/-! ## What is asked of a signed transaction -/

section

variable (lib : SpendLib) (network : String)

def OwnScript (key : Key) (script : Bytes) : Prop :=
  ∃ params segwit legacy, bitcoinNetParams lib.toBtcLib network = .ok params ∧
    bitcoinAddressesForPubKey lib key.publicKey network = .ok (segwit, legacy) ∧
    (scriptForAddress lib.toBtcLib segwit params = .ok script ∨
      scriptForAddress lib.toBtcLib legacy params = .ok script)

/-- The output is the payment the policy approved, to an address an enforced whitelist holds. -/
structure Checked (s : Services) (signed : BitcoinSigned) (out : TxOut) : Prop where
  approved : s.Approves signed.asked
  whitelist : s.whitelistEnforced = true → s.Whitelists "bitcoin" signed.asked.toAddr
  script : ∃ params, bitcoinNetParams lib.toBtcLib network = .ok params ∧
    scriptForAddress lib.toBtcLib signed.asked.toAddr params = .ok out.script
  /-- The policy counts in units of 18 decimals, the output in satoshis. -/
  amount : signed.asked.value = out.value * 10 ^ 10

structure Governed (s : Services) (signed : BitcoinSigned) : Prop where
  outputs : ∀ out ∈ signed.prepared.plan.txOut,
    Checked lib network s signed out ∨ OwnScript lib network signed.key out.script
  fee : signed.prepared.plan.amounts.sum - (signed.prepared.plan.txOut.map TxOut.value).sum
    ≤ signed.prepared.selection.fee

/-- A transfer the route does not refuse for what the request and the key are. -/
structure Payable (key : Key) (req : BitcoinTransactionDto) (params : Net) (destScript : Bytes) :
    Prop where
  active : key.status = .active
  notFrozen : key.walletFrozen = false
  bitcoin : key.blockchain = "bitcoin"
  publicKey : key.publicKey ≠ ""
  net : bitcoinNetParams lib.toBtcLib network = .ok params
  addresses : ∃ addrs, bitcoinAddressesForPubKey lib key.publicKey network = .ok addrs
  amount : Evm.decimal req.amount.toList < 2 ^ 53
  destination : scriptForAddress lib.toBtcLib req.destination params = .ok destScript
  dust : dustThreshold lib.toBtcLib destScript ≤ Evm.decimal req.amount.toList

def Diverts (key : Key) (req : BitcoinTransactionDto) : Prop :=
  ∃ params destScript address script, Payable lib network key req params destScript ∧
    req.changeAddress = some address ∧ scriptForAddress lib.toBtcLib address params = .ok script ∧
    ¬ OwnScript lib network key script

end

/-! ## The fee -/

section

variable {lib : BtcLib} {req : CoinSelectionRequest} {destScript changeScript : Bytes}
  {coins : List UTXO} {sel : CoinSelection}

/-- A round that selects makes a change output, or leaves what would be change to the miner. -/
theorem trySelection_cases {t : Int}
    (h : trySelection lib req destScript changeScript coins t = some sel) :
    ∃ change fee size dropped, sel = buildSelection req coins t change fee size dropped ∧
      (0 < change ∧ InInt64 fee ∧ change = wrap64 (wrap64 (t - req.amount) - fee) ∨
        change = 0 ∧ fee = wrap64 (t - req.amount)) := by
  unfold trySelection at h
  simp only at h
  split at h
  · simp at h
  split at h
  · next hchange =>
    refine ⟨_, _, _, _, (Option.some.inj h).symm, .inl ⟨?_, inInt64_wrap64 _, rfl⟩⟩
    exact lt_of_lt_of_le (dustThreshold_pos lib changeScript) hchange
  split at h
  · exact ⟨_, _, _, _, (Option.some.inj h).symm, .inr ⟨rfl, rfl⟩⟩
  · simp at h

theorem unaccounted_le_fee (hamount : 0 < req.amount) (hmax : req.amount < 2 ^ 63)
    (hpos : 0 ≤ total coins) (htotal : total coins < 2 ^ 63)
    (h : trySelection lib req destScript changeScript coins (wrap64 (total coins)) = some sel) :
    total coins - (sel.request.outputs.map BitcoinOutput.amount).sum ≤ sel.fee := by
  obtain ⟨change, fee, size, dropped, rfl, hcase⟩ := trySelection_cases h
  rw [wrap64_of_nonneg hpos htotal] at hcase
  rcases hcase with ⟨hchange, hfee, heq⟩ | ⟨rfl, rfl⟩
  · -- the true remainder is the fee up to a multiple of 2 ^ 64, and is below 2 ^ 63
    have hdvd : (2 : Int) ^ 64 ∣ total coins - req.amount - change - fee := by
      have hin : InInt64 change := heq ▸ inInt64_wrap64 _
      have hwrap : wrap64 (total coins - req.amount - fee) = change := by
        rw [heq, sub_eq_add_neg (wrap64 _) fee, wrap64_wrap64_add, ← sub_eq_add_neg]
      have := (wrap64_eq_iff hin).mp hwrap
      omega
    obtain ⟨hlo, hhi⟩ := hfee
    simp only [buildSelection, if_pos hchange, List.map_cons, List.map_nil, List.sum_cons,
      List.sum_nil]
    omega
  · simp only [buildSelection, lt_irrefl, if_false, List.map_cons, List.map_nil, List.sum_cons,
      List.sum_nil, add_zero]
    rw [wrap64_of_inInt64 ⟨by omega, by omega⟩]

end

/-! ## What a signed transaction went through -/

section

variable {lib : SpendLib} {network : String} {s : BitcoinServices} {customer : Customer}
  {keyId : String} {key : Key} {req : BitcoinTransactionDto} {approvalGranted : Bool}
  {signed : BitcoinSigned}

theorem loadSignableKey_eq_ok {s : Services} (h : loadSignableKey s keyId = .ok key) :
    s.keys keyId = some key ∧ key.status = .active ∧ key.walletFrozen = false := by
  unfold loadSignableKey at h
  split at h
  · cases h
  next key' hkey =>
  simp only [ite_error_eq_ok] at h
  obtain ⟨hactive, hfrozen, h⟩ := h
  cases h
  exact ⟨hkey, Decidable.not_not.mp hactive, Bool.not_eq_true _ |>.mp hfrozen⟩

variable {amount : Nat} {destScript changeScript hash : Bytes}

/-- The signer scans the key's two addresses, and its change goes back to the segwit one. -/
theorem scanAddresses_prepareRequest (hpub : key.publicKey ≠ "") (amount : Nat) :
    scanAddresses lib (prepareRequest network req key amount)
      = do
        let (segwit, legacy) ← respond 400 (bitcoinAddressesForPubKey lib key.publicKey network)
        return ([segwit, legacy], segwit) := by
  unfold scanAddresses prepareRequest
  simp only [if_neg hpub]
  cases respond 400 (bitcoinAddressesForPubKey lib key.publicKey network) with
  | error err | ok addrs => rfl

def selectionRequest (network : String) (req : BitcoinTransactionDto) (amount : Nat)
    (utxos : List UTXO) (feeRate : Int) (segwit : String) : CoinSelectionRequest where
  network := network
  utxos := utxos
  destination := req.destination
  amount := amount
  feeRate := feeRate
  changeAddress := if req.changeAddress.getD "" = "" then segwit else req.changeAddress.getD ""
  minConfirmations := req.minConfirmations.map Int.ofNat

theorem handleBitcoinPrepare_eq_ok {node : Option BitcoinNode} {prepared : BitcoinPrepareResponse}
    (hpub : key.publicKey ≠ "")
    (h : handleBitcoinPrepare lib node (prepareRequest network req key amount) = .ok prepared) :
    ∃ n segwit legacy utxos feeRate, node = some n ∧
      bitcoinAddressesForPubKey lib key.publicKey network = .ok (segwit, legacy) ∧
      n.listUnspentForAddresses [segwit, legacy] = .ok utxos ∧
      selectCoins lib.toBtcLib (selectionRequest network req amount utxos feeRate segwit)
        = .ok prepared.selection ∧
      planBitcoinTransaction lib.toTxLib prepared.selection.request = .ok prepared.plan := by
  unfold handleBitcoinPrepare at h
  cases node with
  | none => cases h
  | some n =>
    rw [scanAddresses_prepareRequest hpub] at h
    obtain ⟨scan, hscan, h⟩ := bind_eq_ok.mp h
    obtain ⟨⟨segwit, legacy⟩, haddrs, hscan⟩ := bind_eq_ok.mp hscan
    cases hscan
    obtain ⟨utxos, hutxos, h⟩ := bind_eq_ok.mp h
    obtain ⟨feeRate, -, h⟩ := bind_eq_ok.mp h
    obtain ⟨selection, hselection, h⟩ := bind_eq_ok.mp h
    obtain ⟨plan, hplan, h⟩ := bind_eq_ok.mp h
    cases h
    exact ⟨n, segwit, legacy, utxos, feeRate, rfl, respond_eq_ok.mp haddrs,
      nodeCall_eq_ok.mp hutxos, respond_eq_ok.mp hselection, respond_eq_ok.mp hplan⟩

theorem signBitcoin_eq_ok
    (h : signBitcoin lib network s customer keyId req approvalGranted = .ok signed) :
    s.keys keyId = some signed.key ∧ signed.key.status = .active ∧
      signed.key.walletFrozen = false ∧ signed.key.blockchain = "bitcoin" ∧
      signed.key.publicKey ≠ "" ∧ Evm.decimal req.amount.toList < 2 ^ 53 ∧
      signed.asked = bitcoinPolicyInput customer req (Evm.decimal req.amount.toList) ∧
      s.Approves signed.asked ∧
      (s.whitelistEnforced = true → s.Whitelists "bitcoin" req.destination) ∧
      handleBitcoinPrepare lib s.node (prepareRequest network req signed.key
        (Evm.decimal req.amount.toList)) = .ok signed.prepared := by
  obtain ⟨_, hcontrols, h⟩ := bind_eq_ok.mp h
  obtain ⟨key, hkey, h⟩ := bind_eq_ok.mp h
  obtain ⟨_, hchain, h⟩ := bind_eq_ok.mp h
  obtain ⟨amount, hamount, h⟩ := bind_eq_ok.mp h
  obtain ⟨_, hpolicy, h⟩ := bind_eq_ok.mp h
  obtain ⟨-, -, h⟩ := bind_eq_ok.mp h
  obtain ⟨prepared, hprepared, h⟩ := bind_eq_ok.mp h
  obtain ⟨signatures, -, h⟩ := bind_eq_ok.mp h
  cases h
  obtain ⟨hkeys, hactive, hfrozen⟩ := loadSignableKey_eq_ok hkey
  obtain ⟨hbitcoin, hchain⟩ := ite_error_eq_ok.mp hchain
  obtain ⟨hpub, -⟩ := ite_error_eq_ok.mp hchain
  obtain ⟨hlt, hamount⟩ := ite_error_eq_ok.mp hamount
  cases hamount
  exact ⟨hkeys, hactive, hfrozen, not_not.mp hbitcoin, hpub, Nat.not_le.mp hlt, rfl, .of_policy hpolicy,
    .of_controls hcontrols, s.call_eq_ok (translateSignerError_eq_ok.mp hprepared)⟩

/-! ## A request that does not divert its change -/

theorem ownScript_of_not_diverts {params : Net} {segwit legacy : String}
    (hnot : ¬ Diverts lib network key req) (hpay : Payable lib network key req params destScript)
    (haddrs : bitcoinAddressesForPubKey lib key.publicKey network = .ok (segwit, legacy))
    (hchange : scriptForAddress lib.toBtcLib (selectionRequest network req
      (Evm.decimal req.amount.toList) [] 0 segwit).changeAddress params = .ok changeScript) :
    OwnScript lib network key changeScript := by
  by_contra hown
  cases haddr : req.changeAddress with
  | none =>
    -- no address named: the default is the segwit address
    simp only [selectionRequest, haddr] at hchange
    exact hown ⟨params, segwit, legacy, hpay.net, haddrs, .inl hchange⟩
  | some address =>
    have hne : address ≠ "" := by
      rintro rfl
      have := (req.changeAddress_length "" haddr).1
      simp at this
    simp only [selectionRequest, haddr, Option.getD_some, if_neg hne] at hchange
    exact hnot ⟨params, destScript, address, changeScript, hpay, haddr, hchange, hown⟩

theorem governed_of_not_diverts
    (h : signBitcoin lib network s customer keyId req approvalGranted = .ok signed)
    (hnot : ¬ Diverts lib network signed.key req) : Governed lib network s.toServices signed := by
  obtain ⟨-, hactive, hfrozen, hbitcoin, hpub, hlt, hasked, happroved, hlisted, hprepare⟩ :=
    signBitcoin_eq_ok h
  obtain ⟨node, segwit, legacy, utxos, feeRate, -, haddrs, hlist, hselect, hplan⟩ :=
    handleBitcoinPrepare_eq_ok hpub hprepare
  obtain ⟨destScript, changeScript, coins, hcheck, hsub, hspend, hdust, htry⟩ :=
    selectCoins_eq_ok hselect
  obtain ⟨hamount, -, params, hparams, hdest, hchange⟩ := checkRequest_eq_ok hcheck
  have hpay : Payable lib network signed.key req params destScript :=
    ⟨hactive, hfrozen, hbitcoin, hpub, hparams, ⟨_, haddrs⟩, hlt, hdest, hdust⟩
  have hown : OwnScript lib network signed.key changeScript :=
    ownScript_of_not_diverts hnot hpay haddrs hchange
  obtain ⟨params', hparams', houts, hamounts, -⟩ := planBitcoinTransaction_eq_ok hplan
  obtain ⟨hpos, hlt'⟩ := node.supply _ _ hlist
  have hfee := unaccounted_le_fee hamount (by simp only [selectionRequest]; omega)
    (total_nonneg hspend) (lt_of_le_of_lt (Sums.sum_map_le_of_subperm hsub hpos) hlt') htry
  obtain ⟨change, fee, size, dropped, hsel, hcase⟩ := trySelection_cases htry
  rw [hsel] at hparams' houts hamounts hfee
  obtain rfl : params = params' := Except.ok.inj (hparams.symm.trans hparams')
  obtain ⟨-, -, houts⟩ := (planOutputs_eq_ok hdest hchange).mp houts
  refine ⟨?_, ?_⟩
  · intro out hout
    rw [houts] at hout
    rcases List.mem_cons.mp hout with rfl | hout
    · refine .inl ⟨happroved, by rw [hasked]; exact hlisted, ⟨params, hparams, ?_⟩, ?_⟩
      · rw [hasked]
        exact hdest
      · rw [hasked]
        exact Int.natCast_mul _ _
    · obtain rfl : out = ⟨change, changeScript⟩ := by
        by_cases hpos : 0 < change
        · simpa [hpos] using hout
        · simp [hpos] at hout
      exact .inr hown
  · rw [hamounts, houts, hsel]
    refine le_trans (le_of_eq ?_) hfee
    by_cases hpos : 0 < change <;> simp [buildSelection, total, hpos, Function.comp_def]

/-! ## A request that diverts its change -/

/-- `OP_DUP OP_HASH160 <hash> OP_EQUALVERIFY OP_CHECKSIG`. -/
def p2pkhScript (hash : Bytes) : Bytes := [0x76, 0xa9, 20] ++ hash ++ [0x88, 0xac]

/-- A coin at the legacy address of a key. -/
def legacyCoin (hash : Bytes) (amount : Int) : UTXO where
  txid := hexEncodeToString (List.replicate 32 0)
  vout := 0
  amount := amount
  script := hexEncodeToString (p2pkhScript hash)
  confirmations := 100

theorem isPayToPubKeyHash_p2pkhScript (h : hash.length = 20) :
    isPayToPubKeyHash (p2pkhScript hash) := by
  match hash, h with
  | [_, _, _, _, _, _, _, _, _, _, _, _, _, _, _, _, _, _, _, _], _ => rfl

theorem inputWeights_legacyCoin (lib : BtcLib) (h : hash.length = 20) (amount : Int) :
    (inputWeights lib (legacyCoin hash amount).script).isSome := by
  unfold inputWeights legacyCoin hexDecodeString
  rw [toList_hexEncodeToString, hexDecodeChars_hexChars]
  simp only [isPayToPubKeyHash_p2pkhScript h]
  split <;> rfl

def spendFee (lib : SpendLib) (hash destScript changeScript : Bytes) (feeRate : Int) : Int :=
  virtualSize lib.toBtcLib [legacyCoin hash 0] [destScript, changeScript] * feeRate

theorem weight_legacyCoin_le (lib : BtcLib) (hash : Bytes) (amount : Int)
    (hdest : destScript.length ≤ 42) (hchange : changeScript.length ≤ 42) :
    weight lib [legacyCoin hash amount] [destScript, changeScript] ≤ 1150 := by
  have hseg : (if hasSegwit lib [legacyCoin hash amount] then segwitMarkerFlagWeight else 0)
      ≤ 2 := by
    split <;> decide
  have hweights : (chargedWeights lib (legacyCoin hash amount)).1 ≤ 148 ∧
      (chargedWeights lib (legacyCoin hash amount)).2 ≤ 108 := by
    rcases chargedWeights_cases lib (legacyCoin hash amount) with h | h <;> rw [h] <;> decide
  simp only [weight, baseSize, witnessSize, outputSize, txOverheadBase, List.map_cons,
    List.map_nil, List.sum_cons, List.sum_nil] at hseg ⊢
  omega

theorem spendFee_bounds (lib : SpendLib) (hash : Bytes) {feeRate : Int}
    (hdest : destScript.length ≤ 42) (hchange : changeScript.length ≤ 42) (hrate : 0 < feeRate)
    (hmax : feeRate ≤ 10000) :
    0 ≤ spendFee lib hash destScript changeScript feeRate ∧
      spendFee lib hash destScript changeScript feeRate ≤ 2890000 := by
  have hnonneg := virtualSize_nonneg lib.toBtcLib [legacyCoin hash 0] [destScript, changeScript]
  have hle : virtualSize lib.toBtcLib [legacyCoin hash 0] [destScript, changeScript] ≤ 289 := by
    have := weight_legacyCoin_le lib.toBtcLib hash 0 hdest hchange
    unfold virtualSize
    omega
  unfold spendFee
  exact ⟨Int.mul_nonneg hnonneg hrate.le, by nlinarith⟩

theorem selectCoins_singleton {lib : BtcLib} {req : CoinSelectionRequest} {coin : UTXO}
    {sel : CoinSelection} (hutxos : req.utxos = [coin])
    (hcheck : checkRequest lib req = .ok (destScript, changeScript)) (hamount : 0 < coin.amount)
    (hconf : minConf req ≤ coin.confirmations)
    (hweights : (inputWeights lib coin.script).isSome)
    (hdust : dustThreshold lib destScript ≤ req.amount)
    (htry : trySelection lib req destScript changeScript [coin] (wrap64 coin.amount) = some sel) :
    selectCoins lib req = .ok sel := by
  have hspendable : spendable lib req = [coin] := by
    unfold spendable
    rw [hutxos]
    simp [hamount, hconf, hweights]
  unfold selectCoins
  rw [hcheck, ok_bind]
  simp only [hspendable, List.cons_ne_nil, if_false, if_neg (Int.not_lt.mpr hdust)]
  rw [show sortCoins [coin] = [coin] from rfl, selectLoop]
  simp only [List.nil_append, zero_add, htry]

def largeCoin (lib : SpendLib) (hash destScript changeScript : Bytes) (amount : Nat)
    (feeRate : Int) : UTXO :=
  legacyCoin hash (2 * (amount + spendFee lib hash destScript changeScript feeRate) + 546)

theorem dustThreshold_le (lib : BtcLib) (script : Bytes) : dustThreshold lib script ≤ 546 := by
  unfold dustThreshold
  split <;> decide

theorem selectCoins_largeCoin {creq : CoinSelectionRequest} (hhash : hash.length = 20)
    (hdest : destScript.length ≤ 42) (hchange : changeScript.length ≤ 42)
    (hutxos : creq.utxos = [largeCoin lib hash destScript changeScript amount creq.feeRate])
    (hamount : creq.amount = amount) (hlt : amount < 2 ^ 53) (hmax : creq.feeRate ≤ 10000)
    (hconf : minConf creq ≤ 100)
    (hcheck : checkRequest lib.toBtcLib creq = .ok (destScript, changeScript))
    (hdust : dustThreshold lib.toBtcLib destScript ≤ creq.amount) :
    ∃ size, selectCoins lib.toBtcLib creq = .ok (buildSelection creq creq.utxos
      (largeCoin lib hash destScript changeScript amount creq.feeRate).amount
      (amount + spendFee lib hash destScript changeScript creq.feeRate + 546)
      (spendFee lib hash destScript changeScript creq.feeRate) size false) := by
  obtain ⟨hpos, hrate, -⟩ := checkRequest_eq_ok hcheck
  obtain ⟨hfee0, hfee⟩ := spendFee_bounds lib hash hdest hchange hrate hmax
  set fee := spendFee lib hash destScript changeScript creq.feeRate with hfeeDef
  set coin := largeCoin lib hash destScript changeScript amount creq.feeRate with hcoin
  have hvalue : coin.amount = 2 * (amount + fee) + 546 := rfl
  have htotal : total [coin] = coin.amount := by simp [total]
  have himplied : impliedFee lib.toBtcLib creq [coin] [destScript, changeScript] = fee := rfl
  have hweight := weight_legacyCoin_le lib.toBtcLib hash coin.amount hdest hchange
  have hfits : Fits lib.toBtcLib creq destScript changeScript [coin] :=
    ⟨by omega, lt_of_le_of_lt (Int.add_le_add_right hweight 3) (by decide), by omega⟩
  refine ⟨virtualSize lib.toBtcLib [coin] [destScript, changeScript], ?_⟩
  refine selectCoins_singleton hutxos hcheck (by omega) hconf
    (inputWeights_legacyCoin _ hhash _) hdust ?_
  rw [← htotal, trySelection_eq hpos hrate (by omega) hfits]
  have hleft : total [coin] - creq.amount - fee = amount + fee + 546 := by omega
  have hge := dustThreshold_le lib.toBtcLib changeScript
  unfold exactSelection
  simp only [himplied, hleft]
  rw [if_neg (by omega), if_pos (by omega), hutxos]

def legacyInput (hash : Bytes) (amount : Int) : BitcoinInput where
  txid := hexEncodeToString (List.replicate 32 0)
  vout := 0
  amount := amount
  script := hexEncodeToString (p2pkhScript hash)
  segWit := false

theorem planInputs_legacyInput (lib : TxLib) (hash : Bytes) (amount : Int) :
    planInputs lib 0 [legacyInput hash amount] = .ok [⟨List.replicate 32 0, 0⟩] := by
  have hhash := lib.newHashFromStr_hex (List.replicate 32 0) (List.length_replicate ..)
  rw [List.reverse_replicate] at hhash
  simp only [planInputs, planInput, legacyInput, hhash]
  rfl

theorem planSigHashes_legacyInput (lib : TxLib) (hash : Bytes) {amount : Int} (hpos : 0 < amount)
    (txIn : List OutPoint) (txOut : List TxOut) :
    ∃ digests, planSigHashes lib txIn txOut 0 [legacyInput hash amount] = .ok digests := by
  have hne : p2pkhScript hash ≠ [] := by simp [p2pkhScript]
  simp only [planSigHashes, planSigHash, legacyInput, hexDecodeString, toList_hexEncodeToString,
    hexDecodeChars_hexChars, Int.not_le.mpr hpos, and_false]
  exact ⟨_, rfl⟩

theorem planBitcoinTransaction_legacyCoin {creq : CoinSelectionRequest} {params : Net}
    {change size fee : Int} (hfee : 0 ≤ fee) (hamount : 0 < creq.amount) (hchangeFee : fee ≤ change)
    (hlt : creq.amount + change + fee < 2 ^ 63)
    (hparams : bitcoinNetParams lib.toBtcLib creq.network = .ok params)
    (hdest : scriptForAddress lib.toBtcLib creq.destination params = .ok destScript)
    (hchange : scriptForAddress lib.toBtcLib creq.changeAddress params = .ok changeScript)
    (hdust : dustThreshold lib.toBtcLib destScript ≤ creq.amount)
    (hchangeDust : dustThreshold lib.toBtcLib changeScript ≤ change) :
    ∃ plan, planBitcoinTransaction lib.toTxLib (buildSelection creq
        [legacyCoin hash (creq.amount + change + fee)] (creq.amount + change + fee) change fee size
        false).request = .ok plan ∧
      ⟨change, changeScript⟩ ∈ plan.txOut := by
  have hpos : 0 < change := lt_of_lt_of_le (dustThreshold_pos _ _) hchangeDust
  have hout : planOutputs lib.toTxLib params 0
      (⟨creq.destination, creq.amount⟩ :: if 0 < change then [⟨creq.changeAddress, change⟩] else [])
      = .ok (⟨creq.amount, destScript⟩ :: if 0 < change then [⟨change, changeScript⟩] else []) :=
    (planOutputs_eq_ok hdest hchange).mpr ⟨hdust, fun _ => hchangeDust, rfl⟩
  obtain ⟨digests, hdigests⟩ := planSigHashes_legacyInput lib.toTxLib hash
    (show 0 < creq.amount + change + fee by omega) [⟨List.replicate 32 0, 0⟩]
    (⟨creq.amount, destScript⟩ :: if 0 < change then [⟨change, changeScript⟩] else [])
  have htotalOut : sumAmounts [creq.amount, change] = creq.amount + change := by
    simp only [sumAmounts, List.foldl_cons, zero_add, wrap64_wrap64_add]
    exact wrap64_of_nonneg (by omega) (by omega)
  have htotalIn : sumAmounts [creq.amount + change + fee] = creq.amount + change + fee := by
    simp only [sumAmounts, List.foldl_cons, zero_add]
    exact wrap64_of_nonneg (by omega) (by omega)
  have himplied : wrap64 (creq.amount + change + fee - (creq.amount + change)) = fee := by
    rw [add_sub_cancel_left]
    exact wrap64_of_nonneg hfee (by omega)
  have hrequest : (buildSelection creq [legacyCoin hash (creq.amount + change + fee)]
      (creq.amount + change + fee) change fee size false).request
        = ⟨creq.network, [legacyInput hash (creq.amount + change + fee)],
          ⟨creq.destination, creq.amount⟩ ::
            if 0 < change then [⟨creq.changeAddress, change⟩] else []⟩ := rfl
  rw [hrequest]
  unfold planBitcoinTransaction
  simp only [hparams, ok_bind, List.cons_ne_nil, if_false, planInputs_legacyInput, hout, hdigests]
  simp only [if_pos hpos, List.map_cons, List.map_nil,
    show (legacyInput hash (creq.amount + change + fee)).amount = creq.amount + change + fee
      from rfl, htotalIn, htotalOut]
  rw [if_neg (by omega), if_neg (by omega)]
  exact ⟨_, rfl, by simp⟩

def coinNode (coin : UTXO) (h : 0 ≤ coin.amount ∧ coin.amount < 2 ^ 63) : BitcoinNode where
  listUnspentForAddresses _ := .ok [coin]
  estimateSmartFee _ := .ok none
  supply _ utxos hlist := by
    cases hlist
    simpa using h

/-- Services that stop nothing: no freeze, no whitelist, a policy that approves. -/
def openServices (key : Key) (node : BitcoinNode) : BitcoinServices where
  controls := some ⟨false, none, false⟩
  whitelist := []
  now := 0
  keys _ := some key
  policy _ := .ok ⟨true, [], false, []⟩
  node := some node
  unreachable _ := none
  travelRuleBeforeSigning := none
  runSigningCeremony _ _ _ := .ok (String.ofList (List.replicate 130 '1'))
  finalize _ _ _ _ := .ok ⟨"", true⟩
  uuid := ""

theorem splitSignature_ones :
    ∃ pair, splitSignature (String.ofList (List.replicate 130 '1')) = .ok pair := by
  unfold splitSignature
  rw [String.toList_ofList]
  rw [if_neg (by simp)]
  exact ⟨_, rfl⟩

theorem signInputs_eq_ok {signature : String} {pair : String × String} {requestId : String}
    (hceremony : ∀ id hash, s.runSigningCeremony key id hash = .ok signature)
    (hpair : splitSignature signature = .ok pair) (hashes : List Bytes) (i : Nat) :
    ∃ signatures, signInputs s key requestId i hashes = .ok signatures := by
  induction hashes generalizing i with
  | nil => exact ⟨[], rfl⟩
  | cons hash hashes ih =>
    obtain ⟨rest, hrest⟩ := ih (i + 1)
    refine ⟨pair :: rest, ?_⟩
    rw [signInputs, hceremony, ok_bind, hpair, hrest]
    rfl

theorem signBitcoin_openServices {params : Net} {node : BitcoinNode}
    {prepared : BitcoinPrepareResponse} (customer : Customer) (keyId : String)
    (approvalGranted : Bool) (hpay : Payable lib network key req params destScript)
    (hprepare : handleBitcoinPrepare lib (some node) (prepareRequest network req key
      (Evm.decimal req.amount.toList)) = .ok prepared) :
    ∃ signatures, signBitcoin lib network (openServices key node) customer keyId req
      approvalGranted = .ok {
        key := key
        asked := bitcoinPolicyInput customer req (Evm.decimal req.amount.toList)
        prepared := prepared
        signatures := signatures } := by
  obtain ⟨pair, hpair⟩ := splitSignature_ones
  obtain ⟨signatures, hsigs⟩ : ∃ signatures, signInputs (openServices key node) key
      (req.idempotencyKey.getD "") 0 prepared.plan.sigHashes = .ok signatures :=
    signInputs_eq_ok (fun _ _ => rfl) hpair prepared.plan.sigHashes 0
  refine ⟨signatures, ?_⟩
  have hload : loadSignableKey (openServices key node).toServices keyId = .ok key := by
    simp [loadSignableKey, openServices, hpay.active, hpay.notFrozen]
  have hkey : requireBitcoinKey keyId key = .ok () := by
    simp [requireBitcoinKey, hpay.bitcoin, hpay.publicKey]
  have hsats : req.satoshis = .ok (Evm.decimal req.amount.toList) :=
    if_neg (Nat.not_le.mpr hpay.amount)
  have hpolicy : ∀ input, enforcePolicy (openServices key node).toServices input approvalGranted
      = .ok () := fun _ => rfl
  unfold signBitcoin
  rw [hload]
  simp only [ok_bind, hkey, hsats]
  rw [show (openServices key node).node = some node from rfl, hprepare]
  rw [show translateSignerError "preparing the Bitcoin transaction"
    ((openServices key node).call "/bitcoin/prepare" (.ok prepared)) = .ok prepared from rfl,
    show (openServices key node).uuid = "" from rfl]
  simp only [ok_bind, hsigs]
  rfl

/-- The rate such a node leads to: the request's, or the fallback. -/
def spendRate (req : BitcoinTransactionDto) : Int :=
  if ((req.feeRate.getD 0 : Nat) : Int) ≤ 0 then defaultFeeRateSatPerVByte else req.feeRate.getD 0

theorem spendRate_bounds (req : BitcoinTransactionDto) : 0 < spendRate req ∧ spendRate req ≤ 10000 := by
  unfold spendRate
  split
  · decide
  next hpos =>
  cases hrate : req.feeRate with
  | none => simp [hrate] at hpos
  | some rate =>
    obtain ⟨hmin, hmax⟩ := req.feeRate_range rate hrate
    simp only [Option.getD_some]
    omega

theorem handleBitcoinPrepare_coinNode {coin : UTXO} {h : 0 ≤ coin.amount ∧ coin.amount < 2 ^ 63}
    {segwit legacy : String} {sel : CoinSelection} {plan : BitcoinSigningPlan}
    (hpub : key.publicKey ≠ "")
    (haddrs : bitcoinAddressesForPubKey lib key.publicKey network = .ok (segwit, legacy))
    (hsel : selectCoins lib.toBtcLib
      (selectionRequest network req amount [coin] (spendRate req) segwit) = .ok sel)
    (hplan : planBitcoinTransaction lib.toTxLib sel.request = .ok plan) :
    ∃ prepared, handleBitcoinPrepare lib (some (coinNode coin h))
        (prepareRequest network req key amount) = .ok prepared ∧ prepared.plan = plan := by
  have hrate : feeRateFor (coinNode coin h) (prepareRequest network req key amount)
      = .ok (spendRate req) := by
    unfold feeRateFor spendRate prepareRequest
    split <;> rfl
  have hscan : scanAddresses lib (prepareRequest network req key amount)
      = .ok ([segwit, legacy], segwit) := by
    rw [scanAddresses_prepareRequest hpub, haddrs]
    rfl
  refine ⟨⟨sel, plan, sumAmounts [coin.amount], 1, [segwit, legacy]⟩, ?_, rfl⟩
  refine bind_eq_ok.mpr ⟨_, hscan, bind_eq_ok.mpr ⟨[coin], rfl, ?_⟩⟩
  refine bind_eq_ok.mpr ⟨_, hrate, bind_eq_ok.mpr ⟨sel, respond_eq_ok.mpr hsel, ?_⟩⟩
  exact bind_eq_ok.mpr ⟨plan, respond_eq_ok.mpr hplan, rfl⟩

theorem pubKeyHash_of_addresses {addrs : String × String}
    (h : bitcoinAddressesForPubKey lib key.publicKey network = .ok addrs) :
    ∃ hash, pubKeyHash lib key.publicKey = .ok hash ∧ hash.length = 20 := by
  obtain ⟨_, -, h⟩ := bind_eq_ok.mp h
  obtain ⟨hash, hhash, -⟩ := bind_eq_ok.mp h
  refine ⟨hash, hhash, ?_⟩
  unfold pubKeyHash at hhash
  split at hhash
  · simp at hhash
  split at hhash
  · simp at hhash
  cases hhash
  exact lib.hash160_length _

theorem length_of_scriptForAddress {lib : TxLib} {addr : String} {params : Net} {script : Bytes}
    (h : scriptForAddress lib.toBtcLib addr params = .ok script) : script.length ≤ 42 := by
  obtain ⟨-, decoded, -, -, hpay⟩ := scriptForAddress_eq_ok.mp h
  exact lib.script_length decoded script hpay

theorem minConf_selectionRequest_le (amount : Nat) (utxos : List UTXO) (feeRate : Int)
    (segwit : String) : minConf (selectionRequest network req amount utxos feeRate segwit) ≤ 100 := by
  unfold minConf selectionRequest
  cases hconf : req.minConfirmations with
  | none => simp
  | some n =>
    have := req.minConfirmations_max n hconf
    simp only [Option.map_some, Option.getD_some, Int.ofNat_eq_natCast]
    omega

theorem prepare_largeCoin {params : Net} {script : Bytes} {address : String}
    (hpay : Payable lib network key req params destScript)
    (haddress : req.changeAddress = some address)
    (hscript : scriptForAddress lib.toBtcLib address params = .ok script) :
    ∃ node prepared, handleBitcoinPrepare lib (some node) (prepareRequest network req key
        (Evm.decimal req.amount.toList)) = .ok prepared ∧
      ∃ change, (Evm.decimal req.amount.toList : Int) < change ∧
        ⟨change, script⟩ ∈ prepared.plan.txOut := by
  obtain ⟨⟨segwit, legacy⟩, haddrs⟩ := hpay.addresses
  obtain ⟨hash, -, hhash⟩ := pubKeyHash_of_addresses haddrs
  have hdestLen := length_of_scriptForAddress hpay.destination
  have hchangeLen := length_of_scriptForAddress hscript
  obtain ⟨hrate, hrateMax⟩ := spendRate_bounds req
  let fee := spendFee lib hash destScript script (spendRate req)
  obtain ⟨hfee, hfeeMax⟩ : 0 ≤ fee ∧ fee ≤ 2890000 :=
    spendFee_bounds lib hash hdestLen hchangeLen hrate hrateMax
  have hlt := hpay.amount
  have hdust := hpay.dust
  have hdustChange := dustThreshold_le lib.toBtcLib script
  have hne : address ≠ "" := (scriptForAddress_eq_ok.mp hscript).1
  generalize hamount : Evm.decimal req.amount.toList = amount at *
  have hpos : (0 : Int) < amount := lt_of_lt_of_le (dustThreshold_pos _ _) hdust
  let coin := largeCoin lib hash destScript script amount (spendRate req)
  let creq := selectionRequest network req amount [coin] (spendRate req) segwit
  have hchangeAddr : scriptForAddress lib.toBtcLib creq.changeAddress params = .ok script := by
    simp only [creq, selectionRequest, haddress, Option.getD_some, if_neg hne]
    exact hscript
  have hcheck : checkRequest lib.toBtcLib creq = .ok (destScript, script) := by
    refine bind_eq_ok.mpr ⟨params, hpay.net, ?_⟩
    rw [if_neg (Int.not_le.mpr hpos : ¬ creq.amount ≤ 0),
      if_neg (Int.not_le.mpr hrate : ¬ creq.feeRate ≤ 0)]
    refine bind_eq_ok.mpr ⟨destScript, wrapError_eq_ok.mpr hpay.destination, ?_⟩
    exact bind_eq_ok.mpr ⟨script, wrapError_eq_ok.mpr hchangeAddr, rfl⟩
  obtain ⟨size, hsel⟩ := selectCoins_largeCoin hhash hdestLen hchangeLen
    (rfl : creq.utxos = [largeCoin lib hash destScript script amount creq.feeRate]) rfl hlt hrateMax
    (minConf_selectionRequest_le amount [coin] (spendRate req) segwit) hcheck hdust
  have hcoin : coin = legacyCoin hash (amount + (amount + fee + 546) + fee) := by
    refine congrArg (legacyCoin hash) ?_
    show 2 * ((amount : Int) + fee) + 546 = _
    ring
  have hvalue : coin.amount = amount + (amount + fee + 546) + fee := congrArg UTXO.amount hcoin
  obtain ⟨plan, hplan, hmem⟩ := @planBitcoinTransaction_legacyCoin lib destScript script hash creq
    params (amount + fee + 546) size fee hfee hpos (by omega)
    (show (amount : Int) + (amount + fee + 546) + fee < 2 ^ 63 by omega) hpay.net hpay.destination
    hchangeAddr hdust (by omega)
  have hrequest : (buildSelection creq creq.utxos coin.amount (amount + fee + 546) fee size
      false).request = (buildSelection creq [legacyCoin hash (amount + (amount + fee + 546) + fee)]
        (amount + (amount + fee + 546) + fee) (amount + fee + 546) fee size false).request := by
    rw [← hcoin]
    rfl
  obtain ⟨prepared, hprepare, rfl⟩ := @handleBitcoinPrepare_coinNode lib network key req amount coin
    ⟨by omega, by omega⟩ segwit legacy _ plan hpay.publicKey haddrs hsel
    (hrequest ▸ hplan)
  exact ⟨_, prepared, hprepare, amount + fee + 546, by omega, hmem⟩

/-- **A request that diverts its change is signed in some state, with the change in it.** -/
theorem exists_signed_of_diverts (customer : Customer) (keyId : String) (approvalGranted : Bool)
    (h : Diverts lib network key req) :
    ∃ s signed, s.keys keyId = some key ∧
      signBitcoin lib network s customer keyId req approvalGranted = .ok signed ∧
      ¬ Governed lib network s.toServices signed := by
  obtain ⟨params, destScript, address, script, hpay, haddress, hscript, hforeign⟩ := h
  obtain ⟨node, prepared, hprepare, change, hlt, hmem⟩ := prepare_largeCoin hpay haddress hscript
  obtain ⟨signatures, hsigned⟩ :=
    signBitcoin_openServices customer keyId approvalGranted hpay hprepare
  refine ⟨_, _, rfl, hsigned, fun hgov => ?_⟩
  rcases hgov.outputs _ hmem with hchecked | hown
  · have hvalue := hchecked.amount
    simp only [bitcoinPolicyInput, toPolicyUnits] at hvalue
    omega
  · exact hforeign hown

/--
**Every signed Bitcoin transaction is governed, unless the request diverts its change.**

The states are all the states the route can find the key in: any freeze, whitelist, policy, node and
Travel Rule, with or without the approval.
-/
theorem bitcoin_signed_is_governed_iff (lib : SpendLib) (network : String) (customer : Customer)
    (keyId : String) (key : Key) (req : BitcoinTransactionDto) (approvalGranted : Bool) :
    (∀ (s : BitcoinServices) (signed : BitcoinSigned), s.keys keyId = some key →
      signBitcoin lib network s customer keyId req approvalGranted = .ok signed →
      Governed lib network s.toServices signed) ↔ ¬ Diverts lib network key req := by
  constructor
  · intro hall hdiverts
    obtain ⟨s, signed, hkey, hsigned, hnot⟩ :=
      exists_signed_of_diverts customer keyId approvalGranted hdiverts
    exact hnot (hall s signed hkey hsigned)
  · intro hnot s signed hkey hsigned
    refine governed_of_not_diverts hsigned ?_
    have hkeys := (signBitcoin_eq_ok hsigned).1
    rwa [Option.mem_unique hkeys hkey]

end

/-! ### A remainder paid to somebody -/

/-- `mainNetLib` for the key of its two addresses, and two addresses of others. -/
def ownerLib : SpendLib where
  Address := Bytes
  decodeAddress addr params :=
    if addr = "1A1zP1eP5QGefi2DMPTfTL5SLmv7DivfNa" then
      .ok (p2pkhScript (toBytes 0x62e907b15cbf27d5425399ebf6f0fb50ebb88f18))
    else if addr = "12c6DSiU4Rq3P4ZxziKxzrL5LmMBrzjrJX" then
      .ok (p2pkhScript (toBytes 0x119b098e2e980a229e139a9ed01a469e518e6f26))
    else mainNetLib.decodeAddress addr params
  isForNet := mainNetLib.isForNet
  payToAddrScript := mainNetLib.payToAddrScript
  isPayToWitnessPubKeyHash := mainNetLib.isPayToWitnessPubKeyHash
  quote := mainNetLib.quote
  sigHash _ txOut _ _ _ _ := txOut.flatMap TxOut.script
  newHashFromStr := hashFromHex
  newHashFromStr_hex := hashFromHex_hex
  script_length := script_length_mainNetLib
  parsePubKey raw := if raw = generatorKey then .ok raw else .error "invalid pub key"
  hash160 raw :=
    if raw = generatorKey then toBytes 0x751e76e8199196d454941c45d1b3a323f1433bd6
    else List.replicate 20 0
  newAddressWitnessPubKeyHash hash _ := .ok ([0, 20] ++ hash)
  newAddressPubKeyHash hash _ := .ok (p2pkhScript hash)
  encodeAddress script :=
    if script.length = 22 then "bc1qw508d6qejxtdg4y5r3zarvary0c5xw7kv8f3t4"
    else "1BgGZ9tcN4rm9KBzDn7KprQz87SZ26SAMH"
  hash160_length raw := by split_ifs <;> rfl

def ownerKey : Key where
  keyId := "key-1"
  blockchain := "bitcoin"
  status := .active
  address := ""
  publicKey := "0x" ++ hexEncodeToString generatorKey
  walletId := none
  walletFrozen := false

def ownerCustomer : Customer := ⟨"acme", "standard", ⟨none, none⟩, false⟩

/-- 100000 satoshis to a whitelisted address, the change to another one. -/
def divertingRequest : BitcoinTransactionDto where
  destination := "1A1zP1eP5QGefi2DMPTfTL5SLmv7DivfNa"
  amount := "100000"
  feeRate := some 10
  confirmationTarget := none
  changeAddress := some "12c6DSiU4Rq3P4ZxziKxzrL5LmMBrzjrJX"
  minConfirmations := none
  broadcast := none
  idempotencyKey := none
  country := none
  destination_length := by decide
  amount_matches := by decide
  feeRate_range r h := by obtain rfl := Option.some.inj h; decide
  confirmationTarget_range t h := by cases h
  changeAddress_length a h := by obtain rfl := Option.some.inj h; decide
  minConfirmations_max n h := by cases h

/-- The whitelist is enforced, and the policy approves up to 0.01 bitcoin to its one address. -/
def ownerServices : BitcoinServices where
  controls := some ⟨false, none, true⟩
  whitelist := [⟨"bitcoin", "1A1zP1eP5QGefi2DMPTfTL5SLmv7DivfNa", 0, false⟩]
  now := 10
  keys keyId := if keyId = "key-1" then some ownerKey else none
  policy input :=
    if input.toAddr = "1A1zP1eP5QGefi2DMPTfTL5SLmv7DivfNa" ∧ input.value ≤ 10 ^ 16 then
      .ok ⟨true, [], false, []⟩
    else .ok ⟨false, ["not an approved destination"], false, []⟩
  node := some (coinNode ⟨"01", 0, 100000000, "0014751e76e8199196d454941c45d1b3a323f1433bd6", 6⟩
    (by decide))
  unreachable _ := none
  travelRuleBeforeSigning := none
  runSigningCeremony _ _ _ := .ok (String.ofList (List.replicate 130 '1'))
  finalize _ _ _ _ := .ok ⟨"", true⟩
  uuid := "request-1"

def BitcoinSigned.account (signed : BitcoinSigned) : String × Nat × List TxOut × Int :=
  (signed.asked.toAddr, signed.asked.value, signed.prepared.plan.txOut,
    signed.prepared.selection.fee)

/--
The coin of one bitcoin pays 100000 satoshis to the address the controls know. The other 0.99897
bitcoin go to an address they were never asked about.
-/
theorem bitcoin_change_diverted :
    ∃ signed, signBitcoin ownerLib "mainnet" ownerServices ownerCustomer "key-1" divertingRequest
        false = .ok signed ∧
      signed.account = ("1A1zP1eP5QGefi2DMPTfTL5SLmv7DivfNa", 100000 * 10 ^ 10,
        [⟨100000, p2pkhScript (toBytes 0x62e907b15cbf27d5425399ebf6f0fb50ebb88f18)⟩,
          ⟨99898530, p2pkhScript (toBytes 0x119b098e2e980a229e139a9ed01a469e518e6f26)⟩], 1470) ∧
      ¬ Governed ownerLib "mainnet" ownerServices.toServices signed := by
  have haccount : (signBitcoin ownerLib "mainnet" ownerServices ownerCustomer "key-1"
      divertingRequest false).map BitcoinSigned.account
        = .ok ("1A1zP1eP5QGefi2DMPTfTL5SLmv7DivfNa", 100000 * 10 ^ 10,
          [⟨100000, p2pkhScript (toBytes 0x62e907b15cbf27d5425399ebf6f0fb50ebb88f18)⟩,
            ⟨99898530, p2pkhScript (toBytes 0x119b098e2e980a229e139a9ed01a469e518e6f26)⟩],
          1470) := by
    decide +kernel
  have hforeign : ¬ OwnScript ownerLib "mainnet" ownerKey
      (p2pkhScript (toBytes 0x119b098e2e980a229e139a9ed01a469e518e6f26)) := by
    have haddrs : bitcoinAddressesForPubKey ownerLib ownerKey.publicKey "mainnet"
        = .ok ("bc1qw508d6qejxtdg4y5r3zarvary0c5xw7kv8f3t4",
          "1BgGZ9tcN4rm9KBzDn7KprQz87SZ26SAMH") := by decide +kernel
    rintro ⟨params, segwit, legacy, hparams, haddrs', hscript⟩
    obtain rfl : Net.mainNet = params := Except.ok.inj hparams
    obtain ⟨rfl, rfl⟩ := Prod.mk.inj (Except.ok.inj (haddrs.symm.trans haddrs'))
    revert hscript
    decide +kernel
  cases hrun : signBitcoin ownerLib "mainnet" ownerServices ownerCustomer "key-1" divertingRequest
      false with
  | error err =>
    rw [hrun] at haccount
    cases haccount
  | ok signed =>
    rw [hrun] at haccount
    have heq := Except.ok.inj haccount
    refine ⟨signed, rfl, heq, fun hgov => ?_⟩
    simp only [BitcoinSigned.account, Prod.mk.injEq] at heq
    obtain ⟨-, hvalue, houts, -⟩ := heq
    have hkey : ownerKey = signed.key := Option.some.inj (signBitcoin_eq_ok hrun).1
    have hmem : ⟨99898530, p2pkhScript (toBytes 0x119b098e2e980a229e139a9ed01a469e518e6f26)⟩
        ∈ signed.prepared.plan.txOut := by
      rw [houts]
      simp
    rcases hgov.outputs _ hmem with hchecked | hown
    · have hamount := hchecked.amount
      rw [hvalue] at hamount
      norm_num at hamount
    · exact hforeign (hkey ▸ hown)

end OpenFireblocks.Bitcoin
