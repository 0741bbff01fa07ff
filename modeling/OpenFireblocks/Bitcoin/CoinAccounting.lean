import Mathlib.Algebra.Order.BigOperators.Group.List
import OpenFireblocks.Bitcoin.CoinSelect

/-!
# The accounts of a coin selection

`virtualSize` and `exactSelection` are the size estimate and the body of the loop over the true
integers. `estimateVirtualSize_eq` and `trySelection_eq` say when the `int64` code computes them. Only
the coins that end up selected have to fit (`Fits`): every earlier round was over fewer.
-/

namespace OpenFireblocks.Bitcoin

open BigEndian Go Outcome

/-! ## Sizes over the integers -/

def total (coins : List UTXO) : Int := (coins.map UTXO.amount).sum

section

variable (lib : BtcLib)

section

variable (coins : List UTXO)

def baseSize : Int :=
  txOverheadBase + (coins.map fun u => (chargedWeights lib u).1).sum

def witnessSize : Int := (coins.map fun u => (chargedWeights lib u).2).sum

/-- Some input has a witness, so the marker and the flag are there. -/
def hasSegwit : Bool := coins.any fun u => 0 < (chargedWeights lib u).2

section

variable (scripts : List Bytes)

def outputSize : Int := (scripts.map fun s => (9 + s.length : Int)).sum

def weight : Int :=
  (baseSize lib coins + outputSize scripts) * 4
    + (witnessSize lib coins + if hasSegwit lib coins then segwitMarkerFlagWeight else 0)

def virtualSize : Int := (weight lib coins scripts + 3) / 4

theorem chargedWeights_cases (u : UTXO) :
    chargedWeights lib u = (p2wpkhInputBase, p2wpkhInputWitness) ∨
      chargedWeights lib u = (p2pkhInputBase, 0) := by
  unfold chargedWeights inputWeights
  split
  · exact .inr rfl
  split
  · exact .inl rfl
  · split <;> exact .inr rfl

theorem chargedWeights_nonneg (u : UTXO) :
    0 ≤ (chargedWeights lib u).1 ∧ 0 ≤ (chargedWeights lib u).2 := by
  rcases chargedWeights_cases lib u with h | h <;> rw [h] <;> decide

theorem baseSize_nonneg : 0 ≤ baseSize lib coins :=
  add_nonneg (by decide) (List.sum_nonneg fun _ hx => by
    obtain ⟨u, -, rfl⟩ := List.mem_map.mp hx
    exact (chargedWeights_nonneg lib u).1)

theorem witnessSize_nonneg : 0 ≤ witnessSize lib coins :=
  List.sum_nonneg fun _ hx => by
    obtain ⟨u, -, rfl⟩ := List.mem_map.mp hx
    exact (chargedWeights_nonneg lib u).2

theorem outputSize_nonneg : 0 ≤ outputSize scripts :=
  List.sum_nonneg fun _ hx => by
    obtain ⟨s, -, rfl⟩ := List.mem_map.mp hx
    exact Int.add_nonneg (by decide) (Int.natCast_nonneg _)

theorem weight_nonneg : 0 ≤ weight lib coins scripts := by
  have hb := baseSize_nonneg lib coins
  have hw := witnessSize_nonneg lib coins
  have ho := outputSize_nonneg scripts
  have hs : (0 : Int) ≤ if hasSegwit lib coins then segwitMarkerFlagWeight else 0 := by
    split <;> decide
  unfold weight
  omega

end

theorem weight_le_cons (s : Bytes) (scripts : List Bytes) :
    weight lib coins scripts ≤ weight lib coins (s :: scripts) := by
  simp only [weight, outputSize, List.map_cons, List.sum_cons]
  omega

theorem weight_swap (s s' : Bytes) : weight lib coins [s, s'] = weight lib coins [s', s] := by
  simp only [weight, outputSize, List.map_cons, List.sum_cons]
  omega

theorem weight_dest_le (destScript changeScript : Bytes) :
    weight lib coins [destScript] ≤ weight lib coins [destScript, changeScript] := by
  rw [weight_swap]
  exact weight_le_cons lib coins changeScript [destScript]

theorem virtualSize_nonneg (scripts : List Bytes) : 0 ≤ virtualSize lib coins scripts := by
  have := weight_nonneg lib coins scripts
  unfold virtualSize
  omega

/-! ## The estimate computes the size -/

/-- The first loop leaves the sums, each wrapped once. -/
theorem foldl_addInput (b w : Int) (seg : Bool) :
    coins.foldl (SizeState.addInput lib) { base := wrap64 b, witness := wrap64 w, anySegwit := seg }
      = { base := wrap64 (b + (coins.map fun u => (chargedWeights lib u).1).sum)
          witness := wrap64 (w + witnessSize lib coins)
          anySegwit := seg || hasSegwit lib coins } := by
  induction coins generalizing b w seg with
  | nil => simp [witnessSize, hasSegwit]
  | cons u coins ih =>
    rw [List.foldl_cons]
    simp only [SizeState.addInput, wrap64_wrap64_add]
    rw [ih]
    simp [witnessSize, hasSegwit, List.map_cons, List.sum_cons, List.any_cons, add_assoc,
      Bool.or_assoc]

theorem foldl_outputs (scripts : List Bytes) (b : Int) :
    scripts.foldl (fun base script => wrap64 (base + (9 + script.length))) (wrap64 b)
      = wrap64 (b + outputSize scripts) := by
  induction scripts generalizing b with
  | nil => simp [outputSize]
  | cons s scripts ih =>
    rw [List.foldl_cons, wrap64_wrap64_add, ih]
    simp [outputSize, List.map_cons, List.sum_cons, add_assoc]

/-- Up to the final division, the estimate is the weight modulo `2 ^ 64`. -/
theorem estimateVirtualSize_eq_wrap (scripts : List Bytes) :
    estimateVirtualSize lib coins scripts = Int.tdiv (wrap64 (weight lib coins scripts + 3)) 4 := by
  have hstart : ({ base := txOverheadBase, witness := 0, anySegwit := false } : SizeState)
      = { base := wrap64 txOverheadBase, witness := wrap64 0, anySegwit := false } := rfl
  unfold estimateVirtualSize
  rw [hstart, foldl_addInput]
  simp only [zero_add]
  rw [show txOverheadBase + (coins.map fun u => (chargedWeights lib u).1).sum = baseSize lib coins
    from rfl, foldl_outputs]
  cases hs : hasSegwit lib coins <;> simp [weight, hs]

end

theorem estimateVirtualSize_eq {coins : List UTXO} {scripts : List Bytes}
    (h : weight lib coins scripts + 3 < 2 ^ 63) :
    estimateVirtualSize lib coins scripts = virtualSize lib coins scripts := by
  have h0 := weight_nonneg lib coins scripts
  rw [estimateVirtualSize_eq_wrap, wrap64_of_nonneg (by omega) h, virtualSize,
    Int.tdiv_eq_ediv_of_nonneg (by omega)]

end

/-! ## One round of the loop -/

section

variable (lib : BtcLib) (req : CoinSelectionRequest) (destScript changeScript : Bytes)

def impliedFee (coins : List UTXO) (scripts : List Bytes) : Int :=
  virtualSize lib coins scripts * req.feeRate

/-- The sums the code forms over these coins are `int64`s. -/
structure Fits (coins : List UTXO) : Prop where
  total_lt : total coins < 2 ^ 63
  weight_lt : weight lib coins [destScript, changeScript] + 3 < 2 ^ 63
  need_lt : req.amount + impliedFee lib req coins [destScript, changeScript] < 2 ^ 63

/-- One round of the loop over the integers. -/
def exactSelection (coins : List UTXO) : Option CoinSelection :=
  let fee := impliedFee lib req coins [destScript, changeScript]
  let change := total coins - req.amount - fee
  if total coins < req.amount + fee then none
  else if dustThreshold lib changeScript ≤ change then
    some (buildSelection req coins (total coins) change fee
      (virtualSize lib coins [destScript, changeScript]) false)
  else if req.amount + impliedFee lib req coins [destScript] ≤ total coins then
    some (buildSelection req coins (total coins) 0 (total coins - req.amount)
      (virtualSize lib coins [destScript]) true)
  else none

variable {lib req destScript changeScript}

variable {coins : List UTXO}

theorem impliedFee_dest_le (hrate : 0 < req.feeRate) :
    impliedFee lib req coins [destScript] ≤ impliedFee lib req coins [destScript, changeScript] := by
  have hle := weight_dest_le lib coins destScript changeScript
  refine mul_le_mul_of_nonneg_right ?_ hrate.le
  unfold virtualSize
  omega

theorem impliedFee_nonneg {scripts : List Bytes} (hrate : 0 < req.feeRate) :
    0 ≤ impliedFee lib req coins scripts :=
  mul_nonneg (virtualSize_nonneg lib coins scripts) hrate.le

/-- Where nothing overflows, the code's round is the exact one. -/
theorem trySelection_eq (hamount : 0 < req.amount) (hrate : 0 < req.feeRate)
    (hpos : 0 ≤ total coins) (hfit : Fits lib req destScript changeScript coins) :
    trySelection lib req destScript changeScript coins (wrap64 (total coins))
      = exactSelection lib req destScript changeScript coins := by
  obtain ⟨htotal, hweight, hneed⟩ := hfit
  have hfee : 0 ≤ impliedFee lib req coins [destScript, changeScript] := impliedFee_nonneg hrate
  have hfee' : 0 ≤ impliedFee lib req coins [destScript] := impliedFee_nonneg hrate
  have hle : impliedFee lib req coins [destScript]
      ≤ impliedFee lib req coins [destScript, changeScript] := impliedFee_dest_le hrate
  have hweight' : weight lib coins [destScript] + 3 < 2 ^ 63 := by
    have := weight_dest_le lib coins destScript changeScript
    omega
  unfold trySelection exactSelection
  simp only [estimateVirtualSize_eq lib hweight, estimateVirtualSize_eq lib hweight',
    ← impliedFee.eq_def]
  rw [wrap64_of_nonneg hpos htotal, wrap64_of_nonneg hfee (by omega),
    wrap64_of_nonneg hfee' (by omega), wrap64_of_nonneg (by omega) hneed,
    wrap64_of_nonneg (add_nonneg hamount.le hfee') (by omega),
    wrap64_of_inInt64 (x := total coins - req.amount) ⟨by omega, by omega⟩,
    wrap64_of_inInt64 ⟨by omega, by omega⟩]

/-! ## The loop -/

theorem total_append (coins : List UTXO) (u : UTXO) :
    total (coins ++ [u]) = total coins + u.amount := by
  simp [total]

/--
A selection comes out of some round of the loop, over the coins taken up to it. The running total
is the value of those coins modulo `2 ^ 64`; that is the loop's invariant.
-/
theorem selectLoop_eq_ok {sel : CoinSelection} {rest selected : List UTXO}
    (h : selectLoop lib req destScript changeScript selected (wrap64 (total selected)) rest
      = .ok sel) :
    ∃ taken, taken <+: rest ∧
      trySelection lib req destScript changeScript (selected ++ taken)
        (wrap64 (total (selected ++ taken))) = some sel := by
  induction rest generalizing selected with
  | nil => simp [selectLoop] at h
  | cons u rest ih =>
    rw [selectLoop, wrap64_wrap64_add, ← total_append] at h
    split at h
    · next sel' htry =>
      cases h
      exact ⟨[u], List.prefix_cons_inj u |>.mpr List.nil_prefix, htry⟩
    · obtain ⟨taken, hpre, htry⟩ := ih h
      refine ⟨u :: taken, List.prefix_cons_inj u |>.mpr hpre, ?_⟩
      rwa [List.append_assoc, List.singleton_append] at htry

end

/-! ## The accounts -/

section

variable (lib : BtcLib) (req : CoinSelectionRequest)

/-- A coin the platform may spend: worth something, confirmed, and of a type it can sign for. -/
structure Spendable (u : UTXO) : Prop where
  amount_pos : 0 < u.amount
  confirmed : req.minConfirmations.getD 1 ≤ u.confirmations
  script : ∃ script, hexDecodeString u.script = some script ∧
    (lib.isPayToWitnessPubKeyHash script = true ∨ isPayToPubKeyHash script = true)

/-- What a selection adds up to, given the scripts its two addresses stand for. -/
structure Accounts (destScript changeScript : Bytes) (sel : CoinSelection) : Prop where
  /-- The coins are the wallet's, each taken at most as often as the wallet lists it. -/
  selected_subperm : sel.selected.Subperm req.utxos
  selected_spendable : ∀ u ∈ sel.selected, Spendable lib req u
  inputs : sel.request.inputs = sel.selected.map fun u =>
    { txid := u.txid, vout := u.vout, amount := u.amount, script := u.script, segWit := false }
  outputs : sel.request.outputs = { address := req.destination, amount := req.amount } ::
    if 0 < sel.change then [{ address := req.changeAddress, amount := sel.change }] else []
  totalIn : sel.totalIn = total sel.selected
  balance : sel.totalIn = req.amount + sel.change + sel.fee
  virtualSize : sel.virtualSize = virtualSize lib sel.selected
    (if sel.changeDroppedToFee then [destScript] else [destScript, changeScript])
  fee_ge : req.feeRate * sel.virtualSize ≤ sel.fee
  fee_eq_iff : sel.fee = req.feeRate * sel.virtualSize ↔ sel.changeDroppedToFee = false ∨
    sel.totalIn - req.amount = req.feeRate * Bitcoin.virtualSize lib sel.selected [destScript]
  /-- No output is dust. -/
  dest_not_dust : dustThreshold lib destScript ≤ req.amount
  change_not_dust : 0 < sel.change → dustThreshold lib changeScript ≤ sel.change
  /-- Less than an output goes to the miner on top of the fee. -/
  dropped : sel.changeDroppedToFee = true → sel.change = 0 ∧
    sel.fee < req.feeRate * Bitcoin.virtualSize lib sel.selected [destScript, changeScript]
      + dustThreshold lib changeScript

variable {lib req}

variable {destScript changeScript : Bytes} {coins : List UTXO} {sel : CoinSelection}

theorem checkRequest_eq_ok (h : checkRequest lib req = .ok (destScript, changeScript)) :
    0 < req.amount ∧ 0 < req.feeRate ∧ ∃ params, bitcoinNetParams lib req.network = .ok params ∧
      scriptForAddress lib req.destination params = .ok destScript ∧
      scriptForAddress lib req.changeAddress params = .ok changeScript := by
  simp only [checkRequest, bind_eq_ok, ite_errorf_eq_ok, wrapError_eq_ok, not_le] at h
  obtain ⟨params, hparams, hamount, hrate, dest, hdest, change, hchange, h⟩ := h
  cases h
  exact ⟨hamount, hrate, params, hparams, hdest, hchange⟩

theorem spendable_of_mem {u : UTXO} (h : u ∈ spendable lib req) : Spendable lib req u := by
  obtain ⟨-, hu⟩ := List.mem_filter.mp h
  simp only [Bool.and_eq_true, decide_eq_true_eq] at hu
  obtain ⟨⟨hamount, hconf⟩, hscript⟩ := hu
  refine ⟨hamount, hconf, ?_⟩
  unfold inputWeights at hscript
  split at hscript
  · simp at hscript
  next script hdecode =>
  refine ⟨script, hdecode, ?_⟩
  by_cases hw : lib.isPayToWitnessPubKeyHash script
  · exact .inl hw
  by_cases hp : isPayToPubKeyHash script
  · exact .inr hp
  · simp [hw, hp] at hscript

theorem trySelection_selected {t : Int}
    (h : trySelection lib req destScript changeScript coins t = some sel) :
    sel.selected = coins := by
  unfold trySelection at h
  simp only at h
  split at h
  · simp at h
  split at h
  · cases h
    rfl
  split at h
  · cases h
    rfl
  · simp at h

theorem total_nonneg (h : ∀ u ∈ coins, Spendable lib req u) : 0 ≤ total coins :=
  List.sum_nonneg fun _ hx => by
    obtain ⟨u, hu, rfl⟩ := List.mem_map.mp hx
    exact (h u hu).amount_pos.le

theorem accounts_of_exactSelection (hsub : coins.Subperm req.utxos)
    (hspend : ∀ u ∈ coins, Spendable lib req u) (hdest : dustThreshold lib destScript ≤ req.amount)
    (h : exactSelection lib req destScript changeScript coins = some sel) :
    Accounts lib req destScript changeScript sel := by
  unfold exactSelection impliedFee at h
  simp only at h
  split at h
  · simp at h
  split at h
  · -- the change is worth an output
    next hchange =>
    cases h
    exact {
      selected_subperm := hsub
      selected_spendable := hspend
      inputs := rfl
      outputs := rfl
      totalIn := rfl
      balance := by simp only [buildSelection]; ring
      virtualSize := rfl
      fee_ge := by simp only [buildSelection]; exact (mul_comm _ _).le
      fee_eq_iff := by
        refine iff_of_true ?_ (.inl rfl)
        exact mul_comm _ _
      dest_not_dust := hdest
      change_not_dust := fun _ => hchange
      dropped := fun hd => by simp [buildSelection] at hd }
  · next hchange =>
    split at h
    · -- the change is dust and the coins cover the smaller transaction
      cases h
      exact {
        selected_subperm := hsub
        selected_spendable := hspend
        inputs := rfl
        outputs := rfl
        totalIn := rfl
        balance := by simp only [buildSelection]; ring
        virtualSize := rfl
        fee_ge := by
          simp only [buildSelection]
          rw [mul_comm]
          omega
        fee_eq_iff := by simp [buildSelection]
        dest_not_dust := hdest
        change_not_dust := fun hpos => absurd hpos (lt_irrefl 0)
        dropped := fun _ => by
          refine ⟨rfl, ?_⟩
          simp only [buildSelection]
          rw [mul_comm req.feeRate]
          omega }
    · simp at h

/-- A selection comes out of a round of the loop over some of the wallet's spendable coins. -/
theorem selectCoins_eq_ok (h : selectCoins lib req = .ok sel) :
    ∃ destScript changeScript coins,
      checkRequest lib req = .ok (destScript, changeScript) ∧ coins.Subperm req.utxos ∧
      (∀ u ∈ coins, Spendable lib req u) ∧ dustThreshold lib destScript ≤ req.amount ∧
      trySelection lib req destScript changeScript coins (wrap64 (total coins)) = some sel := by
  obtain ⟨⟨destScript, changeScript⟩, hcheck, h⟩ := bind_eq_ok.mp h
  simp only at h
  split at h
  · split at h <;> simp at h
  split at h
  · simp at h
  next hdust =>
  obtain ⟨taken, hpre, htry⟩ := selectLoop_eq_ok h
  have hperm : (sortCoins (spendable lib req)).Perm (spendable lib req) :=
    List.perm_insertionSort _ _
  have hspend : ∀ u ∈ taken, Spendable lib req u := fun u hu =>
    spendable_of_mem (hperm.mem_iff.mp (hpre.subset hu))
  have hsub : taken.Subperm req.utxos :=
    (hpre.sublist.subperm.trans hperm.subperm).trans List.filter_sublist.subperm
  exact ⟨destScript, changeScript, taken, hcheck, hsub, hspend, Int.not_lt.mp hdust, htry⟩

/--
**Coin selection accounts for every satoshi.**

`Fits` is asked of the coins selected, for whatever scripts the addresses decode to. The coins may
repeat: that outpoints are distinct only matters for the order of the sort.
-/
theorem selectCoins_accounts {sel : CoinSelection} (h : selectCoins lib req = .ok sel)
    (hfit : ∀ destScript changeScript, checkRequest lib req = .ok (destScript, changeScript) →
      Fits lib req destScript changeScript sel.selected) :
    ∃ params destScript changeScript, bitcoinNetParams lib req.network = .ok params ∧
      scriptForAddress lib req.destination params = .ok destScript ∧
      scriptForAddress lib req.changeAddress params = .ok changeScript ∧
      Accounts lib req destScript changeScript sel := by
  obtain ⟨destScript, changeScript, coins, hcheck, hsub, hspend, hdust, htry⟩ :=
    selectCoins_eq_ok h
  obtain ⟨hamount, hrate, params, hparams, hdest, hchange⟩ := checkRequest_eq_ok hcheck
  have hexact : exactSelection lib req destScript changeScript coins = some sel := by
    rw [← trySelection_eq hamount hrate (total_nonneg hspend)
      (trySelection_selected htry ▸ hfit destScript changeScript hcheck)]
    exact htry
  exact ⟨params, destScript, changeScript, hparams, hdest, hchange,
    accounts_of_exactSelection hsub hspend hdust hexact⟩

/-! ### A selection whose change is dust -/

/-- The two addresses of the key with hash `751e...3bd6` on the main network: P2WPKH and P2PKH. -/
def mainNetLib : BtcLib where
  Address := Bytes
  decodeAddress addr _ :=
    if addr = "bc1qw508d6qejxtdg4y5r3zarvary0c5xw7kv8f3t4" then
      .ok ([0, 20] ++ toBytes 0x751e76e8199196d454941c45d1b3a323f1433bd6)
    else if addr = "1BgGZ9tcN4rm9KBzDn7KprQz87SZ26SAMH" then
      .ok ([0x76, 0xa9, 20] ++ toBytes 0x751e76e8199196d454941c45d1b3a323f1433bd6 ++ [0x88, 0xac])
    else .error "decoded address is of unknown format"
  isForNet _ params := params = .mainNet
  payToAddrScript script := if script.length ≤ 42 then .ok script else .error "unsupported address"
  isPayToWitnessPubKeyHash script := script.length = 22 && script.take 2 = [0, 20]
  quote s := "\"" ++ s ++ "\""

/-- One confirmed coin of 100300, one unconfirmed; 100000 to send at one satoshi per byte. -/
def dustChangeRequest : CoinSelectionRequest where
  network := "mainnet"
  utxos :=
    [{ txid := "02", vout := 1, amount := 900000, confirmations := 0,
       script := "0014751e76e8199196d454941c45d1b3a323f1433bd6" },
     { txid := "01", vout := 0, amount := 100300, confirmations := 6,
       script := "0014751e76e8199196d454941c45d1b3a323f1433bd6" }]
  destination := "1BgGZ9tcN4rm9KBzDn7KprQz87SZ26SAMH"
  amount := 100000
  feeRate := 1
  changeAddress := "bc1qw508d6qejxtdg4y5r3zarvary0c5xw7kv8f3t4"
  minConfirmations := none

/-- The 156 satoshis left after the fee of 144 would be dust, so 300 go to the miner. -/
theorem selectCoins_accounts_dust_change :
    ∃ sel params destScript changeScript, selectCoins mainNetLib dustChangeRequest = .ok sel ∧
      sel.fee = 300 ∧ sel.virtualSize = 113 ∧
      Accounts mainNetLib dustChangeRequest destScript changeScript sel ∧
      bitcoinNetParams mainNetLib dustChangeRequest.network = .ok params := by
  have hsel : ∃ sel, selectCoins mainNetLib dustChangeRequest = .ok sel ∧ sel.fee = 300 ∧
      sel.virtualSize = 113 ∧ sel.selected = dustChangeRequest.utxos.drop 1 :=
    ⟨_, rfl, rfl, rfl, rfl⟩
  obtain ⟨sel, hok, hfee, hsize, hselected⟩ := hsel
  obtain ⟨params, destScript, changeScript, hparams, -, -, hacc⟩ :=
    selectCoins_accounts hok (by
      intro destScript changeScript hcheck
      cases hcheck
      rw [hselected]
      exact ⟨by decide, by decide, by decide⟩)
  exact ⟨sel, params, destScript, changeScript, hok, hfee, hsize, hacc, hparams⟩

end

end OpenFireblocks.Bitcoin
