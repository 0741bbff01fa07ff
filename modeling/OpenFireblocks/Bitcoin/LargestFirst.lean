import Mathlib.Data.Prod.Lex
import Mathlib.Data.String.Basic
import OpenFireblocks.Bitcoin.CoinAccounting
import OpenFireblocks.Lib.Sums

/-!
# Largest first against every other choice

The loop takes the largest coins one by one and stops at the first number of them that pays for a
transaction with a change output (`isSome_roundOf_iff`). Any set of spendable coins that pays can be
exchanged for the largest coins of either type (`pays_largest`).
-/

namespace OpenFireblocks.Bitcoin

open BigEndian Go Outcome

section

variable (lib : BtcLib) (req : CoinSelectionRequest)

def candidates : List UTXO := sortCoins (spendable lib req)

/-- Over the integers, the coins cover the amount and the fee of their own transaction with these
outputs. -/
def Pays (scripts : List Bytes) (coins : List UTXO) : Prop :=
  req.amount + impliedFee lib req coins scripts ≤ total coins

instance (scripts : List Bytes) (coins : List UTXO) : Decidable (Pays lib req scripts coins) :=
  inferInstanceAs (Decidable (_ ≤ _))

/-- What the round of the loop decides that has taken these coins. -/
def roundOf (destScript changeScript : Bytes) (coins : List UTXO) : Option CoinSelection :=
  trySelection lib req destScript changeScript coins (wrap64 (total coins))

def isSegwit (u : UTXO) : Bool := 0 < (chargedWeights lib u).2

def ofType (segwit : Bool) (coins : List UTXO) : List UTXO :=
  coins.filter fun u => isSegwit lib u = segwit

def largest (segwit : Bool) (n : Nat) : List UTXO :=
  (ofType lib segwit (candidates lib req)).take n

variable {lib req} {destScript changeScript : Bytes}

/-! ## The order of the coins -/

/-- What the sort compares. -/
def coinKey (u : UTXO) : Intᵒᵈ ×ₗ String ×ₗ Int :=
  toLex (OrderDual.toDual u.amount, toLex (u.txid, u.vout))

theorem coinLess_eq_false {a b : UTXO} : coinLess b a = false ↔ coinKey a ≤ coinKey b := by
  rw [coinKey, coinKey, Prod.Lex.toLex_le_toLex, Prod.Lex.toLex_le_toLex, coinLess]
  simp only [OrderDual.toDual_lt_toDual]
  split
  · next hne =>
    rw [decide_eq_false_iff_not]
    constructor
    · intro h
      exact .inl (lt_of_le_of_ne (Int.not_lt.mp h) hne)
    · rintro (h | ⟨h, -⟩)
      · exact h.not_gt
      · exact absurd h.symm hne
  next heq =>
  have heq := not_not.mp heq
  split
  · next hne =>
    rw [decide_eq_false_iff_not]
    constructor
    · intro h
      exact .inr ⟨heq.symm, .inl (lt_of_le_of_ne (not_lt.mp h) (Ne.symm hne))⟩
    · rintro (h | ⟨-, h | ⟨h, -⟩⟩)
      · exact absurd heq h.ne
      · exact h.not_gt
      · exact absurd h.symm hne
  · next heq' =>
    have heq' := not_not.mp heq'
    rw [heq, heq']
    simp

theorem pairwise_coinKey_sortCoins (coins : List UTXO) :
    (sortCoins coins).Pairwise fun a b => coinKey a ≤ coinKey b := by
  have : Std.Total fun a b : UTXO => coinLess b a = false :=
    ⟨fun a b => by simpa [coinLess_eq_false] using le_total (coinKey a) (coinKey b)⟩
  have : IsTrans UTXO fun a b => coinLess b a = false :=
    ⟨fun a b c => by simpa [coinLess_eq_false] using le_trans⟩
  exact (List.pairwise_insertionSort _ coins).imp coinLess_eq_false.mp

theorem pairwise_sortCoins (coins : List UTXO) :
    (sortCoins coins).Pairwise fun a b => b.amount ≤ a.amount := by
  refine (pairwise_coinKey_sortCoins coins).imp fun {a b} h => ?_
  rcases Prod.Lex.toLex_le_toLex.mp h with h | ⟨h, -⟩
  · exact h.le
  · exact (OrderDual.toDual_inj.mp h).ge

variable {coins : List UTXO}

variable {coins' : List UTXO} {scripts : List Bytes}

theorem eq_sortCoins (hdistinct : (coins.map fun u => (u.txid, u.vout)).Nodup)
    (hperm : coins'.Perm coins) (hsorted : coins'.Pairwise fun a b => coinLess b a = false) :
    coins' = sortCoins coins := by
  refine List.Perm.eq_of_pairwise (fun a b ha hb hab hba => ?_) (hsorted.imp coinLess_eq_false.mp)
    (pairwise_coinKey_sortCoins coins) (hperm.trans (List.perm_insertionSort _ coins).symm)
  have hkey := congrArg (fun k => (ofLex k).2) (le_antisymm hab hba)
  exact List.inj_on_of_nodup_map hdistinct (hperm.mem_iff.mp ha)
    ((List.perm_insertionSort _ coins).mem_iff.mp hb) hkey

theorem candidates_perm : (candidates lib req).Perm (spendable lib req) := List.perm_insertionSort _ _

/-! ## The fee depends on the types of the coins only -/

theorem weight_perm (scripts : List Bytes)
    (h : (coins.map (chargedWeights lib)).Perm (coins'.map (chargedWeights lib))) :
    weight lib coins scripts = weight lib coins' scripts := by
  have hsum (f : Int × Int → Int) : (coins.map fun u => f (chargedWeights lib u)).sum
      = (coins'.map fun u => f (chargedWeights lib u)).sum := by
    have := (h.map f).sum_eq
    rwa [List.map_map, List.map_map] at this
  have hany : hasSegwit lib coins = hasSegwit lib coins' := by
    rw [Bool.eq_iff_iff]
    simp only [hasSegwit, List.any_eq_true]
    have hmem (w : Int × Int) := (h.mem_iff (a := w))
    simp only [List.mem_map] at hmem
    constructor
    · rintro ⟨u, hu, hw⟩
      obtain ⟨v, hv, heq⟩ := (hmem _).mp ⟨u, hu, rfl⟩
      exact ⟨v, hv, heq ▸ hw⟩
    · rintro ⟨u, hu, hw⟩
      obtain ⟨v, hv, heq⟩ := (hmem _).mpr ⟨u, hu, rfl⟩
      exact ⟨v, hv, heq ▸ hw⟩
  rw [weight, weight, baseSize, baseSize, witnessSize, witnessSize, hsum Prod.fst, hsum Prod.snd, hany]

theorem Pays.exchange (h : Pays lib req scripts coins)
    (htypes : (coins.map (chargedWeights lib)).Perm (coins'.map (chargedWeights lib)))
    (hle : total coins ≤ total coins') : Pays lib req scripts coins' := by
  unfold Pays impliedFee virtualSize at *
  rw [← weight_perm scripts htypes]
  exact h.trans hle

theorem chargedWeights_eq (u : UTXO) :
    chargedWeights lib u = if isSegwit lib u then (p2wpkhInputBase, p2wpkhInputWitness)
      else (p2pkhInputBase, 0) := by
  unfold isSegwit
  rcases chargedWeights_cases lib u with h | h <;> rw [h] <;> rfl

theorem map_chargedWeights_ofType (segwit : Bool) (coins : List UTXO) :
    (ofType lib segwit coins).map (chargedWeights lib)
      = List.replicate (ofType lib segwit coins).length
        (if segwit then (p2wpkhInputBase, p2wpkhInputWitness) else (p2pkhInputBase, 0)) := by
  refine List.eq_replicate_iff.mpr ⟨List.length_map _, fun w hw => ?_⟩
  obtain ⟨u, hu, rfl⟩ := List.mem_map.mp hw
  rw [chargedWeights_eq, of_decide_eq_true (List.mem_filter.mp hu).2]

theorem ofType_append_perm (coins : List UTXO) :
    (ofType lib true coins ++ ofType lib false coins).Perm coins := by
  have hfalse : ofType lib false coins = coins.filter fun u => !isSegwit lib u :=
    List.filter_congr fun u _ => by simp
  have htrue : ofType lib true coins = coins.filter (isSegwit lib) :=
    List.filter_congr fun u _ => by simp
  rw [htrue, hfalse]
  exact List.filter_append_perm _ _

/-- **The largest coins of either type pay if any coins pay.** -/
theorem pays_largest (hsub : coins.Subperm (spendable lib req)) (h : Pays lib req scripts coins) :
    ∃ i j, Pays lib req scripts (largest lib req true i ++ largest lib req false j) := by
  have hpart (segwit : Bool) :
      (ofType lib segwit coins).Subperm (ofType lib segwit (candidates lib req)) :=
    (hsub.trans candidates_perm.symm.subperm).filter _
  have hmap (segwit : Bool) : (ofType lib segwit coins).map (chargedWeights lib)
      = (largest lib req segwit (ofType lib segwit coins).length).map (chargedWeights lib) := by
    rw [map_chargedWeights_ofType, largest, List.map_take, map_chargedWeights_ofType,
      List.take_replicate, Nat.min_eq_left (hpart segwit).length_le]
  have hle (segwit : Bool) : total (ofType lib segwit coins)
      ≤ total (largest lib req segwit (ofType lib segwit coins).length) :=
    Sums.sum_map_le_take_of_subperm (hpart segwit) ((pairwise_sortCoins _).filter _)
  have hperm : (ofType lib true coins ++ ofType lib false coins).Perm coins := ofType_append_perm coins
  have htotal : total (ofType lib true coins) + total (ofType lib false coins) = total coins := by
    rw [total, total, ← List.sum_append, ← List.map_append]
    exact (hperm.map _).sum_eq
  refine ⟨(ofType lib true coins).length, (ofType lib false coins).length, h.exchange ?_ ?_⟩
  · rw [List.map_append, ← hmap true, ← hmap false, ← List.map_append]
    exact (hperm.map _).symm
  · rw [← htotal, total, total, total, List.map_append, List.sum_append]
    exact add_le_add (hle true) (hle false)

theorem largest_subperm (i j : Nat) :
    (largest lib req true i ++ largest lib req false j).Subperm (spendable lib req) :=
  (((List.take_sublist i _).append (List.take_sublist j _)).subperm.trans
    (ofType_append_perm _).subperm).trans candidates_perm.subperm

/-! ## A round over the integers -/

theorem weight_mono (hsub : coins.Subperm coins') (scripts : List Bytes) :
    weight lib coins scripts ≤ weight lib coins' scripts := by
  have hbase : (coins.map fun u => (chargedWeights lib u).1).sum
      ≤ (coins'.map fun u => (chargedWeights lib u).1).sum :=
    Sums.sum_map_le_of_subperm hsub fun u _ => (chargedWeights_nonneg lib u).1
  have hwitness : witnessSize lib coins ≤ witnessSize lib coins' :=
    Sums.sum_map_le_of_subperm hsub fun u _ => (chargedWeights_nonneg lib u).2
  have hmark : (if hasSegwit lib coins then segwitMarkerFlagWeight else 0)
      ≤ if hasSegwit lib coins' then segwitMarkerFlagWeight else 0 := by
    by_cases h : hasSegwit lib coins
    · obtain ⟨u, hu, hw⟩ := List.any_eq_true.mp h
      have h' : hasSegwit lib coins' := List.any_eq_true.mpr ⟨u, hsub.subset hu, hw⟩
      rw [if_pos h, if_pos h']
    · rw [if_neg h]
      split <;> decide
  simp only [weight, baseSize]
  omega

/-- What fits over some coins fits over fewer of them. -/
theorem Fits.of_subperm (hrate : 0 < req.feeRate) (hpos : ∀ u ∈ coins', Spendable lib req u)
    (hsub : coins.Subperm coins') (h : Fits lib req destScript changeScript coins') :
    Fits lib req destScript changeScript coins := by
  have hweight := @weight_mono lib _ _ hsub [destScript, changeScript]
  have htotal : total coins ≤ total coins' :=
    Sums.sum_map_le_of_subperm hsub fun u hu => (hpos u hu).amount_pos.le
  have hfee : impliedFee lib req coins [destScript, changeScript]
      ≤ impliedFee lib req coins' [destScript, changeScript] := by
    refine mul_le_mul_of_nonneg_right ?_ hrate.le
    unfold virtualSize
    omega
  exact ⟨htotal.trans_lt h.total_lt, by have := h.weight_lt; omega, by have := h.need_lt; omega⟩

/-- Where nothing overflows, a round decides exactly if its coins pay for a transaction with
change. -/
theorem isSome_roundOf_iff (hamount : 0 < req.amount) (hrate : 0 < req.feeRate)
    (hpos : 0 ≤ total coins) (hfit : Fits lib req destScript changeScript coins) :
    (roundOf lib req destScript changeScript coins).isSome ↔
      Pays lib req [destScript, changeScript] coins := by
  have hle : impliedFee lib req coins [destScript]
      ≤ impliedFee lib req coins [destScript, changeScript] := impliedFee_dest_le hrate
  rw [roundOf, trySelection_eq hamount hrate hpos hfit, Pays]
  unfold exactSelection
  simp only
  split
  · next hlt => exact iff_of_false (by simp) (Int.not_le.mpr hlt)
  next hge =>
  refine iff_of_true ?_ (Int.not_lt.mp hge)
  split
  · rfl
  · rw [if_pos (by omega)]
    rfl

/-! ## The loop -/

/-- The loop returns what the first round that decides has decided, and otherwise refuses. -/
theorem selectLoop_cases (rest selected : List UTXO) :
    (∃ n sel, n < rest.length ∧
      roundOf lib req destScript changeScript (selected ++ rest.take (n + 1)) = some sel ∧
      (∀ m < n, roundOf lib req destScript changeScript (selected ++ rest.take (m + 1)) = none) ∧
      selectLoop lib req destScript changeScript selected (wrap64 (total selected)) rest
        = .ok sel) ∨
    ((∀ n < rest.length,
        roundOf lib req destScript changeScript (selected ++ rest.take (n + 1)) = none) ∧
      ∃ msg, selectLoop lib req destScript changeScript selected (wrap64 (total selected)) rest
        = errorf msg ∧ "insufficient funds".toList <+: msg.toList) := by
  induction rest generalizing selected with
  | nil =>
    refine .inr ⟨fun n hn => absurd hn (Nat.not_lt_zero n), _, rfl, ?_⟩
    simp only [String.toList_append, List.append_assoc]
    exact ⟨": ".toList ++ _, by rw [← List.append_assoc]; rfl⟩
  | cons u rest ih =>
    rw [selectLoop, wrap64_wrap64_add, ← total_append]
    cases hround : roundOf lib req destScript changeScript (selected ++ [u]) with
    | some sel =>
      refine .inl ⟨0, sel, Nat.succ_pos _, hround, fun m hm => absurd hm (Nat.not_lt_zero m), ?_⟩
      rw [roundOf] at hround
      rw [hround]
    | none =>
      have happend (n : Nat) : selected ++ (u :: rest).take (n + 1 + 1)
          = selected ++ [u] ++ rest.take (n + 1) := by simp
      rw [roundOf] at hround
      rw [hround]
      rcases ih (selected ++ [u]) with ⟨n, sel, hn, hsome, hnone, hok⟩ | ⟨hnone, msg, herr⟩
      · refine .inl ⟨n + 1, sel, Nat.succ_lt_succ hn, by rw [happend]; exact hsome, ?_, hok⟩
        intro m hm
        cases m with
        | zero => exact hround
        | succ m => rw [happend]; exact hnone m (by omega)
      · refine .inr ⟨fun n hn => ?_, msg, herr⟩
        cases n with
        | zero => exact hround
        | succ n => rw [happend]; exact hnone n (by simpa using hn)

variable (lib req) in
/-- `SelectCoins` answers "insufficient funds". -/
def RefusesForFunds : Prop :=
  ∃ msg, selectCoins lib req = errorf msg ∧ "insufficient funds".toList <+: msg.toList

variable (lib req) in
structure Reaches (destScript changeScript : Bytes) : Prop where
  check : checkRequest lib req = .ok (destScript, changeScript)
  nonempty : spendable lib req ≠ []
  not_dust : dustThreshold lib destScript ≤ req.amount

theorem selectCoins_of_reaches (h : Reaches lib req destScript changeScript) :
    selectCoins lib req
      = selectLoop lib req destScript changeScript [] (wrap64 (total [])) (candidates lib req) := by
  rw [selectCoins, h.check, ok_bind]
  simp only
  rw [if_neg h.nonempty, if_neg (Int.not_lt.mpr h.not_dust)]
  rfl

/-- The other refusals begin with another letter. -/
theorem not_funds {c : Char} {msg : String} (h : msg.toList.head? = some c) (hc : c ≠ 'i') :
    ¬ "insufficient funds".toList <+: msg.toList := by
  rintro ⟨rest, hrest⟩
  rw [← hrest] at h
  exact hc (Option.some.inj h).symm

theorem wrapError_eq_errorf {α : Type} {context msg : String} {x : Result α}
    (h : wrapError context x = errorf msg) : ∃ inner, msg = context ++ inner := by
  rcases x with (inner | _ | _ | _) | _
  · exact ⟨inner, by cases h; rfl⟩
  all_goals cases h

theorem not_funds_of_checkRequest {msg : String} (h : checkRequest lib req = errorf msg) :
    ¬ "insufficient funds".toList <+: msg.toList := by
  unfold checkRequest at h
  cases hparams : bitcoinNetParams lib req.network with
  | error e =>
    rw [hparams] at h
    unfold bitcoinNetParams at hparams
    repeat' split at hparams
    all_goals cases hparams
    cases h
    exact not_funds (by rw [String.toList_append]; rfl) (by decide)
  | ok params =>
    rw [hparams, ok_bind] at h
    split at h
    · cases h
      exact not_funds (by simp only [String.toList_append]; rfl) (by decide)
    split at h
    · cases h
      exact not_funds (by simp only [String.toList_append]; rfl) (by decide)
    cases hdest : wrapError "destination: " (scriptForAddress lib req.destination params) with
    | error e =>
      rw [hdest] at h
      cases h
      obtain ⟨inner, rfl⟩ := wrapError_eq_errorf hdest
      exact not_funds (by rw [String.toList_append]; rfl) (by decide)
    | ok dest =>
      rw [hdest] at h
      cases hchange : wrapError "change address: " (scriptForAddress lib req.changeAddress params) with
      | error e =>
        rw [hchange] at h
        cases h
        obtain ⟨inner, rfl⟩ := wrapError_eq_errorf hchange
        exact not_funds (by rw [String.toList_append]; rfl) (by decide)
      | ok change =>
        rw [hchange] at h
        cases h

theorem reaches_of_refusesForFunds (h : RefusesForFunds lib req) :
    ∃ destScript changeScript, Reaches lib req destScript changeScript := by
  obtain ⟨msg, h, hfunds⟩ := h
  unfold selectCoins at h
  cases hcheck : checkRequest lib req with
  | error e =>
    rw [hcheck] at h
    cases h
    exact absurd hfunds (not_funds_of_checkRequest hcheck)
  | ok scripts =>
    obtain ⟨destScript, changeScript⟩ := scripts
    rw [hcheck, ok_bind] at h
    simp only at h
    split at h
    · split at h
      · cases h
        exact absurd hfunds (not_funds (by simp only [String.toList_append]; rfl)
          (by decide))
      · cases h
        exact absurd hfunds (by decide)
    next hnonempty =>
    split at h
    · cases h
      exact absurd hfunds (not_funds (by simp only [String.toList_append]; rfl)
        (by decide))
    · next hdust =>
      exact ⟨destScript, changeScript, hcheck, hnonempty, Int.not_lt.mp hdust⟩

theorem spendable_of_take {n : Nat} :
    ∀ u ∈ (candidates lib req).take n, Spendable lib req u := fun _ hu =>
  spendable_of_mem (candidates_perm.mem_iff.mp (List.mem_of_mem_take hu))

theorem isSome_roundOf_take_iff (h : Reaches lib req destScript changeScript) {n k : Nat}
    (hn : n ≤ k) (hfit : Fits lib req destScript changeScript ((candidates lib req).take k)) :
    (roundOf lib req destScript changeScript ((candidates lib req).take n)).isSome ↔
      Pays lib req [destScript, changeScript] ((candidates lib req).take n) := by
  obtain ⟨hamount, hrate, -⟩ := checkRequest_eq_ok h.check
  have hsub : ((candidates lib req).take n).Subperm ((candidates lib req).take k) :=
    (List.take_prefix_take_left hn).sublist.subperm
  exact isSome_roundOf_iff hamount hrate (total_nonneg spendable_of_take)
    (hfit.of_subperm hrate spendable_of_take hsub)

theorem not_pays_nil {scripts : List Bytes} (hamount : 0 < req.amount) (hrate : 0 < req.feeRate) :
    ¬ Pays lib req scripts [] := by
  have hfee : 0 ≤ impliedFee lib req [] scripts := impliedFee_nonneg hrate
  intro h
  unfold Pays at h
  rw [show total [] = 0 from rfl] at h
  omega

/-- **The loop refuses exactly if no number of the largest coins pays for a transaction with
change.** -/
theorem refusesForFunds_iff (h : Reaches lib req destScript changeScript)
    (hfit : Fits lib req destScript changeScript (candidates lib req)) :
    RefusesForFunds lib req ↔
      ∀ n, ¬ Pays lib req [destScript, changeScript] ((candidates lib req).take n) := by
  obtain ⟨hamount, hrate, -⟩ := checkRequest_eq_ok h.check
  have hall : (candidates lib req).take (candidates lib req).length = candidates lib req :=
    List.take_length
  have hround (n : Nat) (hn : n ≤ (candidates lib req).length) :
      (roundOf lib req destScript changeScript ((candidates lib req).take n)).isSome ↔
        Pays lib req [destScript, changeScript] ((candidates lib req).take n) :=
    isSome_roundOf_take_iff h hn (by rwa [hall])
  rcases @selectLoop_cases lib req destScript changeScript (candidates lib req) [] with
    ⟨n, sel, hn, hsome, -, hok⟩ | ⟨hnone, msg, herr, hmsg⟩
  · rw [List.nil_append] at hsome
    refine iff_of_false ?_ fun hnot => hnot (n + 1) ((hround _ hn).mp (by rw [hsome]; rfl))
    rintro ⟨msg, herr, -⟩
    rw [selectCoins_of_reaches h, hok] at herr
    cases herr
  · refine iff_of_true ⟨msg, (selectCoins_of_reaches h).trans herr, hmsg⟩ ?_
    have hshort (n : Nat) (hn : n ≤ (candidates lib req).length) :
        ¬ Pays lib req [destScript, changeScript] ((candidates lib req).take n) := by
      cases n with
      | zero => exact not_pays_nil hamount hrate
      | succ n =>
        have := hnone n hn
        rw [List.nil_append] at this
        rw [← hround _ hn, this]
        exact Bool.false_ne_true
    intro n
    rcases Nat.le_total n (candidates lib req).length with hn | hn
    · exact hshort n hn
    · rw [List.take_of_length_le hn, ← hall]
      exact hshort _ le_rfl

/--
**When "insufficient funds" is the truth.** A request is never refused although some coins would pay
for the destination alone, exactly if some number of the largest coins pays for a transaction with
change whenever the largest coins of either type would pay for one without.
-/
theorem insufficient_funds_iff
    (hfit : ∀ destScript changeScript, checkRequest lib req = .ok (destScript, changeScript) →
      Fits lib req destScript changeScript (candidates lib req)) :
    (RefusesForFunds lib req → ∀ destScript changeScript,
      checkRequest lib req = .ok (destScript, changeScript) →
      ∀ coins, coins.Subperm (spendable lib req) → ¬ Pays lib req [destScript] coins) ↔
    ∀ destScript changeScript, Reaches lib req destScript changeScript → ∀ i j,
      Pays lib req [destScript] (largest lib req true i ++ largest lib req false j) →
      ∃ n, Pays lib req [destScript, changeScript] ((candidates lib req).take n) := by
  constructor
  · intro h destScript changeScript hreaches i j hpays
    by_contra hnot
    have hrefuses := (refusesForFunds_iff hreaches (hfit _ _ hreaches.check)).mpr
      (not_exists.mp hnot)
    exact h hrefuses _ _ hreaches.check _ (largest_subperm i j) hpays
  · intro h hrefuses destScript changeScript hcheck coins hsub hpays
    obtain ⟨destScript', changeScript', hreaches⟩ := reaches_of_refusesForFunds hrefuses
    obtain ⟨rfl, rfl⟩ := Prod.mk.inj (Except.ok.inj (hcheck.symm.trans hreaches.check))
    obtain ⟨i, j, hlargest⟩ := pays_largest hsub hpays
    obtain ⟨n, hn⟩ := h _ _ hreaches i j hlargest
    exact (refusesForFunds_iff hreaches (hfit _ _ hcheck)).mp hrefuses n hn

/-- Two coins, one of either type, that are worth less than the amount. -/
def poorRequest : CoinSelectionRequest :=
  { dustChangeRequest with
    utxos :=
      [{ txid := "01", vout := 0, amount := 60000, confirmations := 6,
         script := "0014751e76e8199196d454941c45d1b3a323f1433bd6" },
       { txid := "02", vout := 0, amount := 30000, confirmations := 6,
         script := "76a914751e76e8199196d454941c45d1b3a323f1433bd688ac" }] }

theorem insufficient_funds_iff_poor :
    RefusesForFunds mainNetLib poorRequest ∧ ∀ destScript changeScript,
      checkRequest mainNetLib poorRequest = .ok (destScript, changeScript) →
      ∀ coins, coins.Subperm (spendable mainNetLib poorRequest) →
        ¬ Pays mainNetLib poorRequest [destScript] coins := by
  have hrefuses : RefusesForFunds mainNetLib poorRequest :=
    ⟨_, rfl, by decide +kernel⟩
  refine ⟨hrefuses, (insufficient_funds_iff ?_).mpr ?_ hrefuses⟩
  · intro destScript changeScript hcheck
    cases hcheck
    exact ⟨by decide +kernel, by decide +kernel, by decide +kernel⟩
  · intro destScript changeScript hreaches i j hpays
    have hfee : 0 ≤ impliedFee mainNetLib poorRequest
        (largest mainNetLib poorRequest true i ++ largest mainNetLib poorRequest false j)
        [destScript] := impliedFee_nonneg (by decide)
    have htotal : total (largest mainNetLib poorRequest true i
        ++ largest mainNetLib poorRequest false j) ≤ total (spendable mainNetLib poorRequest) :=
      Sums.sum_map_le_of_subperm (largest_subperm i j) fun u hu =>
        (spendable_of_mem hu).amount_pos.le
    have hworth : total (spendable mainNetLib poorRequest) = 90000 := by decide +kernel
    have hamount : poorRequest.amount = 100000 := rfl
    unfold Pays at hpays
    omega

def tightRequest : CoinSelectionRequest :=
  { dustChangeRequest with
    utxos := [{ txid := "01", vout := 0, amount := 100120, confirmations := 6,
                script := "0014751e76e8199196d454941c45d1b3a323f1433bd6" }] }

/-- A transaction without change costs 113 and could be paid for. The loop asks for the 144 of one
with change, and refuses. -/
theorem insufficient_funds_wrong :
    RefusesForFunds mainNetLib tightRequest ∧ ∃ destScript changeScript,
      checkRequest mainNetLib tightRequest = .ok (destScript, changeScript) ∧
      impliedFee mainNetLib tightRequest tightRequest.utxos [destScript] = 113 ∧
      tightRequest.utxos.Subperm (spendable mainNetLib tightRequest) ∧
      Pays mainNetLib tightRequest [destScript] tightRequest.utxos := by
  obtain ⟨destScript, changeScript, hcheck, hfee⟩ : ∃ destScript changeScript,
      checkRequest mainNetLib tightRequest = .ok (destScript, changeScript) ∧
      impliedFee mainNetLib tightRequest tightRequest.utxos [destScript] = 113 :=
    ⟨_, _, rfl, rfl⟩
  refine ⟨⟨_, rfl, by decide +kernel⟩, destScript, changeScript, hcheck, hfee,
    List.Subperm.refl _, ?_⟩
  rw [Pays, hfee]
  decide

/-! ## The fewest inputs -/

theorem firstRound_of_selectCoins {sel : CoinSelection} (h : selectCoins lib req = .ok sel) :
    ∃ destScript changeScript n, Reaches lib req destScript changeScript ∧
      n < (candidates lib req).length ∧ sel.selected = (candidates lib req).take (n + 1) ∧
      (roundOf lib req destScript changeScript ((candidates lib req).take (n + 1))).isSome ∧
      ∀ m < n, roundOf lib req destScript changeScript ((candidates lib req).take (m + 1)) = none := by
  obtain ⟨destScript, changeScript, hreaches⟩ :
      ∃ destScript changeScript, Reaches lib req destScript changeScript := by
    have h' := h
    obtain ⟨⟨destScript, changeScript⟩, hcheck, h'⟩ := bind_eq_ok.mp h'
    simp only at h'
    split at h'
    · split at h' <;> simp at h'
    next hnonempty =>
    split at h'
    · simp at h'
    · next hdust => exact ⟨destScript, changeScript, hcheck, hnonempty, Int.not_lt.mp hdust⟩
  rw [selectCoins_of_reaches hreaches] at h
  rcases selectLoop_cases (candidates lib req) [] with
    ⟨n, sel', hn, hsome, hnone, hok⟩ | ⟨-, msg, herr, -⟩
  · obtain rfl := Except.ok.inj (h.symm.trans hok)
    refine ⟨destScript, changeScript, n, hreaches, hn, trySelection_selected hsome, ?_, hnone⟩
    rw [List.nil_append] at hsome
    rw [hsome]
    rfl
  · rw [herr] at h
    cases h

theorem Pays.take
    (hsame : ∀ u ∈ spendable lib req, ∀ v ∈ spendable lib req, isSegwit lib u = isSegwit lib v)
    (hsub : coins.Subperm (spendable lib req)) (h : Pays lib req scripts coins) :
    Pays lib req scripts ((candidates lib req).take coins.length) := by
  have hsub' : coins.Subperm (candidates lib req) := hsub.trans candidates_perm.symm.subperm
  refine h.exchange ?_ (Sums.sum_map_le_take_of_subperm hsub' (pairwise_sortCoins _))
  cases coins with
  | nil => simp
  | cons u coins =>
    have hweights : ∀ v ∈ spendable lib req, chargedWeights lib v = chargedWeights lib u := by
      intro v hv
      rw [chargedWeights_eq, chargedWeights_eq, hsame v hv u (hsub.subset List.mem_cons_self)]
    have hall (l : List UTXO) (hl : ∀ v ∈ l, v ∈ spendable lib req) :
        l.map (chargedWeights lib) = List.replicate l.length (chargedWeights lib u) := by
      refine List.eq_replicate_iff.mpr ⟨List.length_map _, fun w hw => ?_⟩
      obtain ⟨v, hv, rfl⟩ := List.mem_map.mp hw
      exact hweights v (hl v hv)
    rw [hall _ fun v hv => hsub.subset hv,
      hall _ fun v hv => candidates_perm.mem_iff.mp (List.mem_of_mem_take hv),
      List.length_take_of_le hsub'.length_le]

/--
**Largest first takes the fewest inputs.** For coins of one type, no smaller set of spendable coins
pays for its own transaction with change, where the sums over the coins selected are `int64`s.
-/
theorem fewest_inputs {sel : CoinSelection}
    (hsame : ∀ u ∈ spendable lib req, ∀ v ∈ spendable lib req, isSegwit lib u = isSegwit lib v)
    (h : selectCoins lib req = .ok sel)
    (hfit : ∀ destScript changeScript, checkRequest lib req = .ok (destScript, changeScript) →
      Fits lib req destScript changeScript sel.selected) :
    ∀ destScript changeScript, checkRequest lib req = .ok (destScript, changeScript) →
      ∀ coins, coins.Subperm (spendable lib req) → coins.length < sel.selected.length →
        ¬ Pays lib req [destScript, changeScript] coins := by
  intro destScript changeScript hcheck coins hsub hlen hpays
  obtain ⟨destScript', changeScript', k, hreaches, hk, hselected, -, hnone⟩ :=
    firstRound_of_selectCoins h
  obtain ⟨rfl, rfl⟩ := Prod.mk.inj (Except.ok.inj (hcheck.symm.trans hreaches.check))
  obtain ⟨hamount, hrate, -⟩ := checkRequest_eq_ok hcheck
  have hfit := hfit _ _ hcheck
  rw [hselected] at hfit hlen
  rw [List.length_take_of_le hk] at hlen
  have hlargest := hpays.take hsame hsub
  cases hcoins : coins.length with
  | zero =>
    rw [hcoins] at hlargest
    exact not_pays_nil hamount hrate hlargest
  | succ m =>
    -- the round over as many of the largest coins decided, but the loop went on
    rw [hcoins] at hlargest hlen
    have hsome := (isSome_roundOf_take_iff hreaches hlen.le hfit).mpr hlargest
    rw [hnone m (by omega)] at hsome
    cases hsome

/-- Three coins of one type, of which two are needed. -/
def threeCoins : CoinSelectionRequest :=
  { dustChangeRequest with
    utxos := [60000, 50000, 40000].mapIdx fun i amount =>
      { txid := "01", vout := i, amount, confirmations := 6,
        script := "0014751e76e8199196d454941c45d1b3a323f1433bd6" } }

theorem fewest_inputs_two :
    ∃ sel, selectCoins mainNetLib threeCoins = .ok sel ∧ sel.selected.length = 2 ∧
      ∀ destScript changeScript, checkRequest mainNetLib threeCoins
          = .ok (destScript, changeScript) →
        ∀ coins, coins.Subperm (spendable mainNetLib threeCoins) → coins.length < 2 →
          ¬ Pays mainNetLib threeCoins [destScript, changeScript] coins := by
  obtain ⟨sel, hsel, hselected⟩ : ∃ sel, selectCoins mainNetLib threeCoins = .ok sel ∧
      sel.selected = threeCoins.utxos.take 2 := ⟨_, rfl, rfl⟩
  have hlen : sel.selected.length = 2 := by rw [hselected]; rfl
  refine ⟨sel, hsel, hlen, fun destScript changeScript hcheck => hlen ▸
    fewest_inputs (by decide) hsel ?_ destScript changeScript hcheck⟩
  intro destScript changeScript hcheck
  cases hcheck
  rw [hselected]
  exact ⟨by decide +kernel, by decide +kernel, by decide +kernel⟩

/-- Coins of 6, 5, 4.9, 4.8 and 4.7 billion billion. -/
def wrappingRequest : CoinSelectionRequest :=
  { dustChangeRequest with
    utxos := [6000000000000000000, 5000000000000000000, 4900000000000000000, 4800000000000000000,
        4700000000000000000].mapIdx fun i amount =>
      { txid := "01", vout := i, amount, confirmations := 6,
        script := "0014751e76e8199196d454941c45d1b3a323f1433bd6" }
    amount := 6500000000000000000 }

/-- The first two coins pay. Their sum is negative as an `int64`, and the loop goes on to the fifth. -/
theorem not_fewest_inputs :
    ∃ sel destScript changeScript, selectCoins mainNetLib wrappingRequest = .ok sel ∧
      sel.selected.length = 5 ∧
      checkRequest mainNetLib wrappingRequest = .ok (destScript, changeScript) ∧
      (wrappingRequest.utxos.take 2).Subperm (spendable mainNetLib wrappingRequest) ∧
      (∀ u ∈ spendable mainNetLib wrappingRequest, ∀ v ∈ spendable mainNetLib wrappingRequest,
        isSegwit mainNetLib u = isSegwit mainNetLib v) ∧
      Pays mainNetLib wrappingRequest [destScript, changeScript] (wrappingRequest.utxos.take 2) := by
  refine ⟨_, _, _, rfl, rfl, rfl, ?_, by decide, ?_⟩
  · exact (List.take_sublist 2 _).subperm
  · decide

/-! ## The order of the listing -/

/-- **The wallet may list the coins in any order.** Whichever sort is used, it gives the same order
of the spendable coins, and the request gets the same selection or the same error. -/
theorem selectCoins_perm {utxos : List UTXO} (hperm : utxos.Perm req.utxos)
    (hdistinct : (req.utxos.map fun u => (u.txid, u.vout)).Nodup) :
    (∀ coins, coins.Perm (spendable lib req) → coins.Pairwise (fun a b => coinLess b a = false) →
      coins = sortCoins (spendable lib req)) ∧
    selectCoins lib { req with utxos } = selectCoins lib req := by
  have hspend : (spendable lib { req with utxos }).Perm (spendable lib req) := hperm.filter _
  have hnodup : ((spendable lib req).map fun u => (u.txid, u.vout)).Nodup :=
    hdistinct.sublist (List.filter_sublist.map _)
  have hsort : sortCoins (spendable lib { req with utxos }) = sortCoins (spendable lib req) :=
    eq_sortCoins hnodup ((List.perm_insertionSort _ _).trans hspend)
      ((pairwise_coinKey_sortCoins _).imp coinLess_eq_false.mpr)
  refine ⟨fun coins => eq_sortCoins hnodup, ?_⟩
  have hcount : unconfirmed { req with utxos } = unconfirmed req := hperm.countP_eq _
  have hempty : spendable lib { req with utxos } = [] ↔ spendable lib req = [] := by
    constructor
    · intro h
      rw [h] at hspend
      exact hspend.nil_eq.symm
    · intro h
      rw [h] at hspend
      exact hspend.eq_nil
  have hloop : ∀ destScript changeScript selected totalIn rest,
      selectLoop lib { req with utxos } destScript changeScript selected totalIn rest =
        selectLoop lib req destScript changeScript selected totalIn rest := by
    intro destScript changeScript selected totalIn rest
    induction rest generalizing selected totalIn with
    | nil => rfl
    | cons u rest ih =>
      rw [selectLoop, ih]
      rfl
  unfold selectCoins
  simp only [hempty, hcount, hsort, hloop]
  rfl

theorem selectCoins_perm_reverse :
    ∃ sel, selectCoins mainNetLib { threeCoins with utxos := threeCoins.utxos.reverse } = .ok sel ∧
      selectCoins mainNetLib threeCoins = .ok sel :=
  ⟨_, (selectCoins_perm (List.reverse_perm _) (by decide)).2, rfl⟩

end

end OpenFireblocks.Bitcoin
