import OpenFireblocks.Bitcoin.Plan
import OpenFireblocks.Cosmos.Tx

/-!
# The signed transaction, as `AssembleBitcoinTransaction` makes it

Signatures go into the transaction of a plan, and the script engine runs over the previous scripts that
the plan lists. The plan has crossed the gateway, so its arrays need not agree. `txscript` and `btcec`
are third-party and enter as an `AssembleLib`.
-/

namespace OpenFireblocks.Bitcoin

open BigEndian Go Outcome

structure TxIn where
  outPoint : OutPoint
  signatureScript : Bytes
  witness : List Bytes
  sequence : Nat

structure MsgTx where
  version : Int
  txIn : List TxIn
  txOut : List TxOut
  lockTime : Nat

/-- A plan as it comes back, with what `UnsignedTxHex` decodes to. -/
structure ReturnedPlan where
  unsignedTx : Except String MsgTx
  sigHashes : List String
  prevScripts : List String
  witness : List Bool
  amounts : List Int

/-- Half the order of the curve. -/
def halfOrder : Nat := Cosmos.curveOrder / 2

/-- The third-party functions. An error is its text. -/
structure AssembleLib where
  /-- `btcec.ParsePubKey`, and the compressed form of the key. -/
  parsePubKey : Bytes → Except String Bytes
  /-- `btcec.Signature.Serialize`. -/
  serialize : (r s : Int) → Bytes
  /-- The DER encoding of a signature. -/
  der : (r s : Nat) → Bytes
  /-- `Serialize` writes the two numbers without their signs. -/
  serialize_eq : ∀ r s : Int, s ≤ halfOrder → serialize r s = der r.natAbs s.natAbs
  /-- The script that pushes both. -/
  sigScript : Bytes → Bytes → Except String Bytes
  /-- `NewEngine`: the previous script, the transaction, the input and the amount. An engine is what
  its `Execute` returns. -/
  newEngine : Bytes → MsgTx → Nat → Int → Except String (Except String Unit)
  isWitnessProgram : Bytes → Bool
  /-- BIP 141: an input that spends a witness program has an empty signature script. -/
  execute_witness : ∀ script tx i amount input, newEngine script tx i amount = .ok (.ok ()) →
    isWitnessProgram script = true → tx.txIn[i]? = some input → input.signatureScript = []

/-- `new(big.Int).SetString(v, 16)`. -/
def bigSetHex (v : List Char) : Option Int :=
  let digits (s : List Char) : Option Int :=
    if s ≠ [] ∧ s.all fun c => (hexValue c).isSome then some (hexNat s) else none
  match v with
  | '-' :: s => (digits s).map fun n => -n
  | '+' :: s => digits s
  | s => digits s

/-- Low-S normalisation, which is not told the range of `s`. -/
def lowS (s : Int) : Int :=
  if halfOrder < s then Cosmos.curveOrder - s else s

def sigHashAll : UInt8 := 1

section

variable (lib : AssembleLib)

def setSignature (pub : Bytes) (i : Nat) (witness : Bool) (sig : String × String) (input : TxIn) :
    Result TxIn :=
  match bigSetHex (strip0x sig.1).toList, bigSetHex (strip0x sig.2).toList with
  | none, _ => errorf s!"input {i}: r is not valid hex"
  | _, none => errorf s!"input {i}: s is not valid hex"
  | some r, some s =>
    let sigWithHashType := lib.serialize r (lowS s) ++ [sigHashAll]
    if witness then .ok { input with witness := [sigWithHashType, pub], signatureScript := [] }
    else
      match lib.sigScript sigWithHashType pub with
      | .error err => errorf s!"input {i}: failed to build the signature script: {err}"
      | .ok script => .ok { input with signatureScript := script }

def setSignatures (pub : Bytes) (witness : List Bool) (i : Nat) :
    List (String × String) → List TxIn → Result (List TxIn)
  | sig :: sigs, input :: inputs => do
    let signed ← setSignature lib pub i (witness[i]?.getD false) sig input
    let rest ← setSignatures pub witness (i + 1) sigs inputs
    return signed :: rest
  | _, _ => .ok []

def executeInputs (tx : MsgTx) (amounts : List Int) (i : Nat) : List String → Result Unit
  | [] => .ok ()
  | prevScriptHex :: rest =>
    match hexDecodeString prevScriptHex with
    | none => errorf s!"input {i}: invalid previous script hex"
    | some prevScript =>
      match lib.newEngine prevScript tx i (amounts[i]?.getD 0) with
      | .error err => errorf s!"input {i}: could not build a script engine: {err}"
      | .ok (.error err) =>
        errorf (s!"input {i}: the assembled transaction does not satisfy the output it spends: "
          ++ err)
      | .ok (.ok ()) => executeInputs tx amounts (i + 1) rest

def assembleBitcoinTransaction (plan : ReturnedPlan) (sigs : List (String × String))
    (pubKeyHex : String) : Result MsgTx :=
  if sigs.length ≠ plan.sigHashes.length then
    errorf s!"got {sigs.length} signatures for {plan.sigHashes.length} inputs"
  else
    match hexDecodeString (strip0x pubKeyHex) with
    | none => errorf "invalid public key hex"
    | some rawPubKey =>
      match lib.parsePubKey rawPubKey, plan.unsignedTx with
      | .error err, _ => errorf s!"invalid public key: {err}"
      | _, .error err => errorf err
      | .ok pub, .ok tx =>
        if tx.txIn.length ≠ sigs.length then
          errorf (s!"the transaction has {tx.txIn.length} inputs but {sigs.length} "
            ++ "signatures were supplied")
        else do
          let txIn ← setSignatures lib pub plan.witness 0 sigs tx.txIn
          executeInputs lib { tx with txIn := txIn } plan.amounts 0 plan.prevScripts
          return { tx with txIn := txIn }

/-- The input is flagged as segwit, or the plan says that it spends a witness program. -/
def ReturnedPlan.Segwit (plan : ReturnedPlan) (i : Nat) : Prop :=
  plan.witness[i]? = some true ∨ ∃ text script, plan.prevScripts[i]? = some text ∧
    hexDecodeString text = some script ∧ lib.isWitnessProgram script = true

/-- The engine has taken the input, against the previous script and the amount the plan has for it. -/
def ReturnedPlan.Executed (plan : ReturnedPlan) (tx : MsgTx) (i : Nat) : Prop :=
  ∃ text script amount, plan.prevScripts[i]? = some text ∧ hexDecodeString text = some script ∧
    plan.amounts[i]? = some amount ∧ lib.newEngine script tx i amount = .ok (.ok ())

/-- The input with the signature `(r, s)`, in its witness or in its signature script. -/
structure SignedAs (pub : Bytes) (witness : Bool) (r s : Nat) (input signed : TxIn) : Prop where
  outPoint : signed.outPoint = input.outPoint
  sequence : signed.sequence = input.sequence
  signature :
    if witness then
      signed.signatureScript = [] ∧ signed.witness = [lib.der r s ++ [sigHashAll], pub]
    else
      lib.sigScript (lib.der r s ++ [sigHashAll]) pub = .ok signed.signatureScript ∧
        signed.witness = input.witness

/-- The inputs, each with its own signature of the list. -/
structure SignedWith (pub : Bytes) (witness : List Bool) (numbers : List (Nat × Nat))
    (inputs signed : List TxIn) : Prop where
  length : inputs.length = signed.length ∧ numbers.length = signed.length
  input : ∀ (i : Nat) r s x y, numbers[i]? = some (r, s) → inputs[i]? = some x → signed[i]? = some y →
    SignedAs lib pub (witness[i]?.getD false) r s x y

end

/-- The number that is written for the `s` of a signature. -/
def writtenS (s : Int) : Nat := (lowS s).natAbs

/-- The `s` of a signature is at most half the order below 0 or above the order. -/
def SInRange (sig : String × String) : Prop :=
  ∀ s, bigSetHex (strip0x sig.2).toList = some s →
    -(halfOrder : Int) ≤ s ∧ s ≤ Cosmos.curveOrder + halfOrder

variable {lib : AssembleLib} {plan : ReturnedPlan} {tx signed : MsgTx}

theorem lowS_le (s : Int) : lowS s ≤ halfOrder := by
  unfold lowS halfOrder Cosmos.curveOrder
  split <;> omega

theorem writtenS_le_iff {s : Int} :
    writtenS s ≤ halfOrder ↔ -(halfOrder : Int) ≤ s ∧ s ≤ Cosmos.curveOrder + halfOrder := by
  unfold writtenS lowS halfOrder Cosmos.curveOrder
  split <;> omega

variable {i : Nat} {pub : Bytes} {sigs : List (String × String)}

theorem setSignature_eq_ok {witness : Bool} {sig : String × String} {input signed : TxIn}
    (h : setSignature lib pub i witness sig input = .ok signed) :
    ∃ r s, bigSetHex (strip0x sig.2).toList = some s ∧
      SignedAs lib pub witness r (writtenS s) input signed := by
  unfold setSignature at h
  split at h
  · simp at h
  · simp at h
  next r s _ hs =>
  refine ⟨r.natAbs, s, hs, ?_⟩
  simp only [lib.serialize_eq r _ (lowS_le s)] at h
  split at h
  · next hw =>
    cases h
    exact ⟨rfl, rfl, by rw [if_pos hw]; exact ⟨rfl, rfl⟩⟩
  next hw =>
  split at h
  · simp at h
  next script hscript =>
  cases h
  exact ⟨rfl, rfl, by rw [if_neg hw]; exact ⟨hscript, rfl⟩⟩

/-- The numbers that end up in the inputs are those of the signatures, one after the other. -/
theorem setSignatures_eq_ok {witness : List Bool} {inputs signed : List TxIn}
    (hlen : inputs.length = sigs.length)
    (h : setSignatures lib pub witness i sigs inputs = .ok signed) :
    ∃ numbers : List (Nat × Nat),
      List.Forall₂ (fun sig n => ∃ s, bigSetHex (strip0x sig.2).toList = some s ∧ n.2 = writtenS s)
        sigs numbers ∧
      inputs.length = signed.length ∧ numbers.length = signed.length ∧
      ∀ k r s x y, numbers[k]? = some (r, s) → inputs[k]? = some x → signed[k]? = some y →
        SignedAs lib pub (witness[i + k]?.getD false) r s x y := by
  induction sigs generalizing i inputs signed with
  | nil =>
    rw [List.length_eq_zero_iff.mp hlen] at h ⊢
    cases h
    exact ⟨[], .nil, rfl, rfl, by simp⟩
  | cons sig sigs ih =>
    cases inputs with
    | nil => cases hlen
    | cons input inputs =>
      obtain ⟨first, hfirst, h⟩ := bind_eq_ok.mp h
      obtain ⟨rest, hrest, h⟩ := bind_eq_ok.mp h
      cases h
      obtain ⟨r, s, hs, hsigned⟩ := setSignature_eq_ok hfirst
      obtain ⟨numbers, hnumbers, hinputs, hlength, hall⟩ := ih (Nat.succ.inj hlen) hrest
      refine ⟨(r, writtenS s) :: numbers, .cons ⟨s, hs, rfl⟩ hnumbers,
        congrArg Nat.succ hinputs, congrArg Nat.succ hlength, ?_⟩
      intro k r' s' x y hn hx hy
      cases k with
      | zero =>
        cases hn
        cases hx
        cases hy
        exact hsigned
      | succ k =>
        have := hall k r' s' x y hn hx hy
        rwa [Nat.add_right_comm] at this

theorem executeInputs_eq_ok {amounts : List Int} {scripts : List String}
    (h : executeInputs lib tx amounts i scripts = .ok ()) {k : Nat} {text : String}
    (hk : scripts[k]? = some text) : ∃ script, hexDecodeString text = some script ∧
      lib.newEngine script tx (i + k) (amounts[i + k]?.getD 0) = .ok (.ok ()) := by
  induction scripts generalizing i k with
  | nil => cases hk
  | cons first scripts ih =>
    rw [executeInputs] at h
    split at h
    · simp at h
    next script hscript =>
    split at h
    · simp at h
    · simp at h
    next hrun =>
    cases k with
    | zero =>
      cases hk
      exact ⟨script, hscript, hrun⟩
    | succ k =>
      obtain ⟨script, hscript, hrun⟩ := ih h hk
      rw [Nat.add_right_comm] at hrun
      exact ⟨script, hscript, hrun⟩

theorem assembleBitcoinTransaction_eq_ok {key : String}
    (h : assembleBitcoinTransaction lib plan sigs key = .ok signed) :
    ∃ pub tx, plan.unsignedTx = .ok tx ∧ signed = { tx with txIn := signed.txIn } ∧
      tx.txIn.length = sigs.length ∧
      setSignatures lib pub plan.witness 0 sigs tx.txIn = .ok signed.txIn ∧
      executeInputs lib signed plan.amounts 0 plan.prevScripts = .ok () := by
  unfold assembleBitcoinTransaction at h
  split at h
  · simp at h
  split at h
  · simp at h
  split at h
  · simp at h
  · simp at h
  next pub tx _ htx =>
  split at h
  · simp at h
  next hlen =>
  obtain ⟨txIn, hset, h⟩ := bind_eq_ok.mp h
  obtain ⟨_, hrun, h⟩ := bind_eq_ok.mp h
  cases h
  exact ⟨pub, tx, htx, rfl, not_not.mp hlen, hset, hrun⟩

/-- The plan has a previous script and an amount for every input. -/
def ReturnedPlan.Covers (plan : ReturnedPlan) (tx : MsgTx) : Prop :=
  tx.txIn.length ≤ plan.prevScripts.length ∧ tx.txIn.length ≤ plan.amounts.length

theorem executed_iff_covers (h : executeInputs lib signed plan.amounts 0 plan.prevScripts = .ok ()) :
    (∀ i < signed.txIn.length, plan.Executed lib signed i) ↔ plan.Covers signed := by
  constructor
  · intro hall
    cases hn : signed.txIn.length with
    | zero => exact ⟨hn ▸ Nat.zero_le _, hn ▸ Nat.zero_le _⟩
    | succ n =>
      obtain ⟨_, _, _, htext, -, hamount, -⟩ := hall n (by omega)
      have hscripts := (List.getElem?_eq_some_iff.mp htext).1
      have hamounts := (List.getElem?_eq_some_iff.mp hamount).1
      exact ⟨by omega, by omega⟩
  · rintro ⟨hscripts, hamounts⟩ i hi
    have htext := List.getElem?_eq_getElem (hi.trans_le hscripts)
    have hamount := List.getElem?_eq_getElem (hi.trans_le hamounts)
    obtain ⟨script, hscript, hexec⟩ := executeInputs_eq_ok h htext
    rw [Nat.zero_add, hamount] at hexec
    exact ⟨_, script, _, htext, hscript, hamount, hexec⟩

theorem low_iff_sInRange {numbers : List (Nat × Nat)}
    (h : List.Forall₂ (fun (sig : String × String) (n : Nat × Nat) =>
      ∃ s, bigSetHex (strip0x sig.2).toList = some s ∧ n.2 = writtenS s) sigs numbers) :
    (∀ n ∈ numbers, n.2 ≤ halfOrder) ↔ ∀ sig ∈ sigs, SInRange sig := by
  induction h with
  | nil => simp
  | @cons sig n sigs numbers hfirst hrest ih =>
    obtain ⟨s, hs, hn⟩ := hfirst
    have hsig : n.2 ≤ halfOrder ↔ SInRange sig := by
      rw [hn, writtenS_le_iff, SInRange]
      constructor
      · rintro hrange s' hs'
        rwa [Option.mem_unique hs' hs]
      · exact fun hrange => hrange s hs
    rw [List.forall_mem_cons, List.forall_mem_cons, hsig, ih]

/--
**Assembly changes only signatures.** Every input gets the two numbers of its own signature. Every one
is checked and every `s` is in the low form exactly if the plan has a previous script and an amount for
every input, and no `s` is further than half the order from 0 and from the order: what is looped over
is the plan's list of scripts, not the inputs, and the normalisation is not told the range of `s`.
-/
theorem assembled_checked {key : String}
    (h : assembleBitcoinTransaction lib plan sigs key = .ok signed) :
    ∃ pub tx numbers, plan.unsignedTx = .ok tx ∧ signed = { tx with txIn := signed.txIn } ∧
      SignedWith lib pub plan.witness numbers tx.txIn signed.txIn ∧
      (∀ i input, signed.txIn[i]? = some input → plan.Segwit lib i → input.signatureScript = []) ∧
      (((∀ i < signed.txIn.length, plan.Executed lib signed i) ∧ ∀ n ∈ numbers, n.2 ≤ halfOrder) ↔
        plan.Covers signed ∧ ∀ sig ∈ sigs, SInRange sig) := by
  obtain ⟨pub, tx, htx, hsame, hlen, hset, hrun⟩ := assembleBitcoinTransaction_eq_ok h
  obtain ⟨numbers, hnumbers, hinputs, hlength, hall⟩ := setSignatures_eq_ok hlen hset
  simp only [Nat.zero_add] at hall
  refine ⟨pub, tx, numbers, htx, hsame, ⟨⟨hinputs, hlength⟩, hall⟩, ?_,
    and_congr (executed_iff_covers hrun) (low_iff_sInRange hnumbers)⟩
  rintro i input hi (hflag | ⟨text, script, htext, hscript, hprogram⟩)
  · obtain ⟨hlt, -⟩ := List.getElem?_eq_some_iff.mp hi
    have hsig := (hall i _ _ _ input (List.getElem?_eq_getElem (hlength ▸ hlt))
      (List.getElem?_eq_getElem (hinputs ▸ hlt)) hi).signature
    rw [hflag] at hsig
    exact hsig.1
  · obtain ⟨script', hscript', hexec⟩ := executeInputs_eq_ok hrun htext
    obtain rfl := Option.mem_unique hscript hscript'
    rw [Nat.zero_add] at hexec
    exact lib.execute_witness _ _ _ _ _ hexec hprogram hi

/-! ### A script that asks for no signature -/

/-- The length of data, and the data. -/
def pushed (data : Bytes) : Bytes := UInt8.ofNat data.length :: data

/-- A DER integer. A number whose first bit is set gets a zero before it. -/
def derInteger (n : Nat) : Bytes :=
  2 :: pushed (if 0x80 ≤ (toBytes n).headD 0 then 0 :: toBytes n else toBytes n)

/-- The key above, and the script `OP_2DROP OP_TRUE`, which takes whatever two values are pushed. -/
def dropScriptLib : AssembleLib where
  parsePubKey key := if key = generatorKey then .ok key else .error "invalid pub key"
  serialize r s :=
    0x30 :: pushed (derInteger r.natAbs ++
      derInteger (if halfOrder < s then Cosmos.curveOrder - s else s).natAbs)
  der r s := 0x30 :: pushed (derInteger r ++ derInteger s)
  serialize_eq r s h := by rw [if_neg (Int.not_lt.mpr h)]
  sigScript sig key := .ok (pushed sig ++ pushed key)
  newEngine script tx i _ :=
    if script = [0x6d, 0x51] ∧ (tx.txIn[i]?).any (·.signatureScript ≠ []) then .ok (.ok ())
    else .ok (.error "false stack entry at end of script execution")
  isWitnessProgram script := script.take 2 = [0, UInt8.ofNat (script.length - 2)]
  execute_witness script tx i amount input h hp := by
    split at h
    · next hs =>
      rw [hs.1] at hp
      cases hp
    · cases h

/-- One input of 1000 satoshis. -/
def planWith (prevScripts : List String) : ReturnedPlan where
  unsignedTx := .ok ⟨1, [⟨⟨List.replicate 32 0, 0⟩, [], [], 0xffffffff⟩], [⟨900, [0x51]⟩], 0⟩
  sigHashes := [""]
  prevScripts := prevScripts
  witness := [false]
  amounts := [1000]

def generatorText : String := hexEncodeToString generatorKey

theorem assembled_checked_planWith : ∃ signed pub tx numbers,
    assembleBitcoinTransaction dropScriptLib (planWith ["6d51"]) [("1", "1")] generatorText
      = .ok signed ∧
    SignedWith dropScriptLib pub [false] numbers tx signed.txIn ∧
    (∀ i < signed.txIn.length, (planWith ["6d51"]).Executed dropScriptLib signed i) ∧
    ∀ n ∈ numbers, n.2 ≤ halfOrder := by
  obtain ⟨signed, h, hlen⟩ : ∃ signed, assembleBitcoinTransaction dropScriptLib (planWith ["6d51"])
      [("1", "1")] generatorText = .ok signed ∧ signed.txIn.length = 1 := ⟨_, rfl, rfl⟩
  obtain ⟨pub, tx, numbers, -, -, hsigned, -, hiff⟩ := assembled_checked h
  refine ⟨signed, pub, tx.txIn, numbers, h, hsigned, hiff.mpr ⟨?_, ?_⟩⟩
  · rw [ReturnedPlan.Covers, hlen]
    exact ⟨le_refl 1, le_refl 1⟩
  · intro sig hsig s hs
    obtain rfl := List.mem_singleton.mp hsig
    obtain rfl : (1 : Int) = s := Option.some.inj hs
    decide

/-- The script of the input, if it is not run at all, and a signature whose `s` is twice the order less
one: what is written is the order less one. -/
theorem assembled_unchecked :
    (∃ signed, assembleBitcoinTransaction dropScriptLib (planWith []) [("1", "1")] generatorText
        = .ok signed ∧
      ¬ ∀ i < signed.txIn.length, (planWith []).Executed dropScriptLib signed i) ∧
    ∃ signed, assembleBitcoinTransaction dropScriptLib (planWith ["6d51"])
        [("1", "1fffffffffffffffffffffffffffffffd755db9cd5e9140777fa4bd19a06c8281")] generatorText
          = .ok signed ∧
      signed.txIn.map TxIn.signatureScript = [pushed (dropScriptLib.der 1 (Cosmos.curveOrder - 1)
        ++ [sigHashAll]) ++ pushed generatorKey] := by
  refine ⟨⟨_, rfl, fun hall => ?_⟩, _, rfl, by decide +kernel⟩
  obtain ⟨_, _, _, htext, -⟩ := hall 0 Nat.one_pos
  cases htext

end OpenFireblocks.Bitcoin
