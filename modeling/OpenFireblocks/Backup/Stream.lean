import OpenFireblocks.Backup.Offsite
import OpenFireblocks.Lib.Outcome

/-!
# What the object format keeps

Objects are encrypted with an ideal AEAD, each under a prefix of its own. `Reaches` says at which counter `encrypt` has which rest
of a file; under one prefix the counter determines the rest.
-/

namespace OpenFireblocks.Backup

open BigEndian

structure Object where
  noncePrefix : Bytes
  contents : Bytes
  length_prefix : noncePrefix.length = prefixLen

def Object.encrypt (aead : Aead) (obj : Object) : Except String Bytes :=
  Backup.encrypt aead obj.noncePrefix obj.contents

/-- The loop of `encrypt` gets to the counter with this rest of the file. -/
inductive Reaches (contents : Bytes) : UInt32 → Bytes → Prop
  | start : Reaches contents 0 contents
  | next {counter : UInt32} {src : Bytes} : Reaches contents counter src →
      src.drop chunkSize ≠ [] → counter + 1 ≠ 0 →
      Reaches contents (counter + 1) (src.drop chunkSize)

def chunkSealing (noncePrefix : Bytes) (counter : UInt32) (src : Bytes) : Aead.Sealing :=
  ⟨chunkNonce noncePrefix counter, src.take chunkSize,
    chunkAAD counter (src.drop chunkSize).isEmpty⟩

def Sealed (objects : List Object) (s : Aead.Sealing) : Prop :=
  ∃ obj ∈ objects, ∃ counter src, Reaches obj.contents counter src ∧
    s = chunkSealing obj.noncePrefix counter src

structure IdealFor (aead : Aead) (objects : List Object) : Prop where
  ideal : aead.Ideal overhead (Sealed objects)
  prefixes : ∀ a ∈ objects, ∀ b ∈ objects, a.noncePrefix = b.noncePrefix → a = b

/-! ## Counters -/

theorem toNat_add_one {c : UInt32} (h : c + 1 ≠ 0) : (c + 1).toNat = c.toNat + 1 := by
  have hlt := c.toNat_lt
  have hne : (c.toNat + 1) % 2 ^ 32 ≠ 0 := by
    intro hzero
    apply h
    rw [← UInt32.toNat_inj]
    exact hzero
  show (c.toNat + 1) % 2 ^ 32 = c.toNat + 1
  omega

variable {src : Bytes} {counter : UInt32}

theorem Reaches.eq_drop {contents : Bytes} (h : Reaches contents counter src) :
    src = contents.drop (counter.toNat * chunkSize) := by
  induction h with
  | start => simp
  | next _ _ hne ih =>
    rw [toNat_add_one hne, ih, List.drop_drop, Nat.succ_mul]

theorem Reaches.unique {contents src' : Bytes} (h : Reaches contents counter src)
    (h' : Reaches contents counter src') : src = src' :=
  h.eq_drop.trans h'.eq_drop.symm

@[simp] theorem length_putUint32 (n : UInt32) : (putUint32 n).length = 4 := length_fixed 4 _

theorem putUint32_inj {m n : UInt32} (h : putUint32 m = putUint32 n) : m = n :=
  UInt32.toNat_inj.mp (fixed_inj m.toNat_lt n.toNat_lt h)

theorem chunkNonce_inj {p q : Bytes} {c d : UInt32} (h : chunkNonce p c = chunkNonce q d) :
    p = q ∧ c = d := by
  obtain ⟨hp, hc⟩ := List.append_inj' h (by rw [length_putUint32, length_putUint32])
  exact ⟨hp, putUint32_inj hc⟩

theorem chunkAAD_inj {c d : UInt32} {a b : Bool} (h : chunkAAD c a = chunkAAD d b) : a = b := by
  obtain ⟨-, hlast⟩ := List.append_inj' h rfl
  revert hlast
  cases a <;> cases b <;> decide

theorem toNat_putUint32 {n : Nat} (h : n < 2 ^ 32) : toNat (putUint32 (UInt32.ofNat n)) = n := by
  rw [putUint32, UInt32.toNat_ofNat_of_lt' h, toNat_fixed h]

/-! ## One chunk -/

section

variable {aead : Aead} {objects : List Object}

variable {noncePrefix : Bytes}

theorem IdealFor.opened (h : IdealFor aead objects) {sealed plain : Bytes} {last : Bool}
    (hopen : aead.openBytes (chunkNonce noncePrefix counter) sealed (chunkAAD counter last) = some plain) :
    ∃ obj ∈ objects, obj.noncePrefix = noncePrefix ∧ ∃ src, Reaches obj.contents counter src ∧
      plain = src.take chunkSize ∧ last = (src.drop chunkSize).isEmpty ∧
      sealed = aead.sealBytes (chunkNonce noncePrefix counter) (src.take chunkSize)
        (chunkAAD counter last) := by
  obtain ⟨⟨obj, hobj, counter', src, hreach, hseal⟩, hsealed⟩ := h.ideal.openBytes_eq_some.mp hopen
  obtain ⟨hnonce, rfl, haad⟩ := Aead.Sealing.mk.inj hseal
  obtain ⟨rfl, rfl⟩ := chunkNonce_inj hnonce
  exact ⟨obj, hobj, rfl, src, hreach, rfl, chunkAAD_inj haad, hsealed.symm⟩

variable {obj : Object} {tail out : Bytes} {eof : Bool}

theorem IdealFor.opens (h : IdealFor aead objects) (hobj : obj ∈ objects)
    (hreach : Reaches obj.contents counter src) :
    aead.openBytes (chunkNonce obj.noncePrefix counter)
      (aead.sealBytes (chunkNonce obj.noncePrefix counter) (src.take chunkSize)
        (chunkAAD counter (src.drop chunkSize).isEmpty))
      (chunkAAD counter (src.drop chunkSize).isEmpty) = some (src.take chunkSize) :=
  h.ideal.openBytes_sealBytes ⟨obj, hobj, counter, src, hreach, rfl⟩

theorem IdealFor.not_last (h : IdealFor aead objects) (hobj : obj ∈ objects)
    (hreach : Reaches obj.contents counter src) (hmore : (src.drop chunkSize).isEmpty = false)
    (sealed : Bytes) :
    aead.openBytes (chunkNonce obj.noncePrefix counter) sealed (chunkAAD counter true) = none := by
  rw [Option.eq_none_iff_forall_ne_some]
  intro plain hopen
  obtain ⟨obj', hobj', hprefix, src', hreach', -, hlast, -⟩ := h.opened hopen
  obtain rfl := h.prefixes obj' hobj' obj hobj hprefix
  rw [hreach'.unique hreach, hmore] at hlast
  cases hlast

/-! ## The two loops -/

theorem encryptChunks_last (hlast : (src.drop chunkSize).isEmpty) :
    encryptChunks aead noncePrefix counter src = .ok (frame (aead.sealBytes
      (chunkNonce noncePrefix counter) (src.take chunkSize) (chunkAAD counter true))) := by
  rw [encryptChunks]
  simp [hlast]

theorem encryptChunks_more (hmore : (src.drop chunkSize).isEmpty = false)
    (hcounter : counter + 1 ≠ 0) :
    encryptChunks aead noncePrefix counter src = do
      let out ← encryptChunks aead noncePrefix (counter + 1) (src.drop chunkSize)
      return frame (aead.sealBytes (chunkNonce noncePrefix counter) (src.take chunkSize)
        (chunkAAD counter false)) ++ out := by
  rw [encryptChunks]
  simp [hmore, Bool.false_eq_true, if_neg hcounter]

theorem encryptChunks_ne_ok (hmore : (src.drop chunkSize).isEmpty = false)
    (hcounter : counter + 1 = 0) (out : Bytes) :
    encryptChunks aead noncePrefix counter src ≠ .ok out := by
  rw [encryptChunks]
  simp only [hmore, if_pos hcounter]
  exact nofun

/-- What the loop of `decrypt` does with a chunk. -/
def openChunk (aead : Aead) (noncePrefix : Bytes) (counter : UInt32) (sealed : Bytes) (rest : Source) :
    Except String Bytes :=
  match aead.openBytes (chunkNonce noncePrefix counter) sealed (chunkAAD counter true) with
  | some plain =>
    if rest.readsEOF then .ok plain else .error "the backup has data after its final chunk"
  | none =>
    match aead.openBytes (chunkNonce noncePrefix counter) sealed (chunkAAD counter false) with
    | none => .error "the backup failed authentication: wrong key, altered, or reordered"
    | some plain => do
      let out ← decryptChunks aead noncePrefix (counter + 1) rest
      return plain ++ out

theorem decryptChunks_frame {sealed : Bytes} (hlow : overhead ≤ sealed.length)
    (hhigh : sealed.length ≤ chunkSize + overhead) :
    decryptChunks aead noncePrefix counter ⟨frame sealed ++ tail, eof⟩ =
      openChunk aead noncePrefix counter sealed ⟨tail, eof⟩ := by
  have hlt : sealed.length < 2 ^ 32 := by
    have hsize : chunkSize + overhead < 2 ^ 32 := by decide
    omega
  have hlength : Source.readFull ⟨frame sealed ++ tail, eof⟩ 4 =
      some (putUint32 (UInt32.ofNat sealed.length), ⟨sealed ++ tail, eof⟩) :=
    Source.readFull_eq_some.mpr ⟨length_putUint32 _, List.append_assoc _ _ _, rfl⟩
  have hsealed : Source.readFull ⟨sealed ++ tail, eof⟩ sealed.length =
      some (sealed, ⟨tail, eof⟩) :=
    Source.readFull_eq_some.mpr ⟨rfl, rfl, rfl⟩
  rw [decryptChunks]
  split
  · next hnone =>
    cases hnone
  next lb src₁ hsome =>
  rw [hlength] at hsome
  cases hsome
  simp only [toNat_putUint32 hlt]
  rw [if_neg (by omega)]
  split
  · next hnone =>
    rw [toNat_putUint32 hlt, hsealed] at hnone
    cases hnone
  next sealed' src₂ hsome =>
  rw [toNat_putUint32 hlt, hsealed] at hsome
  cases hsome
  rfl

theorem decryptChunks_eq_ok {src : Source}
    (h : decryptChunks aead noncePrefix counter src = .ok out) :
    ∃ sealed tail, src.bytes = frame sealed ++ tail ∧
      openChunk aead noncePrefix counter sealed ⟨tail, src.eofWithData⟩ = .ok out := by
  rw [decryptChunks] at h
  split at h
  · cases h
  next lb src₁ hlength =>
  dsimp only at h
  split at h
  · cases h
  split at h
  · cases h
  next sealed src₂ hsealed =>
  obtain ⟨hlb, hbytes, heof⟩ := Source.readFull_eq_some.mp hlength
  obtain ⟨hlen, hrest, heof'⟩ := Source.readFull_eq_some.mp hsealed
  obtain ⟨tail, eof⟩ := src₂
  have hframe : frame sealed = lb ++ sealed := by
    have hlt : toNat lb < 2 ^ 32 := by
      have hpow := toNat_lt lb
      rw [hlb] at hpow
      exact hpow
    have hfixed := fixed_toNat lb
    rw [hlb] at hfixed
    rw [frame, hlen, putUint32, UInt32.toNat_ofNat_of_lt' hlt, hfixed]
  refine ⟨sealed, tail, ?_, ?_⟩
  · rw [hbytes, hrest, hframe, List.append_assoc]
  · rw [heof, heof']
    exact h

/-! ## Decrypting what was encrypted -/

/-- Bytes behind the last chunk go unnoticed if the reader reports the end with them. -/
theorem decryptChunks_encryptChunks (h : IdealFor aead objects) (hobj : obj ∈ objects)
    (hreach : Reaches obj.contents counter src)
    (henc : encryptChunks aead obj.noncePrefix counter src = .ok out)
    (htail : Source.readsEOF ⟨tail, eof⟩) :
    decryptChunks aead obj.noncePrefix counter ⟨out ++ tail, eof⟩ = .ok src := by
  induction hn : src.length using Nat.strong_induction_on generalizing src counter out with
  | _ n ih =>
    have hlen := h.ideal.length_sealBytes (chunkNonce obj.noncePrefix counter)
      (src.take chunkSize) (chunkAAD counter (src.drop chunkSize).isEmpty)
    rw [List.length_take] at hlen
    have hopen := h.opens hobj hreach
    cases hlast : (src.drop chunkSize).isEmpty with
    | true =>
      rw [hlast] at hlen hopen
      rw [encryptChunks_last hlast] at henc
      cases henc
      have hsrc : src.take chunkSize = src := by
        have hdrop := List.take_append_drop chunkSize src
        rwa [List.isEmpty_iff.mp hlast, List.append_nil] at hdrop
      rw [decryptChunks_frame (by omega) (by omega), openChunk, hopen, hsrc]
      exact if_pos htail
    | false =>
      rw [hlast] at hlen hopen
      by_cases hcounter : counter + 1 = 0
      · exact absurd henc (encryptChunks_ne_ok hlast hcounter out)
      rw [encryptChunks_more hlast hcounter] at henc
      obtain ⟨rest, hrest, hout⟩ := Outcome.bind_eq_ok.mp henc
      cases hout
      have hne : src.drop chunkSize ≠ [] := fun hnil => by simp [hnil] at hlast
      have hshorter : (src.drop chunkSize).length < n := by
        have hpos := List.length_pos_iff.mpr hne
        have hsize : 0 < chunkSize := by decide
        rw [List.length_drop] at hpos ⊢
        omega
      have hdec := ih _ hshorter (hreach.next hne hcounter) hrest rfl
      rw [List.append_assoc, decryptChunks_frame (by omega) (by omega), openChunk,
        h.not_last hobj hreach hlast, hopen, hdec]
      exact congrArg Except.ok (List.take_append_drop chunkSize src)

def chunkCount (contents : Bytes) : Nat := (contents.length - 1) / chunkSize + 1

theorem encryptChunks_isOk (hcount : counter.toNat + chunkCount src ≤ 2 ^ 32) :
    ∃ out, encryptChunks aead noncePrefix counter src = .ok out := by
  induction hn : src.length using Nat.strong_induction_on generalizing src counter with
  | _ n ih =>
    cases hlast : (src.drop chunkSize).isEmpty with
    | true => exact ⟨_, encryptChunks_last hlast⟩
    | false =>
      have hne : src.drop chunkSize ≠ [] := fun hnil => by simp [hnil] at hlast
      have hpos := List.length_pos_iff.mpr hne
      have hsize : 0 < chunkSize := by decide
      rw [List.length_drop] at hpos
      have hdrop : chunkCount src = chunkCount (src.drop chunkSize) + 1 := by
        unfold chunkCount
        rw [List.length_drop,
          show src.length - 1 = src.length - chunkSize - 1 + chunkSize by omega,
          Nat.add_div_right _ hsize]
      have hcounter : counter + 1 ≠ 0 := by
        intro hzero
        have htoNat := congrArg UInt32.toNat hzero
        have hmod : (counter.toNat + 1) % 2 ^ 32 = 0 := htoNat
        have hcountPos : 1 ≤ chunkCount (src.drop chunkSize) := Nat.le_add_left 1 _
        omega
      have hnext : (counter + 1).toNat + chunkCount (src.drop chunkSize) ≤ 2 ^ 32 := by
        rw [toNat_add_one hcounter]
        omega
      obtain ⟨out, hout⟩ := ih _ (by rw [List.length_drop]; omega) hnext rfl
      rw [encryptChunks_more hlast hcounter, hout]
      exact ⟨_, rfl⟩

/-- **The round trip**, with nothing behind the stream that the reader does not report with its end. -/
theorem decrypt_encrypt (h : IdealFor aead objects) (hobj : obj ∈ objects) {stream : Bytes}
    (henc : obj.encrypt aead = .ok stream) (htail : Source.readsEOF ⟨tail, eof⟩) :
    decrypt aead ⟨stream ++ tail, eof⟩ = .ok obj.contents := by
  obtain ⟨chunks, hchunks, hout⟩ := Outcome.bind_eq_ok.mp henc
  cases hout
  have hread : Source.readFull ⟨offsiteMagic ++ obj.noncePrefix ++ chunks ++ tail, eof⟩
      (offsiteMagic.length + prefixLen) =
      some (offsiteMagic ++ obj.noncePrefix, ⟨chunks ++ tail, eof⟩) := by
    refine Source.readFull_eq_some.mpr ⟨?_, List.append_assoc _ _ _, rfl⟩
    rw [List.length_append, obj.length_prefix]
  unfold decrypt
  rw [hread]
  dsimp only
  exact decryptChunks_encryptChunks h hobj .start hchunks htail

/-! ## Encrypted is all that is decrypted -/

/-- Everything the loop gets to can be encrypted if the file can. -/
theorem Reaches.encryptChunks_isOk {contents : Bytes} (hreach : Reaches contents counter src)
    (henc : ∃ out, encryptChunks aead noncePrefix 0 contents = .ok out) :
    ∃ out, encryptChunks aead noncePrefix counter src = .ok out := by
  induction hreach with
  | start => exact henc
  | @next counter src _ hne hcounter ih =>
    obtain ⟨out, hout⟩ := ih
    have hmore : (src.drop chunkSize).isEmpty = false := by simpa using hne
    rw [encryptChunks_more hmore hcounter] at hout
    obtain ⟨rest, hrest, -⟩ := Outcome.bind_eq_ok.mp hout
    exact ⟨rest, hrest⟩

theorem decryptChunks_eq_ok_iff (h : IdealFor aead objects) {src : Source}
    (hdec : decryptChunks aead noncePrefix counter src = .ok out) :
    ∃ obj ∈ objects, obj.noncePrefix = noncePrefix ∧ Reaches obj.contents counter out ∧
      ∃ enc tail, encryptChunks aead noncePrefix counter out = .ok enc ∧ src.bytes = enc ++ tail ∧
        Source.readsEOF ⟨tail, src.eofWithData⟩ := by
  induction hn : src.bytes.length using Nat.strong_induction_on generalizing src counter out with
  | _ n ih =>
    obtain ⟨sealed, tail, hbytes, hopen⟩ := decryptChunks_eq_ok hdec
    unfold openChunk at hopen
    split at hopen
    · next plain hplain =>
      obtain ⟨obj, hobj, rfl, rest, hreach, rfl, hlast, rfl⟩ := h.opened hplain
      split at hopen
      · next heof =>
        cases hopen
        have hsrc : rest.take chunkSize = rest := by
          have hdrop := List.take_append_drop chunkSize rest
          rwa [List.isEmpty_iff.mp hlast.symm, List.append_nil] at hdrop
        rw [hsrc] at hbytes ⊢
        refine ⟨obj, hobj, rfl, hreach, _, tail, ?_, hbytes, heof⟩
        rw [encryptChunks_last hlast.symm, hsrc]
      · cases hopen
    · split at hopen
      · cases hopen
      · next plain hplain =>
        obtain ⟨obj, hobj, rfl, rest, hreach, rfl, hlast, rfl⟩ := h.opened hplain
        obtain ⟨more, hmore, hout⟩ := Outcome.bind_eq_ok.mp hopen
        cases hout
        have hshorter : tail.length < n := by
          rw [← hn, hbytes, List.length_append, frame, List.length_append, length_putUint32]
          omega
        obtain ⟨obj', hobj', hprefix, hreach', enc, tail', henc, htail, heof⟩ :=
          ih tail.length hshorter hmore rfl
        obtain rfl := h.prefixes obj' hobj' obj hobj hprefix
        have hne : rest.drop chunkSize ≠ [] := fun hnil => by simp [hnil] at hlast
        by_cases hcounter : counter + 1 = 0
        · -- The counter is back at zero. The file would be too large to encrypt, but what follows
          -- is an encryption of it from the start.
          rw [hcounter] at hreach' henc
          obtain rfl := hreach'.unique .start
          obtain ⟨out, hout⟩ := hreach.encryptChunks_isOk ⟨enc, henc⟩
          exact absurd hout (encryptChunks_ne_ok hlast.symm hcounter out)
        · obtain rfl := hreach'.unique (hreach.next hne hcounter)
          have hall : encryptChunks aead obj'.noncePrefix counter rest =
              .ok (frame (aead.sealBytes (chunkNonce obj'.noncePrefix counter) (rest.take chunkSize)
                (chunkAAD counter false)) ++ enc) := by
            rw [encryptChunks_more hlast.symm hcounter, henc]
            rfl
          rw [List.take_append_drop]
          refine ⟨obj', hobj, rfl, hreach, _, tail', hall, ?_, heof⟩
          rw [hbytes, List.append_assoc]
          exact congrArg _ htail

/-- **A stream that is accepted is one that was encrypted**, with nothing behind it that the reader
does not report together with the end. -/
theorem decrypt_eq_ok (h : IdealFor aead objects) {src : Source}
    (hdec : decrypt aead src = .ok out) :
    ∃ obj ∈ objects, obj.contents = out ∧ ∃ stream tail, obj.encrypt aead = .ok stream ∧
      src.bytes = stream ++ tail ∧ Source.readsEOF ⟨tail, src.eofWithData⟩ := by
  unfold decrypt at hdec
  split at hdec
  · cases hdec
  next hdr rest hread =>
  split at hdec
  · cases hdec
  next hmagic =>
  obtain ⟨hlen, hbytes, heof⟩ := Source.readFull_eq_some.mp hread
  obtain ⟨obj, hobj, hprefix, hreach, enc, tail, henc, htail, hend⟩ := decryptChunks_eq_ok_iff h hdec
  obtain rfl := hreach.unique .start
  have hhdr : hdr = offsiteMagic ++ obj.noncePrefix := by
    have hsplit := List.take_append_drop offsiteMagic.length hdr
    rw [Decidable.not_not.mp hmagic, ← hprefix] at hsplit
    exact hsplit.symm
  refine ⟨obj, hobj, rfl, offsiteMagic ++ obj.noncePrefix ++ enc, tail, ?_, ?_, ?_⟩
  · rw [Object.encrypt, encrypt, hprefix, henc]
    rfl
  · rw [hbytes, htail, hhdr, List.append_assoc _ enc tail]
  · rw [heof]
    exact hend

end

end OpenFireblocks.Backup
