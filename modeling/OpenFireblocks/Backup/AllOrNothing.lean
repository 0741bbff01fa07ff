import OpenFireblocks.Backup.Checksums
import OpenFireblocks.Backup.Stream
import OpenFireblocks.Go.Hex

/-!
# Off-site backups are all or nothing

What `FetchOffsite` returns for a backup is the three files whose checksums were recorded for it: of
the objects in the bucket only a record of checksums reads as one.

`decrypt` looks for data after the final chunk with one `Read` and takes no notice of how many bytes it
returned. A reader that returns the last byte together with `io.EOF` hides one byte from it.
-/

namespace OpenFireblocks.Backup

open BigEndian Go Outcome

/-! ## What is in the bucket -/

/-- The record that `copyOffsite` makes. -/
def FullBackup.record (o : OffsiteStore) (b : FullBackup) : ChecksumRecord where
  backupID := b.id
  files := b.files.map fun f => (f.1, o.receipt b.id f.1 f.2)

def FullBackup.parts (o : OffsiteStore) (b : FullBackup) : List (String × Bytes) :=
  b.files ++ [(checksumsName, marshal Json.compact (b.record o).json)]

def FullBackup.object (b : FullBackup) (part : String × Bytes) : Object :=
  ⟨b.nonce part.1, part.2, b.length_nonce part.1⟩

def FullBackup.objects (o : OffsiteStore) (b : FullBackup) : List Object :=
  (b.parts o).map b.object

/-- The bucket was filled from these backups, with an ideal AEAD and a collision-free hash. -/
structure CopiedFrom (o : OffsiteStore) (backups : List FullBackup) : Prop where
  ideal : IdealFor o.aead (backups.flatMap (FullBackup.objects o))
  sha256_injective : Function.Injective o.sha256

theorem mapError_eq_ok {α : Type} {x : Except String α} {f : String → String} {a : α} :
    x.mapError f = .ok a ↔ x = .ok a := by
  cases x with
  | error e => exact iff_of_false nofun nofun
  | ok b => exact Iff.rfl

variable {o : OffsiteStore} {id : String}

theorem OffsiteStore.put_eq_ok {name : String} {contents nonce : Bytes}
    {p : OffsiteStore × OffsiteReceipt} (h : o.put id name contents nonce = .ok p) :
    ∃ stream, encrypt o.aead nonce contents = .ok stream ∧
      p = (o.store id name stream, o.receipt id name contents) := by
  obtain ⟨stream, hstream, h⟩ := bind_eq_ok.mp h
  exact ⟨stream, mapError_eq_ok.mp hstream, (Except.ok.inj h).symm⟩

variable {b : FullBackup}

theorem copyPart_eq_ok {r : ChecksumRecord} {part : String × Bytes}
    {s : OffsiteStore × ChecksumRecord} (h : copyPart b (o, r) part = .ok s) :
    ∃ stream, (b.object part).encrypt o.aead = .ok stream ∧ s = (o.store b.id part.1 stream,
      { r with files := r.files ++ [(part.1, o.receipt b.id part.1 part.2)] }) := by
  obtain ⟨p, hp, h⟩ := bind_eq_ok.mp h
  obtain ⟨stream, hstream, rfl⟩ := OffsiteStore.put_eq_ok (mapError_eq_ok.mp hp)
  exact ⟨stream, hstream, (Except.ok.inj h).symm⟩

theorem copyOffsite_eq_ok {o' : OffsiteStore} (h : copyOffsite o b = .ok o') :
    ∃ streams : List Bytes,
      List.Forall₂ (fun obj stream => Object.encrypt o.aead obj = .ok stream) (b.objects o) streams ∧
      o' = (List.zip (b.parts o) streams).foldl (fun o p => o.store b.id p.1.1 p.2) o := by
  obtain ⟨⟨o₃, receipts⟩, hparts, hrecord⟩ := bind_eq_ok.mp h
  obtain ⟨_, hp, hparts⟩ := bind_eq_ok.mp hparts
  obtain ⟨p, hpostgres, rfl⟩ := copyPart_eq_ok hp
  obtain ⟨_, hv, hparts⟩ := bind_eq_ok.mp hparts
  obtain ⟨v, hvault, rfl⟩ := copyPart_eq_ok hv
  obtain ⟨_, hm, hparts⟩ := bind_eq_ok.mp hparts
  obtain ⟨m, hmanifest, rfl⟩ := copyPart_eq_ok hm
  cases hparts
  obtain ⟨_, hc, hrecord⟩ := bind_eq_ok.mp (mapError_eq_ok.mp hrecord)
  obtain ⟨c, hchecksums, rfl⟩ := OffsiteStore.put_eq_ok hc
  cases hrecord
  exact ⟨[p, v, m, c],
    .cons hpostgres (.cons hvault (.cons hmanifest (.cons hchecksums .nil))), rfl⟩

/-! ## Records as JSON -/

section

variable (r : OffsiteReceipt) (v : Json)

theorem OffsiteReceipt.setMember_key :
    r.setMember ("key".toList, v) = (setString r.key v).map fun s => { r with key := s } :=
  if_pos (show isField "key" "key".toList = true by decide)

theorem OffsiteReceipt.setMember_sha256 : r.setMember ("plaintext_sha256".toList, v) =
    (setString r.plaintextSHA256 v).map fun s => { r with plaintextSHA256 := s } :=
  (if_neg (show ¬ isField "key" "plaintext_sha256".toList = true by decide)).trans
    (if_pos (show isField "plaintext_sha256" "plaintext_sha256".toList = true by decide))

/-- A receipt is read as it was written, except for a number that does not fit. -/
theorem OffsiteReceipt.ofJson_json :
    OffsiteReceipt.ofJson r.json = (parseInt64 (appendInt r.plaintextBytes)).map fun n =>
      { r with plaintextBytes := n } := by
  rw [OffsiteReceipt.json, OffsiteReceipt.ofJson, List.foldlM_cons, setMember_key, setString_str]
  show List.foldlM _ _ _ = _
  rw [List.foldlM_cons, setMember_sha256, setString_str]
  show List.foldlM _ _ _ = _
  show (Option.map _ (parseInt64 (appendInt r.plaintextBytes))).bind some = _
  cases parseInt64 (appendInt r.plaintextBytes) with
  | none | some n => rfl

end

def readFiles (files : List (String × OffsiteReceipt)) : Option (List (String × OffsiteReceipt)) :=
  files.mapM fun f => (parseInt64 (appendInt f.2.plaintextBytes)).map fun n =>
    (f.1, { f.2 with plaintextBytes := n })

theorem foldlM_setFile (files : List (String × OffsiteReceipt)) :
    ∀ acc, (files.map fun f => (f.1.toList, f.2.json)).foldlM setFile acc =
      (readFiles files).map fun fs => fs.reverse ++ acc := by
  induction files with
  | nil => exact fun acc => rfl
  | cons f files ih =>
    intro acc
    rw [List.map_cons, List.foldlM_cons, setFile, OffsiteReceipt.ofJson_json, readFiles,
      List.mapM_cons]
    cases hn : parseInt64 (appendInt f.2.plaintextBytes) with
    | none => rfl
    | some n =>
      simp only [Option.bind_eq_bind, ih]
      rw [← readFiles]
      cases readFiles files with
      | none => rfl
      | some fs => simp

theorem ChecksumRecord.ofJson_json (r : ChecksumRecord) :
    ChecksumRecord.ofJson r.json =
      (readFiles (r.files.insertionSort fun a b => a.1 ≤ b.1)).map fun fs =>
        ⟨r.backupID, fs.reverse⟩ := by
  have hid (v : Json) : ChecksumRecord.setMember {} ("backup_id".toList, v) =
      (setString "" v).map fun s => { backupID := s } :=
    if_pos (show isField "backup_id" "backup_id".toList = true by decide)
  have hfiles (s : ChecksumRecord) (v : Json) : s.setMember ("files".toList, v) =
      (setFiles s.files v).map fun files => { s with files } :=
    (if_neg (show ¬ isField "backup_id" "files".toList = true by decide)).trans
      (if_pos (show isField "files" "files".toList = true by decide))
  rw [ChecksumRecord.json, ChecksumRecord.ofJson, List.foldlM_cons, hid]
  show List.foldlM _ _ _ = _
  rw [List.foldlM_cons, hfiles, setFiles, foldlM_setFile]
  cases readFiles (r.files.insertionSort fun a b => a.1 ≤ b.1) with
  | none => rfl
  | some fs => simp

theorem jsonOf_dump {dump : Bytes} (h : dump.take 5 = [80, 71, 68, 77, 80]) : jsonOf dump = none := by
  obtain ⟨rest, rfl⟩ : ∃ rest, dump = String.utf8EncodeChar 'P' ++ rest := by
    cases dump with
    | nil => cases h
    | cons c rest =>
      obtain rfl := (List.cons.inj h).1
      exact ⟨rest, rfl⟩
  have hvalue : ∀ fuel s, Json.value (fuel + 1) ('P' :: s) = none := by
    intro fuel s
    rfl
  rw [jsonOf, runes_utf8EncodeChar, Json.parse, hvalue]

theorem ofJson_export (e : KvExport) : ChecksumRecord.ofJson e.json = some {} := rfl

theorem ofJson_manifest (b : FullBackup) : ChecksumRecord.ofJson b.manifest = some {} := rfl

variable {r : ChecksumRecord}

theorem ofJson_record (h : ChecksumRecord.ofJson (b.record o).json = some r) :
    r.backupID = b.id ∧ ∀ f ∈ b.files, r.sha256Of f.1 = o.sha256Hex f.2 := by
  rw [ChecksumRecord.ofJson_json] at h
  obtain ⟨fs, hfs, rfl⟩ := Option.map_eq_some_iff.mp h
  simp [readFiles, FullBackup.record, FullBackup.files, Option.bind_eq_some_iff] at hfs
  obtain ⟨_, -, _, -, _, -, rfl⟩ := hfs
  refine ⟨rfl, fun f hf => ?_⟩
  simp only [FullBackup.files, List.mem_cons, List.not_mem_nil, or_false] at hf
  rcases hf with rfl | rfl | rfl <;> rfl

/-! ## What is fetched -/

theorem OffsiteStore.get_eq_ok {name : String} {want : Option OffsiteReceipt} {plain : Bytes}
    (h : o.get id name want = .ok plain) :
    (∃ stream, decrypt o.aead ⟨stream, o.eofWithData⟩ = .ok plain) ∧
      ∀ w ∈ want, w.plaintextSHA256 ≠ "" → o.sha256Hex plain = w.plaintextSHA256 := by
  obtain ⟨stream, -, h⟩ := bind_eq_ok.mp h
  obtain ⟨plain', hplain, h⟩ := bind_eq_ok.mp h
  split at h
  · cases h
  next hsha =>
  cases h
  refine ⟨⟨stream, hplain⟩, fun w hw hne => ?_⟩
  by_contra hdiffer
  apply hsha
  rw [Option.any_eq_true]
  exact ⟨w, hw, decide_eq_true ⟨hne, hdiffer⟩⟩

theorem OffsiteStore.getChecksums_eq_ok (h : o.getChecksums id = .ok r) :
    ∃ raw, o.get id checksumsName none = .ok raw ∧ (jsonOf raw).bind ChecksumRecord.ofJson = some r ∧
      r.backupID = id ∧ ∀ name ∈ backupFileNames, r.sha256Of name ≠ "" := by
  obtain ⟨raw, hraw, h⟩ := bind_eq_ok.mp h
  split at h
  · cases h
  next r' hr =>
  split at h
  · cases h
  next hid =>
  split at h
  · cases h
  next hfound =>
  cases h
  refine ⟨raw, mapError_eq_ok.mp hraw, hr, not_not.mp hid, fun name hname hempty => ?_⟩
  exact List.find?_eq_none.mp hfound name hname (decide_eq_true hempty)

theorem ofJson_part {part : String × Bytes} (hpart : part ∈ b.parts o)
    (h : (jsonOf part.2).bind ChecksumRecord.ofJson = some r) (hcovers : r.sha256Of "postgres" ≠ "") :
    r.backupID = b.id ∧ ∀ f ∈ b.files, r.sha256Of f.1 = o.sha256Hex f.2 := by
  simp only [FullBackup.parts, FullBackup.files, List.mem_append, List.mem_cons, List.not_mem_nil,
    or_false] at hpart
  rcases hpart with (rfl | rfl | rfl) | rfl
  · rw [jsonOf_dump b.dump_magic] at h
    cases h
  · rw [jsonOf_marshal Json.indented_blank, Option.bind_some, ofJson_export] at h
    cases h
    exact absurd rfl hcovers
  · rw [jsonOf_marshal Json.compact_blank, Option.bind_some, ofJson_manifest] at h
    cases h
    exact absurd rfl hcovers
  · rw [jsonOf_marshal Json.compact_blank, Option.bind_some] at h
    exact ofJson_record h

theorem readFiles_of_inInt64 {files : List (String × OffsiteReceipt)}
    (h : ∀ f ∈ files, InInt64 f.2.plaintextBytes) : readFiles files = some files := by
  induction files with
  | nil => rfl
  | cons f files ih =>
    rw [List.forall_mem_cons] at h
    rw [readFiles, List.mapM_cons, parseInt64_appendInt h.1, ← readFiles, ih h.2]
    rfl

section

variable {backups : List FullBackup} (h : CopiedFrom o backups)
include h

theorem CopiedFrom.decrypted {stream plain : Bytes}
    (hplain : decrypt o.aead ⟨stream, o.eofWithData⟩ = .ok plain) :
    ∃ b ∈ backups, ∃ part ∈ b.parts o, plain = part.2 := by
  obtain ⟨obj, hobj, hcontents, -⟩ := decrypt_eq_ok h.ideal hplain
  obtain ⟨b, hb, hobj⟩ := List.mem_flatMap.mp hobj
  obtain ⟨part, hpart, rfl⟩ := List.mem_map.mp hobj
  exact ⟨b, hb, part, hpart, hcontents.symm⟩

theorem CopiedFrom.getChecksums (hr : o.getChecksums id = .ok r) :
    ∃ b ∈ backups, b.id = id ∧ ∀ f ∈ b.files, r.sha256Of f.1 = o.sha256Hex f.2 := by
  obtain ⟨raw, hraw, hjson, hid, hcovers⟩ := OffsiteStore.getChecksums_eq_ok hr
  obtain ⟨⟨stream, hplain⟩, -⟩ := OffsiteStore.get_eq_ok hraw
  obtain ⟨b, hb, part, hpart, rfl⟩ := h.decrypted hplain
  obtain ⟨hrid, hsha⟩ := ofJson_part hpart hjson (hcovers "postgres" (by decide))
  exact ⟨b, hb, hrid.symm.trans hid, hsha⟩

theorem CopiedFrom.sha256Hex_inj {a b : Bytes} (hab : o.sha256Hex a = o.sha256Hex b) :
    a = b := by
  apply h.sha256_injective
  have hchars := congrArg String.toList hab
  rw [OffsiteStore.sha256Hex, OffsiteStore.sha256Hex, toList_hexEncodeToString,
    toList_hexEncodeToString] at hchars
  have hbytes := congrArg hexDecodeChars hchars
  rw [hexDecodeChars_hexChars, hexDecodeChars_hexChars] at hbytes
  exact Option.some.inj hbytes

theorem CopiedFrom.fetchFile {name : String} {contents : Bytes}
    (hsha : r.sha256Of name = o.sha256Hex contents) {out : String × Bytes}
    (hout : fetchFile o id (fun _ => "") (some r) name = .ok out) : out = (name, contents) := by
  unfold Backup.fetchFile at hout
  dsimp only at hout
  rw [if_pos rfl] at hout
  split at hout
  · cases hout
  next hne =>
  obtain ⟨plain, hplain, hout⟩ := bind_eq_ok.mp hout
  cases hout
  have hwant := (OffsiteStore.get_eq_ok (mapError_eq_ok.mp hplain)).2 _ rfl hne
  exact congrArg (name, ·) (h.sha256Hex_inj (hwant.trans hsha))

/-- **Without checksums from the caller, what is fetched is the files of one backup with that id.** -/
theorem CopiedFrom.fetchOffsite {files : List (String × Bytes)}
    (hfiles : fetchOffsite o id (fun _ => "") = .ok files) :
    ∃ b ∈ backups, b.id = id ∧ files = b.files := by
  obtain ⟨stored, hstored, hfiles⟩ := bind_eq_ok.mp hfiles
  obtain ⟨r, hr, rfl⟩ : ∃ r, o.getChecksums id = .ok r ∧ stored = some r := by
    have hmap := mapError_eq_ok.mp hstored
    cases hr : o.getChecksums id with
    | error e =>
      rw [hr] at hmap
      cases hmap
    | ok r =>
      rw [hr] at hmap
      exact ⟨r, rfl, (Except.ok.inj hmap).symm⟩
  obtain ⟨b, hb, hid, hsha⟩ := h.getChecksums hr
  refine ⟨b, hb, hid, ?_⟩
  dsimp only at hfiles
  rw [backupFileNames, List.mapM_cons, List.mapM_cons, List.mapM_cons] at hfiles
  obtain ⟨p, hp, hfiles⟩ := bind_eq_ok.mp hfiles
  obtain ⟨_, hrest, hfiles⟩ := bind_eq_ok.mp hfiles
  obtain ⟨v, hv, hrest⟩ := bind_eq_ok.mp hrest
  obtain ⟨_, hlast, hrest⟩ := bind_eq_ok.mp hrest
  obtain ⟨m, hm, hlast⟩ := bind_eq_ok.mp hlast
  cases hlast
  cases hrest
  cases hfiles
  rw [h.fetchFile (hsha ("postgres", _) (.head _)) hp,
    h.fetchFile (hsha ("vault", _) (.tail _ (.head _))) hv,
    h.fetchFile (hsha ("manifest", _) (.tail _ (.tail _ (.head _)))) hm]
  rfl

/-! ## An undisturbed bucket -/

variable (hb : b ∈ backups)
include hb

theorem CopiedFrom.get {part : String × Bytes} (hpart : part ∈ b.parts o) {stream : Bytes}
    (henc : (b.object part).encrypt o.aead = .ok stream)
    (hstored : o.objects (o.objectKey b.id (part.1 ++ ".enc")) = .ok stream)
    {want : Option OffsiteReceipt} (hwant : ∀ w ∈ want, w.plaintextSHA256 = o.sha256Hex part.2) :
    o.get b.id part.1 want = .ok part.2 := by
  have hobj : b.object part ∈ backups.flatMap (FullBackup.objects o) :=
    List.mem_flatMap.mpr ⟨b, hb, List.mem_map.mpr ⟨part, hpart, rfl⟩⟩
  have hend : Source.readsEOF ⟨[], o.eofWithData⟩ := by cases o.eofWithData <;> rfl
  have hdec := decrypt_encrypt h.ideal hobj henc hend
  rw [List.append_nil] at hdec
  refine bind_eq_ok.mpr ⟨stream, hstored, bind_eq_ok.mpr ⟨part.2, hdec, if_neg ?_⟩⟩
  rw [Option.any_eq_true]
  rintro ⟨w, hw, hdiffer⟩
  exact (of_decide_eq_true hdiffer).2 (hwant w hw).symm

variable
  (hstored : ∀ part ∈ b.parts o, ∃ stream, (b.object part).encrypt o.aead = .ok stream ∧
    o.objects (o.objectKey b.id (part.1 ++ ".enc")) = .ok stream)
  (hsize : ∀ f ∈ b.files, InInt64 f.2.length) (hhash : ∀ f ∈ b.files, o.sha256Hex f.2 ≠ "")
include hstored hsize hhash

theorem CopiedFrom.getChecksums_undisturbed :
    ∃ r, o.getChecksums b.id = .ok r ∧ ∀ f ∈ b.files, r.sha256Of f.1 = o.sha256Hex f.2 := by
  have hread : readFiles ((b.record o).files.insertionSort fun a b => a.1 ≤ b.1) =
      some ((b.record o).files.insertionSort fun a b => a.1 ≤ b.1) := by
    refine readFiles_of_inInt64 fun f hf => ?_
    obtain ⟨g, hg, rfl⟩ := List.mem_map.mp ((List.mem_insertionSort _).mp hf)
    exact hsize g hg
  have hjson := ChecksumRecord.ofJson_json (b.record o)
  rw [hread, Option.map_some] at hjson
  obtain ⟨hid, hsha⟩ := ofJson_record hjson
  have hmem : (checksumsName, marshal Json.compact (b.record o).json) ∈ b.parts o :=
    List.mem_append_right _ (.head _)
  obtain ⟨stream, henc, hstream⟩ := hstored _ hmem
  have hget : o.get b.id checksumsName none = .ok _ := h.get hb hmem henc hstream nofun
  refine ⟨_, bind_eq_ok.mpr ⟨_, mapError_eq_ok.mpr hget, ?_⟩, hsha⟩
  rw [jsonOf_marshal Json.compact_blank, Option.bind_some, hjson]
  dsimp only
  rw [if_neg (not_not.mpr hid), List.find?_eq_none.mpr]
  intro name hname hempty
  obtain ⟨f, hf, rfl⟩ : ∃ f ∈ b.files, f.1 = name := List.mem_map.mp hname
  rw [decide_eq_true_eq] at hempty
  exact hhash f hf ((hsha f hf).symm.trans hempty)

/-- **What was copied is fetched**, if nobody touched the bucket. -/
theorem CopiedFrom.fetchOffsite_undisturbed :
    Backup.fetchOffsite o b.id (fun _ => "") = .ok b.files := by
  obtain ⟨r, hr, hsha⟩ := h.getChecksums_undisturbed hb hstored hsize hhash
  have hfile : ∀ f ∈ b.files, Backup.fetchFile o b.id (fun _ => "") (some r) f.1 = .ok f := by
    intro f hf
    obtain ⟨stream, henc, hstream⟩ := hstored f (List.mem_append_left _ hf)
    have hget : o.get b.id f.1 (some { plaintextSHA256 := r.sha256Of f.1 }) = .ok f.2 := by
      refine h.get hb (List.mem_append_left _ hf) henc hstream fun w hw => ?_
      rw [← Option.some.inj hw, hsha f hf]
    have hne : r.sha256Of f.1 ≠ "" := by
      rw [hsha f hf]
      exact hhash f hf
    unfold Backup.fetchFile
    dsimp only
    show (if r.sha256Of f.1 = "" then _ else _) = _
    rw [if_neg hne]
    exact bind_eq_ok.mpr ⟨f.2, mapError_eq_ok.mpr hget, rfl⟩
  refine bind_eq_ok.mpr ⟨some r, mapError_eq_ok.mpr (by rw [hr]; rfl), ?_⟩
  dsimp only
  rw [backupFileNames, List.mapM_cons, List.mapM_cons, List.mapM_cons,
    hfile ("postgres", b.dump) (.head _), hfile ("vault", _) (.tail _ (.head _)),
    hfile ("manifest", _) (.tail _ (.tail _ (.head _)))]
  rfl

end

/-! ## Copied and fetched -/

/-- One element of a path, which stays as it is. -/
def IsElement (name : String) : Prop := '/' ∉ name.toList ∧ name ∉ ["", ".", ".."]

instance (name : String) : Decidable (IsElement name) := inferInstanceAs (Decidable (_ ∧ _))

theorem exists_intercalate_append (before : List String) :
    ∃ path, ∀ name, "/".intercalate (before ++ [name]) = path ++ name := by
  by_cases h : before = []
  · exact ⟨"", by simp [h]⟩
  · exact ⟨_, fun name => String.intercalate_append_of_ne_nil h (List.cons_ne_nil name [])⟩

/-- The last element of what is cleaned stands at the end of the result. -/
theorem exists_pathClean {p : String → List Char} (rooted : Bool) (before : List (List Char))
    (hrooted : ∀ name, IsElement name → decide ((p name).head? = some '/') = rooted)
    (hsplit : ∀ name, IsElement name → (p name).splitOn '/' = before ++ [name.toList]) :
    ∃ path, ∀ name, IsElement name → pathClean (p name) = path ++ name := by
  obtain ⟨path, hpath⟩ := exists_intercalate_append
    ((before.map String.ofList).foldl (cleanElement rooted) []).reverse
  refine ⟨if rooted then "/" ++ path else path, fun name hname => ?_⟩
  have hne := hname.2
  simp only [List.mem_cons, List.not_mem_nil, or_false, not_or] at hne
  have hclean : ∀ before, cleanElement rooted before name = name :: before := by
    simp [cleanElement, hne]
  have hroot := hrooted name hname
  unfold pathClean
  simp only [hroot, hsplit name hname, List.map_append, List.map_cons, List.map_nil,
    String.ofList_toList, List.foldl_append, List.foldl_cons, List.foldl_nil, hclean,
    List.reverse_cons, hpath]
  cases rooted with
  | true => simp [of_decide_eq_true hroot, String.append_assoc]
  | false => simp [of_decide_eq_false hroot, hne]

theorem exists_objectKey (o : OffsiteStore) (id : String) :
    ∃ path, ∀ name, IsElement name → o.objectKey id name = path ++ name := by
  have hjoin : ∀ name, IsElement name → o.objectKey id name =
      pathClean ("/".intercalate ([o.keyPrefix, id].filter (· ≠ "") ++ [name])).toList := by
    intro name hname
    have hne : name ≠ "" := fun h => hname.2 (h ▸ .head _)
    have hfilter : [o.keyPrefix, id, name].filter (· ≠ "") =
        [o.keyPrefix, id].filter (· ≠ "") ++ [name] := by
      rw [show [o.keyPrefix, id, name] = [o.keyPrefix, id] ++ [name] from rfl, List.filter_append]
      simp [hne]
    rw [OffsiteStore.objectKey, pathJoin, hfilter]
    exact if_neg (List.append_ne_nil_of_right_ne_nil _ (List.cons_ne_nil name []))
  generalize [o.keyPrefix, id].filter (· ≠ "") = dirs at hjoin
  obtain ⟨path, hpath⟩ : ∃ path, ∀ name, IsElement name →
      pathClean ("/".intercalate (dirs ++ [name])).toList = path ++ name := by
    by_cases h : dirs = []
    · subst h
      refine exists_pathClean false [] (fun name hname => ?_) fun name hname => ?_
      · refine decide_eq_false fun hhead => hname.1 ?_
        exact List.mem_of_mem_head? (by simpa using hhead)
      · simpa using List.splitOn_eq_singleton hname.1
    · have htext : ∀ name, ("/".intercalate (dirs ++ [name])).toList =
          ("/".intercalate dirs).toList ++ '/' :: name.toList := by
        intro name
        rw [String.intercalate_append_of_ne_nil h (List.cons_ne_nil name [])]
        simp
      simp only [htext]
      refine exists_pathClean ((("/".intercalate dirs).toList ++ ['/']).head? = some '/')
        (("/".intercalate dirs).toList.splitOn '/') (fun name _ => ?_) fun name hname => ?_
      · cases ("/".intercalate dirs).toList <;> rfl
      · rw [List.splitOn_append_cons_self, List.splitOn_eq_singleton hname.1]
  exact ⟨path, fun name hname => (hjoin name hname).trans (hpath name hname)⟩

/-- The objects of a backup are stored under different keys. -/
theorem nodup_objectKey (o : OffsiteStore) (id : String) (b : FullBackup) :
    ((b.parts o).map fun part => o.objectKey id (part.1 ++ ".enc")).Nodup := by
  obtain ⟨path, hpath⟩ := exists_objectKey o id
  have hkeys : (b.parts o).map (fun part => o.objectKey id (part.1 ++ ".enc")) =
      ["postgres.enc", "vault.enc", "manifest.enc", "checksums.enc"].map (path ++ ·) := by
    have hnames : ∀ name ∈ ["postgres.enc", "vault.enc", "manifest.enc", "checksums.enc"],
        o.objectKey id name = path ++ name := fun name hname =>
      hpath name ((show ∀ name ∈ _, IsElement name by decide) name hname)
    exact List.map_congr_left (f := o.objectKey id) hnames
  rw [hkeys]
  exact List.Nodup.map (fun _ _ h => (String.append_right_inj path).mp h) (by decide)

section

variable {o : OffsiteStore} {backups : List FullBackup} {b : FullBackup} {id : String}

/-- Objects under different keys are all there afterwards. -/
theorem exists_objects_stored {pairs : List ((String × Bytes) × Bytes)}
    (hkeys : (pairs.map fun p => o.objectKey id (p.1.1 ++ ".enc")).Nodup) :
    ∃ objects, pairs.foldl (fun o p => o.store id p.1.1 p.2) o = { o with objects } ∧
      ∀ p ∈ pairs, objects (o.objectKey id (p.1.1 ++ ".enc")) = .ok p.2 := by
  induction pairs using List.reverseRecOn with
  | nil => exact ⟨o.objects, rfl, nofun⟩
  | append_singleton pairs q ih =>
    rw [List.map_append, List.nodup_append] at hkeys
    obtain ⟨objects, hfold, hstored⟩ := ih hkeys.1
    refine ⟨_, by rw [List.foldl_append, hfold]; rfl, fun p hp => ?_⟩
    rcases List.mem_append.mp hp with hp | hp
    · have hne := hkeys.2.2 _ (List.mem_map_of_mem hp) _ (.head _)
      exact (Function.update_of_ne hne _ _).trans (hstored p hp)
    · rw [List.mem_singleton.mp hp]
      exact Function.update_self ..

/-- **A copy is fetched back byte for byte**, until somebody else writes to the bucket. -/
theorem fetchOffsite_of_copyOffsite {o' : OffsiteStore} (h : CopiedFrom o backups) (hb : b ∈ backups)
    (hcopy : copyOffsite o b = .ok o')
    (hsize : ∀ f ∈ b.files, InInt64 f.2.length) (hhash : ∀ f ∈ b.files, o.sha256Hex f.2 ≠ "") :
    fetchOffsite o' b.id (fun _ => "") = .ok b.files := by
  obtain ⟨streams, hstreams, rfl⟩ := copyOffsite_eq_ok hcopy
  obtain ⟨hlength, henc⟩ := List.forall₂_iff_zip.mp (List.forall₂_map_left_iff.mp hstreams)
  have hparts : ((b.parts o).zip streams).map Prod.fst = b.parts o := List.map_fst_zip hlength.le
  have hkeys := nodup_objectKey o b.id b
  rw [← hparts, List.map_map] at hkeys
  obtain ⟨objects, hfold, hstored⟩ := @exists_objects_stored o b.id ((b.parts o).zip streams) hkeys
  rw [hfold]
  have hcopied : CopiedFrom { o with objects } backups := ⟨h.ideal, h.sha256_injective⟩
  refine hcopied.fetchOffsite_undisturbed hb (fun part hpart => ?_) hsize hhash
  have hpart : part ∈ b.parts o := hpart
  rw [← hparts] at hpart
  obtain ⟨p, hp, rfl⟩ := List.mem_map.mp hpart
  exact ⟨p.2, henc hp, hstored p hp⟩

end

/-! ### A small backup -/

def smallBackup : FullBackup where
  id := "b"
  dump := [80, 71, 68, 77, 80]
  vault := ⟨"kv", [], "now"⟩
  pgMetadata := []
  vaultMetadata := []
  nonce name := List.replicate prefixLen (name.toList.headD 'x').toNat.toUInt8
  dump_magic := rfl
  length_nonce _ := List.length_replicate

/-- An empty bucket, for files that are their own checksums. -/
def emptyStore (sealings : List Aead.Sealing) : OffsiteStore where
  objects _ := .error "NoSuchKey"
  eofWithData := false
  keyPrefix := ""
  aead := .logged overhead sealings
  sha256 b := b

def smallStore : OffsiteStore :=
  emptyStore ((smallBackup.objects (emptyStore [])).map fun obj =>
    chunkSealing obj.noncePrefix 0 obj.contents)

theorem sealed_of_small {objects : List Object} (h : ∀ obj ∈ objects, obj.contents.length ≤ chunkSize) :
    Sealed objects = (· ∈ objects.map fun obj => chunkSealing obj.noncePrefix 0 obj.contents) := by
  funext s
  refine propext ⟨?_, fun hs => ?_⟩
  · rintro ⟨obj, hobj, counter, src, hreach, rfl⟩
    cases hreach with
    | start => exact List.mem_map_of_mem hobj
    | next hreach hne hcounter =>
      rw [hreach.eq_drop, List.drop_drop] at hne
      exact absurd (List.drop_eq_nil_of_le ((h obj hobj).trans (Nat.le_add_left _ _))) hne
  · obtain ⟨obj, hobj, rfl⟩ := List.mem_map.mp hs
    exact ⟨obj, hobj, 0, _, .start, rfl⟩

theorem smallStore_copiedFrom : CopiedFrom smallStore [smallBackup] := by
  refine ⟨?_, fun _ _ h => h⟩
  rw [List.flatMap_singleton]
  refine ⟨?_, List.inj_on_of_nodup_map (by decide +kernel)⟩
  rw [sealed_of_small (by decide +kernel)]
  exact Aead.logged_ideal overhead _

theorem fetchOffsite_of_copyOffsite_small : ∃ o, copyOffsite smallStore smallBackup = .ok o ∧
    fetchOffsite o smallBackup.id (fun _ => "") = .ok smallBackup.files := by
  have hok : (copyOffsite smallStore smallBackup).isOk := by decide +kernel
  cases hcopy : copyOffsite smallStore smallBackup with
  | error e =>
    rw [hcopy] at hok
    cases hok
  | ok o =>
    exact ⟨o, rfl, fetchOffsite_of_copyOffsite (b := smallBackup) smallStore_copiedFrom (.head _)
      hcopy (by decide +kernel) (by decide +kernel)⟩

/-! ## All or nothing -/

/-- What off-site backups are for, with readers that report the end with the last bytes or without. -/
structure AllOrNothing (eofWithData : Bool) : Prop where
  /-- A file of fewer than `2 ^ 32` chunks is encrypted, and decrypted again. -/
  round_trip : ∀ aead objects, IdealFor aead objects → ∀ obj ∈ objects,
    chunkCount obj.contents < 2 ^ 32 →
    ∃ stream, obj.encrypt aead = .ok stream ∧ decrypt aead ⟨stream, eofWithData⟩ = .ok obj.contents
  /-- A stream that is accepted was made by `encrypt`, byte for byte. -/
  authentic : ∀ aead objects, IdealFor aead objects → ∀ stream out,
    decrypt aead ⟨stream, eofWithData⟩ = .ok out →
    ∃ obj ∈ objects, obj.encrypt aead = .ok stream ∧ obj.contents = out
  /-- Whatever is in the bucket, the three files that are fetched for an id are those whose checksums
  were recorded for it. -/
  fetched : ∀ o backups, CopiedFrom o backups → o.eofWithData = eofWithData → ∀ id files,
    fetchOffsite o id (fun _ => "") = .ok files → ∃ b ∈ backups, b.id = id ∧ files = b.files

theorem round_trip {aead : Aead} {objects : List Object} (h : IdealFor aead objects) {obj : Object}
    (hobj : obj ∈ objects) (hcount : chunkCount obj.contents < 2 ^ 32) (eof : Bool) :
    ∃ stream, obj.encrypt aead = .ok stream ∧ decrypt aead ⟨stream, eof⟩ = .ok obj.contents := by
  have hfits : (0 : UInt32).toNat + chunkCount obj.contents ≤ 2 ^ 32 := by
    show 0 + chunkCount obj.contents ≤ 2 ^ 32
    omega
  obtain ⟨chunks, hchunks⟩ :
      ∃ chunks, encryptChunks aead obj.noncePrefix 0 obj.contents = .ok chunks :=
    encryptChunks_isOk hfits
  have henc : obj.encrypt aead = .ok (offsiteMagic ++ obj.noncePrefix ++ chunks) :=
    bind_eq_ok.mpr ⟨chunks, hchunks, rfl⟩
  have hend : Source.readsEOF ⟨[], eof⟩ := by cases eof <;> rfl
  have hdec := decrypt_encrypt h hobj henc hend
  rw [List.append_nil] at hdec
  exact ⟨_, henc, hdec⟩

/-- With a reader that reports the end by itself, nothing goes unseen. -/
theorem authentic {aead : Aead} {objects : List Object} (h : IdealFor aead objects)
    {stream out : Bytes} (hdec : decrypt aead ⟨stream, false⟩ = .ok out) :
    ∃ obj ∈ objects, obj.encrypt aead = .ok stream ∧ obj.contents = out := by
  obtain ⟨obj, hobj, hcontents, made, tail, henc, hbytes, heof⟩ := decrypt_eq_ok h hdec
  obtain rfl : tail = [] := by
    cases tail with
    | nil => rfl
    | cons => cases heof
  obtain rfl : stream = made := hbytes.trans (List.append_nil made)
  exact ⟨obj, hobj, henc, hcontents⟩

/-! ### One byte that nobody sees -/

/-- A file of three bytes. -/
def smallObject : Object := ⟨List.replicate 8 7, [1, 2, 3], rfl⟩

def smallAead : Aead :=
  Aead.logged overhead [chunkSealing smallObject.noncePrefix 0 smallObject.contents]

/-- What the file is encrypted to. -/
def smallStream : Bytes :=
  offsiteMagic ++ List.replicate 8 7 ++ [0, 0, 0, 19, 1, 2, 3] ++ List.replicate 16 0

theorem sealed_smallObject : Sealed [smallObject] =
    (· ∈ [chunkSealing smallObject.noncePrefix 0 smallObject.contents]) := by
  funext s
  refine propext ⟨?_, ?_⟩
  · rintro ⟨obj, hobj, counter, src, hreach, rfl⟩
    obtain rfl := List.mem_singleton.mp hobj
    cases hreach with
    | start => exact List.mem_singleton.mpr rfl
    | next hreach hne hcounter =>
      -- Three bytes are one chunk.
      rw [hreach.eq_drop, List.drop_drop] at hne
      refine absurd (List.drop_eq_nil_of_le ?_) hne
      exact le_trans (by decide) (Nat.le_add_left chunkSize _)
  · intro hs
    exact ⟨smallObject, List.mem_singleton.mpr rfl, 0, smallObject.contents, .start,
      List.mem_singleton.mp hs⟩

theorem smallAead_ideal : IdealFor smallAead [smallObject] where
  ideal := by
    rw [sealed_smallObject]
    exact Aead.logged_ideal overhead _
  prefixes := by
    intro a ha b hb _
    rw [List.mem_singleton.mp ha, List.mem_singleton.mp hb]

theorem encrypt_smallObject : smallObject.encrypt smallAead = .ok smallStream := by
  have hchunks : encryptChunks smallAead smallObject.noncePrefix 0 smallObject.contents = _ :=
    encryptChunks_last (by decide)
  exact bind_eq_ok.mpr ⟨_, hchunks, by decide⟩

theorem decrypt_extended : decrypt smallAead ⟨smallStream ++ [0], true⟩ = .ok [1, 2, 3] :=
  decrypt_encrypt smallAead_ideal (List.mem_singleton.mpr rfl) encrypt_smallObject rfl

theorem encrypt_ne_extended {obj : Object} (hobj : obj ∈ [smallObject]) :
    obj.encrypt smallAead ≠ .ok (smallStream ++ [0]) := by
  rw [List.mem_singleton.mp hobj, encrypt_smallObject]
  decide

theorem decrypt_accepts_extended : IdealFor smallAead [smallObject] ∧
    decrypt smallAead ⟨smallStream ++ [0], true⟩ = .ok [1, 2, 3] ∧
    ∀ obj ∈ [smallObject], obj.encrypt smallAead ≠ .ok (smallStream ++ [0]) :=
  ⟨smallAead_ideal, decrypt_extended, fun _ => encrypt_ne_extended⟩

/-- **Off-site backups are all or nothing with exactly those readers that report the end by itself.** -/
theorem allOrNothing_iff (eofWithData : Bool) : AllOrNothing eofWithData ↔ eofWithData = false := by
  constructor
  · intro h
    cases eofWithData with
    | false => rfl
    | true =>
      obtain ⟨obj, hobj, henc, -⟩ :=
        h.authentic smallAead [smallObject] smallAead_ideal _ _ decrypt_extended
      exact absurd henc (encrypt_ne_extended hobj)
  · rintro rfl
    exact {
      round_trip := fun _ _ h _ hobj hcount => round_trip h hobj hcount false
      authentic := fun _ _ h _ _ hdec => authentic h hdec
      fetched := fun _ _ h _ _ _ hfiles => h.fetchOffsite hfiles }

end OpenFireblocks.Backup
