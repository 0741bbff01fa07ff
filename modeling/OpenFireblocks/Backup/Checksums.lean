import OpenFireblocks.Backup.Offsite
import OpenFireblocks.Go.Json

/-!
# The checksums of an off-site backup

`Put`, `Get`, `PutChecksums` and `GetChecksums` of the off-site store, and `copyOffsite` and
`FetchOffsite` of the backup manager. A backup has three files, and a fourth object in the bucket
holds their checksums.

* A bucket is any map from keys to bytes: whoever writes to it may replace any object by any other.
* Local files can be written and read.
* The text of an error of `encoding/json` is left out of the messages that end with one.
-/

namespace OpenFireblocks.Backup

open BigEndian Go

/-- What was stored and how to check it. -/
structure OffsiteReceipt where
  key : String := ""
  plaintextSHA256 : String := ""
  plaintextBytes : Int := 0

structure ChecksumRecord where
  backupID : String := ""
  files : List (String × OffsiteReceipt) := []

def checksumsName : String := "checksums"

/-- The files a restore needs, in the order they are fetched. -/
def backupFileNames : List String := ["postgres", "vault", "manifest"]

/-- `rec.Files[name].PlaintextSHA256`, which is empty if there is no such file. -/
def ChecksumRecord.sha256Of (r : ChecksumRecord) (name : String) : String :=
  ((r.files.lookup name).getD {}).plaintextSHA256

/-! ## As JSON -/

def OffsiteReceipt.json (r : OffsiteReceipt) : Json :=
  .obj [("key".toList, .str r.key.toList), ("plaintext_sha256".toList, .str r.plaintextSHA256.toList),
    ("plaintext_bytes".toList, .num (jsonInt r.plaintextBytes))]

/-- A map is written in the order of its keys. -/
def ChecksumRecord.json (r : ChecksumRecord) : Json :=
  .obj [("backup_id".toList, .str r.backupID.toList),
    ("files".toList, .obj ((r.files.insertionSort fun a b => a.1 ≤ b.1).map fun f =>
      (f.1.toList, f.2.json)))]

def OffsiteReceipt.setMember (r : OffsiteReceipt) (m : List Char × Json) : Option OffsiteReceipt :=
  if isField "key" m.1 then (setString r.key m.2).map fun s => { r with key := s }
  else if isField "plaintext_sha256" m.1 then
    (setString r.plaintextSHA256 m.2).map fun s => { r with plaintextSHA256 := s }
  else if isField "plaintext_bytes" m.1 then
    (setInt64 r.plaintextBytes m.2).map fun n => { r with plaintextBytes := n }
  else some r

def OffsiteReceipt.ofJson : Json → Option OffsiteReceipt
  | .obj members => members.foldlM OffsiteReceipt.setMember {}
  | .null => some {}
  | _ => none

/-- An entry of the map, which replaces one of the same name. -/
def setFile (files : List (String × OffsiteReceipt)) (m : List Char × Json) :
    Option (List (String × OffsiteReceipt)) :=
  (OffsiteReceipt.ofJson m.2).map fun r => (String.ofList m.1, r) :: files

def setFiles (files : List (String × OffsiteReceipt)) : Json → Option (List (String × OffsiteReceipt))
  | .obj members => members.foldlM setFile files
  | .null => some []
  | _ => none

def ChecksumRecord.setMember (r : ChecksumRecord) (m : List Char × Json) : Option ChecksumRecord :=
  if isField "backup_id" m.1 then (setString r.backupID m.2).map fun s => { r with backupID := s }
  else if isField "files" m.1 then (setFiles r.files m.2).map fun files => { r with files }
  else some r

def ChecksumRecord.ofJson : Json → Option ChecksumRecord
  | .obj members => members.foldlM ChecksumRecord.setMember {}
  | .null => some {}
  | _ => none

/-! ## Keys of objects -/

/-- One element of a path in `path.Clean`, with the elements before it in reverse. -/
def cleanElement (rooted : Bool) (before : List String) (element : String) : List String :=
  if element = "" ∨ element = "." then before
  else if element = ".." then
    match before with
    | [] => if rooted then [] else [".."]
    | last :: rest => if last = ".." then ".." :: before else rest
  else element :: before

/-- `path.Clean`. -/
def pathClean (p : List Char) : String :=
  let rooted := p.head? = some '/'
  let elements := (p.splitOn '/').map String.ofList
  let path := "/".intercalate (elements.foldl (cleanElement rooted) []).reverse
  if rooted then "/" ++ path else if path = "" then "." else path

/-- `path.Join`. -/
def pathJoin (elements : List String) : String :=
  let nonempty := elements.filter (· ≠ "")
  if nonempty = [] then "" else pathClean ("/".intercalate nonempty).toList

/-! ## The store -/

/-- The store. `objects` is the bucket, with the errors it answers with. -/
structure OffsiteStore where
  objects : String → Except String Bytes
  /-- the reader of an object reports `io.EOF` with the last bytes -/
  eofWithData : Bool
  keyPrefix : String
  aead : Aead
  sha256 : Bytes → Bytes

namespace OffsiteStore

variable (o : OffsiteStore)

variable (backupID : String)

def objectKey (name : String) : String :=
  pathJoin [o.keyPrefix, backupID, name]

def sha256Hex (contents : Bytes) : String := hexEncodeToString (o.sha256 contents)

/-- The receipt that `Put` returns for a file. -/
def receipt (name : String) (contents : Bytes) : OffsiteReceipt where
  key := o.objectKey backupID (name ++ ".enc")
  plaintextSHA256 := o.sha256Hex contents
  plaintextBytes := contents.length

def store (name : String) (stream : Bytes) : OffsiteStore :=
  { o with objects := Function.update o.objects (o.objectKey backupID (name ++ ".enc")) (.ok stream) }

def put (name : String) (contents nonce : Bytes) :
    Except String (OffsiteStore × OffsiteReceipt) := do
  let stream ← (encrypt o.aead nonce contents).mapError fun e =>
    "uploading " ++ o.objectKey backupID (name ++ ".enc") ++ ": " ++ e
  return (o.store backupID name stream, o.receipt backupID name contents)

/-- The file that `Get` leaves at `destPath`. -/
def get (name : String) (want : Option OffsiteReceipt) : Except String Bytes := do
  let stream ← o.objects (o.objectKey backupID (name ++ ".enc"))
  let plain ← decrypt o.aead ⟨stream, o.eofWithData⟩
  if want.any fun w => w.plaintextSHA256 ≠ "" ∧ o.sha256Hex plain ≠ w.plaintextSHA256 then
    .error "the decrypted backup does not match the checksum recorded when it was taken"
  else .ok plain

def putChecksums (r : ChecksumRecord) (nonce : Bytes) : Except String OffsiteStore := do
  let (o, _) ← o.put r.backupID checksumsName (marshal Json.compact r.json) nonce
  return o

/-- The ids are printed with `%q`, and need no escapes. -/
def getChecksums : Except String ChecksumRecord := do
  let raw ← (o.get backupID checksumsName none).mapError fun e =>
    "reading the stored checksums for " ++ backupID ++ ": " ++ e
  match (jsonOf raw).bind ChecksumRecord.ofJson with
  | none => .error ("the stored checksums for " ++ backupID ++ " are not valid: ")
  | some r =>
    if r.backupID ≠ backupID then
      .error ("the stored checksums are for backup \"" ++ r.backupID ++ "\", not \"" ++ backupID ++ "\"")
    else
      match backupFileNames.find? fun name => r.sha256Of name = "" with
      | some name => .error ("the stored checksums do not cover " ++ name)
      | none => .ok r

end OffsiteStore

/-! ## The backup manager -/

/-- `kvExport`: what is exported of Vault. -/
structure KvExport where
  mount : String
  paths : List (List Char × Json)
  exported : String

def KvExport.json (e : KvExport) : Json :=
  .obj [("mount".toList, .str e.mount.toList), ("paths".toList, .obj e.paths),
    ("exported_at".toList, .str e.exported.toList)]

/-- What `ExecuteFullBackup` has when it gets to the off-site copy, with the nonces that are drawn
for it. A dump of `pg_dump -Fc` starts with `PGDMP`. -/
structure FullBackup where
  id : String
  dump : Bytes
  vault : KvExport
  pgMetadata : List (List Char × Json)
  vaultMetadata : List (List Char × Json)
  nonce : String → Bytes
  dump_magic : dump.take 5 = [80, 71, 68, 77, 80]
  length_nonce : ∀ name, (nonce name).length = prefixLen

def FullBackup.manifest (b : FullBackup) : Json :=
  .obj [("postgres".toList, .obj b.pgMetadata), ("vault".toList, .obj b.vaultMetadata)]

def FullBackup.files (b : FullBackup) : List (String × Bytes) :=
  [("postgres", b.dump), ("vault", marshal Json.indented b.vault.json),
    ("manifest", marshal Json.compact b.manifest)]

/-- One part of `copyOffsite`. -/
def copyPart (b : FullBackup) (s : OffsiteStore × ChecksumRecord) (part : String × Bytes) :
    Except String (OffsiteStore × ChecksumRecord) := do
  let (o, r) ← (s.1.put b.id part.1 part.2 (b.nonce part.1)).mapError fun e => part.1 ++ ": " ++ e
  return (o, { s.2 with files := s.2.files ++ [(part.1, r)] })

def copyOffsite (o : OffsiteStore) (b : FullBackup) : Except String OffsiteStore := do
  let (o, receipts) ← b.files.foldlM (copyPart b) (o, { backupID := b.id })
  (o.putChecksums receipts (b.nonce checksumsName)).mapError fun e => "checksums: " ++ e

/-- One file of `FetchOffsite`. -/
def fetchFile (o : OffsiteStore) (backupID : String) (tags : String → String)
    (stored : Option ChecksumRecord) (name : String) : Except String (String × Bytes) := do
  let tag := tags ("offsite_" ++ name ++ "_sha256")
  let want := if tag = "" then (stored.map fun r => r.sha256Of name).getD "" else tag
  if want = "" then
    .error ("no checksum recorded for " ++ name ++
      "; refusing to restore something that cannot be checked")
  else
    let plain ← (o.get backupID name (some { plaintextSHA256 := want })).mapError fun e =>
      name ++ ": " ++ e
    return (name, plain)

/-- The files that `FetchOffsite` leaves in the directory, by name. `tags` are the checksums that the
caller supplied, empty where there is none. -/
def fetchOffsite (o : OffsiteStore) (backupID : String) (tags : String → String) :
    Except String (List (String × Bytes)) := do
  let stored ←
    match backupFileNames.find? fun name => tags ("offsite_" ++ name ++ "_sha256") = "" with
    | none => .ok none
    | some name =>
      ((o.getChecksums backupID).map some).mapError fun e =>
        "no checksum for " ++ name ++ " was supplied and the stored ones could not be used: " ++ e ++
          "; refusing to restore something that cannot be checked"
  backupFileNames.mapM (fetchFile o backupID tags stored)

end OpenFireblocks.Backup
