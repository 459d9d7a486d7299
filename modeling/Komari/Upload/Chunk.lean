import Komari.Table.Keys
import Komari.TrafficReset.Schedule
import Mathlib.Algebra.Order.Group.Int
import Std.Data.String.ToInt

/-!
# Chunked uploads

An archive is uploaded in chunks.  A session has a directory, with its metadata and one file for each
chunk; the chunks are merged when the upload is finalized.

* `Store.init`, `Store.saveChunk`, `Store.finalize`, `Store.cancel`, `Store.sweep` : the calls, each of
  which holds the lock.
-/

namespace Komari

namespace Upload

open TrafficReset (nanosPerSecond)

/-! ### Sessions and files -/

/-- Every chunk but the last has this size. -/
def chunkSize : ℕ := 5 * 1024 * 1024

/-- An upload expires after this time. -/
def lifetime : ℤ := 30 * 60 * nanosPerSecond

/-- All uploads together. -/
def maxStagedBytes : ℤ := 512 * 2 ^ 20

/-- `MaxSize` of `NewStore`. -/
def maxSize : ℤ := 256 * 2 ^ 20

def purposeBackup : String := "backup"

def purposePlugin : String := "plugin"

def purposeTheme : String := "theme"

/-- What may be uploaded. -/
def isKnownPurpose (purpose : String) : Bool :=
  purpose = purposeBackup || purpose = purposePlugin || purpose = purposeTheme

/-- An error: `ErrNotFound`, or another one with its text. -/
inductive UploadError
  | notFound
  | message (text : String)
deriving DecidableEq

/-- What an upload is to be. -/
structure Metadata where
  purpose : String
  size : ℤ
  filename : String
deriving DecidableEq

/-- `Session`; paths are below the root of the store. -/
structure Session where
  id : String
  metadata : Metadata
  directory : String
  archivePath : String
deriving DecidableEq

/-- `ownedSession`; `κ` are the SHA-256 sums of owners. -/
structure OwnedSession (κ : Type) where
  directory : String
  owner : κ
  size : ℤ
  expires : ℤ
deriving DecidableEq

/-- The files of an upload. -/
structure Directory where
  /-- `upload.json`, as it is decoded. -/
  metadata : Option Metadata
  files : Table String (List UInt8)
deriving DecidableEq

/-- A system call that may fail. -/
inductive Call
  | mkdirAll
  | readDir
  | removeAll (name : String)
  | mkdir
  | writeFile
  | readFile
  | createTemp
  | copy
  | close
  | remove
  | rename
  | stat (index : ℤ)
  | openChunk (index : ℤ)
  | copyChunk (index : ℤ)
  | closeChunk (index : ℤ)
deriving DecidableEq

/-- The calls that fail during an operation, with the texts of their errors. -/
abbrev Failures := Call → Option String

/-- A reader: what it reads, and the error after it when it does not end there. -/
structure Reader where
  content : List UInt8
  failure : Option String
deriving DecidableEq

/-- `io.LimitReader`, read to its end. -/
def Reader.limited (source : Reader) (n : ℕ) : List UInt8 × Option String :=
  if n ≤ source.content.length then (source.content.take n, none)
  else (source.content, source.failure)

/-- How many chunks there are. -/
def chunkCount (size : ℤ) : ℤ := (size + chunkSize - 1).tdiv chunkSize

/-- The size of a chunk. -/
def expectedChunkSize (size index : ℤ) : Except UploadError ℤ :=
  if index < 0 ∨ chunkCount size ≤ index then .error (.message "invalid chunk index")
  else if index = chunkCount size - 1 then .ok (size - index * chunkSize)
  else .ok chunkSize

/-- The file of a chunk. -/
def chunkFilename (index : ℤ) : String := index.repr ++ ".part"

/-- The indices of the chunks, in order. -/
def indices (size : ℤ) : List ℤ := (List.range (chunkCount size).toNat).map Int.ofNat

/-! ### The directory of a session -/

/-- A file is written. -/
def Directory.write (d : Directory) (name : String) (content : List UInt8) : Directory :=
  { d with files := d.files.upsert name content }

/-- `os.Remove`. -/
def Directory.remove (d : Directory) (name : String) : Directory :=
  { d with files := d.files.erase name }

/-- `os.Rename`. -/
def Directory.rename (d : Directory) (name newName : String) : Directory :=
  match d.files.find? name with
  | none => d
  | some content => (d.remove name).write newName content

/-- `SaveChunk`, from the temporary file on; the random part of its name is given. -/
def Directory.saveChunk (fails : Failures) (random : String) (index expectedSize : ℤ)
    (source : Reader) (d : Directory) : Except UploadError Unit × Directory :=
  let temporaryPath := "." ++ (index.repr ++ "-" ++ random ++ ".part")
  match fails .createTemp, d.files.find? temporaryPath with
  | some err, _ => (.error (.message ("create chunk: " ++ err)), d)
  | none, some _ => (.error (.message "create chunk: file exists"), d)
  | none, none =>
    let (content, readErr) := source.limited (chunkSize + 1)
    let d := d.write temporaryPath content
    match (fails .copy).or readErr, fails .close with
    | some err, _ => (.error (.message ("write chunk: " ++ err)), d.remove temporaryPath)
    | none, some err => (.error (.message ("close chunk: " ++ err)), d.remove temporaryPath)
    | none, none =>
      if (content.length : ℤ) ≠ expectedSize then
        (.error (.message s!"chunk {index} has size {content.length}, want {expectedSize}"),
          d.remove temporaryPath)
      else
        let chunkPath := chunkFilename index
        match fails .remove, fails .rename with
        | some err, _ => (.error (.message ("replace chunk: " ++ err)), d.remove temporaryPath)
        | none, some err =>
          (.error (.message ("publish chunk: " ++ err)), (d.remove chunkPath).remove temporaryPath)
        | none, none =>
          (.ok (), ((d.remove chunkPath).rename temporaryPath chunkPath).remove temporaryPath)

/-- The loop of `mergeLocked` over the chunks, behind what is merged already. -/
def Directory.mergeChunks (fails : Failures) (size : ℤ) (d : Directory) :
    List ℤ → List UInt8 → Except UploadError (List UInt8)
  | [], merged => .ok merged
  | index :: rest, merged =>
    match fails (.stat index), d.files.find? (chunkFilename index) with
    | some err, _ => .error (.message s!"read chunk {index}: {err}")
    | none, none => .error (.message s!"chunk {index} is missing")
    | none, some chunk =>
      let expectedSize := (expectedChunkSize size index).toOption.getD 0
      if (chunk.length : ℤ) ≠ expectedSize then
        .error (.message s!"chunk {index} has size {chunk.length}, want {expectedSize}")
      else
        match fails (.openChunk index), fails (.copyChunk index), fails (.closeChunk index) with
        | some err, _, _ => .error (.message s!"open chunk {index}: {err}")
        | none, some err, _ => .error (.message s!"merge chunk {index}: {err}")
        | none, none, some err => .error (.message s!"close chunk {index}: {err}")
        | none, none, none => d.mergeChunks fails size rest (merged ++ chunk)

/-- `mergeLocked`, from the temporary file on; the random part of its name is given. -/
def Directory.merge (fails : Failures) (random : String) (size : ℤ) (d : Directory) :
    Except UploadError Unit × Directory :=
  let temporaryPath := "." ++ ("merged-" ++ random ++ ".zip")
  match fails .createTemp, d.files.find? temporaryPath with
  | some err, _ => (.error (.message ("create merged archive: " ++ err)), d)
  | none, some _ => (.error (.message "create merged archive: file exists"), d)
  | none, none =>
    match d.mergeChunks fails size (indices size) [] with
    | .error err => (.error err, (d.write temporaryPath []).remove temporaryPath)
    | .ok merged =>
      let d := d.write temporaryPath merged
      match fails .close, fails .rename with
      | some err, _ =>
        (.error (.message ("close merged archive: " ++ err)), d.remove temporaryPath)
      | none, some err =>
        (.error (.message ("publish merged archive: " ++ err)), d.remove temporaryPath)
      | none, none => (.ok (), (d.rename temporaryPath "archive.zip").remove temporaryPath)

/-! ### The store -/

/-- The uploads and their files. -/
structure Store (κ : Type) where
  disk : Table String Directory
  sessions : Table String (OwnedSession κ)
  initialized : Bool

/-- `NewStore`, on what is below the root. -/
def newStore {κ : Type} (disk : Table String Directory) : Store κ := ⟨disk, ∅, false⟩

/-- Package `uuid`: identifiers, and their texts. -/
structure UuidPackage where
  UUID : Type
  parse : String → Option UUID
  string : UUID → String
  /-- The text of an identifier is parsed. -/
  parse_string : ∀ u, parse (string u) = some u

section

variable {κ : Type} [DecidableEq κ] (uuid : UuidPackage) (sum256 : String → κ)

/-- `strings.TrimPrefix` of an upload id, if it has the prefix. -/
def trimUpload (uploadID : String) : Option String :=
  if "upload-".toList.isPrefixOf uploadID.toList then some (String.ofList (uploadID.toList.drop 7))
  else none

/-- The id is one that was made here. -/
def validUploadID (uploadID : String) : Bool :=
  match (trimUpload uploadID).bind uuid.parse with
  | none => false
  | some parsed => "upload-" ++ uuid.string parsed = uploadID

/-- An upload goes, with its files. -/
def Store.removeLocked (fails : Failures) (id : String) (s : Store κ) : Store κ :=
  match s.sessions.find? id with
  | none => s
  | some session =>
    { s with
      disk := if (fails (.removeAll session.directory)).isSome then s.disk
        else s.disk.erase session.directory
      sessions := s.sessions.erase id }

/-- `sweepLocked`; the clock is read for every session. -/
def Store.sweepLocked (fails : Failures) (clock : String → ℤ) (s : Store κ) : Store κ :=
  s.sessions.rows.foldl
    (fun s row => if row.2.expires ≤ clock row.1 then s.removeLocked fails row.1 else s) s

/-- The upload is the caller's and has not expired. -/
def Store.ownLocked (fails : Failures) (owner id : String) (now : ℤ) (s : Store κ) :
    Except UploadError Unit × Store κ :=
  match s.sessions.find? id with
  | none => (.error .notFound, s)
  | some session =>
    if session.owner ≠ sum256 owner then (.error .notFound, s)
    else if session.expires ≤ now then (.error .notFound, s.removeLocked fails id)
    else (.ok (), s)

/-- What was announced. -/
def Store.load (fails : Failures) (uploadID : String) (s : Store κ) : Except UploadError Session :=
  if validUploadID uuid uploadID = false then .error (.message "invalid upload id")
  else
    match fails .readFile, (s.disk.find? uploadID).bind Directory.metadata with
    | some err, _ => .error (.message ("read upload metadata: " ++ err))
    | none, none => .error .notFound
    | none, some metadata =>
      if isKnownPurpose metadata.purpose = false ∨ metadata.size ≤ 0 ∨ maxSize < metadata.size then
        .error (.message "invalid upload metadata")
      else .ok ⟨uploadID, metadata, uploadID, ""⟩

/-- An operation on the directory of a session. -/
def Store.onDirectory (directory : String)
    (f : Directory → Except UploadError Unit × Directory) (s : Store κ) :
    Except UploadError Unit × Store κ :=
  match s.disk.find? directory with
  | none => (.error (.message "no such file or directory"), s)
  | some d => ((f d).1, { s with disk := s.disk.upsert directory (f d).2 })

/-- The largest size of an upload for a purpose. -/
def sizeLimit (purpose : String) : ℤ :=
  let limit := maxSize
  let limit := if purpose = purposePlugin ∧ 100 * 2 ^ 20 < limit then 100 * 2 ^ 20 else limit
  if purpose = purposeTheme ∧ 128 * 2 ^ 20 < limit then 128 * 2 ^ 20 else limit

/-- The first `Init` removes the directories of uploads from before the restart. -/
def Store.clearOrphans (fails : Failures) (s : Store κ) : Except UploadError Unit × Store κ :=
  if s.initialized then (.ok (), s)
  else
    match fails .mkdirAll, fails .readDir with
    | some err, _ => (.error (.message err), s)
    | none, some err => (.error (.message err), s)
    | none, none =>
      let orphans := s.disk.rows.filter fun row => (trimUpload row.1).isSome
      let s := { s with
        disk := s.disk.deleteWhere fun name _ =>
          (trimUpload name).isSome && (fails (.removeAll name)).isNone }
      match orphans.findSome? fun row => fails (.removeAll row.1) with
      | some err => (.error (.message err), s)
      | none => (.ok (), { s with initialized := true })

/-- What `Init` does when the store is swept. -/
def Store.start (fails : Failures) (owner purpose filename : String) (size : ℤ) (u : uuid.UUID)
    (now : ℤ) (s : Store κ) : Except UploadError Session × Store κ :=
  if isKnownPurpose purpose = false then (.error (.message "invalid upload purpose"), s)
  else if size ≤ 0 ∨ sizeLimit purpose < size then
    (.error (.message s!"size must be between 1 and {sizeLimit purpose} bytes"), s)
  else
    let ownerKey := sum256 owner
    let total := (s.sessions.rows.map fun row => row.2.size).sum
    let count := s.sessions.rows.countP fun row => row.2.owner = ownerKey
    if 4 ≤ s.sessions.rows.length ∨ 2 ≤ count ∨ maxStagedBytes < total + size then
      (.error (.message "upload staging quota exceeded"), s)
    else
      let id := "upload-" ++ uuid.string u
      match fails .mkdir, s.disk.find? id with
      | some err, _ => (.error (.message err), s)
      | none, some _ => (.error (.message ("mkdir " ++ id ++ ": file exists")), s)
      | none, none =>
        let metadata : Metadata := ⟨purpose, size, filename⟩
        match fails .writeFile with
        | some err =>
          (.error (.message ("write upload metadata: " ++ err)),
            if (fails (.removeAll id)).isSome then { s with disk := s.disk.upsert id ⟨none, ∅⟩ }
            else s)
        | none =>
          (.ok ⟨id, metadata, id, ""⟩,
            { s with
              disk := s.disk.upsert id ⟨some metadata, ∅⟩
              sessions := s.sessions.upsert id ⟨id, ownerKey, size, now + lifetime⟩ })

/-- An upload begins. -/
def Store.init (fails : Failures) (owner purpose filename : String) (size : ℤ) (u : uuid.UUID)
    (clock : String → ℤ) (now : ℤ) (s : Store κ) : Except UploadError Session × Store κ :=
  if owner = "" then (.error .notFound, s)
  else
    match s.clearOrphans fails with
    | (.error err, s) => (.error err, s)
    | (.ok (), s) =>
      (s.sweepLocked fails clock).start uuid sum256 fails owner purpose filename size u now

/-- A chunk is read and put in place. -/
def Store.saveChunk (fails : Failures) (owner uploadID : String) (index : ℤ) (source : Reader)
    (random : String) (now : ℤ) (s : Store κ) : Except UploadError Unit × Store κ :=
  match s.ownLocked sum256 fails owner uploadID now with
  | (.error err, s) => (.error err, s)
  | (.ok (), s) =>
    match s.load uuid fails uploadID with
    | .error err => (.error err, s)
    | .ok session =>
      match expectedChunkSize session.metadata.size index with
      | .error err => (.error err, s)
      | .ok expectedSize =>
        s.onDirectory session.directory fun d => d.saveChunk fails random index expectedSize source

/-- The chunks are put together. -/
def Store.mergeLocked (fails : Failures) (uploadID random : String) (s : Store κ) :
    Except UploadError Session × Store κ :=
  match s.load uuid fails uploadID with
  | .error err => (.error err, s)
  | .ok session =>
    match s.onDirectory session.directory fun d => d.merge fails random session.metadata.size with
    | (.error err, s) => (.error err, s)
    | (.ok (), s) => (.ok { session with archivePath := session.directory ++ "/archive.zip" }, s)

/-- The archive that `finish` finds. -/
def Store.archive (session : Session) (s : Store κ) : Option (List UInt8) :=
  (s.disk.find? session.directory).bind fun d => d.files.find? "archive.zip"

/-- A call of `finish`: its session, the archive at that time, and what it returns. -/
structure Finished (ρ : Type) where
  session : Session
  archive : Option (List UInt8)
  result : Except String ρ

/-- The archive is handed over. -/
def Store.finalize {ρ : Type} (fails : Failures) (owner id : String)
    (finish : Session → Option (List UInt8) → Except String ρ) (random : String) (now : ℤ)
    (s : Store κ) : Except UploadError (Finished ρ) × Store κ :=
  match s.ownLocked sum256 fails owner id now with
  | (.error err, s) => (.error err, s)
  | (.ok (), s) =>
    match s.mergeLocked uuid fails id random with
    | (.error err, s) => (.error err, s)
    | (.ok session, s) =>
      (.ok ⟨session, s.archive session, finish session (s.archive session)⟩, s.removeLocked fails id)

/-- An upload is given up. -/
def Store.cancel (fails : Failures) (owner id : String) (now : ℤ) (s : Store κ) :
    Except UploadError Unit × Store κ :=
  match s.ownLocked sum256 fails owner id now with
  | (.error err, s) => (.error err, s)
  | (.ok (), s) => (.ok (), s.removeLocked fails id)

/-! ### Calls in any order -/

/-- The calls. -/
inductive Op (uuid : UuidPackage) (ρ : Type)
  | init (owner purpose filename : String) (size : ℤ) (u : uuid.UUID)
  | saveChunk (owner uploadID : String) (index : ℤ) (source : Reader) (random : String)
  | finalize (owner id : String) (finish : Session → Option (List UInt8) → Except String ρ)
      (random : String)
  | cancel (owner id : String)
  | sweep

/-- What a call returns. -/
inductive Output (ρ : Type)
  | init (result : Except UploadError Session)
  | saveChunk (result : Except UploadError Unit)
  | finalize (result : Except UploadError (Finished ρ))
  | cancel (result : Except UploadError Unit)
  | sweep

/-- A call, with the calls of the system that fail during it and the clock. -/
structure Input (uuid : UuidPackage) (ρ : Type) where
  op : Op uuid ρ
  fails : Failures
  /-- The clock, when a sweep looks at a session. -/
  clock : String → ℤ
  now : ℤ

/-- A call takes the lock, and returns it at its end. -/
def Store.step {ρ : Type} (s : Store κ) (input : Input uuid ρ) : Output ρ × Store κ :=
  match input.op with
  | .init owner purpose filename size u =>
    (s.init uuid sum256 input.fails owner purpose filename size u input.clock input.now).map .init id
  | .saveChunk owner uploadID index source random =>
    (s.saveChunk uuid sum256 input.fails owner uploadID index source random input.now).map
      .saveChunk id
  | .finalize owner uploadID finish random =>
    (s.finalize uuid sum256 input.fails owner uploadID finish random input.now).map .finalize id
  | .cancel owner uploadID =>
    (s.cancel sum256 input.fails owner uploadID input.now).map .cancel id
  | .sweep => (.sweep, s.sweepLocked input.fails input.clock)

end

end Upload

end Komari
