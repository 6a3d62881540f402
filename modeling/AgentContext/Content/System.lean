import AgentContext.Content.Store
import AgentContext.Lib.Keyset
import AgentContext.Lib.Transition
import Mathlib.Data.List.Lex
import Mathlib.Order.Defs.LinearOrder

/-!
# Uploads, attaches and sweeps

Any number of each over one bucket and one catalog, interleaved between their requests.

    upload   `put_verified`: reuse or PUT, then verify; no lock
    attach   one transaction: lock a digest, verify its object, insert its row; then commit or roll back
    sweep    `OrphanSweeper.run`: list, and for each old object: lock its digest, look for a row, delete

A lock is held to the end of its transaction.  Any process may fail between two of its requests (`failUpload`,
`rollback`, `endSweep`, which is also how a sweep ends).
-/

namespace Content

open Keyset Locking

structure Settings where
  codec : Codec
  contentAddressed : Bool
  minAge : Int

/-- `_OBJECT_STORAGE_MEDIA_TYPE`. -/
def objectStorageMediaType : String := "application/octet-stream"

/-! ## Uploads -/

inductive UploadStage where
  | reuse (seen : Option ObjectMetadata)
  | put (again : Bool)
  | created
  | verify (created again : Bool) (seen : Option ObjectMetadata)
deriving DecidableEq, Repr

structure Upload where
  content : List UInt8
  stage : UploadStage
deriving DecidableEq, Repr

/-- How an upload goes on. -/
inductive Progress where
  | next (stage : UploadStage)
  | done (blob : StoredBlob)
  | failed (error : BlobError)
deriving DecidableEq, Repr

section Upload

variable (settings : Settings)

/-- The metadata of what this process would write. -/
def expectedMetadata (content : List UInt8) : ObjectMetadata where
  sha256 := settings.codec.digest content
  compressedBytes := (settings.codec.compress content).length
  uncompressedBytes := content.length
  mediaType := objectStorageMediaType

/-- `_stored_blob`. -/
def storedBlob (metadata : ObjectMetadata) (created : Bool) : StoredBlob where
  sha256 := metadata.sha256
  objectKey := objectKey metadata.sha256
  compressedBytes := metadata.compressedBytes
  uncompressedBytes := metadata.uncompressedBytes
  mediaType := metadata.mediaType
  created := created

/-- The checks of `_verify_existing` on what it read. -/
def proves (content : List UInt8) (metadata : ObjectMetadata) (read : List UInt8) : Bool :=
  metadata.uncompressedBytes = content.length && metadata.mediaType = objectStorageMediaType && read = content

/-- The stage `put_verified` starts with, unless the content is too large. -/
def uploadStart (content : List UInt8) : Option Upload :=
  if settings.codec.maxUncompressedBytes < content.length ∨
      settings.codec.maxCompressedBytes < (settings.codec.compress content).length then none
  else some ⟨content, if settings.contentAddressed then .reuse none else .put false⟩

/-- The next request of `put_verified`, and what it leaves in the store. -/
def uploadStep (store : Store) (now : Int) (upload : Upload) : Store × Progress :=
  let content := upload.content
  let digest := settings.codec.digest content
  let key := objectKey digest
  match upload.stage with
  | .reuse none =>
    match head settings.codec store key digest with
    | .ok seen => (store, .next (.reuse (some seen)))
    | .error .notFound => (store, .next (.put false))
    | .error e => (store, .failed e)
  | .reuse (some seen) =>
    match get settings.codec store key digest seen with
    | .ok read => (store, if proves content seen read then .done (storedBlob seen false) else .failed .integrity)
    | .error .notFound => (store, .next (.put false))
    | .error e => (store, .failed e)
  | .put again =>
    if settings.contentAddressed || (store key).isNone then
      (Function.update store key (some ⟨some (expectedMetadata settings content), settings.codec.compress content, now⟩),
        .next .created)
    else (store, .next (.verify false again none))
  | .created =>
    match head settings.codec store key digest with
    | .ok seen =>
      (store, if seen = expectedMetadata settings content then .done (storedBlob seen true)
        else .next (.verify true true none))
    | .error e => (store, .failed e)
  | .verify created again none =>
    match head settings.codec store key digest with
    | .ok seen => (store, .next (.verify created again (some seen)))
    | .error .notFound => (store, if again then .failed .notFound else .next (.put true))
    | .error e => (store, .failed e)
  | .verify created again (some seen) =>
    match get settings.codec store key digest seen with
    | .ok read => (store, if proves content seen read then .done (storedBlob seen created) else .failed .integrity)
    | .error .notFound => (store, if again then .failed .notFound else .next (.put true))
    | .error e => (store, .failed e)

end Upload

/-! ## Attaches -/

/-- A row of `catalog.content_objects`. -/
structure ContentObjectRow where
  contentSha256 : List Char
  objectKey : List Char
  mediaType : String
  compressedBytes : Nat
  uncompressedBytes : Nat
deriving DecidableEq, Repr

/-- `_PreparedItem`: inline content has no blob. -/
structure PreparedItem where
  contentSha256 : List Char
  storedBlob : Option StoredBlob
deriving DecidableEq, Repr

inductive AttachStage where
  | next
  | locked
  | headed (seen : ObjectMetadata)
  | verified
deriving DecidableEq, Repr

/-- A transaction of `attach`: the digests that are left, the first one at its stage, and the rows it has inserted. -/
structure Attach where
  todo : List (List Char × StoredBlob)
  stage : AttachStage
  rows : List ContentObjectRow
deriving DecidableEq, Repr

/-- `object_items` in the order of the digests. -/
def objectItems (items : List PreparedItem) : List (List Char × StoredBlob) :=
  let blobs := items.filterMap fun item => item.storedBlob.map fun blob => (item.contentSha256, blob)
  (sortedSet (blobs.map (·.1))).filterMap fun digest => blobs.reverse.find? fun entry => entry.1 = digest

def rowOf (digest : List Char) (blob : StoredBlob) : ContentObjectRow :=
  ⟨digest, blob.objectKey, blob.mediaType, blob.compressedBytes, blob.uncompressedBytes⟩

/-! ## Sweeps -/

inductive SweepStage where
  | idle
  | locked (key digest : List Char)
  | absent (key digest : List Char)
  | deleted (key digest : List Char)
deriving DecidableEq, Repr

structure Sweep where
  effectiveCutoff : Int
  dryRun : Bool
  queue : List (List Char × Int)
  stage : SweepStage
deriving DecidableEq, Repr

/-! ## The system -/

inductive Owner where
  | attach (id : Nat)
  | sweep (id : Nat)
deriving DecidableEq, Repr

structure World where
  store : Store
  now : Int
  rows : List ContentObjectRow
  locks : Locks Int Owner
  blobs : List StoredBlob
  uploads : Nat → Option Upload
  attaches : Nat → Option Attach
  sweeps : Nat → Option Sweep

inductive Act where
  | tick (now : Int)
  | beginUpload (id : Nat) (content : List UInt8)
  | upload (id : Nat)
  | failUpload (id : Nat)
  | beginAttach (id : Nat) (items : List PreparedItem)
  | lock (id : Nat)
  | attach (id : Nat)
  | commit (id : Nat)
  | rollback (id : Nat)
  | beginSweep (id : Nat) (cutoff : Int) (dryRun : Bool)
  | list (id : Nat) (keys : List (List Char))
  | sweepNext (id : Nat)
  | check (id : Nat)
  | delete (id : Nat)
  | endSweepOne (id : Nat)
  | endSweep (id : Nat)
deriving DecidableEq, Repr

/-- A bucket with whatever it holds, and an empty catalog. -/
def World.start (store : Store) (now : Int) : World :=
  ⟨store, now, [], Locks.free, [], fun _ => none, fun _ => none, fun _ => none⟩

namespace World

variable (w : World)

def setUpload (id : Nat) (upload : Option Upload) : World := { w with uploads := Function.update w.uploads id upload }

def setAttach (id : Nat) (attach : Option Attach) : World := { w with attaches := Function.update w.attaches id attach }

def setSweep (id : Nat) (sweep : Option Sweep) : World := { w with sweeps := Function.update w.sweeps id sweep }

/-- The end of a transaction. -/
def release (owner : Owner) : World := { w with locks := w.locks.releaseAll owner }

/-- `INSERT … ON CONFLICT DO NOTHING`, as the transaction sees the table. -/
def insertRow (attach : Attach) (row : ContentObjectRow) : List ContentObjectRow :=
  if (w.rows ++ attach.rows).any fun r => r.contentSha256 = row.contentSha256 then attach.rows else attach.rows ++ [row]

end World

section Step

variable (settings : Settings)

/-- What `attach` does with the first digest once it is locked: another stage, or none where it raises. -/
def attachStep (w : World) (attach : Attach) : Option Attach :=
  match attach.todo with
  | [] => none
  | (digest, blob) :: rest =>
    match attach.stage with
    | .next => none
    | .locked =>
      match head settings.codec w.store blob.objectKey digest with
      | .ok seen => some { attach with stage := .headed seen }
      | .error _ => none
    | .headed seen =>
      match get settings.codec w.store blob.objectKey digest seen with
      | .ok _ => some { attach with stage := .verified }
      | .error _ => none
    | .verified => some ⟨rest, .next, w.insertRow attach (rowOf digest blob)⟩

/-- The next object of a sweep: nothing to do, or a digest to lock. -/
def sweepNext (sweep : Sweep) : Option (Sweep × Option (List Char)) :=
  match sweep.stage, sweep.queue with
  | .idle, (key, lastModified) :: queue =>
    match parseCanonicalKey key with
    | none => some ({ sweep with queue }, none)
    | some digest =>
      if sweep.effectiveCutoff ≤ lastModified then some ({ sweep with queue }, none)
      else some ({ sweep with queue, stage := .locked key digest }, some digest)
  | _, _ => none

def step (w : World) : Act → Option World
  | .tick now => if w.now ≤ now then some { w with now } else none
  | .beginUpload id content =>
    if (w.uploads id).isSome then none
    else (uploadStart settings content).map fun upload => w.setUpload id (some upload)
  | .upload id =>
    (w.uploads id).map fun upload =>
      match uploadStep settings w.store w.now upload with
      | (store, .next stage) => ({ w with store }).setUpload id (some { upload with stage })
      | (store, .done blob) => ({ w with store, blobs := w.blobs ++ [blob] }).setUpload id none
      | (store, .failed _) => ({ w with store }).setUpload id none
  | .failUpload id => (w.uploads id).map fun _ => w.setUpload id none
  | .beginAttach id items =>
    if (w.attaches id).isNone && items.all fun item =>
        item.storedBlob.all fun blob => w.blobs.contains blob && blob.sha256 = item.contentSha256 then
      some (w.setAttach id (some ⟨objectItems items, .next, []⟩))
    else none
  | .lock id =>
    match w.attaches id with
    | some attach =>
      match attach.stage, attach.todo with
      | .next, (digest, _) :: _ =>
        (w.locks.acquire (lockKey digest) (.attach id)).map fun locks =>
          ({ w with locks }).setAttach id (some { attach with stage := .locked })
      | _, _ => none
    | none => none
  | .attach id =>
    match w.attaches id with
    | some attach =>
      if attach.stage = .next then none
      else
        match attachStep settings w attach with
        | some attach' => some (w.setAttach id (some attach'))
        | none => some ((w.setAttach id none).release (.attach id))
    | none => none
  | .commit id =>
    match w.attaches id with
    | some attach =>
      if attach.stage = .next ∧ attach.todo = [] then
        some ((({ w with rows := w.rows ++ attach.rows }).setAttach id none).release (.attach id))
      else none
    | none => none
  | .rollback id => (w.attaches id).map fun _ => (w.setAttach id none).release (.attach id)
  | .beginSweep id cutoff dryRun =>
    if (w.sweeps id).isSome then none
    else some (w.setSweep id (some ⟨min cutoff (w.now - settings.minAge), dryRun, [], .idle⟩))
  | .list id keys =>
    match w.sweeps id with
    | some sweep =>
      if sweep.stage = .idle ∧ sweep.queue = [] then
        let queue := keys.filterMap fun key => (w.store key).map fun object => (key, object.lastModified)
        some (w.setSweep id (some { sweep with queue }))
      else none
    | none => none
  | .sweepNext id =>
    match w.sweeps id with
    | some sweep =>
      match sweepNext sweep with
      | some (sweep', none) => some (w.setSweep id (some sweep'))
      | some (sweep', some digest) =>
        (w.locks.acquire (lockKey digest) (.sweep id)).map fun locks => ({ w with locks }).setSweep id (some sweep')
      | none => none
    | none => none
  | .check id =>
    match w.sweeps id with
    | some sweep =>
      match sweep.stage with
      | .locked key digest =>
        if (w.rows.any fun row => row.contentSha256 = digest) || sweep.dryRun then
          some ((w.setSweep id (some { sweep with stage := .idle })).release (.sweep id))
        else some (w.setSweep id (some { sweep with stage := .absent key digest }))
      | _ => none
    | none => none
  | .delete id =>
    match w.sweeps id with
    | some sweep =>
      match sweep.stage with
      | .absent key digest =>
        some (({ w with store := Function.update w.store key none }).setSweep id
          (some { sweep with stage := .deleted key digest }))
      | _ => none
    | none => none
  | .endSweepOne id =>
    match w.sweeps id with
    | some sweep =>
      match sweep.stage with
      | .deleted _ _ => some ((w.setSweep id (some { sweep with stage := .idle })).release (.sweep id))
      | _ => none
    | none => none
  | .endSweep id => (w.sweeps id).map fun _ => (w.setSweep id none).release (.sweep id)

end Step

end Content
