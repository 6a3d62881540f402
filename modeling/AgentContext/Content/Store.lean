import AgentContext.Lib.Locks
import Mathlib.Algebra.Group.Int.Defs
import Mathlib.Data.String.Basic

/-!
# The object store

Content-addressed objects, their keys, and the two requests of a verified read.

    objectKey            sha256/aa/bb/<digest>.zst
    parseCanonicalKey    the digest of such a key, of no other
    head, get            what a verified read asks for, one after the other
    lockKey              the digest's lock: its first four bytes

A store maps a key to the object it holds.  `Codec` stands for the hash and the compression.
-/

namespace Content

/-! ## Keys -/

/-- `_object_key`. -/
def objectKey (digest : List Char) : List Char :=
  "sha256/".toList ++ digest.take 2 ++ '/' :: (digest.drop 2).take 2 ++ '/' :: digest ++ ".zst".toList

def isHex (c : Char) : Bool := ('0' ≤ c && c ≤ '9') || ('a' ≤ c && c ≤ 'f')

/-- `_parse_canonical_key` and `_validate_key`. -/
def parseCanonicalKey (key : List Char) : Option (List Char) :=
  let digest := (key.drop 13).take 64
  if digest.length = 64 ∧ digest.all isHex ∧ key = objectKey digest then some digest else none

def hexValue (c : Char) : Nat := if '0' ≤ c ∧ c ≤ '9' then c.toNat - '0'.toNat else c.toNat - 'a'.toNat + 10

/-- `content_digest_lock_key`: the first four bytes as a signed number. -/
def lockKey (digest : List Char) : Int :=
  let n := (digest.take 8).foldl (fun n c => 16 * n + hexValue c) 0
  if n < 2 ^ 31 then n else (n : Int) - 2 ^ 32

/-! ## Objects -/

/-- `_ObjectMetadata`. -/
structure ObjectMetadata where
  sha256 : List Char
  compressedBytes : Nat
  uncompressedBytes : Nat
  mediaType : String
deriving DecidableEq, Repr

/-- An object of the bucket: its metadata where they are well-formed, and its bytes. -/
structure Object where
  metadata : Option ObjectMetadata
  body : List UInt8
  lastModified : Int
deriving DecidableEq, Repr

/-- `StoredBlob`. -/
structure StoredBlob where
  sha256 : List Char
  objectKey : List Char
  compressedBytes : Nat
  uncompressedBytes : Nat
  mediaType : String
  created : Bool
deriving DecidableEq, Repr

/-- SHA-256 in hexadecimal, Zstandard, and the size limits. -/
structure Codec where
  digest : List UInt8 → List Char
  compress : List UInt8 → List UInt8
  decompress : List UInt8 → Option (List UInt8)
  maxCompressedBytes : Nat
  maxUncompressedBytes : Nat

inductive BlobError where
  | notFound
  | integrity
  | inputLimit
deriving DecidableEq, Repr

abbrev Store : Type := List Char → Option Object

section Read

variable (codec : Codec) (store : Store)

/-- `_validate_response`. -/
def validateResponse (object : Object) (sha256 : List Char) : Except BlobError ObjectMetadata :=
  match object.metadata with
  | none => .error .integrity
  | some metadata =>
    if metadata.sha256 = sha256 ∧ metadata.compressedBytes ≤ codec.maxCompressedBytes ∧
        metadata.uncompressedBytes ≤ codec.maxUncompressedBytes ∧ metadata.mediaType ≠ "" then
      .ok metadata
    else .error .integrity

/-- The first request of `_read_verified`. -/
def head (key sha256 : List Char) : Except BlobError ObjectMetadata :=
  match parseCanonicalKey key with
  | none => .error .integrity
  | some digest =>
    if sha256 ≠ digest then .error .integrity
    else
      match store key with
      | none => .error .notFound
      | some object => validateResponse codec object sha256

/-- The second request: the bytes, proven by their checksum, lengths and digest. -/
def get (key sha256 : List Char) (seen : ObjectMetadata) : Except BlobError (List UInt8) :=
  match store key with
  | none => .error .notFound
  | some object =>
    match validateResponse codec object sha256 with
    | .error e => .error e
    | .ok metadata =>
      if metadata ≠ seen then .error .integrity
      else if object.body.length ≠ metadata.compressedBytes then .error .integrity
      else
        match codec.decompress object.body with
        | none => .error .integrity
        | some content =>
          if content.length = metadata.uncompressedBytes ∧ content.length ≤ codec.maxUncompressedBytes ∧
              codec.digest content = sha256 then
            .ok content
          else .error .integrity

end Read

variable {codec : Codec} {store : Store} {key sha256 : List Char}

/-- What a verified read asks for has the key of its digest. -/
theorem head_ok {metadata : ObjectMetadata} (h : head codec store key sha256 = .ok metadata) :
    parseCanonicalKey key = some sha256 := by
  unfold head at h
  split at h
  · cases h
  · rename_i digest hparse
    split at h
    · cases h
    · rename_i hsame
      rw [hparse, not_not.1 hsame]

theorem get_ok {seen : ObjectMetadata} {content : List UInt8} (h : get codec store key sha256 seen = .ok content) :
    (store key).isSome = true := by
  unfold get at h
  cases hstore : store key with
  | none =>
    rw [hstore] at h
    cases h
  | some object => rfl

end Content
