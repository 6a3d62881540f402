import AgentContext.Lib.Base64
import Mathlib.Data.String.Basic

/-!
# Cursors

`CursorCodec`: a cursor is `ctx1.<payload>.<signature>`, both parts unpadded base64url.

    payload     canonical JSON of the tool, the query digest, the position, the snapshot and the expiry
    decode      signature, fields, tool and digest, expiry, snapshot, in this order

The signature (HMAC-SHA256 under the server's key) and the JSON reader are the codec's fields.
-/

namespace Retrieval

/-- A JSON value; the keys of an object are distinct, and a float is `none` when it is not a number. -/
inductive Json
  | null
  | bool (b : Bool)
  | int (n : Int)
  | float (value : Option Rat)
  | str (text : String)
  | arr (items : List Json)
  | obj (members : List (String × Json))

/-- `value == 1`. -/
def Json.isOne : Json → Bool
  | .int n => n = 1
  | .bool b => b
  | .float (some value) => value = 1
  | _ => false

inductive CursorError
  | invalid (message : String)
  | expired (message : String)
  | mismatch (message : String)
  | stale (message : String)
  | valueError (message : String)
  | typeError
deriving DecidableEq, Repr

structure CursorPosition where
  position : Int
  asOfEventId : String
deriving DecidableEq, Repr

/-- The payload `v = 1, t, q, p, a, e`. -/
structure CursorFields where
  tool : String
  digest : String
  position : Int
  asOfEventId : String
  expires : Int
deriving DecidableEq, Repr

structure CursorCodec where
  /-- `_sign`. -/
  sign : List UInt8 → List UInt8
  /-- `json.loads`. -/
  loads : List UInt8 → Option Json
  /-- In microseconds. -/
  ttl : Nat

/-! ## Canonical JSON -/

def hexDigit (n : Nat) : Char := "0123456789abcdef".toList.getD n '0'

def unicodeEscape (n : Nat) : List Char :=
  '\x5c' :: 'u' :: [n / 4096 % 16, n / 256 % 16, n / 16 % 16, n % 16].map hexDigit

/-- A character of a string under `ensure_ascii`. -/
def escapeChar (c : Char) : List Char :=
  if c = '\x22' then ['\x5c', '\x22']
  else if c = '\x5c' then ['\x5c', '\x5c']
  else if c = '\n' then ['\x5c', 'n']
  else if c = '\r' then ['\x5c', 'r']
  else if c = '\t' then ['\x5c', 't']
  else if c = '\x0c' then ['\x5c', 'f']
  else if c = '\x08' then ['\x5c', 'b']
  else if 32 ≤ c.toNat ∧ c.toNat ≤ 126 then [c]
  else if c.toNat < 65536 then unicodeEscape c.toNat
  else unicodeEscape (55296 + (c.toNat - 65536) / 1024) ++ unicodeEscape (56320 + (c.toNat - 65536) % 1024)

def dumpString (text : String) : List Char := '\x22' :: (text.toList.flatMap escapeChar ++ ['\x22'])

/-- `_canonical` of the payload: sorted keys, no spaces. -/
def canonical (fields : CursorFields) : List UInt8 :=
  ("\x7b\x22a\x22:".toList ++ dumpString fields.asOfEventId ++ ",\x22e\x22:".toList ++ (toString fields.expires).toList ++
    ",\x22p\x22:".toList ++ (toString fields.position).toList ++ ",\x22q\x22:".toList ++ dumpString fields.digest ++
    ",\x22t\x22:".toList ++ dumpString fields.tool ++ ",\x22v\x22:1\x7d".toList).map fun c => UInt8.ofNat c.toNat

/-- The payload as a JSON value. -/
def CursorFields.object (fields : CursorFields) : Json :=
  .obj [("a", .str fields.asOfEventId), ("e", .int fields.expires), ("p", .int fields.position),
    ("q", .str fields.digest), ("t", .str fields.tool), ("v", .int 1)]

/-! ## The codec -/

def cursorPrefix : List Char := "ctx1".toList

/-- `MAX_CURSOR_CHARS`. -/
def maxCursorChars : Nat := 1024

/-- `_FIELDS`. -/
def fieldNames : List String := ["v", "t", "q", "p", "a", "e"]

def malformed : CursorError := .invalid "cursor is malformed"

/-- `str.partition`. -/
def partition (c : Char) (text : List Char) : List Char × List Char :=
  (text.takeWhile (· ≠ c), (text.dropWhile (· ≠ c)).drop 1)

/-- `_b64`. -/
def b64 (data : List UInt8) : List Char := Base64.encode data

/-- `_unb64`. -/
def unb64 (text : List Char) : Except CursorError (List UInt8) :=
  if text.all (·.toNat < 128) then
    match Base64.decode (text ++ Base64.padding text) with
    | some data => .ok data
    | none => .error malformed
  else .error malformed

/-- Whole seconds since the epoch. -/
def timestamp (micros : Nat) : Int := micros / 1000000

/-- `encode`. -/
def CursorCodec.encode (codec : CursorCodec) (tool digest : String) (position : Int) (asOfEventId : String) (now : Nat) :
    Except CursorError String :=
  if position < 0 then .error (.valueError "cursor position must not be negative")
  else
    let payload := canonical ⟨tool, digest, position, asOfEventId, timestamp (now + codec.ttl)⟩
    .ok (String.ofList (cursorPrefix ++ '.' :: (b64 payload ++ '.' :: b64 (codec.sign payload))))

/-- `_fields`. -/
def CursorCodec.fields (codec : CursorCodec) (payload : List UInt8) : Except CursorError CursorFields :=
  match codec.loads payload with
  | some (.obj members) =>
    if members.all (fun m => fieldNames.contains m.1) && fieldNames.all (fun name => members.any (·.1 = name)) then
      match members.lookup "v", members.lookup "t", members.lookup "q", members.lookup "a", members.lookup "p",
        members.lookup "e" with
      | some v, some (.str t), some (.str q), some (.str a), some (.int p), some (.int e) =>
        if v.isOne && 0 ≤ p then .ok ⟨t, q, p, a, e⟩ else .error malformed
      | _, _, _, _, _, _ => .error malformed
    else .error malformed
  | _ => .error malformed

def isAscii (text : String) : Bool := text.toList.all (·.toNat < 128)

/-- The checks of `decode` on a verified payload; `compare_digest` raises on strings outside ASCII. -/
def CursorFields.check (fields : CursorFields) (tool digest asOfEventId : String) (now : Nat) :
    Except CursorError CursorPosition :=
  if fields.tool ≠ tool then .error (.mismatch "cursor was issued for another query")
  else if !(isAscii fields.digest && isAscii digest) then .error .typeError
  else if fields.digest ≠ digest then .error (.mismatch "cursor was issued for another query")
  else if fields.expires ≤ timestamp now then .error (.expired "cursor has expired")
  else if fields.asOfEventId ≠ asOfEventId then .error (.stale "the projection changed since the cursor was issued")
  else .ok ⟨fields.position, fields.asOfEventId⟩

/-- `decode`. -/
def CursorCodec.decode (codec : CursorCodec) (cursor tool digest asOfEventId : String) (now : Nat) :
    Except CursorError CursorPosition :=
  if maxCursorChars < cursor.length then .error malformed
  else
    let rest := (partition '.' cursor.toList).2
    let encoded := (partition '.' rest).1
    let signature := (partition '.' rest).2
    if (partition '.' cursor.toList).1 ≠ cursorPrefix ∨ encoded = [] ∨ signature = [] then .error malformed
    else do
      let payload ← unb64 encoded
      let signed ← unb64 signature
      if signed ≠ codec.sign payload then .error (.invalid "cursor signature does not verify")
      else
        let fields ← codec.fields payload
        fields.check tool digest asOfEventId now

/-! ## A cursor that was issued -/

theorem partition_append {c : Char} {before after : List Char} (h : c ∉ before) :
    partition c (before ++ c :: after) = (before, after) := by
  have hne : ∀ d ∈ before, decide (d ≠ c) = true := by
    intro d hd
    have : d ≠ c := fun heq => h (heq ▸ hd)
    simpa using this
  unfold partition
  rw [List.takeWhile_append_of_pos hne, List.dropWhile_append_of_pos hne]
  simp

theorem dot_not_mem_b64 (data : List UInt8) : '.' ∉ b64 data := by
  intro h
  have hmem := Base64.encode_alphabet data _ h
  exact absurd hmem (by decide +kernel)

theorem unb64_b64 (data : List UInt8) : unb64 (b64 data) = .ok data := by
  have hall : (b64 data).all (·.toNat < 128) = true := by
    rw [List.all_eq_true]
    intro c hc
    have hascii : Base64.alphabet.all (·.toNat < 128) = true := rfl
    exact List.all_eq_true.1 hascii c (Base64.encode_alphabet data c hc)
  rw [unb64, if_pos hall, b64, Base64.decode_encode]

variable {codec : CursorCodec} {fields : CursorFields}

theorem fields_object {payload : List UInt8} (hloads : codec.loads payload = some fields.object)
    (hposition : 0 ≤ fields.position) : codec.fields payload = .ok fields := by
  have hkeys : (["a", "e", "p", "q", "t", "v"].all fieldNames.contains) = true := rfl
  simp [CursorCodec.fields, hloads, CursorFields.object, fieldNames, Json.isOne, hposition, List.lookup_cons]

/-- What becomes of a cursor whose parts are spelled as `_b64` spells them. -/
theorem decode_spelled {cursor : String} {payload signature : List UInt8}
    (h : cursor.toList = cursorPrefix ++ '.' :: (b64 payload ++ '.' :: b64 signature)) (tool digest asOfEventId : String)
    (now : Nat) : codec.decode cursor tool digest asOfEventId now =
      if maxCursorChars < cursor.length ∨ b64 payload = [] ∨ b64 signature = [] then .error malformed
      else if signature ≠ codec.sign payload then .error (.invalid "cursor signature does not verify")
      else (codec.fields payload).bind fun fields => fields.check tool digest asOfEventId now := by
  have hdot : '.' ∉ cursorPrefix := by decide +kernel
  unfold CursorCodec.decode
  rw [h, partition_append hdot]
  simp only [partition_append (dot_not_mem_b64 _), unb64_b64]
  by_cases hlong : maxCursorChars < cursor.length
  · rw [if_pos hlong, if_pos (.inl hlong)]
  · rw [if_neg hlong]
    by_cases hempty : b64 payload = [] ∨ b64 signature = []
    · rw [if_pos (.inr hempty), if_pos (.inr hempty)]
    · rw [if_neg (fun h => hempty (h.resolve_left fun hne => hne rfl)), if_neg (fun h => hempty (h.resolve_left hlong))]
      rfl

/-- **An issued cursor comes to the checks with the fields it was issued with**, or it is refused as malformed. -/
theorem decode_issued {tool digest asOfEventId cursor : String} {position : Int} {now : Nat}
    (h : codec.encode tool digest position asOfEventId now = .ok cursor)
    (hloads : codec.loads (canonical ⟨tool, digest, position, asOfEventId, timestamp (now + codec.ttl)⟩) =
      some (CursorFields.object ⟨tool, digest, position, asOfEventId, timestamp (now + codec.ttl)⟩))
    (tool' digest' asOfEventId' : String) (now' : Nat) :
    codec.decode cursor tool' digest' asOfEventId' now' = .error malformed ∨
      codec.decode cursor tool' digest' asOfEventId' now' =
        CursorFields.check ⟨tool, digest, position, asOfEventId, timestamp (now + codec.ttl)⟩ tool' digest' asOfEventId'
          now' := by
  unfold CursorCodec.encode at h
  split at h
  · cases h
  · next hposition =>
    obtain rfl := Except.ok.inj h
    rw [decode_spelled (String.toList_ofList ..), fields_object hloads (not_lt.1 hposition), if_neg (not_not.2 rfl)]
    split
    · exact .inl rfl
    · exact .inr rfl

/-- A cursor is accepted at the snapshot it was issued at only. -/
theorem check_ok {tool digest asOfEventId : String} {now : Nat} {position : CursorPosition}
    (h : fields.check tool digest asOfEventId now = .ok position) :
    fields.tool = tool ∧ fields.digest = digest ∧ timestamp now < fields.expires ∧ fields.asOfEventId = asOfEventId ∧
      position = ⟨fields.position, fields.asOfEventId⟩ := by
  unfold CursorFields.check at h
  split at h
  · cases h
  next htool =>
  split at h
  · cases h
  split at h
  · cases h
  next hdigest =>
  split at h
  · cases h
  next hexpires =>
  split at h
  · cases h
  next hsnapshot =>
  exact ⟨not_not.1 htool, not_not.1 hdigest, not_le.1 hexpires, not_not.1 hsnapshot, (Except.ok.inj h).symm⟩

end Retrieval
