import AgentContext.Lib.Fallible
import Mathlib.Data.List.Basic
import Mathlib.Data.Nat.Bitwise

/-!
# The protobuf wire format

A message is a row of fields, each a tag and what the wire type of the tag says: a varint, four or eight bytes, or a
length and so many bytes.  Which fields hold a message, and of which kind, is a table `messageAt`.

    field       one field at the start of some bytes
    read        the reading of a message with the messages inside of it; a `Fault` where the bytes have none
    varints     the scalars of a packed payload
    window      the bytes between two positions, for a reader that counts them
    occurrences every field of a reading with the kind of its message, `messages` every message with those around it

A varint has at most ten bytes, and its value is not cut to a machine word.  A known field may come with any wire type;
it holds a message where its payload is delimited.
-/

namespace AgentContext.Wire

open Fallible

/-- Why bytes have no reading. -/
inductive Fault where
  | truncated
  | overlong
  /-- a group, or a reserved wire type -/
  | group
deriving DecidableEq, Repr

/-- What a field holds. -/
inductive Payload where
  | varint (n : Nat)
  | fixed64 (bytes : List UInt8)
  | delimited (bytes : List UInt8)
  | fixed32 (bytes : List UInt8)
deriving DecidableEq, Repr

def Payload.wireType : Payload → Nat
  | .varint _ => 0
  | .fixed64 _ => 1
  | .delimited _ => 2
  | .fixed32 _ => 5

/-! ## One field -/

/-- A varint of at most `left` bytes, lowest seven bits first, and the bytes after it. -/
def varint : Nat → List UInt8 → Except Fault (Nat × List UInt8)
  | _, [] => .error .truncated
  | 0, _ :: _ => .error .overlong
  | left + 1, byte :: rest =>
    if byte.toNat < 128 then .ok (byte.toNat, rest)
    else do
      let (n, rest) ← varint left rest
      .ok (byte.toNat % 128 + 128 * n, rest)

/-- So many bytes, and those after them. -/
def bytesOf (count : Nat) (bytes : List UInt8) : Except Fault (List UInt8 × List UInt8) :=
  if bytes.length < count then .error .truncated else .ok (bytes.take count, bytes.drop count)

def payload (wireType : Nat) (bytes : List UInt8) : Except Fault (Payload × List UInt8) :=
  match wireType with
  | 0 => do
    let (n, rest) ← varint 10 bytes
    .ok (.varint n, rest)
  | 1 => do
    let (content, rest) ← bytesOf 8 bytes
    .ok (.fixed64 content, rest)
  | 2 => do
    let (length, bytes) ← varint 10 bytes
    let (content, rest) ← bytesOf length bytes
    .ok (.delimited content, rest)
  | 5 => do
    let (content, rest) ← bytesOf 4 bytes
    .ok (.fixed32 content, rest)
  | _ => .error .group

/-- The number and the payload of the first field, and the bytes after it. -/
def field (bytes : List UInt8) : Except Fault (Nat × Payload × List UInt8) := do
  let (tag, bytes) ← varint 10 bytes
  let (payload, rest) ← payload (tag % 8) bytes
  .ok (tag / 8, payload, rest)

section Field

variable {left length tag wireType : Nat} {bytes rest content : List UInt8}

theorem varint_lt {n : Nat} (h : varint left bytes = .ok (n, rest)) : rest.length < bytes.length := by
  induction left generalizing bytes n with
  | zero => cases bytes <;> cases h
  | succ left ih =>
    cases bytes with
    | nil => cases h
    | cons byte later =>
      rw [varint] at h
      split at h
      · cases h
        exact Nat.lt_succ_self _
      · obtain ⟨⟨m, after⟩, hread, h⟩ := bind_eq_ok.1 h
        cases h
        exact Nat.lt_succ_of_lt (ih hread)

theorem bytesOf_eq_ok : bytesOf length bytes = .ok (content, rest) ↔
    length ≤ bytes.length ∧ content = bytes.take length ∧ rest = bytes.drop length := by
  unfold bytesOf
  split
  · next h =>
    constructor
    · intro h
      cases h
    · intro h
      omega
  · next h =>
    constructor
    · intro h
      cases h
      exact ⟨by omega, rfl, rfl⟩
    · rintro ⟨-, rfl, rfl⟩
      rfl

theorem payload_le {p : Payload} (h : payload wireType bytes = .ok (p, rest)) :
    rest.length ≤ bytes.length ∧ ∀ content, p = .delimited content → content.length ≤ bytes.length := by
  unfold payload at h
  split at h
  · obtain ⟨⟨n, after⟩, hread, h⟩ := bind_eq_ok.1 h
    cases h
    exact ⟨Nat.le_of_lt (varint_lt hread), fun _ h => by cases h⟩
  · obtain ⟨⟨taken, after⟩, hread, h⟩ := bind_eq_ok.1 h
    cases h
    obtain ⟨-, -, rfl⟩ := bytesOf_eq_ok.1 hread
    exact ⟨by simp, fun _ h => by cases h⟩
  · obtain ⟨⟨n, middle⟩, hread, h⟩ := bind_eq_ok.1 h
    obtain ⟨⟨taken, after⟩, htake, h⟩ := bind_eq_ok.1 h
    cases h
    obtain ⟨-, rfl, rfl⟩ := bytesOf_eq_ok.1 htake
    have := varint_lt hread
    refine ⟨by rw [List.length_drop]; omega, ?_⟩
    rintro _ ⟨⟩
    rw [List.length_take]
    omega
  · obtain ⟨⟨taken, after⟩, hread, h⟩ := bind_eq_ok.1 h
    cases h
    obtain ⟨-, -, rfl⟩ := bytesOf_eq_ok.1 hread
    exact ⟨by simp, fun _ h => by cases h⟩
  · cases h

theorem field_lt {number : Nat} {p : Payload} (h : field bytes = .ok (number, p, rest)) :
    rest.length < bytes.length ∧ ∀ content, p = .delimited content → content.length < bytes.length := by
  obtain ⟨⟨tag, middle⟩, htag, h⟩ := bind_eq_ok.1 h
  obtain ⟨⟨q, after⟩, hpayload, h⟩ := bind_eq_ok.1 h
  cases h
  have hlt := varint_lt htag
  obtain ⟨hle, hcontent⟩ := payload_le hpayload
  exact ⟨by omega, fun content h => Nat.lt_of_le_of_lt (hcontent content h) hlt⟩

theorem field_nil {r : Nat × Payload × List UInt8} : field [] ≠ .ok r := nofun

end Field

/-! ## Packed scalars -/

/-- The varints of a packed payload, as far as they go. -/
def varints (bytes : List UInt8) : List Nat :=
  match hread : varint 10 bytes with
  | .error _ => []
  | .ok (n, rest) =>
    have := varint_lt hread
    n :: varints rest
termination_by bytes.length

section Varints

variable {left n : Nat} {bytes rest : List UInt8}

theorem varint_ends (h : varint left bytes = .ok (n, rest)) :
    rest.countP (·.toNat < 128) + 1 ≤ bytes.countP (·.toNat < 128) := by
  induction left generalizing bytes n with
  | zero => cases bytes <;> cases h
  | succ left ih =>
    cases bytes with
    | nil => cases h
    | cons byte later =>
      rw [varint] at h
      split at h
      · next hlast =>
        cases h
        rw [List.countP_cons_of_pos (by simpa using hlast)]
      · next hmore =>
        obtain ⟨⟨m, after⟩, hread, h⟩ := bind_eq_ok.1 h
        cases h
        rw [List.countP_cons_of_neg (by simpa using hmore)]
        exact ih hread

theorem varints_length_le : (varints bytes).length ≤ bytes.countP (·.toNat < 128) := by
  induction bytes using varints.induct with
  | case1 bytes e hread =>
    rw [varints]
    split
    · exact Nat.zero_le _
    · next h => rw [hread] at h; cases h
  | case2 bytes n rest hread _ ih =>
    rw [varints]
    split
    · next h => rw [hread] at h; cases h
    · next h =>
      rw [hread] at h
      cases h
      have := varint_ends hread
      rw [List.length_cons]
      omega

end Varints

/-! ## Windows -/

/-- The bytes between two positions. -/
def window (data : List UInt8) (position stop : Nat) : List UInt8 := (data.take stop).drop position

section Window

variable {data : List UInt8} {position stop n shift result byte m : Nat}

theorem window_nil (h : stop ≤ position) : window data position stop = [] :=
  List.drop_eq_nil_of_le (by rw [List.length_take]; omega)

theorem window_length (hstop : stop ≤ data.length) : (window data position stop).length = stop - position := by
  rw [window, List.length_drop, List.length_take, Nat.min_eq_left hstop]

theorem window_drop : (window data position stop).drop n = window data (position + n) stop := List.drop_drop

theorem window_take (h : position + n ≤ stop) : (window data position stop).take n = window data position (position + n) := by
  rw [window, window, List.take_drop, List.take_take, Nat.min_eq_left h]

theorem window_cons {b : UInt8} (hlt : position < stop) (h : data[position]? = some b) :
    window data position stop = b :: window data (position + 1) stop := by
  obtain ⟨hroom, hget⟩ := List.getElem?_eq_some_iff.1 h
  have hlong : position < (data.take stop).length := by
    rw [List.length_take]
    omega
  rw [window, List.drop_eq_getElem_cons hlong, List.getElem_take, hget, window]

theorem bytesOf_window (hstop : stop ≤ data.length) (h : position + n ≤ stop) :
    bytesOf n (window data position stop) = .ok (window data position (position + n), window data (position + n) stop) :=
  bytesOf_eq_ok.2 ⟨by rw [window_length hstop]; omega, (window_take h).symm, window_drop.symm⟩

theorem payload_varint {p : Nat} (h : varint 10 (window data position stop) = .ok (n, window data p stop)) :
    payload 0 (window data position stop) = .ok (.varint n, window data p stop) := by
  rw [payload, h]
  rfl

theorem payload_fixed64 (hstop : stop ≤ data.length) (h : position + 8 ≤ stop) :
    payload 1 (window data position stop) =
      .ok (.fixed64 (window data position (position + 8)), window data (position + 8) stop) := by
  rw [payload, bytesOf_window hstop h]
  rfl

theorem payload_fixed32 (hstop : stop ≤ data.length) (h : position + 4 ≤ stop) :
    payload 5 (window data position stop) =
      .ok (.fixed32 (window data position (position + 4)), window data (position + 4) stop) := by
  rw [payload, bytesOf_window hstop h]
  rfl

theorem payload_delimited {p : Nat} (hstop : stop ≤ data.length)
    (hlength : varint 10 (window data position stop) = .ok (n, window data p stop)) (h : p + n ≤ stop) :
    payload 2 (window data position stop) = .ok (.delimited (window data p (p + n)), window data (p + n) stop) := by
  rw [payload, hlength, ok_bind]
  dsimp only
  rw [bytesOf_window hstop h]
  rfl

theorem field_window {tag p q : Nat} {content : Payload}
    (htag : varint 10 (window data position stop) = .ok (tag, window data p stop))
    (hpayload : payload (tag &&& 7) (window data p stop) = .ok (content, window data q stop)) :
    field (window data position stop) = .ok (tag >>> 3, content, window data q stop) := by
  have hmod : tag &&& 7 = tag % 8 := Nat.and_two_pow_sub_one_eq_mod tag 3
  have hdiv : tag >>> 3 = tag / 8 := Nat.shiftRight_eq_div_pow tag 3
  rw [field, htag, ok_bind]
  dsimp only
  rw [← hmod, hpayload, hdiv]
  rfl

/-- Seven bits more, above those read. -/
theorem bits_append (hresult : result < 2 ^ shift) :
    result ||| (byte &&& 0x7F) <<< shift = result + byte % 128 * 2 ^ shift := by
  have hmod : byte &&& 0x7F = byte % 128 := Nat.and_two_pow_sub_one_eq_mod byte 7
  rw [hmod, Nat.shiftLeft_eq, Nat.lor_comm, Nat.mul_comm, ← Nat.two_pow_add_eq_or_of_lt hresult, Nat.add_comm]

theorem bits_lt (hresult : result < 2 ^ shift) : result + byte % 128 * 2 ^ shift < 2 ^ (shift + 7) := by
  have hpow : (2 : Nat) ^ (shift + 7) = 128 * 2 ^ shift := by rw [Nat.pow_add, Nat.mul_comm]
  have hlow : byte % 128 < 128 := Nat.mod_lt _ (by omega)
  have hle : byte % 128 * 2 ^ shift ≤ 127 * 2 ^ shift := Nat.mul_le_mul_right _ (by omega)
  omega

theorem bits_assoc : result + byte % 128 * 2 ^ shift + m * 2 ^ (shift + 7) = result + (byte % 128 + 128 * m) * 2 ^ shift := by
  have hpow : m * 2 ^ (shift + 7) = 128 * m * 2 ^ shift := by
    rw [Nat.pow_add, Nat.mul_left_comm, Nat.mul_comm, Nat.mul_comm m]
  rw [hpow, Nat.add_mul, Nat.add_assoc]

end Window

/-! ## Messages -/

variable {κ : Type}

/-- The fields of a message, in their order, with the messages that they hold. -/
inductive Fields (κ : Type) where
  | done
  | value (number : Nat) (payload : Payload) (rest : Fields κ)
  | message (number : Nat) (child : κ) (inner rest : Fields κ)
deriving DecidableEq, Repr

def read (messageAt : κ → Nat → Option κ) (kind : κ) (bytes : List UInt8) : Except Fault (Fields κ) :=
  if bytes = [] then .ok .done
  else
    match hfield : field bytes with
    | .error e => .error e
    | .ok (number, .delimited content, rest) =>
      have := (field_lt hfield).1
      have := (field_lt hfield).2 content rfl
      match messageAt kind number with
      | some child => do
        let inner ← read messageAt child content
        let later ← read messageAt kind rest
        .ok (.message number child inner later)
      | none => do
        let later ← read messageAt kind rest
        .ok (.value number (.delimited content) later)
    | .ok (number, p, rest) =>
      have := (field_lt hfield).1
      do
        let later ← read messageAt kind rest
        .ok (.value number p later)
termination_by bytes.length

section Read

variable {messageAt : κ → Nat → Option κ} {kind child : κ} {number : Nat} {p : Payload} {bytes content rest : List UInt8}
  {inner later : Fields κ}

theorem read_nil : read messageAt kind [] = .ok .done := by rw [read, if_pos rfl]

theorem read_message (hfield : field bytes = .ok (number, .delimited content, rest)) (hchild : messageAt kind number = some child)
    (hinner : read messageAt child content = .ok inner) (hlater : read messageAt kind rest = .ok later) :
    read messageAt kind bytes = .ok (.message number child inner later) := by
  have hne : bytes ≠ [] := by
    rintro rfl
    exact field_nil hfield
  rw [read, if_neg hne]
  split
  · next h => rw [hfield] at h; cases h
  · next h =>
    rw [hfield] at h
    cases h
    rw [hchild]
    dsimp only
    rw [hinner, ok_bind, hlater, ok_bind]
  · next p' _ hp h =>
    rw [hfield] at h
    cases h
    exact absurd rfl (hp content)

theorem read_value (hfield : field bytes = .ok (number, p, rest)) (hvalue : messageAt kind number = none ∨ p.wireType ≠ 2)
    (hlater : read messageAt kind rest = .ok later) : read messageAt kind bytes = .ok (.value number p later) := by
  have hne : bytes ≠ [] := by
    rintro rfl
    exact field_nil hfield
  rw [read, if_neg hne]
  split
  · next h => rw [hfield] at h; cases h
  · next h =>
    rw [hfield] at h
    cases h
    rw [hvalue.resolve_right (not_not.2 rfl)]
    dsimp only
    rw [hlater, ok_bind]
  · next h =>
    rw [hfield] at h
    cases h
    rw [hlater, ok_bind]

end Read

/-! ## What is in a reading -/

/-- One field of a message. -/
inductive Occurrence (κ : Type) where
  | value (number : Nat) (payload : Payload)
  | message (number : Nat) (child : κ)
deriving DecidableEq, Repr

namespace Occurrence

def number : Occurrence κ → Nat
  | .value number _ | .message number _ => number

def wireType : Occurrence κ → Nat
  | .value _ payload => payload.wireType
  | .message _ _ => 2

/-- The message that a field holds. -/
def child? : Occurrence κ → Option κ
  | .value _ _ => none
  | .message _ child => some child

end Occurrence

/-- A message with the kinds of the messages around it, from the innermost out. -/
structure Message (κ : Type) where
  kind : κ
  above : List κ
  fields : Fields κ

namespace Fields

/-- The fields of the message itself. -/
def own : Fields κ → List (Occurrence κ)
  | .done => []
  | .value number payload rest => .value number payload :: rest.own
  | .message number child _ rest => .message number child :: rest.own

/-- Every field, with the kind of the message it is a field of. -/
def occurrences (kind : κ) : Fields κ → List (κ × Occurrence κ)
  | .done => []
  | .value number payload rest => (kind, .value number payload) :: rest.occurrences kind
  | .message number child inner rest => (kind, .message number child) :: (inner.occurrences child ++ rest.occurrences kind)

/-- The messages inside of a message. -/
def inside (kind : κ) (above : List κ) : Fields κ → List (Message κ)
  | .done => []
  | .value _ _ rest => rest.inside kind above
  | .message _ child inner rest =>
    ⟨child, kind :: above, inner⟩ :: (inner.inside child (kind :: above) ++ rest.inside kind above)

/-- The message, and those inside of it. -/
def messages (kind : κ) (fields : Fields κ) : List (Message κ) := ⟨kind, [], fields⟩ :: fields.inside kind []

end Fields

end AgentContext.Wire
