import AgentContext.Retrieval.Cursor

/-!
# The spelling of a cursor

The signature of a cursor is over its payload, not over its text, and `_unb64` skips what is not in the alphabet and
drops the bits left over.  So a text that was edited may be read as the cursor it was made from.

    expected          what `decode` is documented to do with an issued cursor
    Spelled           both parts are as `_b64` writes them
    codec_exact_iff   an issued cursor is answered so unless it is too long or a digest is not ASCII; an accepted text
                      is one that was issued exactly when it is spelled so
-/

namespace Retrieval

variable {codec : CursorCodec} {fields : CursorFields} {tool digest asOfEventId cursor : String} {now : Nat}

/-- The first part that differs. -/
def CursorFields.expected (fields : CursorFields) (tool digest asOfEventId : String) (now : Nat) :
    Except CursorError CursorPosition :=
  if fields.tool ≠ tool ∨ fields.digest ≠ digest then .error (.mismatch "cursor was issued for another query")
  else if fields.expires ≤ timestamp now then .error (.expired "cursor has expired")
  else if fields.asOfEventId ≠ asOfEventId then .error (.stale "the projection changed since the cursor was issued")
  else .ok ⟨fields.position, fields.asOfEventId⟩

theorem expected_ne {error : CursorError} (h : error = malformed ∨ error = .typeError) :
    fields.expected tool digest asOfEventId now ≠ .error error := by
  unfold CursorFields.expected
  split
  · rcases h with rfl | rfl <;> simp [malformed]
  split
  · rcases h with rfl | rfl <;> simp [malformed]
  split
  · rcases h with rfl | rfl <;> simp [malformed]
  · nofun

/-- The checks answer so, but for the comparison of digests outside ASCII. -/
theorem check_expected_iff : fields.check tool digest asOfEventId now = fields.expected tool digest asOfEventId now ↔
    (fields.tool = tool → (isAscii fields.digest && isAscii digest) = true) := by
  by_cases htool : fields.tool = tool
  · by_cases hascii : (isAscii fields.digest && isAscii digest) = true
    · simp [CursorFields.check, CursorFields.expected, htool, hascii]
    · have hcheck : fields.check tool digest asOfEventId now = .error .typeError := by
        rw [CursorFields.check, if_neg (not_not.2 htool), if_pos (by rw [eq_false_of_ne_true hascii]; rfl)]
      rw [hcheck]
      exact ⟨fun h => absurd h.symm (expected_ne (.inr rfl)), fun h => absurd (h htool) hascii⟩
  · simp [CursorFields.check, CursorFields.expected, htool]

/-- `encode` gives the text, for some arguments. -/
def CursorCodec.Encodes (codec : CursorCodec) (cursor : String) : Prop :=
  ∃ tool digest position asOfEventId now, codec.encode tool digest position asOfEventId now = .ok cursor

def Spelled (cursor : String) : Prop :=
  ∃ payload signature, cursor.toList = cursorPrefix ++ '.' :: (b64 payload ++ '.' :: b64 signature)

/-- Nobody but `encode` signs: a payload that comes with its signature is one that `encode` writes. -/
def CursorCodec.Unforged (codec : CursorCodec) (cursor : String) : Prop :=
  let rest := (partition '.' cursor.toList).2
  ∀ payload, unb64 (partition '.' rest).1 = .ok payload → unb64 (partition '.' rest).2 = .ok (codec.sign payload) →
    ∃ tool digest position asOfEventId now, 0 ≤ position ∧
      payload = canonical ⟨tool, digest, position, asOfEventId, timestamp (now + codec.ttl)⟩

theorem CursorCodec.Encodes.spelled (h : codec.Encodes cursor) : Spelled cursor := by
  obtain ⟨tool, digest, position, asOfEventId, now, h⟩ := h
  unfold CursorCodec.encode at h
  split at h
  · cases h
  · obtain rfl := Except.ok.inj h
    exact ⟨_, _, String.toList_ofList⟩

/-- An accepted text that is spelled so was issued. -/
theorem Spelled.encodes (h : Spelled cursor) (hunforged : codec.Unforged cursor) {position : CursorPosition}
    (hdecode : codec.decode cursor tool digest asOfEventId now = .ok position) : codec.Encodes cursor := by
  obtain ⟨payload, signature, htext⟩ := h
  rw [decode_spelled htext] at hdecode
  split at hdecode
  · cases hdecode
  split at hdecode
  · cases hdecode
  next hsigned =>
  obtain rfl := not_not.1 hsigned
  have hdot : '.' ∉ cursorPrefix := by decide +kernel
  simp only [CursorCodec.Unforged, htext, partition_append hdot, partition_append (dot_not_mem_b64 _), unb64_b64] at hunforged
  obtain ⟨tool, digest, position, asOfEventId, now, hposition, hpayload⟩ := hunforged payload rfl rfl
  refine ⟨tool, digest, position, asOfEventId, now, ?_⟩
  rw [CursorCodec.encode, if_neg (not_lt.2 hposition), ← hpayload]
  exact congrArg Except.ok (by rw [← htext, String.ofList_toList])

theorem b64_ne_nil {data : List UInt8} (h : data ≠ []) : b64 data ≠ [] := by
  match data with
  | [] => exact absurd rfl h
  | [_] | [_, _] | _ :: _ :: _ :: _ => simp [b64, Base64.encode]

theorem canonical_ne_nil (fields : CursorFields) : canonical fields ≠ [] := by
  intro h
  unfold canonical at h
  have hchars := List.map_eq_nil_iff.1 h
  exact List.cons_ne_nil _ _ (List.append_eq_nil_iff.1 (List.append_eq_nil_iff.1 hchars).1).2

/-- An issued cursor is answered as documented, unless it is too long or a digest is not ASCII. -/
theorem decode_expected_iff (hsign : ∀ payload, codec.sign payload ≠ []) {position : Int} {issued : Nat}
    (h : codec.encode tool digest position asOfEventId issued = .ok cursor)
    (hfields : fields = ⟨tool, digest, position, asOfEventId, timestamp (issued + codec.ttl)⟩)
    (hloads : codec.loads (canonical fields) = some fields.object) (tool' digest' asOfEventId' : String) :
    codec.decode cursor tool' digest' asOfEventId' now = fields.expected tool' digest' asOfEventId' now ↔
      cursor.length ≤ maxCursorChars ∧ (tool = tool' → (isAscii digest && isAscii digest') = true) := by
  unfold CursorCodec.encode at h
  split at h
  · cases h
  next hposition =>
  have htext : cursor.toList = cursorPrefix ++ '.' :: (b64 (canonical fields) ++ '.' :: b64 (codec.sign (canonical fields))) := by
    obtain rfl := Except.ok.inj h
    rw [String.toList_ofList, hfields]
  have hposition' : 0 ≤ fields.position := by
    rw [hfields]
    exact not_lt.1 hposition
  rw [decode_spelled htext, fields_object hloads hposition', if_neg (not_not.2 rfl)]
  by_cases hlong : maxCursorChars < cursor.length
  · rw [if_pos (.inl hlong)]
    exact ⟨fun h => absurd h.symm (expected_ne (.inl rfl)), fun h => absurd hlong (not_lt.2 h.1)⟩
  · rw [if_neg fun hor => (hor.resolve_left hlong).elim (b64_ne_nil (canonical_ne_nil _)) (b64_ne_nil (hsign _)),
      and_iff_right (not_lt.1 hlong)]
    refine check_expected_iff.trans ?_
    rw [hfields]

/-- **The codec is exact but for three things**: an issued cursor is answered by the first part that differs exactly when
it is not too long and, for its own tool, the digests are ASCII; and an accepted text is one that `encode` gives exactly
when both its parts are spelled as `_b64` spells them. -/
theorem codec_exact_iff (hsign : ∀ payload, codec.sign payload ≠ []) :
    (∀ tool digest position asOfEventId issued cursor fields, codec.encode tool digest position asOfEventId issued = .ok cursor →
        fields = ⟨tool, digest, position, asOfEventId, timestamp (issued + codec.ttl)⟩ →
        codec.loads (canonical fields) = some fields.object → ∀ tool' digest' asOfEventId' now,
          codec.decode cursor tool' digest' asOfEventId' now = fields.expected tool' digest' asOfEventId' now ↔
            cursor.length ≤ maxCursorChars ∧ (tool = tool' → (isAscii digest && isAscii digest') = true)) ∧
      ∀ cursor, codec.Unforged cursor → ∀ tool digest asOfEventId now position,
        codec.decode cursor tool digest asOfEventId now = .ok position → (codec.Encodes cursor ↔ Spelled cursor) :=
  ⟨fun _ _ _ _ _ _ _ h hfields hloads _ _ _ _ => decode_expected_iff hsign h hfields hloads _ _ _,
    fun _ hunforged _ _ _ _ _ hdecode => ⟨(·.spelled), fun h => h.encodes hunforged hdecode⟩⟩

/-! ## A cursor that was edited -/

def briefFields : CursorFields := ⟨"t", "d", 1, "e1", 900⟩

/-- The signature and the reading of its payload, under a key of 32 letters `k`. -/
def briefCodec : CursorCodec where
  sign _ := [132, 175, 206, 121, 168, 10, 103, 95, 42, 211, 204, 254, 220, 101, 142, 77, 92, 161, 103, 90, 106, 38, 166, 27, 29,
    2, 133, 26, 7, 117, 171, 176]
  loads payload := if payload = canonical briefFields then some briefFields.object else none
  ttl := 900000000

def briefCursor (more : List Char) : String :=
  String.ofList (cursorPrefix ++ '.' :: (b64 (canonical briefFields) ++ '.' :: (b64 (briefCodec.sign []) ++ more)))

theorem codec_exact_iff_brief :
    briefCodec.decode (briefCursor []) "t" "d" "e2" 20 = briefFields.expected "t" "d" "e2" 20 ∧
      briefCodec.Encodes (briefCursor []) := by
  have hexact := @codec_exact_iff briefCodec fun _ => List.cons_ne_nil _ _
  have hencode : briefCodec.encode "t" "d" 1 "e1" 12 = .ok (briefCursor []) := by decide +kernel
  refine ⟨(hexact.1 _ _ _ _ _ _ briefFields hencode (by decide +kernel) (by simp only [briefCodec, if_true]) _ _ _ _).2
    (by decide +kernel), ?_⟩
  refine (hexact.2 _ (fun payload hpayload _ => ?_) "t" "d" "e1" 20 ⟨1, "e1"⟩ (by decide +kernel)).2
    ⟨canonical briefFields, briefCodec.sign [], by rw [briefCursor, List.append_nil, String.toList_ofList]⟩
  have hdot : '.' ∉ cursorPrefix := by decide +kernel
  rw [briefCursor, String.toList_ofList, partition_append hdot, partition_append (dot_not_mem_b64 _), unb64_b64] at hpayload
  exact ⟨_, _, 1, _, 12, by decide, (Except.ok.inj hpayload).symm⟩

/-- Four characters outside the alphabet at the end: the cursor is accepted, and `encode` never gives it. -/
theorem codec_edited_accepted :
    briefCodec.decode (briefCursor ['!', '!', '!', '!']) "t" "d" "e1" 20 = .ok ⟨1, "e1"⟩ ∧
      ¬briefCodec.Encodes (briefCursor ['!', '!', '!', '!']) := by
  refine ⟨by decide +kernel, fun h => ?_⟩
  obtain ⟨payload, signature, htext⟩ := h.spelled
  have hdot : '.' ∉ cursorPrefix := by decide +kernel
  have hparts := congrArg (fun text => (partition '.' (partition '.' text).2).2) htext
  simp only [briefCursor, String.toList_ofList, partition_append hdot, partition_append (dot_not_mem_b64 _)] at hparts
  have hmem : '!' ∈ b64 signature := hparts ▸ List.mem_append_right _ List.mem_cons_self
  exact absurd (Base64.encode_alphabet _ _ hmem) (by decide +kernel)

end Retrieval
