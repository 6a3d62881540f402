import AgentContext.Ledger.OtlpWire
import AgentContext.Lib.Fallible

/-!
# The common attribute, read inline

`_plain_attribute` beside the generic walk of the same bytes:

    plainShape_ok       it reads inside of its frame
    plainShape_true     the bytes it takes: a key and one string value, each with a one-byte length
    message_plain       the generic walk of these bytes is the same four charges
    fields_fast         so a walk with it is the walk without
-/

namespace AgentContext.OtlpWire

open Fallible (ok_bind)

variable {schema : Schema} {limits : WireLimits} {data : List UInt8} {start stop position fuel depth number length attributes : Nat}
  {singular : List Nat} {kind : Kind} {fast : Bool}
variable {n p : Nat}

/-! ## Reads -/

theorem byteAt_lt {i byte : Nat} (h : byteAt data stop i = .ok byte) : i < stop := by
  unfold byteAt at h
  split at h
  · assumption
  · cases h

theorem byteAt_ok {i : Nat} (hstop : stop ≤ data.length) (hi : i < stop) : ∃ byte, byteAt data stop i = .ok byte := by
  unfold byteAt
  rw [if_pos hi, List.getElem?_eq_getElem (by omega)]
  exact ⟨_, rfl⟩

/-- A field number below 16 has a tag of one byte. -/
theorem tagOf_short : ∀ number < 16, tagOf number < 0x80 ∧ tagOf number >>> 3 = number ∧ tagOf number &&& 7 = lengthDelimited := by
  decide

theorem lift_ok {α : Type} {a : α} : (liftM (.ok a : Except Stop α) : Scan α) = pure a := rfl

theorem lift_error {α : Type} {e : Stop} : (liftM (.error e : Except Stop α) : Scan α) = throw e := rfl

theorem throw_bind {α β : Type} {e : Stop} {f : α → Scan β} : (throw e : Scan α) >>= f = throw e := rfl

/-! ## The shape -/

/-- The bytes of a frame are a key and a single string value. -/
structure Plain (schema : Schema) (data : List UInt8) (start stop k v s : Nat) : Prop where
  keyTag : byteAt data stop start = .ok (tagOf schema.key)
  keyLength : byteAt data stop (start + 1) = .ok k
  keyShort : k < 0x80
  valueTag : byteAt data stop (start + 2 + k) = .ok (tagOf schema.value)
  valueLength : byteAt data stop (start + 2 + k + 1) = .ok v
  valueShort : v < 0x80
  valueEnd : start + 2 + k + 2 + v = stop
  stringTag : byteAt data stop (start + 2 + k + 2) = .ok (tagOf schema.stringValue)
  stringLength : byteAt data stop (start + 2 + k + 2 + 1) = .ok s
  stringShort : s < 0x80
  stringEnd : start + 2 + k + 2 + 2 + s = stop

/-- The shape is told without a read outside of the frame, and it is the one it says. -/
theorem plainShape_cases (hstop : stop ≤ data.length) : plainShape schema data start stop = .ok false ∨
      plainShape schema data start stop = .ok true ∧ ∃ k v s, Plain schema data start stop k v s := by
  unfold plainShape
  by_cases hroom : stop - start < 4
  · exact .inl (if_pos hroom)
  rw [if_neg hroom]
  obtain ⟨keyTag, hkeyTag⟩ := byteAt_ok hstop (show start < stop by omega)
  rw [hkeyTag, ok_bind]
  by_cases hkey : keyTag ≠ tagOf schema.key
  · exact .inl (if_pos hkey)
  rw [if_neg hkey]
  obtain ⟨k, hk⟩ := byteAt_ok hstop (show start + 1 < stop by omega)
  rw [hk, ok_bind]
  by_cases hkeyShort : k ≥ 0x80
  · exact .inl (if_pos hkeyShort)
  rw [if_neg hkeyShort]
  dsimp only
  by_cases hvalueRoom : start + 2 + k + 3 > stop
  · exact .inl (if_pos hvalueRoom)
  rw [if_neg hvalueRoom]
  obtain ⟨valueTag, hvalueTag⟩ := byteAt_ok hstop (show start + 2 + k < stop by omega)
  rw [hvalueTag, ok_bind]
  by_cases hvalue : valueTag ≠ tagOf schema.value
  · exact .inl (if_pos hvalue)
  rw [if_neg hvalue]
  obtain ⟨v, hv⟩ := byteAt_ok hstop (show start + 2 + k + 1 < stop by omega)
  rw [hv, ok_bind]
  by_cases hvalueEnd : v ≥ 0x80 ∨ start + 2 + k + 2 + v ≠ stop
  · exact .inl (if_pos hvalueEnd)
  rw [if_neg hvalueEnd]
  obtain ⟨stringTag, hstringTag⟩ := byteAt_ok hstop (show start + 2 + k + 2 < stop by omega)
  rw [hstringTag, ok_bind]
  by_cases hstring : stringTag ≠ tagOf schema.stringValue ∨ start + 2 + k + 2 + 1 ≥ stop
  · exact .inl (if_pos hstring)
  rw [if_neg hstring]
  obtain ⟨s, hs⟩ := byteAt_ok hstop (show start + 2 + k + 2 + 1 < stop by omega)
  rw [hs, ok_bind]
  by_cases hend : s < 0x80 ∧ start + 2 + k + 2 + 2 + s = stop
  · rw [not_or, not_not] at hstring
    rw [not_or, not_not] at hvalueEnd
    refine .inr ⟨by simp [hend], k, v, s, ?_⟩
    exact ⟨not_not.1 hkey ▸ hkeyTag, hk, by omega, not_not.1 hvalue ▸ hvalueTag, hv, by omega, hvalueEnd.2,
      hstring.1 ▸ hstringTag, hs, hend.1, hend.2⟩
  · refine .inl (congrArg _ ?_)
    simpa using hend

/-! ## The generic walk -/

theorem short_reads (hnumber : number < 16) (htag : byteAt data stop position = .ok (tagOf number))
    (hlength : byteAt data stop (position + 1) = .ok length) (hshort : length < 0x80) :
    tagAt data stop position = .ok (tagOf number, position + 1) ∧ lengthAt data stop (position + 1) = .ok (length, position + 2) :=
  ⟨by rw [tagAt, htag, ok_bind, if_pos (tagOf_short number hnumber).1],
    by rw [lengthAt, if_pos (byteAt_lt hlength), hlength, ok_bind, if_pos hshort]⟩

theorem fields_string (hnumber : number < 16) (hspec : schema.table kind number = some ⟨number, lengthDelimited, false, none⟩)
    (htag : byteAt data stop position = .ok (tagOf number)) (hlength : byteAt data stop (position + 1) = .ok length)
    (hshort : length < 0x80) (hend : position + 2 + length ≤ stop) :
    fields schema limits data fast (fuel + 1) position stop kind depth singular attributes = (do
      fieldVisited limits
      fields schema limits data fast fuel (position + 2 + length) stop kind depth singular attributes) := by
  obtain ⟨-, hfield, hwire⟩ := tagOf_short number hnumber
  obtain ⟨htagAt, hlengthAt⟩ := short_reads hnumber htag hlength hshort
  rw [fields, if_pos (byteAt_lt htag)]
  refine bind_congr fun _ => ?_
  rw [htagAt, lift_ok, pure_bind]
  dsimp only
  rw [hfield, hwire, hspec]
  dsimp only
  rw [if_pos rfl, hlengthAt, lift_ok, pure_bind]
  dsimp only
  have hone : elementVisited limits ⟨number, lengthDelimited, false, none⟩ = pure () := rfl
  rw [if_neg (by omega), if_neg (not_not.2 rfl), hone, pure_bind]

theorem fields_end (h : stop ≤ position) :
    fields schema limits data fast fuel position stop kind depth singular attributes = pure () := by
  cases fuel with
  | zero | succ => rw [fields, if_neg (by omega)]

theorem fields_value (htag : byteAt data stop position = .ok (tagOf schema.value))
    (hlength : byteAt data stop (position + 1) = .ok length) (hshort : length < 0x80) (hend : position + 2 + length ≤ stop) :
    fields schema limits data fast (fuel + 1) position stop .keyValue depth [] attributes = (do
      fieldVisited limits
      message schema limits data fast fuel (position + 2) (position + 2 + length) .anyValue depth
      fields schema limits data fast fuel (position + 2 + length) stop .keyValue depth [schema.value] attributes) := by
  obtain ⟨-, hfield, hwire⟩ := tagOf_short schema.value schema.value_lt
  obtain ⟨htagAt, hlengthAt⟩ := short_reads schema.value_lt htag hlength hshort
  have hfirst : occurrence limits ⟨schema.value, lengthDelimited, false, some .anyValue⟩ [] = pure [schema.value] := rfl
  have hcontainer : containerVisited schema limits .keyValue ⟨schema.value, lengthDelimited, false, some .anyValue⟩ attributes =
      pure attributes := rfl
  rw [fields, if_pos (byteAt_lt htag)]
  refine bind_congr fun _ => ?_
  rw [htagAt, lift_ok, pure_bind]
  dsimp only
  rw [hfield, hwire, schema.value_field]
  dsimp only
  rw [if_pos rfl, hlengthAt, lift_ok, pure_bind]
  dsimp only
  have hvalue : valueVisited limits .keyValue depth = pure () := rfl
  have hinline : readInline schema limits data fast (position + 2) (position + 2 + length) .anyValue (childDepth .anyValue depth) =
      pure false := by
    rw [readInline, if_neg (by simp)]
  rw [if_neg (by omega), if_neg (not_not.2 rfl), hfirst, pure_bind, hcontainer, pure_bind]
  rw [hvalue, pure_bind, hinline, pure_bind, if_neg Bool.false_ne_true, message, bind_assoc]
  rfl

/-- **The generic walk of the common attribute** is the charge of the attribute and of its three fields. -/
theorem message_plain {k v s : Nat} (h : Plain schema data start stop k v s) :
    message schema limits data fast (fuel + 3) start stop .keyValue depth = (do
      attributeVisited limits depth
      fieldVisited limits
      fieldVisited limits
      fieldVisited limits) := by
  have hvalueEnd := h.valueEnd
  have hstringEnd := h.stringEnd
  have hvalue : message schema limits data fast (fuel + 1) (start + 2 + k + 2) (start + 2 + k + 2 + v) .anyValue depth =
      fieldVisited limits := by
    rw [message, enter, pure_bind, hvalueEnd]
    rw [fields_string schema.stringValue_lt schema.string_field h.stringTag h.stringLength h.stringShort (by omega)]
    rw [fields_end (by omega), bind_pure_unit]
  rw [message, enter]
  refine bind_congr fun _ => ?_
  rw [fields_string schema.key_lt schema.key_field h.keyTag h.keyLength h.keyShort (by omega)]
  refine bind_congr fun _ => ?_
  rw [fields_value h.valueTag h.valueLength h.valueShort (by omega)]
  refine bind_congr fun _ => ?_
  rw [hvalue, fields_end (by omega), bind_pure_unit]

/-- The inline reading of an attribute, against the generic walk. -/
theorem plainAttribute_cases (fast : Bool) (hstop : stop ≤ data.length) (hfuel : stop - start ≤ fuel) :
    plainAttribute schema limits data start stop depth = pure false ∨
      plainAttribute schema limits data start stop depth =
        (do message schema limits data fast fuel start stop .keyValue depth; pure true) := by
  rcases plainShape_cases hstop with h | ⟨h, k, v, s, hplain⟩
  · left
    rw [plainAttribute, h, lift_ok, pure_bind]
    rfl
  · right
    have hend := hplain.stringEnd
    obtain ⟨rest, rfl⟩ : ∃ rest, fuel = rest + 3 := ⟨fuel - 3, by omega⟩
    rw [plainAttribute, h, lift_ok, pure_bind, message_plain hplain]
    simp

/-! ## Where reads end -/

theorem varintFrom_bounds {left shift result n p : Nat}
    (h : varintFrom data stop left position shift result = .ok (n, p)) : position < p ∧ p ≤ stop := by
  induction left generalizing position shift result with
  | zero => cases h
  | succ left ih =>
    rw [varintFrom] at h
    split at h
    · cases h
    · cases hbyte : byteAt data stop position with
      | error e =>
        rw [hbyte] at h
        cases h
      | ok byte =>
        rw [hbyte, ok_bind] at h
        dsimp only at h
        split at h
        · cases h
          omega
        · have := ih h
          omega

theorem varint_bounds (h : varint data stop position = .ok (n, p)) : position < p ∧ p ≤ stop := varintFrom_bounds h

theorem tagAt_bounds (h : tagAt data stop position = .ok (n, p)) : position < p ∧ p ≤ stop := by
  unfold tagAt at h
  cases hbyte : byteAt data stop position with
  | error e =>
    rw [hbyte] at h
    cases h
  | ok byte =>
    have hlt := byteAt_lt hbyte
    rw [hbyte, ok_bind] at h
    split at h
    · cases h
      omega
    · exact varint_bounds h

theorem lengthAt_bounds (h : lengthAt data stop position = .ok (n, p)) : position < p ∧ p ≤ stop := by
  unfold lengthAt at h
  split at h
  · exact tagAt_bounds h
  · exact varint_bounds h

theorem skip_bounds {wireType p : Nat} (h : skip data stop position wireType = .ok p) : position ≤ p ∧ p ≤ stop := by
  unfold skip at h
  obtain ⟨q, hq, h⟩ : ∃ q, position ≤ q ∧ (if q > stop then .error malformed else .ok q : Except Stop Nat) = .ok p := by
    by_cases hvarint : wireType = varintType
    · rw [if_pos hvarint] at h
      cases hread : varint data stop position with
      | error e =>
        rw [hread] at h
        cases h
      | ok read =>
        rw [hread] at h
        exact ⟨read.2, le_of_lt (varint_bounds hread).1, h⟩
    · rw [if_neg hvarint] at h
      split at h
      · exact ⟨_, Nat.le_add_right _ _, h⟩
      · exact ⟨_, Nat.le_add_right _ _, h⟩
  split at h
  · cases h
  · cases h
    omega

theorem skipUnknown_bounds {wireType p : Nat} (h : skipUnknown data stop position wireType = .ok p) : position ≤ p ∧ p ≤ stop := by
  unfold skipUnknown at h
  split at h
  · cases hread : varint data stop position with
    | error e =>
      rw [hread] at h
      cases h
    | ok read =>
      rw [hread, ok_bind] at h
      dsimp only at h
      have := varint_bounds hread
      split at h
      · cases h
      · cases h
        omega
  · split at h
    · exact skip_bounds h
    · cases h

/-! ## The walk with the inline reading -/

section Descend

variable {child : Kind}

theorem descend_generic :
    (do
      let plain ← readInline schema limits data false start stop child depth
      (if plain then pure () else message schema limits data false fuel start stop child depth) : Scan Unit) =
      message schema limits data false fuel start stop child depth := by
  rw [readInline, if_neg (by simp), pure_bind, if_neg Bool.false_ne_true]

theorem descend_fast (hstop : stop ≤ data.length) (hfuel : stop - start ≤ fuel)
    (hwalk : message schema limits data true fuel start stop child depth = message schema limits data false fuel start stop child depth) :
    (do
      let plain ← readInline schema limits data true start stop child depth
      (if plain then pure () else message schema limits data true fuel start stop child depth) : Scan Unit) =
      message schema limits data false fuel start stop child depth := by
  rw [hwalk, readInline]
  by_cases hchild : child = .keyValue
  · subst hchild
    rw [if_pos (by simp)]
    rcases plainAttribute_cases false hstop hfuel with h | h
    · rw [h, pure_bind, if_neg Bool.false_ne_true]
    · rw [h, bind_assoc]
      simp only [pure_bind, if_true, bind_pure_unit]
  · rw [if_neg (by simp [hchild]), pure_bind, if_neg Bool.false_ne_true]

end Descend

/-- **The inline reading changes nothing.**  With the fuel of its bytes, a walk that reads attributes inline is the walk
that does not. -/
theorem fields_fast (hstop : stop ≤ data.length) (hfuel : stop - position ≤ fuel) :
    fields schema limits data true fuel position stop kind depth singular attributes =
      fields schema limits data false fuel position stop kind depth singular attributes := by
  induction fuel generalizing position stop kind depth singular attributes with
  | zero => rw [fields, fields]
  | succ fuel ih =>
    rw [fields, fields]
    by_cases hlt : position < stop
    · rw [if_pos hlt, if_pos hlt]
      refine bind_congr fun _ => ?_
      cases htag : tagAt data stop position with
      | error e => rw [lift_error, throw_bind, throw_bind]
      | ok tag =>
        obtain ⟨hafter, -⟩ := tagAt_bounds htag
        rw [lift_ok, pure_bind, pure_bind]
        dsimp only
        cases hspec : schema.table kind (tag.1 >>> 3) with
        | none =>
          dsimp only
          cases hskip : skipUnknown data stop tag.2 (tag.1 &&& 7) with
          | error e => rw [lift_error, throw_bind, throw_bind]
          | ok next =>
            have := skipUnknown_bounds hskip
            rw [lift_ok, pure_bind, pure_bind, ih hstop (by omega)]
        | some spec =>
          dsimp only
          by_cases hwire : tag.1 &&& 7 = lengthDelimited
          · rw [if_pos hwire, if_pos hwire]
            cases hlength : lengthAt data stop tag.2 with
            | error e => rw [lift_error, throw_bind, throw_bind]
            | ok frame =>
              obtain ⟨hcontent, -⟩ := lengthAt_bounds hlength
              rw [lift_ok, pure_bind, pure_bind]
              by_cases hend : frame.2 + frame.1 > stop
              · rw [if_pos hend, if_pos hend]
              rw [if_neg hend, if_neg hend]
              by_cases htype : spec.wireType ≠ lengthDelimited
              · rw [if_pos htype, if_pos htype]
              rw [if_neg htype, if_neg htype]
              cases hmessage : spec.message with
              | none => rw [ih hstop (by omega)]
              | some child =>
                refine bind_congr fun singular => bind_congr fun attributes => bind_congr fun _ => ?_
                have hwalk : message schema limits data true fuel frame.2 (frame.2 + frame.1) child (childDepth child depth) =
                    message schema limits data false fuel frame.2 (frame.2 + frame.1) child (childDepth child depth) := by
                  rw [message, message, ih (by omega) (by omega)]
                rw [← bind_assoc, ← bind_assoc]
                refine (congrArg (· >>= _) (descend_fast (by omega) (by omega) hwalk)).trans ?_
                refine Eq.trans ?_ (congrArg (· >>= _) descend_generic).symm
                exact bind_congr fun _ => ih hstop (by omega)
          · rw [if_neg hwire, if_neg hwire]
            by_cases hscalar : tag.1 &&& 7 = spec.wireType
            · rw [if_pos hscalar, if_pos hscalar]
              cases hskip : skip data stop tag.2 (tag.1 &&& 7) with
              | error e => rw [lift_error, throw_bind, throw_bind]
              | ok next =>
                have := skip_bounds hskip
                rw [lift_ok, pure_bind, pure_bind, ih hstop (by omega)]
            · rw [if_neg hscalar, if_neg hscalar]
    · rw [if_neg hlt, if_neg hlt]

/-! ## How a walk ends -/

/-- An end that the scan tells: not out of fuel, and no read outside of its frame. -/
def Stop.told : Stop → Prop
  | .refused _ | .exceeded _ => True
  | .outside | .fuel => False

/-- A piece of the scan that only ends in ways the scan tells. -/
def Tells {α : Type} (m : Scan α) : Prop := ∀ counts e, (m.run.run counts).1 = .error e → e.told

section Tells

variable {α β : Type} {m : Scan α} {f : α → Scan β} {counts : Counts}
variable {spec : Field}

theorem run_bind_error {e : Stop} (h : (m.run.run counts).1 = .error e) : ((m >>= f).run.run counts).1 = .error e := by
  show (ExceptT.bindCont f (m.run.run counts).1 (m.run.run counts).2).1 = _
  rw [h]
  rfl

theorem run_bind_ok {a : α} (h : (m.run.run counts).1 = .ok a) :
    (m >>= f).run.run counts = (f a).run.run (m.run.run counts).2 := by
  show ExceptT.bindCont f (m.run.run counts).1 (m.run.run counts).2 = _
  rw [h]
  rfl

theorem tells_pure {a : α} : Tells (pure a : Scan α) := nofun

theorem tells_throw {e : Stop} (h : e.told) : Tells (throw e : Scan α) := fun _ _ heq => by
  cases heq
  exact h

theorem tells_bind (h : Tells m) (hf : ∀ a, Tells (f a)) : Tells (m >>= f) := by
  intro counts e herror
  cases hm : (m.run.run counts).1 with
  | error e' =>
    rw [run_bind_error hm] at herror
    cases herror
    exact h counts _ hm
  | ok a =>
    rw [run_bind_ok hm] at herror
    exact hf a _ e herror

/-- A read, and what follows on what it returned. -/
theorem tells_read {r : Except Stop α} {f : α → Scan β} (h : ∀ e, r = .error e → e.told) (hf : ∀ a, r = .ok a → Tells (f a)) :
    Tells (liftM r >>= f) := by
  cases r with
  | error e =>
    rw [lift_error, throw_bind]
    exact tells_throw (h e rfl)
  | ok a =>
    rw [lift_ok, pure_bind]
    exact hf a rfl

theorem tells_ite {c : Prop} [Decidable c] {m' : Scan α} (h : c → Tells m) (h' : ¬c → Tells m') : Tells (if c then m else m') := by
  split
  · exact h ‹_›
  · exact h' ‹_›

theorem tells_charge {charge : Counts → Counts} {tooMany : Counts → Prop} [∀ counts, Decidable (tooMany counts)] {code : String} :
    Tells (do
      modify charge
      if tooMany (← get) then throw (.exceeded code) : Scan Unit) :=
  tells_bind nofun fun _ => tells_bind nofun fun _ => tells_ite (fun _ => tells_throw trivial) fun _ => tells_pure

theorem tells_fieldVisited : Tells (fieldVisited limits) := tells_charge

theorem tells_objects {n : Nat} : Tells (objects limits n) := tells_charge

theorem tells_attributeVisited : Tells (attributeVisited limits depth) := tells_charge

theorem tells_record : Tells (record limits) := tells_charge

theorem tells_enter : Tells (enter limits kind depth) := by
  cases kind with
  | keyValue => exact tells_attributeVisited
  | span =>
    refine tells_bind nofun fun _ => tells_bind nofun fun _ => tells_ite (fun _ => ?_) fun _ => tells_record
    exact tells_bind (tells_throw trivial) fun _ => tells_record
  | event => exact tells_record
  | link | scopeSpans | resourceSpans => exact tells_charge
  | arrayValue | keyValueList => exact tells_ite (fun _ => tells_throw trivial) fun _ => tells_pure
  | request | anyValue | resource | instrumentationScope | other _ => exact tells_pure

theorem tells_elementVisited : Tells (elementVisited limits spec) :=
  tells_ite (fun _ => tells_objects) fun _ => tells_pure

theorem tells_valueVisited : Tells (valueVisited limits kind depth) :=
  tells_ite (fun _ => tells_attributeVisited) fun _ => tells_pure

theorem tells_occurrence : Tells (occurrence limits spec singular) := by
  have hrefused : (Stop.refused "repeated_singular_field").told := trivial
  exact tells_ite (fun _ => tells_bind tells_objects fun _ => tells_pure) fun _ =>
    tells_ite (fun _ => tells_throw hrefused) fun _ => tells_pure

theorem tells_containerVisited : Tells (containerVisited schema limits kind spec attributes) := by
  have hexceeded : (Stop.exceeded "too_many_attributes").told := trivial
  exact tells_ite (fun _ => tells_ite (fun _ => tells_throw hexceeded) fun _ => tells_pure) fun _ => tells_pure

end Tells

section Reads

variable {e : Stop}

section

variable (hstop : stop ≤ data.length)
include hstop

theorem byteAt_told {i : Nat} (hi : i < stop) (h : byteAt data stop i = .error e) : e.told := by
  obtain ⟨byte, hbyte⟩ := byteAt_ok hstop hi
  rw [hbyte] at h
  cases h

theorem varintFrom_told {left shift result : Nat}
    (h : varintFrom data stop left position shift result = .error e) : e.told := by
  induction left generalizing position shift result with
  | zero =>
    cases h
    trivial
  | succ left ih =>
    rw [varintFrom] at h
    split at h
    · cases h
      trivial
    · next hroom =>
      obtain ⟨byte, hbyte⟩ := byteAt_ok hstop (not_le.1 hroom)
      rw [hbyte, ok_bind] at h
      dsimp only at h
      split at h
      · cases h
      · exact ih h

theorem varint_told (h : varint data stop position = .error e) : e.told := varintFrom_told hstop h

theorem tagAt_told (hlt : position < stop) (h : tagAt data stop position = .error e) : e.told := by
  obtain ⟨byte, hbyte⟩ := byteAt_ok hstop hlt
  rw [tagAt, hbyte, ok_bind] at h
  split at h
  · cases h
  · exact varint_told hstop h

theorem lengthAt_told (h : lengthAt data stop position = .error e) : e.told := by
  unfold lengthAt at h
  split at h
  · next hlt => exact tagAt_told hstop hlt h
  · exact varint_told hstop h

theorem skip_told {wireType : Nat} (h : skip data stop position wireType = .error e) : e.told := by
  have hend : ∀ q : Nat, (if q > stop then .error malformed else .ok q : Except Stop Nat) = .error e → e.told := fun q hq => by
    split at hq
    · cases hq
      trivial
    · cases hq
  unfold skip at h
  by_cases hvarint : wireType = varintType
  · rw [if_pos hvarint] at h
    cases hread : varint data stop position with
    | error e' =>
      rw [hread] at h
      cases h
      exact varint_told hstop hread
    | ok read =>
      rw [hread] at h
      exact hend _ h
  · rw [if_neg hvarint] at h
    split at h
    · exact hend _ h
    · exact hend _ h

theorem skipUnknown_told {wireType : Nat} (h : skipUnknown data stop position wireType = .error e) : e.told := by
  unfold skipUnknown at h
  split at h
  · cases hread : varint data stop position with
    | error e' =>
      rw [hread] at h
      cases h
      exact varint_told hstop hread
    | ok read =>
      rw [hread, ok_bind] at h
      dsimp only at h
      split at h
      · cases h
        trivial
      · cases h
  · split at h
    · exact skip_told hstop h
    · cases h
      trivial

end

end Reads

/-- **The walk tells how it ends.**  With the fuel of its bytes it does not run out, and it reads inside of its frames. -/
theorem fields_tells (hstop : stop ≤ data.length) (hfuel : stop - position ≤ fuel) :
    Tells (fields schema limits data false fuel position stop kind depth singular attributes) := by
  induction fuel generalizing position stop kind depth singular attributes with
  | zero =>
    rw [fields, if_neg (by omega)]
    exact tells_pure
  | succ fuel ih =>
    rw [fields]
    refine tells_ite (fun hlt => tells_bind tells_fieldVisited fun _ => ?_) fun _ => tells_pure
    refine tells_read (fun e => tagAt_told hstop hlt) fun tag htag => ?_
    obtain ⟨hafter, -⟩ := tagAt_bounds htag
    dsimp only
    split
    · refine tells_read (fun e => skipUnknown_told hstop) fun next hnext => ih hstop ?_
      have := skipUnknown_bounds hnext
      omega
    · next spec hspec =>
      refine tells_ite (fun hwire => ?_) fun hwire => ?_
      · refine tells_read (fun e => lengthAt_told hstop) fun frame hframe => ?_
        obtain ⟨hcontent, -⟩ := lengthAt_bounds hframe
        refine tells_ite (fun _ => tells_throw trivial) fun hend => tells_ite (fun _ => tells_throw trivial) fun _ => ?_
        split
        · exact tells_bind tells_elementVisited fun _ => ih hstop (by omega)
        · next child hmessage =>
          refine tells_bind tells_occurrence fun singular => tells_bind tells_containerVisited fun attributes =>
            tells_bind tells_valueVisited fun _ => ?_
          rw [← bind_assoc]
          refine tells_bind ?_ fun _ => ih hstop (by omega)
          rw [readInline, if_neg (by simp), pure_bind, if_neg Bool.false_ne_true]
          exact tells_bind tells_enter fun _ => ih (by omega) (by omega)
      · refine tells_ite (fun hscalar => ?_) fun _ => tells_throw trivial
        refine tells_read (fun e => skip_told hstop) fun next hnext => ih hstop ?_
        have := skip_bounds hnext
        omega

/-- **The attribute read inline agrees with the generic walk.**  In every frame of the data, whatever the counts and the
limits are: it declines and charges nothing, or it comes to what the generic walk of the attribute comes to, with the same
counts and the same first error.  So a walk, and the scan, is the same with it and without it. -/
theorem plain_attribute_agrees (hstop : stop ≤ data.length) (hfuel : stop - start ≤ fuel) :
    (plainAttribute schema limits data start stop depth = pure false ∨
        plainAttribute schema limits data start stop depth =
          (do message schema limits data false fuel start stop .keyValue depth; pure true)) ∧
      Tells (message schema limits data false fuel start stop .keyValue depth) ∧
      (∀ kind depth, message schema limits data true fuel start stop kind depth =
        message schema limits data false fuel start stop kind depth) ∧
      scan schema limits data true = scan schema limits data false ∧
      ∀ e, scan schema limits data false = .error e → e.told := by
  refine ⟨plainAttribute_cases false hstop hfuel, tells_bind tells_enter fun _ => fields_tells hstop hfuel,
    fun kind depth => ?_, ?_, fun e he => ?_⟩
  · rw [message, message, fields_fast hstop hfuel]
  · rw [scan, scan, message, message, fields_fast le_rfl (by omega)]
  · have htells : Tells (message schema limits data false data.length 0 data.length .request 0) :=
      tells_bind tells_enter fun _ => fields_tells le_rfl (by omega)
    unfold scan at he
    split at he
    · cases he
    · next e' counts hrun =>
      cases he
      exact htells .zero _ (congrArg Prod.fst hrun)

/-- The fields that lead to the attributes of a resource. -/
def resourceTable : Kind → List Field
  | .request => [⟨1, lengthDelimited, true, some .resourceSpans⟩]
  | .resourceSpans => [⟨1, lengthDelimited, false, some .resource⟩]
  | .resource => [⟨1, lengthDelimited, true, some .keyValue⟩, ⟨2, varintType, false, none⟩]
  | .keyValue => [⟨1, lengthDelimited, false, none⟩, ⟨2, lengthDelimited, false, some .anyValue⟩]
  | .anyValue => [⟨1, lengthDelimited, false, none⟩, ⟨2, varintType, false, none⟩, ⟨5, lengthDelimited, false, some .arrayValue⟩]
  | .arrayValue => [⟨1, lengthDelimited, true, some .anyValue⟩]
  | _ => []

def resourceSchema : Schema where
  table kind number := (resourceTable kind).find? (·.number = number)
  key := 1
  value := 2
  stringValue := 1
  resourceAttributes := 1
  scopeAttributes := 3
  numbered _ _ _ h := by simpa using List.find?_some h
  wired kind _ spec h := by
    have hmem := List.mem_of_find?_eq_some h
    have hall : ∀ spec ∈ resourceTable kind, spec.wireType ∈ [varintType, fixed64Type, lengthDelimited, fixed32Type] := by
      cases kind with
      | other name => exact nofun
      | _ => decide
    exact hall spec hmem
  delimited kind _ spec h := by
    have hmem := List.mem_of_find?_eq_some h
    have hall : ∀ spec ∈ resourceTable kind, spec.repeated = true ∨ spec.message ≠ none → spec.wireType = lengthDelimited := by
      cases kind with
      | other name => exact nofun
      | _ => decide
    exact hall spec hmem
  key_lt := by decide
  value_lt := by decide
  stringValue_lt := by decide
  key_field := rfl
  value_field := rfl
  string_field := rfl

/-- An attribute of a one-byte key and a one-byte string, at the limit of the attributes. -/
theorem plain_attribute_agrees_at_limit :
    (plainAttribute resourceSchema ⟨1, 1, 1, 1, 1, 1, 1, 3, 1⟩ [0x0A, 1, 107, 0x12, 3, 0x0A, 1, 118] 0 8 0).run.run .zero =
        (.ok true, ⟨0, 0, 0, 0, 0, 1, 3, 0⟩) ∧
      Tells (message resourceSchema ⟨1, 1, 1, 1, 1, 1, 1, 3, 1⟩ [0x0A, 1, 107, 0x12, 3, 0x0A, 1, 118] false 8 0 8 .keyValue 0) :=
  ⟨rfl, (plain_attribute_agrees (by decide) (by decide)).2.1⟩

end AgentContext.OtlpWire
