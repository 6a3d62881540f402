import AgentContext.Indexing.ScipScan

/-!
# The pre-scan as a guard

The pre-scan of `scip.py` against the reading of the same bytes by the wire format, under the messages of `scip.proto`.
Where it accepts, the bytes have a reading, and in it

    every repeated field   has no more elements in one message than its cap, packed scalars and all
    every message field    that is not repeated occurs at most once in its message
    every message          is no deeper than `max_nesting_depth`
    occurrences, symbols, fields and packed scalars   are within their totals
    every slice of `_walk` that holds a message       is one of these messages                       (scanFields_reads)
-/

namespace AgentContext.Scip

open List

open Fallible (bind_eq_error bind_eq_ok ok_bind)
open Wire (Fields Message Occurrence Payload window)

variable {limits : ScipLimits} {data : List UInt8} {start stop position fuel depth number : Nat} {kind child : Kind}

/-! ## What is in a reading -/

def messageAt (kind : Kind) (number : Nat) : Option Kind :=
  (kind.fields.find? (·.number = number)).bind FieldDescriptor.message

/-- The scalars of a packed payload. -/
def scalarsIn : Element → List UInt8 → Nat
  | .varint, bytes => (Wire.varints bytes).length
  | .fixed32, bytes => bytes.length / 4
  | .fixed64, bytes => bytes.length / 8
  | .message, _ | .lengthDelimited, _ => 0

/-- The elements that one occurrence adds to a repeated field. -/
def elementsIn : Element → Occurrence Kind → Nat
  | .message, .message _ _ => 1
  | .lengthDelimited, .value _ (.delimited _) => 1
  | .varint, .value _ (.varint _) => 1
  | .fixed32, .value _ (.fixed32 _) => 1
  | .fixed64, .value _ (.fixed64 _) => 1
  | element, .value _ (.delimited bytes) => scalarsIn element bytes
  | _, _ => 0

/-- The elements of a field among the fields of a message. -/
def elementsOf (field : FieldDescriptor) (own : List (Occurrence Kind)) : Nat :=
  (own.map fun o => if o.number = field.number then elementsIn field.element o else 0).sum

/-- How often a field occurs with a message. -/
def messagesOf (field : FieldDescriptor) (own : List (Occurrence Kind)) : Nat :=
  own.countP fun o => o.number = field.number ∧ o.child?.isSome

/-- The scalars of an occurrence of a repeated field that is packed. -/
def packedIn (kind : Kind) : Occurrence Kind → Nat
  | .value number (.delimited bytes) =>
    match kind.fields.find? (·.number = number) with
    | some field => if field.repeated then scalarsIn field.element bytes else 0
    | none => 0
  | _ => 0

/-- Every field, and every packed scalar besides. -/
def totalElements (found : List (Kind × Occurrence Kind)) : Nat :=
  found.length + (found.map fun o => packedIn o.1 o.2).sum

structure Bounded (limits : ScipLimits) (m : Message Kind) : Prop where
  depth : m.above.length ≤ limits.maxNestingDepth
  repeated : ∀ field ∈ m.kind.fields, field.repeated = true → elementsOf field m.fields.own ≤ (capOf limits field).1
  single : ∀ field ∈ m.kind.fields, field.repeated = false → field.message ≠ none → messagesOf field m.fields.own ≤ 1

structure WithinTotals (limits : ScipLimits) (found : List (Kind × Occurrence Kind)) : Prop where
  elements : totalElements found ≤ limits.maxTotalElements
  occurrences : (found.countP fun o => o.2.child? = some .occurrence) ≤ limits.maxTotalOccurrences
  symbols : (found.countP fun o => o.2.child? = some .symbolInformation) ≤ limits.maxTotalSymbols

/-- A slice that holds a message is one of the messages below. -/
def Slice.Known (data : List UInt8) (kind : Kind) (inside : List (Message Kind)) (slice : Slice) : Prop :=
  ∀ child, messageAt kind slice.number = some child →
    ∃ m ∈ inside, m.kind = child ∧ Wire.read messageAt child (window data slice.start slice.stop) = .ok m.fields

/-! ## The plans -/

theorem number_inj {field field' : FieldDescriptor} (h : field ∈ kind.fields) (h' : field' ∈ kind.fields)
    (hnumber : field.number = field'.number) : field = field' := by
  have hall : ∀ kind : Kind, ∀ field ∈ kind.fields, ∀ field' ∈ kind.fields, field.number = field'.number → field = field' := by
    intro kind
    cases kind <;> decide
  exact hall kind field h field' h' hnumber

theorem find_field {field : FieldDescriptor} :
    kind.fields.find? (·.number = number) = some field ↔ field ∈ kind.fields ∧ field.number = number := by
  constructor
  · intro h
    exact ⟨List.mem_of_find?_eq_some h, by simpa using List.find?_some h⟩
  · rintro ⟨hmem, rfl⟩
    cases h : kind.fields.find? (·.number = field.number) with
    | none => exact absurd (by simp) (List.find?_eq_none.1 h field hmem)
    | some other =>
      have hother : other.number = field.number := by simpa using List.find?_some h
      rw [number_inj (List.mem_of_find?_eq_some h) hmem hother]

theorem fieldPlans_eq_none : fieldPlans limits kind number = none ↔ kind.fields.find? (·.number = number) = none := by
  rw [fieldPlans, Option.map_eq_none_iff]

theorem fieldPlans_eq_some {plan : FieldPlan} : fieldPlans limits kind number = some plan ↔
      ∃ field ∈ kind.fields, field.number = number ∧ planOf limits field = plan := by
  rw [fieldPlans, Option.map_eq_some_iff]
  constructor
  · rintro ⟨field, hfind, rfl⟩
    obtain ⟨hmem, hnumber⟩ := find_field.1 hfind
    exact ⟨field, hmem, hnumber, rfl⟩
  · rintro ⟨field, hmem, hnumber, rfl⟩
    exact ⟨field, find_field.2 ⟨hmem, hnumber⟩, rfl⟩

/-! ## Reads -/

theorem high_bit (byte : UInt8) : byte.toNat &&& 0x80 = 0 ↔ byte.toNat < 0x80 := by
  have hall : ∀ n < 256, n &&& 0x80 = 0 ↔ n < 0x80 := by decide +kernel
  exact hall _ byte.toNat_lt

theorem byteAt_reads {byte : Nat} (h : byteAt data stop position = .ok byte) :
    ∃ b : UInt8, b.toNat = byte ∧ position < stop ∧ window data position stop = b :: window data (position + 1) stop := by
  unfold byteAt at h
  split at h
  · next hlt =>
    split at h
    · cases h
    · next b hb => exact ⟨b, Except.ok.inj h, hlt, Wire.window_cons hlt hb⟩
  · cases h

theorem varintFrom_reads {left shift result n p : Nat} (hresult : result < 2 ^ shift)
    (h : varintFrom data stop (List.range' shift left 7) position result = .ok (n, p)) :
    position < p ∧ p ≤ stop ∧
      ∃ m, Wire.varint left (window data position stop) = .ok (m, window data p stop) ∧ n = result + m * 2 ^ shift := by
  induction left generalizing position shift result with
  | zero => cases h
  | succ left ih =>
    rw [List.range'_succ, varintFrom] at h
    split at h
    · cases h
    obtain ⟨byte, hbyte, h⟩ := bind_eq_ok.1 h
    obtain ⟨b, rfl, hlt, hwindow⟩ := byteAt_reads hbyte
    dsimp only at h
    rw [Wire.bits_append hresult] at h
    rw [hwindow, Wire.varint]
    split at h
    · next hlast =>
      have hlow := (high_bit b).1 hlast
      cases h
      exact ⟨Nat.lt_succ_self _, hlt, b.toNat, if_pos hlow, by rw [Nat.mod_eq_of_lt hlow]⟩
    · next hmore =>
      obtain ⟨hafter, hend, m, hread, rfl⟩ := ih (Wire.bits_lt hresult) h
      refine ⟨by omega, hend, b.toNat % 128 + 128 * m, ?_, Wire.bits_assoc⟩
      rw [if_neg fun hlow => hmore ((high_bit b).2 hlow), hread]
      rfl

theorem varint_reads {n p : Nat} (h : varint data stop position = .ok (n, p)) :
    position < p ∧ p ≤ stop ∧ Wire.varint 10 (window data position stop) = .ok (n, window data p stop) := by
  obtain ⟨hafter, hend, m, hread, rfl⟩ := varintFrom_reads (by simp) h
  refine ⟨hafter, hend, ?_⟩
  rw [hread]
  simp

theorem scalarsIn_le {bytes : List UInt8} {element : Element} : scalarsIn element bytes ≤ packed bytes element := by
  cases element with
  | fixed32 | fixed64 => exact le_rfl
  | message | lengthDelimited => exact Nat.zero_le _
  | varint =>
    refine Wire.varints_length_le.trans ?_
    have hsplit := length_eq_countP_add_countP (fun byte : UInt8 => decide (0x80 ≤ byte.toNat)) (l := bytes)
    have hlow : bytes.countP (·.toNat < 128) = bytes.countP fun byte => ¬decide (0x80 ≤ byte.toNat) = true :=
      countP_congr fun byte _ => by simp
    show _ ≤ bytes.length - bytes.countP fun byte => decide (0x80 ≤ byte.toNat)
    omega

/-! ## What a field spends -/

section Spent

variable {totals between after : Totals} {o : Kind × Occurrence Kind} {found found' : List (Kind × Occurrence Kind)}

structure Totals.Within (limits : ScipLimits) (totals : Totals) : Prop where
  elements : totals.elements ≤ limits.maxTotalElements
  occurrences : totals.occurrences ≤ limits.maxTotalOccurrences
  symbols : totals.symbols ≤ limits.maxTotalSymbols

/-- What was spent on some fields: no less than there is of them, and within the limits. -/
structure Spent (limits : ScipLimits) (found : List (Kind × Occurrence Kind)) (totals after : Totals) : Prop where
  elements : totals.elements + totalElements found ≤ after.elements
  occurrences : totals.occurrences + (found.countP fun o => o.2.child? = some .occurrence) ≤ after.occurrences
  symbols : totals.symbols + (found.countP fun o => o.2.child? = some .symbolInformation) ≤ after.symbols
  within : totals.Within limits → after.Within limits

theorem Spent.nothing : Spent limits [] totals totals where
  elements := le_rfl
  occurrences := le_rfl
  symbols := le_rfl
  within := id

theorem totalElements_append : totalElements (found ++ found') = totalElements found + totalElements found' := by
  simp only [totalElements, length_append, map_append, sum_append]
  omega

theorem Spent.append (h : Spent limits found totals between) (h' : Spent limits found' between after) :
    Spent limits (found ++ found') totals after where
  elements := by
    have := h.elements
    have := h'.elements
    rw [totalElements_append]
    omega
  occurrences := by
    have := h.occurrences
    have := h'.occurrences
    rw [countP_append]
    omega
  symbols := by
    have := h.symbols
    have := h'.symbols
    rw [countP_append]
    omega
  within hwithin := h'.within (h.within hwithin)

theorem spend_ok {count : Nat} (h : spend limits totals count = .ok after) :
    after = { totals with elements := totals.elements + count } ∧ (totals.Within limits → after.Within limits) := by
  unfold spend at h
  split at h
  · cases h
  · next hfew =>
    cases h
    exact ⟨rfl, fun hwithin => { hwithin with elements := not_lt.1 hfew }⟩

/-- A field that holds no message. -/
theorem Spent.value {payload : Payload} (count : Nat) (hcount : packedIn kind (.value number payload) ≤ count)
    (h : totals.elements + 1 + count ≤ after.elements) (hoccurrences : after.occurrences = totals.occurrences)
    (hsymbols : after.symbols = totals.symbols) (hwithin : totals.Within limits → after.Within limits) :
    Spent limits [(kind, .value number payload)] totals after where
  elements := by
    simp only [totalElements, length_singleton, map_cons, map_nil, sum_cons, sum_nil]
    omega
  occurrences := hoccurrences.ge
  symbols := hsymbols.ge
  within := hwithin

theorem Spent.message (hspend : spend limits totals 1 = .ok between) (henter : enter limits child between = .ok after) :
    Spent limits [(kind, .message number child)] totals after := by
  obtain ⟨rfl, hwithin⟩ := spend_ok hspend
  have hplain : ∀ after : Totals, after.elements = totals.elements + 1 →
      totals.occurrences + (if child = .occurrence then 1 else 0) ≤ after.occurrences →
      totals.symbols + (if child = .symbolInformation then 1 else 0) ≤ after.symbols →
      (totals.Within limits → after.Within limits) → Spent limits [(kind, .message number child)] totals after :=
    fun after helements hoccurrences hsymbols hwithin =>
      { elements := by
          simp only [totalElements, packedIn, length_singleton, map_cons, map_nil, sum_cons, sum_nil]
          omega
        occurrences := by simpa [countP_cons, Occurrence.child?] using hoccurrences
        symbols := by simpa [countP_cons, Occurrence.child?] using hsymbols
        within := hwithin }
  cases child with
  | occurrence =>
    unfold enter at henter
    dsimp only at henter
    split at henter
    · cases henter
    · next hfew =>
      cases henter
      exact hplain _ rfl le_rfl le_rfl fun h => { hwithin h with occurrences := not_lt.1 hfew }
  | symbolInformation =>
    unfold enter at henter
    dsimp only at henter
    split at henter
    · cases henter
    · next hfew =>
      cases henter
      exact hplain _ rfl le_rfl le_rfl fun h => { hwithin h with symbols := not_lt.1 hfew }
  | _ =>
    cases henter
    exact hplain _ rfl le_rfl le_rfl hwithin

end Spent

/-! ## What a message has seen -/

section Seen

variable {seen seen' : Nat → Nat} {added : Nat} {field : FieldDescriptor} {o : Occurrence Kind} {own : List (Occurrence Kind)}

/-- What a message has seen is within the caps of its fields. -/
structure Fits (limits : ScipLimits) (kind : Kind) (seen : Nat → Nat) : Prop where
  repeated : ∀ field ∈ kind.fields, field.repeated = true → seen field.number ≤ (capOf limits field).1
  single : ∀ field ∈ kind.fields, field.repeated = false → field.message ≠ none → seen field.number ≤ 1

/-- The rest of the fields of a message, after what it has seen. -/
structure Rest (limits : ScipLimits) (kind : Kind) (seen : Nat → Nat) (own : List (Occurrence Kind)) : Prop where
  repeated : ∀ field ∈ kind.fields, field.repeated = true → seen field.number + elementsOf field own ≤ (capOf limits field).1
  single : ∀ field ∈ kind.fields, field.repeated = false → field.message ≠ none →
    seen field.number + messagesOf field own ≤ 1

theorem fits_nothing : Fits limits kind fun _ => 0 where
  repeated _ _ _ := Nat.zero_le _
  single _ _ _ _ := Nat.zero_le _

theorem Fits.rest (h : Fits limits kind seen) : Rest limits kind seen [] where
  repeated := h.repeated
  single := h.single

theorem note_ok (hfield : field ∈ kind.fields) (hfits : Fits limits kind seen)
    (h : note (planOf limits field) field.number added seen = .ok seen') :
    seen' = Function.update seen field.number (seen field.number + added) ∧ Fits limits kind seen' := by
  have hnoted : ∀ seen' : Nat → Nat, seen' = Function.update seen field.number (seen field.number + added) →
      (field.repeated = true → seen field.number + added ≤ (capOf limits field).1) →
      (field.repeated = false → field.message ≠ none → seen field.number + added ≤ 1) → Fits limits kind seen' := by
    rintro _ rfl hrepeated hsingle
    constructor
    · intro other hother hrepeats
      by_cases hnumber : other.number = field.number
      · cases number_inj hother hfield hnumber
        rw [Function.update_self]
        exact hrepeated hrepeats
      · rw [Function.update_of_ne hnumber]
        exact hfits.repeated other hother hrepeats
    · intro other hother hsingular hmessage
      by_cases hnumber : other.number = field.number
      · cases number_inj hother hfield hnumber
        rw [Function.update_self]
        exact hsingle hsingular hmessage
      · rw [Function.update_of_ne hnumber]
        exact hfits.single other hother hsingular hmessage
  unfold note at h
  dsimp only at h
  split at h
  · next hrepeated =>
    split at h
    · cases h
    · next hfew =>
      cases h
      refine ⟨rfl, hnoted _ rfl (fun _ => not_lt.1 hfew) fun hsingular => ?_⟩
      rw [show field.repeated = true from hrepeated] at hsingular
      cases hsingular
  · next hrepeated =>
    split at h
    · cases h
    · next hfew =>
      cases h
      exact ⟨rfl, hnoted _ rfl (fun hrepeats => absurd hrepeats hrepeated) fun _ hmessage =>
        not_lt.1 fun hmany => hfew ⟨hmessage, hmany⟩⟩

theorem Rest.unknown (hunknown : ∀ field ∈ kind.fields, field.number ≠ o.number) (h : Rest limits kind seen own) :
    Rest limits kind seen (o :: own) where
  repeated field hfield hrepeated := by
    rw [elementsOf, map_cons, sum_cons, if_neg (hunknown field hfield).symm, Nat.zero_add]
    exact h.repeated field hfield hrepeated
  single field hfield hsingle hmessage := by
    rw [messagesOf, countP_cons_of_neg (by simp [(hunknown field hfield).symm])]
    exact h.single field hfield hsingle hmessage

theorem Rest.known (hfield : field ∈ kind.fields) (hnumber : o.number = field.number)
    (helements : field.repeated = true → elementsIn field.element o ≤ added) (hmessage : o.child?.isSome → 1 ≤ added)
    (h : Rest limits kind (Function.update seen field.number (seen field.number + added)) own) :
    Rest limits kind seen (o :: own) where
  repeated other hother hrepeated := by
    have hrest := h.repeated other hother hrepeated
    rw [elementsOf, map_cons, sum_cons]
    rw [elementsOf] at hrest
    by_cases hsame : other.number = field.number
    · cases number_inj hother hfield hsame
      rw [Function.update_self] at hrest
      rw [if_pos hnumber]
      have := helements hrepeated
      omega
    · rw [Function.update_of_ne hsame] at hrest
      rw [if_neg fun h => hsame (h.symm.trans hnumber), Nat.zero_add]
      exact hrest
  single other hother hsingle hother' := by
    have hrest := h.single other hother hsingle hother'
    rw [messagesOf] at hrest ⊢
    by_cases hsame : other.number = field.number
    · cases number_inj hother hfield hsame
      rw [Function.update_self] at hrest
      by_cases hchild : o.child?.isSome
      · have := hmessage hchild
        rw [countP_cons_of_pos (by simp [hnumber, hchild])]
        omega
      · rw [countP_cons_of_neg (by simp [hchild])]
        omega
    · rw [Function.update_of_ne hsame] at hrest
      rw [countP_cons_of_neg (by simp [hnumber, Ne.symm hsame])]
      exact hrest

/-- All fields of a message, with nothing seen before them. -/
theorem Rest.bounded {fields : Fields Kind} {above : List Kind} (hdepth : above.length ≤ limits.maxNestingDepth)
    (h : Rest limits kind (fun _ => 0) fields.own) : Bounded limits ⟨kind, above, fields⟩ where
  depth := hdepth
  repeated field hfield hrepeated := (Nat.zero_add _).symm.le.trans (h.repeated field hfield hrepeated)
  single field hfield hsingle hmessage := (Nat.zero_add _).symm.le.trans (h.single field hfield hsingle hmessage)

end Seen

/-! ## The walk -/

section Walk

variable {seen seen' : Nat → Nat} {totals between after : Totals} {above : List Kind} {next added : Nat} {f : Fields Kind}
  {payload : Payload} {slices : List Slice}
variable {element : Element} {bytes : List UInt8}

/-- The reading of what is left of a frame, by a walk that ended well. -/
structure Found (limits : ScipLimits) (data : List UInt8) (fuel position stop : Nat) (kind : Kind) (above : List Kind)
    (seen : Nat → Nat) (totals after : Totals) (f : Fields Kind) : Prop where
  reading : Wire.read messageAt kind (window data position stop) = .ok f
  spent : Spent limits (f.occurrences kind) totals after
  rest : Rest limits kind seen f.own
  bounded : ∀ m ∈ f.inside kind above, Bounded limits m
  slices : ∃ slices, walk data stop fuel position = .ok slices ∧ ∀ slice ∈ slices, slice.Known data kind (f.inside kind above)

theorem Slice.Known.mono {inside inside' : List (Message Kind)} {slice : Slice} (hsub : inside ⊆ inside')
    (h : slice.Known data kind inside) : slice.Known data kind inside' := fun child hchild => by
  obtain ⟨m, hm, hread⟩ := h child hchild
  exact ⟨m, hsub hm, hread⟩

theorem Found.value (hfield : Wire.field (window data position stop) = .ok (number, payload, window data next stop))
    (hvalue : messageAt kind number = none ∨ payload.wireType ≠ 2)
    (hspent : Spent limits [(kind, .value number payload)] totals between)
    (hrest : ∀ own, Rest limits kind seen' own → Rest limits kind seen (.value number payload :: own))
    (hwalk : ∀ later, walk data stop fuel next = .ok later → walk data stop (fuel + 1) position = .ok (slices ++ later))
    (hslices : ∀ slice ∈ slices, messageAt kind slice.number = none)
    (h : Found limits data fuel next stop kind above seen' between after f) :
    Found limits data (fuel + 1) position stop kind above seen totals after (.value number payload f) where
  reading := Wire.read_value hfield hvalue h.reading
  spent := hspent.append h.spent
  rest := hrest _ h.rest
  bounded := h.bounded
  slices := by
    obtain ⟨later, hlater, hknown⟩ := h.slices
    refine ⟨slices ++ later, hwalk later hlater, fun slice hslice => ?_⟩
    rcases mem_append.1 hslice with hslice | hslice
    · intro child hchild
      rw [hslices slice hslice] at hchild
      cases hchild
    · exact hknown slice hslice

theorem after_payload (hfits : Fits limits kind seen)
    (h : (if position > stop then .error malformed
      else
        match fieldPlans limits kind number with
        | none => scanFields limits data fuel position stop kind depth seen totals
        | some plan => do
          let seen ← note plan number added seen
          scanFields limits data fuel position stop kind depth seen totals : Except Stop Totals) = .ok after) :
    position ≤ stop ∧ ∃ seen', Fits limits kind seen' ∧
      scanFields limits data fuel position stop kind depth seen' totals = .ok after ∧
      ∀ o : Occurrence Kind, o.number = number →
        (∀ field ∈ kind.fields, field.number = number → field.repeated = true → elementsIn field.element o ≤ added) →
        (o.child?.isSome → 1 ≤ added) → ∀ own, Rest limits kind seen' own → Rest limits kind seen (o :: own) := by
  split at h
  · cases h
  · next hend =>
    refine ⟨not_lt.1 hend, ?_⟩
    split at h
    · next hplan =>
      refine ⟨seen, hfits, h, fun o ho _ _ own hrest => hrest.unknown fun field hfield hnumber => ?_⟩
      rw [fieldPlans_eq_none, List.find?_eq_none] at hplan
      exact hplan field hfield (by simp [hnumber, ho])
    · next plan hplan =>
      obtain ⟨field, hfield, rfl, rfl⟩ := fieldPlans_eq_some.1 hplan
      obtain ⟨seen', hnote, h⟩ := bind_eq_ok.1 h
      obtain ⟨rfl, hfits'⟩ := note_ok hfield hfits hnote
      exact ⟨_, hfits', h, fun o ho helements hchild own hrest =>
        hrest.known hfield ho (helements field hfield rfl) hchild⟩

theorem elementsIn_le (hplain : payload.wireType ≠ 2) : elementsIn element (.value number payload) ≤ 1 := by
  cases payload with
  | delimited bytes => exact absurd rfl hplain
  | varint | fixed64 | fixed32 => cases element <;> simp [elementsIn]

theorem elementsIn_message : elementsIn element (.message number child) ≤ 1 := by cases element <;> simp [elementsIn]

theorem packedIn_plain (hplain : payload.wireType ≠ 2) : packedIn kind (.value number payload) = 0 := by
  cases payload with
  | delimited bytes => exact absurd rfl hplain
  | varint | fixed64 | fixed32 => rfl

theorem elementsIn_packed (h : element ≠ .lengthDelimited) :
    elementsIn element (.value number (.delimited bytes)) = scalarsIn element bytes := by
  cases element with
  | lengthDelimited => exact absurd rfl h
  | message | fixed32 | fixed64 | varint => rfl

theorem packedIn_unknown (h : kind.fields.find? (·.number = number) = none) :
    packedIn kind (.value number (.delimited bytes)) = 0 := by
  simp only [packedIn, h]

theorem packedIn_known {field : FieldDescriptor} (h : kind.fields.find? (·.number = number) = some field) :
    packedIn kind (.value number (.delimited bytes)) = if field.repeated then scalarsIn field.element bytes else 0 := by
  simp only [packedIn, h]

/-- How the payload of a field was scanned: not delimited, delimited without a message, or a message that was entered and
scanned inside of its frame. -/
inductive Paid (limits : ScipLimits) (data : List UInt8) (stop key position : Nat) (kind : Kind)
    (scanChild : Nat → Nat → Kind → Totals → Except Stop Totals) (totals : Totals) : Nat → Nat → Totals → Prop
  | plain {next : Nat} (payload : Payload) (htype : payload.wireType ≠ 2)
      (hread : Wire.payload (key &&& 7) (window data position stop) = .ok (payload, window data next stop))
      (hslice : sliceAt data stop key position = .ok ([], next)) :
      Paid limits data stop key position kind scanChild totals 1 next totals
  | value {added start next : Nat} {after : Totals} (count : Nat)
      (hread : Wire.payload (key &&& 7) (window data position stop) =
        .ok (.delimited (window data start next), window data next stop))
      (hslice : sliceAt data stop key position = .ok ([⟨key >>> 3, start, next⟩], next))
      (hnone : messageAt kind (key >>> 3) = none)
      (hpacked : packedIn kind (.value (key >>> 3) (.delimited (window data start next))) ≤ count)
      (hadded : ∀ field ∈ kind.fields, field.number = key >>> 3 → field.repeated = true →
        elementsIn field.element (.value (key >>> 3) (.delimited (window data start next))) ≤ added)
      (hafter : after = { totals with elements := totals.elements + count })
      (hwithin : totals.Within limits → after.Within limits) :
      Paid limits data stop key position kind scanChild totals added next after
  | message {start next : Nat} (child : Kind) {entered after : Totals} (hle : next ≤ stop)
      (hread : Wire.payload (key &&& 7) (window data position stop) =
        .ok (.delimited (window data start next), window data next stop))
      (hslice : sliceAt data stop key position = .ok ([⟨key >>> 3, start, next⟩], next))
      (hchild : messageAt kind (key >>> 3) = some child) (henter : enter limits child totals = .ok entered)
      (hscan : scanChild start next child entered = .ok after) :
      Paid limits data stop key position kind scanChild totals 1 next after

theorem scanPayload_paid {scanChild : Nat → Nat → Kind → Totals → Except Stop Totals} {key : Nat}
    (hstop : stop ≤ data.length) (hnext : next ≤ stop)
    (h : scanPayload limits scanChild data stop key position (fieldPlans limits kind (key >>> 3)) totals =
      .ok (added, next, after)) : Paid limits data stop key position kind scanChild totals added next after := by
  unfold scanPayload at h
  split at h
  · next hwire =>
    obtain ⟨⟨n, q⟩, hn, h⟩ := bind_eq_ok.1 h
    cases h
    obtain ⟨-, -, hread⟩ := varint_reads hn
    refine .plain (.varint n) nofun ?_ ?_
    · rw [hwire]
      exact Wire.payload_varint hread
    · rw [sliceAt, hwire]
      dsimp only
      rw [hn]
      rfl
  · next hwire =>
    cases h
    refine .plain (.fixed64 (window data position (position + 8))) nofun ?_ (by rw [sliceAt, hwire]; rfl)
    rw [hwire]
    exact Wire.payload_fixed64 hstop hnext
  · next hwire =>
    cases h
    refine .plain (.fixed32 (window data position (position + 4))) nofun ?_ (by rw [sliceAt, hwire]; rfl)
    rw [hwire]
    exact Wire.payload_fixed32 hstop hnext
  · next hwire =>
    obtain ⟨⟨length, start⟩, hlength, h⟩ := bind_eq_ok.1 h
    obtain ⟨-, -, hread⟩ := varint_reads hlength
    dsimp only at h
    split at h
    · cases h
    next hroom =>
    have hdelimited : Wire.payload (key &&& 7) (window data position stop) =
        .ok (.delimited (window data start (start + length)), window data (start + length) stop) := by
      rw [hwire]
      exact Wire.payload_delimited hstop hread (not_lt.1 hroom)
    have hslice : sliceAt data stop key position = .ok ([⟨key >>> 3, start, start + length⟩], start + length) := by
      rw [sliceAt, hwire]
      dsimp only
      rw [hlength, ok_bind]
      exact if_neg hroom
    split at h
    · -- a field that is not known
      next hplan =>
      cases h
      have hfind := fieldPlans_eq_none.1 hplan
      refine .value 0 hdelimited hslice (by rw [messageAt, hfind]; rfl) (packedIn_unknown hfind).le ?_ rfl id
      intro field hfield hnumber
      rw [find_field.2 ⟨hfield, hnumber⟩] at hfind
      cases hfind
    · next plan hplan =>
      obtain ⟨field, hfield, hnumber, rfl⟩ := fieldPlans_eq_some.1 hplan
      have hfind := find_field.2 ⟨hfield, hnumber⟩
      have hmessageAt : messageAt kind (key >>> 3) = field.message := by rw [messageAt, hfind]; rfl
      split at h
      · next child hchild =>
        obtain ⟨entered, henter, h⟩ := bind_eq_ok.1 h
        obtain ⟨walked, hscan, h⟩ := bind_eq_ok.1 h
        cases h
        exact .message child hnext hdelimited hslice (hmessageAt.trans hchild) henter hscan
      · next hmessage =>
        have hnone : messageAt kind (key >>> 3) = none := hmessageAt.trans hmessage
        split at h
        · -- packed scalars
          next hpacked =>
          have hrepeated : field.repeated = true := hpacked.1
          have helement : field.element ≠ .lengthDelimited := hpacked.2
          obtain ⟨counted, hcount, h⟩ := bind_eq_ok.1 h
          cases h
          obtain ⟨rfl, hwithin⟩ := spend_ok hcount
          refine .value _ hdelimited hslice hnone ?_ (fun other hother hsame _ => ?_) rfl hwithin
          · rw [packedIn_known hfind, if_pos hrepeated]
            exact scalarsIn_le
          · cases number_inj hother hfield (hsame.trans hnumber.symm)
            exact (elementsIn_packed helement).le.trans scalarsIn_le
        · -- strings, bytes, and a scalar that is not repeated
          next hpacked =>
          cases h
          have helement : field.repeated = true → field.element = .lengthDelimited := fun hrepeated =>
            not_not.1 fun hother => hpacked ⟨hrepeated, hother⟩
          refine .value 0 hdelimited hslice hnone ?_ (fun other hother hsame hrepeated => ?_) rfl id
          · rw [packedIn_known hfind]
            split
            · next hrepeated => rw [helement hrepeated]; exact le_rfl
            · exact le_rfl
          · cases number_inj hother hfield (hsame.trans hnumber.symm)
            rw [helement hrepeated]
            exact le_rfl
  · cases h

theorem Found.done (h : stop ≤ position) (hfits : Fits limits kind seen) :
    Found limits data fuel position stop kind above seen totals totals .done where
  reading := by rw [Wire.window_nil h, Wire.read_nil]
  spent := .nothing
  rest := hfits.rest
  bounded _ h := nomatch h
  slices := by
    refine ⟨[], ?_, nofun⟩
    cases fuel with
    | zero | succ => rw [walk, if_neg (not_lt.2 h)]

/-- **A walk that ends well has read its frame.**  Along the fields of the frame: what the wire format reads there, what
was spent on it, what was seen of every field, and the slices that `_walk` cuts. -/
theorem scanFields_reads (hstop : stop ≤ data.length) (hdepth : depth = above.length)
    (hshallow : depth ≤ limits.maxNestingDepth) (hfits : Fits limits kind seen)
    (h : scanFields limits data fuel position stop kind depth seen totals = .ok after) :
    ∃ f, Found limits data fuel position stop kind above seen totals after f := by
  induction fuel generalizing position stop kind depth seen totals after above with
  | zero =>
    rw [scanFields] at h
    split at h
    · cases h
    · next hend =>
      cases h
      exact ⟨.done, .done (not_lt.1 hend) hfits⟩
  | succ fuel ih =>
    rw [scanFields] at h
    split at h
    swap
    · next hend =>
      cases h
      exact ⟨.done, .done (not_lt.1 hend) hfits⟩
    next hlt =>
    obtain ⟨⟨key, p⟩, hkey, h⟩ := bind_eq_ok.1 h
    obtain ⟨-, -, htag⟩ := varint_reads hkey
    dsimp only at h
    split at h
    · cases h
    next hzero =>
    obtain ⟨begun, hspend, h⟩ := bind_eq_ok.1 h
    obtain ⟨⟨added, next, charged⟩, hpayload, h⟩ := bind_eq_ok.1 h
    obtain ⟨hnext, seen', hfits', hscan, hrest⟩ := after_payload hfits h
    obtain ⟨later, hlater⟩ := ih hstop hdepth hshallow hfits' hscan
    have hwalk : ∀ {found : List Slice}, sliceAt data stop key p = .ok (found, next) → ∀ later,
        walk data stop fuel next = .ok later → walk data stop (fuel + 1) position = .ok (found ++ later) := by
      intro found hfound later hlater
      rw [walk, if_pos hlt, hkey, ok_bind]
      dsimp only
      rw [if_neg hzero]
      exact bind_eq_ok.2 ⟨(found, next), hfound, by rw [if_neg (not_lt.2 hnext), hlater]; rfl⟩
    cases scanPayload_paid hstop hnext hpayload with
    | plain payload htype hread hslice =>
      obtain ⟨rfl, hwithin⟩ := spend_ok hspend
      refine ⟨_, .value (Wire.field_window htag hread) (.inr htype) ?_ ?_ (hwalk hslice) nofun hlater⟩
      · exact .value 0 (packedIn_plain htype).le le_rfl rfl rfl hwithin
      · exact hrest _ rfl (fun _ _ _ _ => elementsIn_le htype) nofun
    | value count hread hslice hnone hpacked hadded hafter hwithin' =>
      obtain ⟨rfl, hwithin⟩ := spend_ok hspend
      subst hafter
      refine ⟨_, .value (Wire.field_window htag hread) (.inl hnone) ?_ ?_ (hwalk hslice) (by simp [hnone]) hlater⟩
      · exact .value _ hpacked le_rfl rfl rfl fun h => hwithin' (hwithin h)
      · exact hrest _ rfl hadded nofun
    | message child hle hread hslice hchild henter hinner =>
      split at hinner
      · cases hinner
      next hdeep =>
      have hdeeper : depth + 1 = (kind :: above).length := by rw [hdepth, length_cons]
      obtain ⟨inner, hfound⟩ := ih (hle.trans hstop) hdeeper (not_lt.1 hdeep) fits_nothing hinner
      have hbounded := hfound.rest.bounded (hdeeper ▸ not_lt.1 hdeep)
      refine ⟨.message (key >>> 3) child inner later, ?_, ?_, ?_, ?_, ?_⟩
      · exact Wire.read_message (Wire.field_window htag hread) hchild hfound.reading hlater.reading
      · exact (Spent.message hspend henter).append (hfound.spent.append hlater.spent)
      · exact hrest _ rfl (fun _ _ _ _ => elementsIn_message) (fun _ => le_rfl) _ hlater.rest
      · intro m hm
        rcases mem_cons.1 hm with rfl | hm
        · exact hbounded
        rcases mem_append.1 hm with hm | hm
        · exact hfound.bounded m hm
        · exact hlater.bounded m hm
      · obtain ⟨slices, hslices, hknown⟩ := hlater.slices
        refine ⟨_, hwalk hslice slices hslices, fun slice hmem => ?_⟩
        rcases mem_append.1 hmem with hmem | hmem
        · rw [mem_singleton] at hmem
          subst hmem
          intro child' hchild'
          cases hchild.symm.trans hchild'
          exact ⟨_, mem_cons_self, rfl, hfound.reading⟩
        · exact (hknown slice hmem).mono fun m hm => mem_cons_of_mem _ (mem_append_right _ hm)

end Walk

/-! ## How a scan ends -/

/-- An end that the scan tells: not out of fuel, and no read outside of its frame. -/
def Stop.told : Stop → Prop
  | .refused _ => True
  | .outside | .fuel => False

section Told

variable {seen : Nat → Nat} {totals : Totals} {added : Nat} {e : Stop}
variable {field : Option FieldPlan} {scanChild : Nat → Nat → Kind → Totals → Except Stop Totals}

theorem byteAt_told (hstop : stop ≤ data.length) (hlt : position < stop) (h : byteAt data stop position = .error e) : e.told := by
  unfold byteAt at h
  rw [if_pos hlt, List.getElem?_eq_getElem (by omega)] at h
  cases h

theorem varintFrom_told {shifts : List Nat} {value : Nat} (hstop : stop ≤ data.length)
    (h : varintFrom data stop shifts position value = .error e) : e.told := by
  induction shifts generalizing position value with
  | nil =>
    cases h
    trivial
  | cons shift shifts ih =>
    rw [varintFrom] at h
    split at h
    · cases h
      trivial
    · next hroom =>
      rcases bind_eq_error.1 h with h | ⟨byte, -, h⟩
      · exact byteAt_told hstop (not_le.1 hroom) h
      · dsimp only at h
        split at h
        · cases h
        · exact ih h

theorem varint_told (hstop : stop ≤ data.length) (h : varint data stop position = .error e) : e.told := varintFrom_told hstop h

theorem spend_told {count : Nat} (h : spend limits totals count = .error e) : e.told := by
  unfold spend at h
  split at h
  · cases h
    trivial
  · cases h

theorem enter_told (h : enter limits child totals = .error e) : e.told := by
  unfold enter at h
  split at h
  · split at h
    · cases h
      trivial
    · cases h
  · split at h
    · cases h
      trivial
    · cases h
  · cases h

theorem note_told {plan : FieldPlan} (h : note plan number added seen = .error e) : e.told := by
  unfold note at h
  dsimp only at h
  split at h
  · split at h
    · cases h
      trivial
    · cases h
  · split at h
    · cases h
      trivial
    · cases h

/-- A payload ends behind its tag. -/
theorem scanPayload_next {key next : Nat} {after : Totals}
    (h : scanPayload limits scanChild data stop key position field totals = .ok (added, next, after)) :
    position ≤ next := by
  unfold scanPayload at h
  split at h
  · obtain ⟨⟨n, q⟩, hn, h⟩ := bind_eq_ok.1 h
    cases h
    exact (varint_reads hn).1.le
  · cases h
    omega
  · cases h
    omega
  · obtain ⟨⟨length, start⟩, hlength, h⟩ := bind_eq_ok.1 h
    obtain ⟨hstart, -, -⟩ := varint_reads hlength
    have hend : position ≤ start + length := by omega
    dsimp only at h
    split at h
    · cases h
    split at h
    · cases h
      exact hend
    · split at h
      · obtain ⟨_, -, h⟩ := bind_eq_ok.1 h
        obtain ⟨_, -, h⟩ := bind_eq_ok.1 h
        cases h
        exact hend
      · split at h
        · obtain ⟨_, -, h⟩ := bind_eq_ok.1 h
          cases h
          exact hend
        · cases h
          exact hend
  · cases h

/-- A payload tells why it does not end, where the message in it does. -/
theorem scanPayload_told {key : Nat} (hstop : stop ≤ data.length)
    (hchild : ∀ {start next child totals}, position < start → next ≤ stop → scanChild start next child totals = .error e → e.told)
    (h : scanPayload limits scanChild data stop key position field totals = .error e) : e.told := by
  unfold scanPayload at h
  split at h
  · rcases bind_eq_error.1 h with h | ⟨_, -, h⟩
    · exact varint_told hstop h
    · cases h
  · cases h
  · cases h
  · rcases bind_eq_error.1 h with h | ⟨⟨length, start⟩, hlength, h⟩
    · exact varint_told hstop h
    obtain ⟨hstart, -, -⟩ := varint_reads hlength
    dsimp only at h
    split at h
    · cases h
      trivial
    next hroom =>
    split at h
    · cases h
    · split at h
      · rcases bind_eq_error.1 h with h | ⟨entered, -, h⟩
        · exact enter_told h
        rcases bind_eq_error.1 h with h | ⟨walked, -, h⟩
        · exact hchild hstart (not_lt.1 hroom) h
        · cases h
      · split at h
        · rcases bind_eq_error.1 h with h | ⟨counted, -, h⟩
          · exact spend_told h
          · cases h
        · cases h
  · cases h
    trivial

/-- **The scan tells how it ends.**  With the fuel of its bytes it does not run out, and it reads inside of its frames. -/
theorem scanFields_told (hstop : stop ≤ data.length) (hfuel : stop - position ≤ fuel)
    (h : scanFields limits data fuel position stop kind depth seen totals = .error e) : e.told := by
  induction fuel generalizing position stop kind depth seen totals with
  | zero =>
    rw [scanFields, if_neg (by omega)] at h
    cases h
  | succ fuel ih =>
    rw [scanFields] at h
    split at h
    swap
    · cases h
    rcases bind_eq_error.1 h with h | ⟨⟨key, p⟩, hkey, h⟩
    · exact varint_told hstop h
    obtain ⟨hafter, -, -⟩ := varint_reads hkey
    dsimp only at h
    by_cases hzero : key >>> 3 = 0
    · rw [if_pos hzero] at h
      cases h
      trivial
    rw [if_neg hzero] at h
    rcases bind_eq_error.1 h with h | ⟨begun, -, h⟩
    · exact spend_told h
    rcases bind_eq_error.1 h with h | ⟨⟨added, next, charged⟩, hpayload, h⟩
    · refine scanPayload_told hstop (fun hstart hnext hinner => ?_) h
      split at hinner
      · cases hinner
        trivial
      · exact ih (hnext.trans hstop) (by omega) hinner
    · have hnext := scanPayload_next hpayload
      dsimp only at h
      split at h
      · cases h
        trivial
      split at h
      · exact ih hstop (by omega) h
      · rcases bind_eq_error.1 h with h | ⟨_, -, h⟩
        · exact note_told h
        · exact ih hstop (by omega) h

theorem prescan_told (h : prescan limits data = .error e) : e.told := by
  unfold prescan scan at h
  split at h
  · cases h
    trivial
  · exact scanFields_told le_rfl (by omega) h

end Told

/-- What the pre-scan accepts has a reading within the limits, and `_walk` cuts messages of it. -/
theorem prescan_reads {totals : Totals} (h : prescan limits data = .ok totals) :
    ∃ f, Wire.read messageAt .index data = .ok f ∧ WithinTotals limits (f.occurrences .index) ∧
      (∀ m ∈ f.messages .index, Bounded limits m) ∧
      ∃ slices, walk data data.length data.length 0 = .ok slices ∧
        ∀ slice ∈ slices, slice.Known data .index (f.inside .index []) := by
  unfold prescan scan at h
  rw [if_neg (Nat.not_lt_zero _)] at h
  obtain ⟨f, hf⟩ : ∃ f, Found limits data data.length 0 data.length .index [] (fun _ => 0) .zero totals f :=
    scanFields_reads le_rfl rfl (Nat.zero_le _) fits_nothing h
  have hwhole : window data 0 data.length = data := take_length
  have hreading := hf.reading
  rw [hwhole] at hreading
  have hwithin := hf.spent.within ⟨Nat.zero_le _, Nat.zero_le _, Nat.zero_le _⟩
  refine ⟨f, hreading, ⟨?_, ?_, ?_⟩, fun m hm => ?_, hf.slices⟩
  · exact (Nat.zero_add _).symm.le.trans (hf.spent.elements.trans hwithin.elements)
  · exact (Nat.zero_add _).symm.le.trans (hf.spent.occurrences.trans hwithin.occurrences)
  · exact (Nat.zero_add _).symm.le.trans (hf.spent.symbols.trans hwithin.symbols)
  · rcases mem_cons.1 hm with rfl | hm
    · exact hf.rest.bounded (Nat.zero_le _)
    · exact hf.bounded m hm

/-- **The pre-scan is a complete guard.**  It ends by refusing, and only reads inside of its frames.  What it accepts has a
reading by the wire format in which every repeated field is within its cap, packed scalars and all, no message field that
is not repeated occurs twice in a message, the depth is within its bound and the occurrences, symbols and elements are
within their totals.  And every slice that `import_scip` parses is a message of that reading. -/
theorem prescan_guards :
    (∀ e, prescan limits data = .error e → e.told) ∧ (∀ e, importScip limits data = .error e → e.told) ∧
      (∀ totals, prescan limits data = .ok totals → ∃ f, Wire.read messageAt .index data = .ok f ∧
        WithinTotals limits (f.occurrences .index) ∧ ∀ m ∈ f.messages .index, Bounded limits m) ∧
      ∀ slices, importScip limits data = .ok slices → ∃ f, Wire.read messageAt .index data = .ok f ∧
        ∀ slice ∈ slices, ∃ m ∈ f.messages .index, messageAt .index slice.number = some m.kind ∧
          Wire.read messageAt m.kind (window data slice.start slice.stop) = .ok m.fields ∧ Bounded limits m := by
  refine ⟨fun e => prescan_told, fun e he => ?_, fun totals h => ?_, fun slices h => ?_⟩
  · unfold importScip at he
    split at he
    · cases he
      trivial
    rcases bind_eq_error.1 he with he | ⟨totals, hscan, he⟩
    · exact prescan_told he
    · obtain ⟨f, -, -, -, slices, hwalk, -⟩ := prescan_reads hscan
      rw [hwalk, ok_bind] at he
      cases he
  · obtain ⟨f, hread, htotals, hbounded, -⟩ := prescan_reads h
    exact ⟨f, hread, htotals, hbounded⟩
  · unfold importScip at h
    split at h
    · cases h
    obtain ⟨totals, hscan, h⟩ := bind_eq_ok.1 h
    obtain ⟨f, hread, -, hbounded, all, hwalk, hknown⟩ := prescan_reads hscan
    rw [hwalk, ok_bind] at h
    cases h
    refine ⟨f, hread, fun slice hslice => ?_⟩
    obtain ⟨hslice, hnumber⟩ := List.mem_filter.1 hslice
    obtain ⟨child, hchild⟩ : ∃ child, messageAt .index slice.number = some child := by
      rcases of_decide_eq_true hnumber with h | h | h
      · exact ⟨.metadata, by rw [h]; rfl⟩
      · exact ⟨.document, by rw [h]; rfl⟩
      · exact ⟨.symbolInformation, by rw [h]; rfl⟩
    obtain ⟨m, hm, rfl, hinner⟩ := hknown slice hslice child hchild
    exact ⟨m, List.mem_cons_of_mem _ hm, hchild, hinner, hbounded m (List.mem_cons_of_mem _ hm)⟩

/-- A document of one occurrence with a packed range of three, at the limits. -/
theorem prescan_guards_document :
    ∃ f, Wire.read messageAt .index [0x12, 7, 0x12, 5, 0x0A, 3, 1, 0, 4] = .ok f ∧
      WithinTotals ⟨9, 1, 1, 0, 1, 0, 0, 6, 2, 0, 0, 0⟩ (f.occurrences .index) ∧
      ∀ m ∈ f.messages .index, Bounded ⟨9, 1, 1, 0, 1, 0, 0, 6, 2, 0, 0, 0⟩ m :=
  prescan_guards.2.2.1 ⟨6, 1, 0⟩ (rfl)

end AgentContext.Scip
