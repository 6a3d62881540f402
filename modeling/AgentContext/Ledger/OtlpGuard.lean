import AgentContext.Ledger.OtlpPlain
import AgentContext.Lib.Wire

/-!
# The scan as a guard

The scan of `otlp_wire.py` against the reading of the same bytes by the wire format.  Where it accepts, the bytes have a
reading, and

    counts    = what is counted in the reading                                                 (fields_reads)
    counts    ≤ limits
    messages    every one at most `MAX_VALUE_DEPTH` values deep, its known fields with the wire types of the schema,
                no singular message field twice, and a container with no more attributes than it may have

A decoder that takes fewer varints than the wire format, such as tags of 32 bits only, reads no more than this.
-/

namespace AgentContext.OtlpWire

open Fallible (ok_bind)
open Wire (Fields Message Occurrence Payload window)

variable {schema : Schema} {limits : WireLimits} {data : List UInt8} {start stop position fuel depth attributes : Nat}
  {singular : List Nat} {kind : Kind}
variable {n p : Nat}

/-! ## What is in a reading -/

def Schema.messageAt (schema : Schema) (kind : Kind) (number : Nat) : Option Kind :=
  (schema.table kind number).bind Field.message

def Schema.repeats (schema : Schema) (kind : Kind) (number : Nat) : Bool :=
  (schema.table kind number).any Field.repeated

/-- The field of a container that holds its attributes. -/
def Schema.attributesOf (schema : Schema) : Kind → Option Nat
  | .resource => some schema.resourceAttributes
  | .instrumentationScope => some schema.scopeAttributes
  | _ => none

/-- What there is of each group in a reading: the attributes are the `KeyValue` messages and the elements of arrays, the
objects the elements of repeated fields. -/
def tally (schema : Schema) (found : List (Kind × Occurrence Kind)) : Counts where
  resources := found.countP fun o => o.2.child? = some .resourceSpans
  scopes := found.countP fun o => o.2.child? = some .scopeSpans
  spans := found.countP fun o => o.2.child? = some .span
  records := found.countP (fun o => o.2.child? = some .span) + found.countP fun o => o.2.child? = some .event
  links := found.countP fun o => o.2.child? = some .link
  attributes := found.countP (fun o => o.2.child? = some .keyValue) +
    found.countP fun o => o.1 = .arrayValue ∧ o.2.child?.isSome
  fields := found.length
  objects := found.countP fun o => schema.repeats o.1 o.2.number

/-- No group is larger than its limit. -/
structure Counts.Within (limits : WireLimits) (counts : Counts) : Prop where
  resources : counts.resources ≤ limits.maxResources
  scopes : counts.scopes ≤ limits.maxScopes
  spans : counts.spans ≤ limits.maxSpans
  records : counts.records ≤ limits.maxRecords
  links : counts.links ≤ limits.maxLinks
  attributes : counts.attributes ≤ limits.maxTotalAttributes
  fields : counts.fields ≤ limits.maxFields
  objects : counts.objects ≤ limits.maxObjects

/-- A message as the scan lets it pass. -/
structure Guarded (schema : Schema) (limits : WireLimits) (m : Message Kind) : Prop where
  depth : (m.kind :: m.above).countP Kind.nesting ≤ maxValueDepth
  matching : ∀ o ∈ m.fields.own, ∀ spec, schema.table m.kind o.number = some spec → o.wireType = spec.wireType
  single : ∀ number spec, schema.table m.kind number = some spec → spec.repeated = false → spec.message ≠ none →
    m.fields.own.countP (·.number = number) ≤ 1
  attributes : ∀ number, schema.attributesOf m.kind = some number →
    m.fields.own.countP (fun o => o.number = number ∧ o.child?.isSome) ≤ limits.maxContainerAttributes

/-! ## Reads -/

theorem window_byteAt {byte : Nat} (h : byteAt data stop position = .ok byte) :
    ∃ b : UInt8, b.toNat = byte ∧ window data position stop = b :: window data (position + 1) stop := by
  unfold byteAt at h
  split at h
  · next hlt =>
    split at h
    · cases h
    · next b hb => exact ⟨b, Except.ok.inj h, Wire.window_cons hlt hb⟩
  · cases h

theorem varintFrom_reads {left shift result n p : Nat} (hresult : result < 2 ^ shift)
    (h : varintFrom data stop left position shift result = .ok (n, p)) :
    ∃ m, Wire.varint left (window data position stop) = .ok (m, window data p stop) ∧ n = result + m * 2 ^ shift := by
  induction left generalizing position shift result with
  | zero => cases h
  | succ left ih =>
    rw [varintFrom] at h
    split at h
    · cases h
    cases hbyte : byteAt data stop position with
    | error e =>
      rw [hbyte] at h
      cases h
    | ok byte =>
      obtain ⟨b, hb, hwindow⟩ := window_byteAt hbyte
      rw [hbyte, ok_bind] at h
      dsimp only at h
      rw [Wire.bits_append hresult] at h
      rw [hwindow, Wire.varint, hb]
      split at h
      · next hlast =>
        cases h
        exact ⟨byte, if_pos hlast, by rw [Nat.mod_eq_of_lt hlast]⟩
      · next hmore =>
        obtain ⟨m, hread, rfl⟩ := ih (Wire.bits_lt hresult) h
        refine ⟨byte % 128 + 128 * m, ?_, Wire.bits_assoc⟩
        rw [if_neg hmore, hread]
        rfl

theorem varint_reads (h : varint data stop position = .ok (n, p)) :
    Wire.varint 10 (window data position stop) = .ok (n, window data p stop) := by
  obtain ⟨m, hread, rfl⟩ := varintFrom_reads (by simp) h
  rw [hread]
  simp

theorem tagAt_reads (h : tagAt data stop position = .ok (n, p)) :
    Wire.varint 10 (window data position stop) = .ok (n, window data p stop) := by
  unfold tagAt at h
  cases hbyte : byteAt data stop position with
  | error e =>
    rw [hbyte] at h
    cases h
  | ok byte =>
    rw [hbyte, ok_bind] at h
    split at h
    · next hshort =>
      cases h
      obtain ⟨b, rfl, hwindow⟩ := window_byteAt hbyte
      rw [hwindow]
      exact if_pos hshort
    · exact varint_reads h

theorem lengthAt_reads (h : lengthAt data stop position = .ok (n, p)) :
    Wire.varint 10 (window data position stop) = .ok (n, window data p stop) := by
  unfold lengthAt at h
  split at h
  · exact tagAt_reads h
  · exact varint_reads h

theorem skip_reads {wireType p : Nat} (hstop : stop ≤ data.length)
    (hwire : wireType = varintType ∨ wireType = fixed64Type ∨ wireType = fixed32Type)
    (h : skip data stop position wireType = .ok p) :
    ∃ payload, payload.wireType = wireType ∧
      Wire.payload wireType (window data position stop) = .ok (payload, window data p stop) := by
  have hend : ∀ {q : Nat}, (if q > stop then .error malformed else .ok q : Except Stop Nat) = .ok p → q = p ∧ p ≤ stop :=
    fun {q} h => by
      split at h
      · cases h
      · cases h
        exact ⟨rfl, by omega⟩
  unfold skip at h
  rcases hwire with rfl | rfl | rfl
  · rw [if_pos rfl] at h
    cases hread : varint data stop position with
    | error e =>
      rw [hread] at h
      cases h
    | ok read =>
      obtain ⟨n, q⟩ := read
      rw [hread] at h
      obtain ⟨rfl, -⟩ := hend h
      exact ⟨.varint n, rfl, Wire.payload_varint (varint_reads hread)⟩
  · rw [if_neg (by decide), if_pos rfl] at h
    obtain ⟨rfl, hle⟩ := hend h
    exact ⟨_, rfl, Wire.payload_fixed64 hstop hle⟩
  · rw [if_neg (by decide), if_neg (by decide)] at h
    obtain ⟨rfl, hle⟩ := hend h
    exact ⟨_, rfl, Wire.payload_fixed32 hstop hle⟩

theorem skipUnknown_reads {wireType p : Nat} (hstop : stop ≤ data.length)
    (h : skipUnknown data stop position wireType = .ok p) :
    ∃ payload, payload.wireType = wireType ∧
      Wire.payload wireType (window data position stop) = .ok (payload, window data p stop) := by
  unfold skipUnknown at h
  split at h
  · next hwire =>
    subst hwire
    cases hread : varint data stop position with
    | error e =>
      rw [hread] at h
      cases h
    | ok read =>
      rw [hread, ok_bind] at h
      dsimp only at h
      split at h
      · cases h
      · cases h
        exact ⟨.delimited _, rfl, Wire.payload_delimited hstop (varint_reads hread) (by omega)⟩
  · split at h
    · next hwire => exact skip_reads hstop hwire h
    · cases h

/-! ## Charges -/

/-- A piece of the scan ends well: what it returns, and the counts before and after it. -/
def Ends {α : Type} (m : Scan α) (counts : Counts) (a : α) (after : Counts) : Prop := m.run.run counts = (.ok a, after)

section Ends

variable {α β : Type} {m m' : Scan α} {f : α → Scan β} {a : α} {b : β} {counts after : Counts}

theorem ends_bind : Ends (m >>= f) counts b after ↔ ∃ a between, Ends m counts a between ∧ Ends (f a) between b after := by
  constructor
  · intro h
    cases hm : (m.run.run counts).1 with
    | error e =>
      have herror := run_bind_error (f := f) hm
      rw [show (m >>= f).run.run counts = _ from h] at herror
      cases herror
    | ok a =>
      refine ⟨a, (m.run.run counts).2, Prod.ext hm rfl, ?_⟩
      rw [Ends, ← run_bind_ok (f := f) hm]
      exact h
  · rintro ⟨a, between, hm, hf⟩
    rw [Ends, run_bind_ok (congrArg Prod.fst hm), congrArg Prod.snd hm]
    exact hf

theorem ends_pure {a' : α} : Ends (pure a) counts a' after ↔ a' = a ∧ after = counts := by
  constructor
  · intro h
    cases h
    exact ⟨rfl, rfl⟩
  · rintro ⟨rfl, rfl⟩
    rfl

theorem not_ends_throw {e : Stop} : ¬Ends (throw e : Scan α) counts a after := nofun

theorem ends_read {r : Except Stop α} : Ends (liftM r >>= f) counts b after ↔ ∃ a, r = .ok a ∧ Ends (f a) counts b after := by
  cases r with
  | error e =>
    rw [lift_error, throw_bind]
    constructor
    · intro h
      cases h
    · rintro ⟨_, h, -⟩
      cases h
  | ok a =>
    rw [lift_ok, pure_bind]
    constructor
    · intro h
      exact ⟨a, rfl, h⟩
    · rintro ⟨_, ⟨⟩, h⟩
      exact h

theorem ends_ite {c : Prop} [Decidable c] :
    Ends (if c then m else m') counts a after ↔ (c ∧ Ends m counts a after) ∨ (¬c ∧ Ends m' counts a after) := by
  split
  · next h => simp [h]
  · next h => simp [h]

/-- A charge that ends well was within its limit. -/
theorem ends_charge {charge : Counts → Counts} {tooMany : Counts → Prop} [∀ counts, Decidable (tooMany counts)]
    {code : String} {u : Unit} (h : Ends (do
      modify charge
      if tooMany (← get) then throw (.exceeded code) : Scan Unit) counts u after) :
    after = charge counts ∧ ¬tooMany after := by
  obtain ⟨_, _, hmodify, h⟩ := ends_bind.1 h
  cases hmodify
  obtain ⟨_, _, hget, h⟩ := ends_bind.1 h
  cases hget
  rcases ends_ite.1 h with ⟨-, h⟩ | ⟨hfew, h⟩
  · exact absurd h not_ends_throw
  · obtain ⟨-, rfl⟩ := ends_pure.1 h
    exact ⟨rfl, hfew⟩

end Ends

instance : Add Counts where
  add a b := ⟨a.resources + b.resources, a.scopes + b.scopes, a.spans + b.spans, a.records + b.records, a.links + b.links,
    a.attributes + b.attributes, a.fields + b.fields, a.objects + b.objects⟩

attribute [ext] Counts

namespace Counts

theorem add_def (a b : Counts) : a + b =
    ⟨a.resources + b.resources, a.scopes + b.scopes, a.spans + b.spans, a.records + b.records, a.links + b.links,
      a.attributes + b.attributes, a.fields + b.fields, a.objects + b.objects⟩ := rfl

@[simp] theorem zero_add (counts : Counts) : zero + counts = counts := by ext <;> exact Nat.zero_add _

@[simp] theorem add_zero (counts : Counts) : counts + zero = counts := rfl

theorem add_assoc (a b c : Counts) : a + b + c = a + (b + c) := by ext <;> exact Nat.add_assoc ..

end Counts

section Tally

variable {number : Nat} {child : Kind} {payload : Payload} {o : Kind × Occurrence Kind} {os os' : List (Kind × Occurrence Kind)}

theorem tally_append : tally schema (os ++ os') = tally schema os + tally schema os' := by
  ext <;> simp only [tally, List.countP_append, List.length_append, Counts.add_def] <;> omega

theorem tally_cons : tally schema (o :: os) = tally schema [o] + tally schema os :=
  (tally_append : tally schema ([o] ++ os) = _)

/-- What `_enter` charges for a message. -/
def entered : Kind → Counts
  | .keyValue => { Counts.zero with attributes := 1 }
  | .span => { Counts.zero with spans := 1, records := 1 }
  | .event => { Counts.zero with records := 1 }
  | .link => { Counts.zero with links := 1 }
  | .scopeSpans => { Counts.zero with scopes := 1 }
  | .resourceSpans => { Counts.zero with resources := 1 }
  | _ => .zero

def oneField : Counts := { Counts.zero with fields := 1 }

def oneObject : Counts := { Counts.zero with objects := 1 }

def oneAttribute : Counts := { Counts.zero with attributes := 1 }

theorem tally_message : tally schema [(kind, .message number child)] =
    oneField + ((if schema.repeats kind number then oneObject else .zero) +
      ((if kind = .arrayValue then oneAttribute else .zero) + entered child)) := by
  by_cases hkind : kind = .arrayValue
  · subst hkind
    by_cases hrepeats : schema.repeats .arrayValue number <;> cases child <;>
      simp [tally, entered, oneField, oneObject, oneAttribute, Occurrence.child?, Occurrence.number, hrepeats,
        Counts.add_def, Counts.zero]
  · by_cases hrepeats : schema.repeats kind number <;> cases child <;>
      simp [tally, entered, oneField, oneObject, Occurrence.child?, Occurrence.number, hrepeats, hkind, Counts.add_def,
        Counts.zero]

theorem tally_value : tally schema [(kind, .value number payload)] =
    oneField + (if schema.repeats kind number then oneObject else .zero) := by
  by_cases hrepeats : schema.repeats kind number <;>
    simp [tally, oneField, oneObject, Occurrence.child?, Occurrence.number, hrepeats, Counts.add_def, Counts.zero]

end Tally

/-- A charge of the scan: what it adds to the counts, and that it stays within the limits. -/
def Adds (limits : WireLimits) (delta counts after : Counts) : Prop :=
  after = counts + delta ∧ (counts.Within limits → after.Within limits)

section Adds

variable {counts between after a b : Counts} {u : Unit} {child : Kind} {spec : Field} {singular' : List Nat}
  {attributes' : Nat}

theorem Adds.nothing : Adds limits .zero counts counts := ⟨rfl, id⟩

theorem Adds.trans (h : Adds limits a counts between) (h' : Adds limits b between after) : Adds limits (a + b) counts after := by
  obtain ⟨rfl, hwithin⟩ := h
  obtain ⟨rfl, hwithin'⟩ := h'
  exact ⟨Counts.add_assoc .., fun h => hwithin' (hwithin h)⟩

theorem fieldVisited_ends (h : Ends (fieldVisited limits) counts u after) : Adds limits oneField counts after := by
  obtain ⟨rfl, hfew⟩ := ends_charge h
  exact ⟨rfl, fun h => { h with fields := not_lt.1 hfew }⟩

theorem objects_ends (h : Ends (objects limits 1) counts u after) : Adds limits oneObject counts after := by
  obtain ⟨rfl, hfew⟩ := ends_charge h
  exact ⟨rfl, fun h => { h with objects := not_lt.1 hfew }⟩

theorem attributeVisited_ends (h : Ends (attributeVisited limits depth) counts u after) :
    Adds limits oneAttribute counts after := by
  obtain ⟨rfl, hfew⟩ := ends_charge h
  exact ⟨rfl, fun h => { h with attributes := not_lt.1 fun hmany => hfew (.inl hmany) }⟩

theorem record_ends (h : Ends (record limits) counts u after) :
    Adds limits { Counts.zero with records := 1 } counts after := by
  obtain ⟨rfl, hfew⟩ := ends_charge h
  exact ⟨rfl, fun h => { h with records := not_lt.1 hfew }⟩

/-- A message that was entered is charged, and its depth was looked at. -/
theorem enter_ends (h : Ends (enter limits kind depth) counts u after) :
    Adds limits (entered kind) counts after ∧ (kind.nesting = true → depth ≤ maxValueDepth) := by
  cases kind with
  | keyValue => exact ⟨attributeVisited_ends h, nofun⟩
  | span =>
    refine ⟨?_, nofun⟩
    obtain ⟨_, _, hmodify, h⟩ := ends_bind.1 h
    cases hmodify
    obtain ⟨_, _, hget, h⟩ := ends_bind.1 h
    cases hget
    rcases ends_ite.1 h with ⟨-, h⟩ | ⟨hfew, h⟩
    · obtain ⟨_, _, hthrow, -⟩ := ends_bind.1 h
      exact absurd hthrow not_ends_throw
    · obtain ⟨rfl, hwithin⟩ := record_ends h
      exact ⟨rfl, fun h => hwithin { h with spans := not_lt.1 hfew }⟩
  | event => exact ⟨record_ends h, nofun⟩
  | link =>
    obtain ⟨rfl, hfew⟩ := ends_charge h
    exact ⟨⟨rfl, fun h => { h with links := not_lt.1 hfew }⟩, nofun⟩
  | scopeSpans =>
    obtain ⟨rfl, hfew⟩ := ends_charge h
    exact ⟨⟨rfl, fun h => { h with scopes := not_lt.1 hfew }⟩, nofun⟩
  | resourceSpans =>
    obtain ⟨rfl, hfew⟩ := ends_charge h
    exact ⟨⟨rfl, fun h => { h with resources := not_lt.1 hfew }⟩, nofun⟩
  | arrayValue | keyValueList =>
    rcases ends_ite.1 h with ⟨-, h⟩ | ⟨hdeep, h⟩
    · exact absurd h not_ends_throw
    · obtain ⟨-, rfl⟩ := ends_pure.1 h
      exact ⟨.nothing, fun _ => not_lt.1 hdeep⟩
  | request | anyValue | resource | instrumentationScope | other _ =>
    obtain ⟨-, rfl⟩ := ends_pure.1 h
    exact ⟨.nothing, nofun⟩

theorem elementVisited_ends (h : Ends (elementVisited limits spec) counts u after) :
    Adds limits (if spec.repeated then oneObject else .zero) counts after := by
  rcases ends_ite.1 h with ⟨hspec, h⟩ | ⟨hspec, h⟩
  · rw [if_pos hspec]
    exact objects_ends h
  · obtain ⟨-, rfl⟩ := ends_pure.1 h
    rw [if_neg hspec]
    exact .nothing

theorem valueVisited_ends (h : Ends (valueVisited limits kind depth) counts u after) :
    Adds limits (if kind = .arrayValue then oneAttribute else .zero) counts after := by
  rcases ends_ite.1 h with ⟨hkind, h⟩ | ⟨hkind, h⟩
  · rw [if_pos hkind]
    exact attributeVisited_ends h
  · obtain ⟨-, rfl⟩ := ends_pure.1 h
    rw [if_neg hkind]
    exact .nothing

/-- A message field that may occur is charged where it is repeated, and noted where it is not. -/
theorem occurrence_ends (h : Ends (occurrence limits spec singular) counts singular' after) :
    Adds limits (if spec.repeated then oneObject else .zero) counts after ∧ singular ⊆ singular' ∧
      (spec.repeated = false → spec.number ∉ singular ∧ spec.number ∈ singular') := by
  rcases ends_ite.1 h with ⟨hspec, h⟩ | ⟨hspec, h⟩
  · obtain ⟨_, _, hcharge, h⟩ := ends_bind.1 h
    obtain ⟨rfl, rfl⟩ := ends_pure.1 h
    rw [if_pos hspec]
    exact ⟨objects_ends hcharge, List.Subset.refl _, fun hsingle => by rw [hspec] at hsingle; cases hsingle⟩
  · rw [if_neg hspec]
    rcases ends_ite.1 h with ⟨-, h⟩ | ⟨hnew, h⟩
    · exact absurd h not_ends_throw
    · obtain ⟨rfl, rfl⟩ := ends_pure.1 h
      exact ⟨.nothing, List.subset_cons_self _ _, fun _ => ⟨hnew, List.mem_cons_self⟩⟩

theorem containerVisited_ends (hattributes : attributes ≤ limits.maxContainerAttributes)
    (h : Ends (containerVisited schema limits kind spec attributes) counts attributes' after) :
    after = counts ∧ attributes ≤ attributes' ∧ attributes' ≤ limits.maxContainerAttributes ∧
      (schema.attributesOf kind = some spec.number → attributes' = attributes + 1) := by
  rcases ends_ite.1 h with ⟨-, h⟩ | ⟨hother, h⟩
  · rcases ends_ite.1 h with ⟨-, h⟩ | ⟨hfew, h⟩
    · exact absurd h not_ends_throw
    · obtain ⟨rfl, rfl⟩ := ends_pure.1 h
      exact ⟨rfl, Nat.le_succ _, not_lt.1 hfew, fun _ => rfl⟩
  · obtain ⟨rfl, rfl⟩ := ends_pure.1 h
    refine ⟨rfl, le_rfl, hattributes, fun hown => absurd ?_ hother⟩
    cases kind with
    | resource | instrumentationScope =>
      have hnumber := Option.some.inj hown
      simp [Kind.container, ← hnumber]
    | _ => cases hown

end Adds

/-! ## The walk -/

/-- The rest of the fields of a message, after the singular messages and the attributes seen before them. -/
structure Rest (schema : Schema) (limits : WireLimits) (kind : Kind) (singular : List Nat) (attributes : Nat)
    (own : List (Occurrence Kind)) : Prop where
  matching : ∀ o ∈ own, ∀ spec, schema.table kind o.number = some spec → o.wireType = spec.wireType
  single : ∀ number spec, schema.table kind number = some spec → spec.repeated = false → spec.message ≠ none →
    own.countP (·.number = number) ≤ if number ∈ singular then 0 else 1
  attributes : ∀ number, schema.attributesOf kind = some number →
    attributes + own.countP (fun o => o.number = number ∧ o.child?.isSome) ≤ limits.maxContainerAttributes

namespace Rest

variable {number attributes' : Nat} {child : Kind} {payload : Payload} {spec : Field} {singular' : List Nat}
  {own : List (Occurrence Kind)}

theorem nil (h : attributes ≤ limits.maxContainerAttributes) : Rest schema limits kind singular attributes [] where
  matching _ h := nomatch h
  single _ _ _ _ _ := Nat.zero_le _
  attributes _ _ := h

/-- A field that holds no message leaves the rest as it is. -/
theorem value (hmatching : ∀ spec, schema.table kind number = some spec → payload.wireType = spec.wireType ∧ spec.message = none)
    (h : Rest schema limits kind singular attributes own) :
    Rest schema limits kind singular attributes (.value number payload :: own) where
  matching o ho := by
    rcases List.mem_cons.1 ho with rfl | ho
    · exact fun spec hspec => (hmatching spec hspec).1
    · exact h.matching o ho
  single n spec hspec hsingle hmessage := by
    have hother : number ≠ n := by
      rintro rfl
      exact hmessage (hmatching spec hspec).2
    rw [List.countP_cons_of_neg (by simp [Occurrence.number, hother])]
    exact h.single n spec hspec hsingle hmessage
  attributes n hn := by
    rw [List.countP_cons_of_neg (by simp [Occurrence.child?])]
    exact h.attributes n hn

/-- A message field is noted where it is singular, and counted where it is an attribute of a container. -/
theorem message (hspec : schema.table kind number = some spec) (hwire : spec.wireType = lengthDelimited)
    (hseen : singular ⊆ singular') (hsingle : spec.repeated = false → spec.number ∉ singular ∧ spec.number ∈ singular')
    (hle : attributes ≤ attributes') (hattribute : schema.attributesOf kind = some spec.number → attributes' = attributes + 1)
    (h : Rest schema limits kind singular' attributes' own) :
    Rest schema limits kind singular attributes (.message number child :: own) where
  matching o ho := by
    rcases List.mem_cons.1 ho with rfl | ho
    · intro spec' hspec'
      cases hspec.symm.trans hspec'
      exact hwire.symm
    · exact h.matching o ho
  single n spec' hspec' hsingular hmessage := by
    have hrest := h.single n spec' hspec' hsingular hmessage
    by_cases hn : number = n
    · subst hn
      cases hspec.symm.trans hspec'
      obtain ⟨hnew, hnoted⟩ := hsingle hsingular
      rw [schema.numbered kind number spec hspec] at hnew hnoted
      rw [if_pos hnoted] at hrest
      rw [if_neg hnew, List.countP_cons_of_pos (by simp [Occurrence.number])]
      omega
    · rw [List.countP_cons_of_neg (by simp [Occurrence.number, hn])]
      refine hrest.trans ?_
      split
      · exact Nat.zero_le _
      · next hlater => rw [if_neg fun hbefore => hlater (hseen hbefore)]
  attributes n hn := by
    have hrest := h.attributes n hn
    have hnumber := schema.numbered kind number spec hspec
    by_cases hown : number = n
    · have hmore := hattribute (by rw [hnumber, hown, hn])
      rw [List.countP_cons_of_pos (by simpa [Occurrence.number, Occurrence.child?] using hown)]
      omega
    · rw [List.countP_cons_of_neg (by simp [Occurrence.number, hown])]
      omega

/-- All fields of a message, with nothing seen before them. -/
theorem guarded {fields : Fields Kind} {above : List Kind} (hdepth : (kind :: above).countP Kind.nesting ≤ maxValueDepth)
    (h : Rest schema limits kind [] 0 fields.own) : Guarded schema limits ⟨kind, above, fields⟩ where
  depth := hdepth
  matching := h.matching
  single number spec hspec hsingle hmessage := h.single number spec hspec hsingle hmessage
  attributes number hnumber := (Nat.zero_add _).symm.le.trans (h.attributes number hnumber)

end Rest

section Walk

variable {counts after : Counts} {u : Unit} {above : List Kind}

/-- The reading of what is left of a frame, by a walk that ended well. -/
structure Found (schema : Schema) (limits : WireLimits) (kind : Kind) (above : List Kind) (singular : List Nat)
    (attributes : Nat) (counts after : Counts) (bytes : List UInt8) (f : Fields Kind) : Prop where
  reading : Wire.read schema.messageAt kind bytes = .ok f
  counted : Adds limits (tally schema (f.occurrences kind)) counts after
  rest : Rest schema limits kind singular attributes f.own
  guarded : ∀ m ∈ f.inside kind above, Guarded schema limits m

theorem Found.value {number next : Nat} {payload : Payload} {between : Counts} {f : Fields Kind}
    (hfield : Wire.field (window data position stop) = .ok (number, payload, window data next stop))
    (hmatching : ∀ spec, schema.table kind number = some spec → payload.wireType = spec.wireType ∧ spec.message = none)
    (hcharge : Adds limits (oneField + if schema.repeats kind number then oneObject else .zero) counts between)
    (h : Found schema limits kind above singular attributes between after (window data next stop) f) :
    Found schema limits kind above singular attributes counts after (window data position stop)
      (.value number payload f) where
  reading := by
    refine Wire.read_value hfield (.inl ?_) h.reading
    unfold Schema.messageAt
    cases hspec : schema.table kind number with
    | none => rfl
    | some spec => exact (hmatching spec hspec).2
  counted := by
    rw [Fields.occurrences, tally_cons, tally_value]
    exact hcharge.trans h.counted
  rest := h.rest.value hmatching
  guarded := h.guarded

/-- **A walk that ends well has read its frame.**  Along the fields of the frame: what the wire format reads there, what
was charged for it, and what was looked at in every message. -/
theorem fields_reads (hstop : stop ≤ data.length) (hle : position ≤ stop)
    (hdepth : depth = (kind :: above).countP Kind.nesting) (hshallow : depth ≤ maxValueDepth)
    (hattributes : attributes ≤ limits.maxContainerAttributes)
    (h : Ends (fields schema limits data false fuel position stop kind depth singular attributes) counts u after) :
    ∃ f, Found schema limits kind above singular attributes counts after (window data position stop) f := by
  induction fuel generalizing position stop kind depth singular attributes counts after above u with
  | zero =>
    rw [fields] at h
    rcases ends_ite.1 h with ⟨-, h⟩ | ⟨hend, h⟩
    · exact absurd h not_ends_throw
    obtain ⟨-, rfl⟩ := ends_pure.1 h
    refine ⟨.done, ?_, .nothing, .nil hattributes, fun _ h => by cases h⟩
    rw [Wire.window_nil (not_lt.1 hend), Wire.read_nil]
  | succ fuel ih =>
    rw [fields] at h
    rcases ends_ite.1 h with ⟨-, h⟩ | ⟨hend, h⟩
    swap
    · obtain ⟨-, rfl⟩ := ends_pure.1 h
      refine ⟨.done, ?_, .nothing, .nil hattributes, fun _ h => by cases h⟩
      rw [Wire.window_nil (not_lt.1 hend), Wire.read_nil]
    obtain ⟨_, visited, hvisit, h⟩ := ends_bind.1 h
    have hfield := fieldVisited_ends hvisit
    obtain ⟨tag, htag, h⟩ := ends_read.1 h
    dsimp only at h
    split at h
    · -- an unknown field, skipped by its wire type
      next hspec =>
      obtain ⟨next, hnext, h⟩ := ends_read.1 h
      obtain ⟨payload, -, hpayload⟩ := skipUnknown_reads hstop hnext
      obtain ⟨f, hf⟩ := ih hstop (skipUnknown_bounds hnext).2 hdepth hshallow hattributes h
      have hrepeats : schema.repeats kind (tag.1 >>> 3) = false := by rw [Schema.repeats, hspec]; rfl
      refine ⟨_, .value (Wire.field_window (tagAt_reads htag) hpayload) (fun spec h => by rw [hspec] at h; cases h) ?_ hf⟩
      rw [hrepeats, if_neg Bool.false_ne_true]
      exact hfield.trans .nothing
    · next spec hspec =>
      have hrepeats : schema.repeats kind (tag.1 >>> 3) = spec.repeated := by rw [Schema.repeats, hspec]; rfl
      rcases ends_ite.1 h with ⟨hwire, h⟩ | ⟨hwire, h⟩
      · obtain ⟨frame, hframe, h⟩ := ends_read.1 h
        rcases ends_ite.1 h with ⟨-, h⟩ | ⟨hroom, h⟩
        · exact absurd h not_ends_throw
        rcases ends_ite.1 h with ⟨-, h⟩ | ⟨htype, h⟩
        · exact absurd h not_ends_throw
        have htype := not_not.1 htype
        have hpayload : Wire.payload lengthDelimited (window data tag.2 stop) = _ :=
          Wire.payload_delimited hstop (lengthAt_reads hframe) (not_lt.1 hroom)
        rw [← hwire] at hpayload
        split at h
        · -- a string or bytes
          next hmessage =>
          obtain ⟨_, charged, helement, h⟩ := ends_bind.1 h
          obtain ⟨f, hf⟩ := ih hstop (not_lt.1 hroom) hdepth hshallow hattributes h
          refine ⟨_, .value (Wire.field_window (tagAt_reads htag) hpayload) (fun spec' h => ?_) ?_ hf⟩
          · cases hspec.symm.trans h
            exact ⟨htype.symm, hmessage⟩
          · rw [hrepeats]
            exact hfield.trans (elementVisited_ends helement)
        · -- a message, entered and walked inside of its frame
          next child hmessage =>
          obtain ⟨singular', noted, hoccurrence, h⟩ := ends_bind.1 h
          obtain ⟨attributes', seen, hcontainer, h⟩ := ends_bind.1 h
          obtain ⟨_, valued, hvalue, h⟩ := ends_bind.1 h
          rw [readInline, if_neg (by simp), pure_bind, if_neg Bool.false_ne_true] at h
          obtain ⟨_, walked, hinner, hwalk⟩ := ends_bind.1 h
          obtain ⟨_, begun, henter, hinner⟩ := ends_bind.1 hinner
          obtain ⟨hcharge, hseen, hsingle⟩ := occurrence_ends hoccurrence
          obtain ⟨rfl, hmore, hattributes', hattribute⟩ := containerVisited_ends hattributes hcontainer
          obtain ⟨hentered, hdeep⟩ := enter_ends henter
          have hdepth' : childDepth child depth = (child :: kind :: above).countP Kind.nesting := by
            rw [childDepth, List.countP_cons, ← hdepth]
            cases child.nesting <;> rfl
          have hshallow' : childDepth child depth ≤ maxValueDepth := by
            cases hnesting : child.nesting with
            | false => rwa [childDepth, hnesting, if_neg Bool.false_ne_true]
            | true => exact hdeep hnesting
          obtain ⟨inner, hread⟩ := ih (le_trans (not_lt.1 hroom) hstop) (Nat.le_add_right _ _) hdepth' hshallow'
            (Nat.zero_le _) hinner
          obtain ⟨later, hlater⟩ := ih hstop (not_lt.1 hroom) hdepth hshallow hattributes' hwalk
          have hchild : schema.messageAt kind (tag.1 >>> 3) = some child := by
            rw [Schema.messageAt, hspec]
            exact hmessage
          have hguarded : Guarded schema limits ⟨child, kind :: above, inner⟩ := hread.rest.guarded (hdepth' ▸ hshallow')
          refine ⟨.message (tag.1 >>> 3) child inner later, ?_, ?_, ?_, ?_⟩
          · exact Wire.read_message (Wire.field_window (tagAt_reads htag) hpayload) hchild hread.reading hlater.reading
          · rw [Fields.occurrences, tally_cons, tally_message, tally_append, hrepeats]
            have hfirst := (hfield.trans (hcharge.trans ((valueVisited_ends hvalue).trans hentered)))
            exact hfirst.trans (hread.counted.trans hlater.counted)
          · exact hlater.rest.message hspec htype hseen hsingle hmore hattribute
          · rw [Fields.inside]
            intro m hm
            rcases List.mem_cons.1 hm with rfl | hm
            · exact hguarded
            rcases List.mem_append.1 hm with hm | hm
            · exact hread.guarded m hm
            · exact hlater.guarded m hm
      · rcases ends_ite.1 h with ⟨hscalar, h⟩ | ⟨-, h⟩
        swap
        · exact absurd h not_ends_throw
        -- a singular scalar
        obtain ⟨next, hnext, h⟩ := ends_read.1 h
        have hother : spec.wireType ≠ lengthDelimited := hscalar ▸ hwire
        have hskipped : tag.1 &&& 7 = varintType ∨ tag.1 &&& 7 = fixed64Type ∨ tag.1 &&& 7 = fixed32Type := by
          have hwired := schema.wired kind _ spec hspec
          rw [hscalar]
          simp only [List.mem_cons, List.not_mem_nil, or_false] at hwired
          tauto
        obtain ⟨payload, htype, hpayload⟩ := skip_reads hstop hskipped hnext
        obtain ⟨f, hf⟩ := ih hstop (skip_bounds hnext).2 hdepth hshallow hattributes h
        have hplain : ¬(spec.repeated = true ∨ spec.message ≠ none) := fun h => hother (schema.delimited kind _ spec hspec h)
        rw [not_or, not_not, Bool.not_eq_true] at hplain
        refine ⟨_, .value (Wire.field_window (tagAt_reads htag) hpayload) (fun spec' h => ?_) ?_ hf⟩
        · cases hspec.symm.trans h
          exact ⟨htype.trans hscalar, hplain.2⟩
        · rw [hrepeats, hplain.1, if_neg Bool.false_ne_true]
          exact hfield.trans .nothing

end Walk

/-- **The scan is a complete guard.**  It ends by refusing or by a limit, and only reads inside of its frames.  Where it
accepts, the bytes have a reading by the wire format, every group of it is counted and within its limit, and every message
of it is within the depth, with the wire types of the schema and no singular message twice.  Bytes without a reading, with
a field cut short, a varint too long or a group, are not accepted. -/
theorem scan_guards :
    (∀ e, scan schema limits data true = .error e → e.told) ∧
      (∀ counts, scan schema limits data true = .ok counts →
        ∃ f, Wire.read schema.messageAt .request data = .ok f ∧ counts = tally schema (f.occurrences .request) ∧
          counts.Within limits ∧ ∀ m ∈ f.messages .request, Guarded schema limits m) ∧
      ∀ fault, Wire.read schema.messageAt .request data = .error fault → ∃ e, scan schema limits data true = .error e := by
  have hfast : scan schema limits data true = scan schema limits data false := by
    rw [scan, scan, message, message, fields_fast le_rfl (by omega)]
  have haccepts : ∀ counts, scan schema limits data true = .ok counts →
      ∃ f, Wire.read schema.messageAt .request data = .ok f ∧ counts = tally schema (f.occurrences .request) ∧
        counts.Within limits ∧ ∀ m ∈ f.messages .request, Guarded schema limits m := by
    intro counts hscan
    rw [hfast] at hscan
    unfold scan at hscan
    split at hscan
    · next u after hrun =>
      cases hscan
      obtain ⟨_, _, henter, hwalk⟩ := ends_bind.1 hrun
      obtain ⟨-, rfl⟩ := ends_pure.1 henter
      have hwhole : window data 0 data.length = data := List.take_length
      obtain ⟨f, hf⟩ : ∃ f, Found schema limits .request [] [] 0 .zero counts (window data 0 data.length) f :=
        fields_reads le_rfl (Nat.zero_le _) rfl (Nat.zero_le _) (Nat.zero_le _) hwalk
      obtain ⟨hcounted, hwithin⟩ := hf.counted
      rw [hwhole] at hf
      refine ⟨f, hf.reading, hcounted.trans (Counts.zero_add _), hwithin ?_, ?_⟩
      · constructor <;> exact Nat.zero_le _
      · intro m hm
        rcases List.mem_cons.1 hm with rfl | hm
        · exact hf.rest.guarded (Nat.zero_le _)
        · exact hf.guarded m hm
    · cases hscan
  refine ⟨fun e he => ?_, haccepts, fun fault hfault => ?_⟩
  · have htells : Tells (message schema limits data false data.length 0 data.length .request 0) :=
      tells_bind tells_enter fun _ => fields_tells le_rfl (by omega)
    rw [hfast] at he
    unfold scan at he
    split at he
    · cases he
    · next e' counts hrun =>
      cases he
      exact htells .zero _ (congrArg Prod.fst hrun)
  · cases hscan : scan schema limits data true with
    | error e => exact ⟨e, rfl⟩
    | ok counts =>
      obtain ⟨f, hread, -⟩ := haccepts counts hscan
      rw [hfault] at hread
      cases hread

/-- A resource with one attribute, at the limits. -/
theorem scan_guards_resource :
    ∃ f, Wire.read resourceSchema.messageAt .request [0x0A, 12, 0x0A, 10, 0x0A, 8, 0x0A, 1, 107, 0x12, 3, 0x0A, 1, 118] = .ok f ∧
      (⟨1, 0, 0, 0, 0, 1, 6, 2⟩ : Counts) = tally resourceSchema (f.occurrences .request) ∧
      Counts.Within ⟨1, 1, 1, 1, 1, 1, 1, 6, 2⟩ ⟨1, 0, 0, 0, 0, 1, 6, 2⟩ ∧
      ∀ m ∈ f.messages .request, Guarded resourceSchema ⟨1, 1, 1, 1, 1, 1, 1, 6, 2⟩ m :=
  scan_guards.2.1 ⟨1, 0, 0, 0, 0, 1, 6, 2⟩ (by decide)

end AgentContext.OtlpWire
