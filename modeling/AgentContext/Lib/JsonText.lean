import Mathlib.Data.List.Sort
import Mathlib.Data.String.Basic
import Mathlib.Tactic.Common

/-!
# Objects of strings as JSON text

`json.dumps(d, sort_keys=True, separators=(",", ":"))` of a dictionary whose values are strings or `None`, in ASCII:

    escapeChar    a character inside of quotes
    unescape      reads one character back
    quote_inj     where a quoted string ends is told by its text
    dumps_inj     so the text tells the entries
-/

namespace JsonText

variable {rest rest' : List Char}
variable {fields fields' : List (String × Option String)}

/-! ## Strings -/

def hexVal (c : Char) : Nat := if c.isDigit then c.toNat - 48 else c.toNat - 87

/-- `\uXXXX`. -/
def unicode (n : Nat) : List Char :=
  ['\\', 'u', Nat.digitChar (n / 4096), Nat.digitChar (n / 256 % 16), Nat.digitChar (n / 16 % 16), Nat.digitChar (n % 16)]

/-- A character as `json.dumps` writes it: one outside of the basic plane is a pair of surrogates. -/
def escapeChar (c : Char) : List Char :=
  if c = '"' then ['\\', '"']
  else if c = '\\' then ['\\', '\\']
  else if c = '\n' then ['\\', 'n']
  else if c = '\r' then ['\\', 'r']
  else if c = '\t' then ['\\', 't']
  else if c = '\x08' then ['\\', 'b']
  else if c = '\x0c' then ['\\', 'f']
  else if ' ' ≤ c ∧ c ≤ '~' then [c]
  else if c.toNat < 0x10000 then unicode c.toNat
  else unicode (0xd800 + (c.toNat - 0x10000) / 1024) ++ unicode (0xdc00 + (c.toNat - 0x10000) % 1024)

def quote (s : String) : List Char := '"' :: s.toList.flatMap escapeChar ++ ['"']

/-- The first character of a text, and what follows it. -/
def unescape : List Char → Option (Char × List Char)
  | '\\' :: 'u' :: a :: b :: c :: d :: rest =>
    let n := hexVal a * 4096 + hexVal b * 256 + hexVal c * 16 + hexVal d
    if 0xd800 ≤ n ∧ n < 0xdc00 then
      match rest with
      | _ :: _ :: a' :: b' :: c' :: d' :: rest' =>
        let m := hexVal a' * 4096 + hexVal b' * 256 + hexVal c' * 16 + hexVal d'
        some (Char.ofNat (0x10000 + (n - 0xd800) * 1024 + (m - 0xdc00)), rest')
      | _ => none
    else some (Char.ofNat n, rest)
  | '\\' :: e :: rest =>
    some (if e = 'n' then '\n' else if e = 'r' then '\r' else if e = 't' then '\t' else if e = 'b' then '\x08'
      else if e = 'f' then '\x0c' else e, rest)
  | c :: rest => some (c, rest)
  | [] => none

theorem hexVal_digitChar : ∀ d < 16, hexVal (Nat.digitChar d) = d := by decide

theorem hexVal_unicode {n : Nat} (h : n < 65536) :
    hexVal (Nat.digitChar (n / 4096)) * 4096 + hexVal (Nat.digitChar (n / 256 % 16)) * 256 +
      hexVal (Nat.digitChar (n / 16 % 16)) * 16 + hexVal (Nat.digitChar (n % 16)) = n := by
  rw [hexVal_digitChar _ (by omega), hexVal_digitChar _ (by omega), hexVal_digitChar _ (by omega),
    hexVal_digitChar _ (by omega)]
  omega

theorem unescape_escapeChar (c : Char) (rest : List Char) : unescape (escapeChar c ++ rest) = some (c, rest) := by
  unfold escapeChar
  split
  · next h => subst h; rfl
  split
  · next h => subst h; rfl
  split
  · next h => subst h; rfl
  split
  · next h => subst h; rfl
  split
  · next h => subst h; rfl
  split
  · next h => subst h; rfl
  split
  · next h => subst h; rfl
  split
  · next hquote hslash _ _ _ _ _ _ =>
    rw [List.singleton_append, unescape.eq_def]
    split
    · next heq => exact absurd (List.cons.inj heq).1 hslash
    · next heq => exact absurd (List.cons.inj heq).1 hslash
    · next heq =>
      obtain ⟨rfl, rfl⟩ := List.cons.inj heq
      rfl
    · next heq => cases heq
  -- A scalar of the basic plane is no surrogate, and a scalar above is told by its pair.
  split
  · next hbasic =>
    have hvalid : c.toNat < 0xd800 ∨ 0xdfff < c.toNat ∧ c.toNat < 0x110000 := c.valid
    simp only [unicode, List.cons_append, List.nil_append, unescape]
    rw [hexVal_unicode hbasic, if_neg (by omega), Char.ofNat_toNat]
  · next hbasic =>
    have hvalid : c.toNat < 0xd800 ∨ 0xdfff < c.toNat ∧ c.toNat < 0x110000 := c.valid
    simp only [unicode, List.cons_append, List.nil_append, unescape]
    rw [hexVal_unicode (by omega), if_pos (by omega), hexVal_unicode (by omega)]
    have hchar : 0x10000 + (0xd800 + (c.toNat - 0x10000) / 1024 - 0xd800) * 1024 +
        (0xdc00 + (c.toNat - 0x10000) % 1024 - 0xdc00) = c.toNat := by omega
    rw [hchar, Char.ofNat_toNat]

theorem escapeChar_inj {c d : Char} (h : escapeChar c ++ rest = escapeChar d ++ rest') : c = d ∧ rest = rest' := by
  have hread := congrArg unescape h
  rw [unescape_escapeChar, unescape_escapeChar] at hread
  exact Prod.mk.inj (Option.some.inj hread)

theorem quote_ne_escapeChar {c : Char} : '"' :: rest ≠ escapeChar c ++ rest' := by
  intro h
  have hread := congrArg unescape h
  rw [unescape_escapeChar] at hread
  obtain ⟨rfl, -⟩ := Prod.mk.inj (Option.some.inj hread)
  exact absurd (List.cons.inj h).1 (by decide)

theorem chars_inj {cs ds : List Char}
    (h : cs.flatMap escapeChar ++ '"' :: rest = ds.flatMap escapeChar ++ '"' :: rest') : cs = ds ∧ rest = rest' := by
  induction cs generalizing ds with
  | nil =>
    cases ds with
    | nil => exact ⟨rfl, (List.cons.inj h).2⟩
    | cons d ds =>
      rw [List.flatMap_cons, List.append_assoc] at h
      exact absurd h quote_ne_escapeChar
  | cons c cs ih =>
    cases ds with
    | nil =>
      rw [List.flatMap_cons, List.append_assoc] at h
      exact absurd h.symm quote_ne_escapeChar
    | cons d ds =>
      rw [List.flatMap_cons, List.flatMap_cons, List.append_assoc, List.append_assoc] at h
      obtain ⟨rfl, htail⟩ := escapeChar_inj h
      obtain ⟨rfl, hrest⟩ := ih htail
      exact ⟨rfl, hrest⟩

theorem quote_inj {s t : String} (h : quote s ++ rest = quote t ++ rest') : s = t ∧ rest = rest' := by
  unfold quote at h
  rw [List.append_assoc, List.append_assoc] at h
  obtain ⟨hchars, hrest⟩ := chars_inj (List.cons.inj h).2
  exact ⟨String.toList_injective hchars, hrest⟩

/-! ## Objects -/

/-- A string, or `null`. -/
def value : Option String → List Char
  | none => ['n', 'u', 'l', 'l']
  | some s => quote s

theorem value_inj {v v' : Option String} (h : value v ++ rest = value v' ++ rest') : v = v' ∧ rest = rest' := by
  cases v with
  | none =>
    cases v' with
    | none => exact ⟨rfl, List.append_cancel_left h⟩
    | some s => exact absurd (List.cons.inj h).1 (by decide)
  | some s =>
    cases v' with
    | none => exact absurd (List.cons.inj h).1 (by decide)
    | some t =>
      obtain ⟨rfl, hrest⟩ := quote_inj h
      exact ⟨rfl, hrest⟩

def entry (field : String × Option String) : List Char := quote field.1 ++ ':' :: value field.2

theorem entry_inj {field field' : String × Option String} (h : entry field ++ rest = entry field' ++ rest') :
    field = field' ∧ rest = rest' := by
  unfold entry at h
  rw [List.append_assoc, List.append_assoc] at h
  obtain ⟨hkey, htail⟩ := quote_inj h
  obtain ⟨hvalue, hrest⟩ := value_inj (List.cons.inj htail).2
  exact ⟨Prod.ext hkey hvalue, hrest⟩

/-- What follows the opening brace. -/
def entries : List (String × Option String) → List Char
  | [] => ['}']
  | [field] => entry field ++ ['}']
  | field :: field' :: fields => entry field ++ ',' :: entries (field' :: fields)

theorem entries_inj (h : entries fields = entries fields') : fields = fields' := by
  have hbrace : ∀ {field : String × Option String} {rest : List Char}, '}' :: [] ≠ entry field ++ rest :=
    fun heq => absurd (List.cons.inj heq).1 (by decide)
  induction fields generalizing fields' with
  | nil =>
    match fields' with
    | [] => rfl
    | [_] => exact absurd h hbrace
    | _ :: _ :: _ => exact absurd h hbrace
  | cons field fields ih =>
    match fields, fields' with
    | [], [] => exact absurd h.symm hbrace
    | _ :: _, [] => exact absurd h.symm hbrace
    | [], [field'] => rw [(entry_inj h).1]
    | [], field' :: _ :: _ => exact absurd (List.cons.inj (entry_inj h).2).1 (by decide)
    | _ :: _, [field'] => exact absurd (List.cons.inj (entry_inj h).2).1 (by decide)
    | _ :: _, field' :: _ :: _ =>
      obtain ⟨rfl, htail⟩ := entry_inj h
      rw [ih (List.cons.inj htail).2]

/-- `json.dumps` of a dictionary, given by its entries in any order. -/
def dumps (fields : List (String × Option String)) : String :=
  String.ofList ('{' :: entries (fields.insertionSort (·.1 ≤ ·.1)))

/-- Equal texts are of the same entries. -/
theorem dumps_inj (h : dumps fields = dumps fields') : fields.Perm fields' := by
  have hsorted := entries_inj (List.cons.inj (String.ofList_injective h)).2
  exact (List.perm_insertionSort _ fields).symm.trans (hsorted ▸ List.perm_insertionSort _ fields')

end JsonText
