import AgentContext.Lib.Utf8

/-!
# JSON text and its two sizes

A text without white space, as a serializer writes it that leaves characters outside of ASCII as they are.  What it
holds is counted in characters or in UTF-8 bytes:

    size_eq          the bytes are the characters and the excess
    excess_str       a string has the excess of its characters, quoted or not
    excess_array     a list the excess of its items
    excess_object    an object that of its names and values
    length_object    how many characters an object has
-/

namespace JsonDump

open List

/-! ## Text -/

/-- A character in quotes: quotes, backslashes and control characters are escaped. -/
def escapeChar (c : Char) : List Char :=
  if c = '"' then ['\\', '"']
  else if c = '\\' then ['\\', '\\']
  else if c = '\x08' then ['\\', 'b']
  else if c = '\t' then ['\\', 't']
  else if c = '\n' then ['\\', 'n']
  else if c = '\x0c' then ['\\', 'f']
  else if c = '\r' then ['\\', 'r']
  else if c.toNat < 32 then ['\\', 'u', '0', '0', Nat.digitChar (c.toNat / 16), Nat.digitChar (c.toNat % 16)]
  else [c]

def str (s : String) : List Char := '"' :: (s.toList.flatMap escapeChar ++ ['"'])

def nat (n : Nat) : List Char := Nat.toDigits 10 n

def null : List Char := ['n', 'u', 'l', 'l']

/-- `null`, or the value. -/
def option {α : Type} (dump : α → List Char) : Option α → List Char
  | none => null
  | some a => dump a

def commas (items : List (List Char)) : List Char := [','].intercalate items

def array (items : List (List Char)) : List Char := '[' :: (commas items ++ [']'])

def object (fields : List (String × List Char)) : List Char :=
  '\x7b' :: (commas (fields.map fun (name, value) => str name ++ ':' :: value) ++ ['\x7d'])

/-! ## Sizes -/

/-- How many UTF-8 bytes a text has more than characters. -/
def excess (text : List Char) : Nat := (text.map (·.utf8Size - 1)).sum

variable {text text' : List Char} {c : Char}

@[simp] theorem excess_nil : excess [] = 0 := rfl

@[simp] theorem excess_cons : excess (c :: text) = (c.utf8Size - 1) + excess text := rfl

@[simp] theorem excess_append : excess (text ++ text') = excess text + excess text' := by
  unfold excess
  rw [map_append, sum_append]

theorem excess_replicate (n : Nat) : excess (List.replicate n c) = n * (c.utf8Size - 1) := by
  induction n with
  | zero => rw [Nat.zero_mul, replicate_zero, excess_nil]
  | succ n ih => rw [replicate_succ, excess_cons, ih, Nat.succ_mul, Nat.add_comm]

theorem size_eq (text : List Char) : Utf8.size text = text.length + excess text := by
  induction text with
  | nil => rfl
  | cons c text ih =>
    have hpos := c.utf8Size_pos
    rw [Utf8.size_cons, ih, length_cons, excess_cons]
    omega

theorem excess_eq_zero (h : ∀ c ∈ text, c.toNat < 128) : excess text = 0 := by
  induction text with
  | nil => rfl
  | cons c text ih =>
    have hc := h c mem_cons_self
    have hsize : c.utf8Size = 1 := Char.utf8Size_eq_one_iff.2 (by
      show c.val.toNat ≤ 127
      exact Nat.le_of_lt_succ hc)
    rw [excess_cons, hsize, ih fun c' hc' => h c' (mem_cons_of_mem c hc')]

theorem excess_flatMap {α : Type} {f : α → List Char} {as : List α} :
    excess (as.flatMap f) = (as.map fun a => excess (f a)).sum := by
  induction as with
  | nil => rfl
  | cons a as ih => rw [flatMap_cons, excess_append, ih, map_cons, sum_cons]

theorem excess_escapeChar (c : Char) : excess (escapeChar c) = c.utf8Size - 1 := by
  unfold escapeChar
  split
  · next h => subst h; rfl
  split
  · next h => subst h; rfl
  split
  · next h => subst h; rfl
  split
  · next h => subst h; rfl
  split
  · next h => subst h; rfl
  split
  · next h => subst h; rfl
  split
  · next h => subst h; rfl
  split
  · next hlow =>
    have hall : ∀ n : Fin 32, excess ['\\', 'u', '0', '0', Nat.digitChar (n.val / 16), Nat.digitChar (n.val % 16)] = 0 := by
      decide
    have hone : c.utf8Size = 1 := Char.utf8Size_eq_one_iff.2 (by
      show c.val.toNat ≤ 127
      exact Nat.le_of_lt_succ (Nat.lt_trans hlow (by decide)))
    rw [hall ⟨c.toNat, hlow⟩, hone]
  · rfl

@[simp] theorem excess_str (s : String) : excess (str s) = excess s.toList := by
  have hquote : ('"' : Char).utf8Size - 1 = 0 := rfl
  unfold str
  rw [excess_cons, excess_append, excess_flatMap, excess_cons, excess_nil, hquote]
  simp only [excess_escapeChar, Nat.add_zero, Nat.zero_add]
  rfl

@[simp] theorem excess_nat (n : Nat) : excess (nat n) = 0 := by
  refine excess_eq_zero fun c hc => ?_
  have hdigit := Nat.isDigit_of_mem_toDigits (by decide) (by decide) hc
  unfold Char.isDigit at hdigit
  rw [Bool.and_eq_true, decide_eq_true_eq, decide_eq_true_eq] at hdigit
  have hle : c.val.toNat ≤ 57 := hdigit.2
  exact Nat.lt_of_le_of_lt hle (by decide)

theorem toList_toString (n : Nat) : (toString n).toList = nat n := String.toList_ofList

theorem excess_commas (items : List (List Char)) : excess (commas items) = (items.map excess).sum := by
  have hcomma : (',' : Char).utf8Size - 1 = 0 := rfl
  unfold commas
  induction items with
  | nil => rfl
  | cons item items ih =>
    cases items with
    | nil => simp [List.intercalate]
    | cons next items =>
      rw [intercalate_cons_cons, excess_append, excess_append, ih]
      simp only [map_cons, sum_cons, excess_cons, excess_nil, hcomma]
      omega

@[simp] theorem excess_array (items : List (List Char)) : excess (array items) = (items.map excess).sum := by
  have hopen : ('[' : Char).utf8Size - 1 = 0 := rfl
  have hclose : (']' : Char).utf8Size - 1 = 0 := rfl
  unfold array
  rw [excess_cons, excess_append, excess_commas, excess_cons, excess_nil, hopen, hclose]
  omega

@[simp] theorem excess_object (fields : List (String × List Char)) :
    excess (object fields) = (fields.map fun field => excess field.1.toList + excess field.2).sum := by
  have hopen : ('\x7b' : Char).utf8Size - 1 = 0 := rfl
  have hcolon : (':' : Char).utf8Size - 1 = 0 := rfl
  have hclose : ('\x7d' : Char).utf8Size - 1 = 0 := rfl
  unfold object
  rw [excess_cons, excess_append, excess_commas, excess_cons, excess_nil, hopen, hclose, map_map]
  simp only [Function.comp_def, excess_append, excess_str, excess_cons, hcolon, Nat.zero_add]
  omega

theorem length_commas (items : List (List Char)) :
    (commas items).length = (items.map List.length).sum + (items.length - 1) := by
  unfold commas
  induction items with
  | nil => rfl
  | cons item items ih =>
    cases items with
    | nil => simp [List.intercalate]
    | cons next items =>
      rw [intercalate_cons_cons, length_append, length_append, ih]
      simp only [map_cons, sum_cons, length_cons, length_nil]
      omega

theorem length_object (fields : List (String × List Char)) : (object fields).length =
    (fields.map fun field => (str field.1).length + field.2.length + 1).sum + (fields.length - 1) + 2 := by
  unfold object
  rw [length_cons, length_append, length_commas, map_map, length_map, length_singleton]
  simp only [Function.comp_def, length_append, length_cons, Nat.add_assoc]

theorem length_array (items : List (List Char)) :
    (array items).length = (items.map List.length).sum + (items.length - 1) + 2 := by
  unfold array
  rw [length_cons, length_append, length_commas, length_singleton]

theorem length_str_replicate (n : Nat) (h : escapeChar c = [c]) : (str (String.ofList (List.replicate n c))).length = n + 2 := by
  have hrun : (List.replicate n c).flatMap escapeChar = List.replicate n c := by
    induction n with
    | zero => rfl
    | succ n ih => rw [replicate_succ, flatMap_cons, ih, h, singleton_append]
  unfold str
  rw [String.toList_ofList, hrun, length_cons, length_append, length_replicate, length_singleton]

theorem two_le_length_str (s : String) : 2 ≤ (str s).length := by
  unfold str
  rw [length_cons, length_append, length_singleton]
  omega

/-- No character takes more than six. -/
theorem length_str_le (s : String) : (str s).length ≤ 6 * s.length + 2 := by
  have hchar : ∀ c, (escapeChar c).length ≤ 6 := by
    intro c
    unfold escapeChar
    split_ifs <;> simp
  have hall : ∀ text : List Char, (text.flatMap escapeChar).length ≤ 6 * text.length := by
    intro text
    induction text with
    | nil => exact Nat.le_refl _
    | cons c text ih =>
      have hc := hchar c
      rw [flatMap_cons, length_append, length_cons]
      omega
  have htext := hall s.toList
  unfold str
  rw [length_cons, length_append, length_singleton, ← String.length_toList]
  omega

end JsonDump
