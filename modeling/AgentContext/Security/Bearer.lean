import AgentContext.Lib.Text
import AgentContext.Lib.Transition
import Mathlib.Algebra.Order.Field.Rat
import Mathlib.Tactic.Linarith

/-!
# Bearer credentials and the principal cache

`parse_bearer`, the token records, and `PrincipalCache`: a bounded dictionary in the order of insertion.

    get   an entry, unless its deadline or its token's expiry has passed (then it is removed)
    put   an entry for `ttl`; a full cache drops what is stale, then the oldest insertion

`PasswordHasher.verify` and the HMAC of a token are fields of `Deployment`.
-/

namespace Security

open Text

/-! ## Bearers -/

structure BearerToken where
  tokenPrefix : String
  token : String
deriving DecidableEq, Repr

/-- `[A-Za-z0-9_-]`. -/
def isTokenChar (c : Char) : Bool :=
  ('a' ≤ c && c ≤ 'z') || ('A' ≤ c && c ≤ 'Z') || ('0' ≤ c && c ≤ '9') || c = '_' || c = '-'

/-- `_TOKEN_PATTERN`: the text before the dot. -/
def tokenPattern (token : List Char) : Option (List Char) :=
  let front := token.takeWhile (· ≠ '.')
  match token.dropWhile (· ≠ '.') with
  | [] => none
  | _ :: secret =>
    if front.all isTokenChar && 8 ≤ front.length && front.length ≤ 64 && secret.all isTokenChar && 32 ≤ secret.length &&
        secret.length ≤ 256 then
      some front
    else none

/-- `_TOKEN_MAX_LENGTH`. -/
def tokenMaxLength : Nat := 512

/-- `_BEARER_SCHEME`. -/
def bearerScheme : List Char := "bearer ".toList

/-- `parse_bearer`. -/
def parseBearer (authorization : String) : Option BearerToken :=
  let text := authorization.toList
  if tokenMaxLength + bearerScheme.length < text.length then none
  else if (text.take bearerScheme.length).map Char.toLower ≠ bearerScheme then none
  else
    let token := strip (text.drop bearerScheme.length)
    (tokenPattern token).map fun front => ⟨String.ofList front, String.ofList token⟩

/-- A token names its record. -/
theorem parseBearer_unique {a a' : String} {b b' : BearerToken} (h : parseBearer a = some b)
    (h' : parseBearer a' = some b') (htoken : b.token = b'.token) : b = b' := by
  have hshape : ∀ {a b}, parseBearer a = some b → some b.tokenPrefix = (tokenPattern b.token.toList).map String.ofList := by
    intro a b h
    unfold parseBearer at h
    dsimp only at h
    split at h
    · cases h
    · split at h
      · cases h
      · obtain ⟨front, hfront, rfl⟩ := Option.map_eq_some_iff.1 h
        rw [String.toList_ofList, hfront]
        rfl
  have hprefix := (hshape h).trans ((congrArg (fun t => (tokenPattern t.toList).map String.ofList) htoken).trans
    (hshape h').symm)
  cases b
  cases b'
  cases htoken
  cases Option.some.inj hprefix
  rfl

/-! ## Records -/

/-- A row of `operations.mcp_tokens`. -/
structure McpTokenRow where
  tokenId : String
  tokenPrefix : String
  tokenVerifier : String
  principal : String
  scopes : List String
  createdAt : Int
  expiresAt : Int
  revokedAt : Option Int
deriving DecidableEq, Repr

/-- `McpTokenRecord`. -/
structure McpTokenRecord where
  tokenId : String
  tokenVerifier : String
  principal : String
  scopes : List String
  expiresAt : Int
  revokedAt : Option Int
deriving DecidableEq, Repr

/-- The record that the lookup selects. -/
def McpTokenRow.record (row : McpTokenRow) : McpTokenRecord :=
  ⟨row.tokenId, row.tokenVerifier, row.principal, row.scopes, row.expiresAt, row.revokedAt⟩

structure McpPrincipal where
  principal : String
  tokenId : String
  scopes : List String
  expiresAt : Int
deriving DecidableEq, Repr

def McpTokenRecord.mcpPrincipal (record : McpTokenRecord) : McpPrincipal :=
  ⟨record.principal, record.tokenId, record.scopes.dedup, record.expiresAt⟩

/-- A record was revoked by an instant. -/
def McpTokenRecord.Revoked (record : McpTokenRecord) (now : Int) : Prop := ∃ at_, record.revokedAt = some at_ ∧ at_ ≤ now

instance (record : McpTokenRecord) (now : Int) : Decidable (record.Revoked now) :=
  match h : record.revokedAt with
  | none => isFalse fun ⟨_, hat, _⟩ => by rw [h] at hat; cases hat
  | some at_ => decidable_of_iff (at_ ≤ now) ⟨fun hle => ⟨at_, h, hle⟩, fun ⟨_, hat, hle⟩ => by
      rw [h] at hat
      cases hat
      exact hle⟩

/-! ## The cache -/

/-- The settings of a replica, the keyed hash of a token, and the comparison of a verifier with a token. -/
structure Deployment (K : Type) where
  keyFor : String → K
  verifies : String → String → Bool
  dummyVerifier : String
  ttl : Rat
  ttl_pos : 0 < ttl
  maxEntries : Nat
  maxConcurrency : Nat
  maxQueueDepth : Nat

/-- The wall clock and the monotonic clock. -/
structure Clocks where
  wall : Int
  mono : Rat
deriving DecidableEq, Repr

structure Entry (K : Type) where
  key : K
  principal : McpPrincipal
  deadline : Rat
deriving DecidableEq, Repr

section Cache

variable {K : Type} [DecidableEq K] (dep : Deployment K)

/-- An entry is not served any more. -/
def Entry.Stale (entry : Entry K) (now : Clocks) : Prop := entry.deadline ≤ now.mono ∨ entry.principal.expiresAt ≤ now.wall

instance (entry : Entry K) (now : Clocks) : Decidable (entry.Stale now) := by
  unfold Entry.Stale
  infer_instance

/-- `PrincipalCache.get`. -/
def PrincipalCache.get (entries : List (Entry K)) (key : K) (now : Clocks) : Option McpPrincipal × List (Entry K) :=
  match entries.find? fun entry => entry.key = key with
  | none => (none, entries)
  | some entry =>
    if entry.Stale now then (none, entries.filter fun entry => entry.key ≠ key) else (some entry.principal, entries)

/-- An entry in its place, or at the end. -/
def insertEntry (entries : List (Entry K)) (new : Entry K) : List (Entry K) :=
  if entries.any fun entry => entry.key = new.key then
    entries.map fun entry => if entry.key = new.key then new else entry
  else entries ++ [new]

/-- The entries with room for one more. -/
def evict (entries : List (Entry K)) (now : Clocks) : List (Entry K) :=
  let kept := entries.filter fun entry => ¬entry.Stale now
  if dep.maxEntries ≤ kept.length then kept.drop 1 else kept

/-- `PrincipalCache.put`. -/
def PrincipalCache.put (entries : List (Entry K)) (key : K) (principal : McpPrincipal) (now : Clocks) : List (Entry K) :=
  if principal.expiresAt ≤ now.wall then entries
  else
    let full := decide (dep.maxEntries ≤ entries.length) && !entries.any fun entry => entry.key = key
    insertEntry (if full then evict dep entries now else entries) ⟨key, principal, now.mono + dep.ttl⟩

variable {dep}
variable {now : Clocks} {entries : List (Entry K)} {p : McpPrincipal} {key : K}

omit [DecidableEq K] in
theorem Entry.not_stale {entry : Entry K} :
    ¬entry.Stale now ↔ now.mono < entry.deadline ∧ now.wall < entry.principal.expiresAt := by
  rw [Entry.Stale, not_or, not_le, not_le]

theorem PrincipalCache.get_some (h : (PrincipalCache.get entries key now).1 = some p) :
    ∃ entry ∈ entries, entry.key = key ∧ entry.principal = p ∧ now.mono < entry.deadline ∧ now.wall < p.expiresAt := by
  unfold PrincipalCache.get at h
  split at h
  · cases h
  · rename_i entry hfind
    split at h
    · cases h
    · rename_i hfresh
      cases h
      obtain ⟨hdeadline, hexpiry⟩ := Entry.not_stale.1 hfresh
      exact ⟨entry, List.mem_of_find?_eq_some hfind, by simpa using List.find?_some hfind, rfl, hdeadline, hexpiry⟩

theorem PrincipalCache.get_subset : (PrincipalCache.get entries key now).2 ⊆ entries := by
  unfold PrincipalCache.get
  split
  · exact fun _ h => h
  · split
    · exact List.filter_subset_self _
    · exact fun _ h => h

theorem PrincipalCache.mem_put {entry : Entry K} (h : entry ∈ PrincipalCache.put dep entries key p now) :
    entry ∈ entries ∨ entry = ⟨key, p, now.mono + dep.ttl⟩ ∧ now.wall < p.expiresAt := by
  have hinsert : ∀ {kept : List (Entry K)} {new : Entry K}, entry ∈ insertEntry kept new → entry ∈ kept ∨ entry = new := by
    intro kept new h
    unfold insertEntry at h
    split at h
    · obtain ⟨old, hold, heq⟩ := List.mem_map.1 h
      split at heq
      · exact Or.inr heq.symm
      · exact Or.inl (heq ▸ hold)
    · rcases List.mem_append.1 h with h | h
      · exact Or.inl h
      · exact Or.inr (List.mem_singleton.1 h)
  have hevict : evict dep entries now ⊆ entries := by
    unfold evict
    dsimp only
    split
    · exact fun _ h => List.mem_of_mem_filter (List.mem_of_mem_drop h)
    · exact List.filter_subset_self _
  unfold PrincipalCache.put at h
  split at h
  · exact Or.inl h
  · rename_i hexpiry
    rcases hinsert h with h | h
    · left
      split at h
      · exact hevict h
      · exact h
    · exact Or.inr ⟨h, not_le.1 hexpiry⟩

theorem find_insertEntry (entries : List (Entry K)) (new : Entry K) :
    (insertEntry entries new).find? (fun entry => entry.key = new.key) = some new := by
  unfold insertEntry
  split
  · rename_i hany
    obtain ⟨old, hold, hkey⟩ := List.any_eq_true.1 hany
    induction entries with
    | nil => cases hold
    | cons first rest ih =>
      rw [List.map_cons, List.find?_cons]
      by_cases hfirst : first.key = new.key
      · simp [hfirst]
      · simp only [hfirst, if_false, decide_false]
        have hrest : old ∈ rest := (List.mem_cons.1 hold).resolve_left fun heq => hfirst (heq ▸ of_decide_eq_true hkey)
        exact ih (List.any_eq_true.2 ⟨old, hrest, hkey⟩) hrest
  · rename_i hnone
    rw [List.find?_append, List.find?_eq_none.2]
    · simp
    · intro entry hentry hkey
      exact hnone (List.any_eq_true.2 ⟨entry, hentry, hkey⟩)

theorem PrincipalCache.get_put {now later : Clocks} (hput : now.wall < p.expiresAt)
    (hdeadline : later.mono < now.mono + dep.ttl) (hexpiry : later.wall < p.expiresAt) :
    (PrincipalCache.get (PrincipalCache.put dep entries key p now) key later).1 = some p := by
  unfold PrincipalCache.put PrincipalCache.get
  rw [if_neg (not_le.2 hput)]
  dsimp only
  have hfind := find_insertEntry
    (if (decide (dep.maxEntries ≤ entries.length) && !entries.any fun entry => entry.key = key) = true then
      evict dep entries now else entries) ⟨key, p, now.mono + dep.ttl⟩
  rw [hfind]
  dsimp only
  rw [if_neg (Entry.not_stale.2 ⟨hdeadline, hexpiry⟩)]

end Cache

end Security
