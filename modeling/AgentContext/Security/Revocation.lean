import AgentContext.Security.Authenticator

/-!
# The revocation bound

When does a token stop working on a replica?

    Backed       what the cache answers for a token was verified for that token before
    Since        what holds from a revocation at `t` on: no success for the token that started after `t + ttl`
    LatePut      a verification that read the token's record before the revocation and succeeds after `t`

An entry lives for `ttl` from the end of its verification, while its record was read before the verification began.
-/

namespace Security

open Transition List

variable {K : Type} [DecidableEq K] {dep : Deployment K}

/-! ## Steps -/

theorem begin_cases (dep : Deployment K) (w : World K) (id : Nat) (authorization : Option String) :
    ∃ entries ⊆ w.entries,
      (∃ b e, begin_ dep w id authorization = ({ w with entries }).answer ⟨b, w.now, none, .error e⟩) ∨
      ∃ a b, authorization = some a ∧ parseMcp a = some b ∧
        ((∃ entry ∈ w.entries, entry.key = dep.keyFor b.token ∧ w.now.mono < entry.deadline ∧
          begin_ dep w id authorization = ({ w with entries }).answer ⟨some b, w.now, none, .ok entry.principal⟩) ∨
        begin_ dep w id authorization = ({ w with entries, pending := w.pending + 1 }).put id ⟨b, w.now, .waiting⟩) := by
  unfold begin_
  cases authorization with
  | none => exact ⟨w.entries, fun _ h => h, Or.inl ⟨none, _, rfl⟩⟩
  | some a =>
    dsimp only
    cases hparse : parseMcp a with
    | none => exact ⟨w.entries, fun _ h => h, Or.inl ⟨none, _, rfl⟩⟩
    | some b =>
      refine ⟨(PrincipalCache.get w.entries (dep.keyFor b.token) w.now).2, PrincipalCache.get_subset, ?_⟩
      dsimp only
      cases hcached : (PrincipalCache.get w.entries (dep.keyFor b.token) w.now).1 with
      | some p =>
        obtain ⟨entry, hmem, hkey, rfl, hdeadline, -⟩ := PrincipalCache.get_some hcached
        exact Or.inr ⟨a, b, rfl, hparse, Or.inl ⟨entry, hmem, hkey, hdeadline, rfl⟩⟩
      | none =>
        dsimp only
        split
        · exact Or.inl ⟨some b, _, rfl⟩
        · exact Or.inr ⟨a, b, rfl, hparse, Or.inr rfl⟩

theorem parseMcp_parse {a : String} {b : BearerToken} (h : parseMcp a = some b) : parseBearer a = some b :=
  (Option.filter_eq_some_iff.1 h).1

/-- A verification succeeds. -/
structure Succeeds (dep : Deployment K) (w : World K) (request : Request) (record : McpTokenRecord) : Prop where
  verified : dep.verify (some record) request.bearer.token = true
  unrevoked : ¬record.Revoked w.now.wall
  unexpired : w.now.wall < record.expiresAt

/-- What `finish` does: a refusal, or a success that is cached. -/
theorem conclude_cases (dep : Deployment K) (w : World K) (request : Request) (record : Option McpTokenRecord) :
    conclude dep w request record = w.answer ⟨some request.bearer, request.startedAt, none, .error .invalidCredential⟩ ∨
      ∃ found, record = some found ∧ Succeeds dep w request found ∧ conclude dep w request record =
        ({ w with entries := PrincipalCache.put dep w.entries (dep.keyFor request.bearer.token) found.mcpPrincipal w.now }).answer
          ⟨some request.bearer, request.startedAt, some found, .ok found.mcpPrincipal⟩ := by
  unfold conclude
  cases record with
  | none => exact Or.inl rfl
  | some found =>
    dsimp only
    split
    · exact Or.inl rfl
    · rename_i hverified
      split
      · exact Or.inl rfl
      · rename_i hrevoked
        split
        · exact Or.inl rfl
        · rename_i hexpiry
          exact Or.inr ⟨found, rfl, ⟨not_not.1 hverified, hrevoked, not_le.1 hexpiry⟩, rfl⟩

variable {request : Request}

theorem conclude_succeeds {w : World K} {found : McpTokenRecord} (h : Succeeds dep w request found) :
    conclude dep w request (some found) =
      ({ w with entries := PrincipalCache.put dep w.entries (dep.keyFor request.bearer.token) found.mcpPrincipal w.now }).answer
        ⟨some request.bearer, request.startedAt, some found, .ok found.mcpPrincipal⟩ := by
  unfold conclude
  dsimp only
  rw [if_neg (not_not.2 h.verified), if_neg h.unrevoked, if_neg (not_le.2 h.unexpired)]

/-! ## What the cache answers -/

def VerifiedIn (dep : Deployment K) (answers : List Answer) (b : BearerToken) (p : McpPrincipal) : Prop :=
  ∃ answer ∈ answers, answer.bearer = some b ∧ answer.outcome = .ok p ∧
    ∃ record, answer.verified = some record ∧ dep.verify (some record) b.token = true ∧ p = record.mcpPrincipal

/-- Each answer of the cache is for a token that was verified before. -/
def Backed (dep : Deployment K) (answers : List Answer) : Prop :=
  ∀ pre answer post, answers = pre ++ answer :: post → ∀ b p, answer.bearer = some b → answer.outcome = .ok p →
    answer.verified = none → VerifiedIn dep pre b p

omit [DecidableEq K] in
theorem VerifiedIn.append {answers : List Answer} {b : BearerToken} {p : McpPrincipal} (h : VerifiedIn dep answers b p)
    (more : List Answer) : VerifiedIn dep (answers ++ more) b p := by
  obtain ⟨answer, hmem, hrest⟩ := h
  exact ⟨answer, mem_append_left _ hmem, hrest⟩

omit [DecidableEq K] in
theorem Backed.append {answers : List Answer} {new : Answer} (h : Backed dep answers)
    (hnew : ∀ b p, new.bearer = some b → new.outcome = .ok p → new.verified = none → VerifiedIn dep answers b p) :
    Backed dep (answers ++ [new]) := by
  intro pre answer post hsplit
  rcases eq_nil_or_concat post with rfl | ⟨front, last, rfl⟩
  · obtain ⟨rfl, hlast⟩ := append_inj' hsplit rfl
    cases hlast
    exact hnew
  · rw [concat_eq_append, ← cons_append, ← append_assoc] at hsplit
    obtain ⟨rfl, -⟩ := append_inj' hsplit rfl
    exact h pre answer front rfl

/-- A token that the run presents, as its requests parse it. -/
def Presented (tokens : Set String) (b : BearerToken) : Prop := b.token ∈ tokens ∧ ∃ a, parseMcp a = some b

/-- A request of the run presents one of its tokens. -/
def Presents (tokens : Set String) (act : Act) : Prop :=
  ∀ id a b, act = .begin id (some a) → parseMcp a = some b → b.token ∈ tokens

structure Inv (dep : Deployment K) (tokens : Set String) (w : World K) : Prop where
  created : ∀ row ∈ w.rows, row.createdAt ≤ w.now.wall
  requests : ∀ id request, w.requests id = some request →
    Presented tokens request.bearer ∧ request.startedAt.mono ≤ w.now.mono
  entries : ∀ entry ∈ w.entries, entry.deadline ≤ w.now.mono + dep.ttl ∧
    ∃ b, Presented tokens b ∧ dep.keyFor b.token = entry.key ∧ VerifiedIn dep w.answers b entry.principal
  answers : ∀ answer ∈ w.answers, answer.startedAt.mono ≤ w.now.mono
  backed : Backed dep w.answers

variable {id : Nat} {record : Option McpTokenRecord} {authorization : Option String} {entries : List (Entry K)}

section Inv

variable {tokens : Set String} {w : World K}

section

omit [DecidableEq K]

theorem Inv.start (now : Clocks) (rows : List McpTokenRow) (hrows : ∀ row ∈ rows, row.createdAt ≤ now.wall) :
    Inv dep tokens (World.start dep now rows) where
  created := hrows
  requests := fun _ _ h => (nomatch h)
  entries := fun _ h => (nomatch h)
  answers := fun _ h => (nomatch h)
  backed := fun pre _ _ h => by simp [World.start] at h

section

variable (h : Inv dep tokens w)
include h

theorem Inv.answer {answer : Answer} (hstart : answer.startedAt.mono ≤ w.now.mono)
    (hbacked : ∀ b p, answer.bearer = some b → answer.outcome = .ok p → answer.verified = none →
      VerifiedIn dep w.answers b p) : Inv dep tokens (w.answer answer) where
  created := h.created
  requests := h.requests
  entries := fun entry hentry => by
    obtain ⟨hdeadline, b, hb, hkey, hverified⟩ := h.entries entry hentry
    exact ⟨hdeadline, b, hb, hkey, hverified.append _⟩
  answers := fun a ha => by
    rcases mem_append.1 ha with ha | ha
    · exact h.answers a ha
    · rw [mem_singleton.1 ha]
      exact hstart
  backed := h.backed.append hbacked

theorem Inv.put (hpresented : Presented tokens request.bearer)
    (hstart : request.startedAt.mono ≤ w.now.mono) : Inv dep tokens (w.put id request) where
  created := h.created
  requests := fun id' request' hrequest => by
    unfold World.put at hrequest
    dsimp only at hrequest
    by_cases hid : id' = id
    · rw [hid, Function.update_self] at hrequest
      cases hrequest
      exact ⟨hpresented, hstart⟩
    · rw [Function.update_of_ne hid] at hrequest
      exact h.requests id' request' hrequest
  entries := h.entries
  answers := h.answers
  backed := h.backed

theorem Inv.leave : Inv dep tokens (w.leave id) where
  created := h.created
  requests := fun id' request' hrequest => by
    unfold World.leave at hrequest
    dsimp only at hrequest
    by_cases hid : id' = id
    · rw [hid, Function.update_self] at hrequest
      cases hrequest
    · rw [Function.update_of_ne hid] at hrequest
      exact h.requests id' request' hrequest
  entries := h.entries
  answers := h.answers
  backed := h.backed

theorem Inv.slots {slots pending : Nat} : Inv dep tokens { w with slots, pending } :=
  ⟨h.created, h.requests, h.entries, h.answers, h.backed⟩

theorem Inv.fewer (hsub : entries ⊆ w.entries) : Inv dep tokens { w with entries } :=
  ⟨h.created, h.requests, fun entry hentry => h.entries entry (hsub hentry), h.answers, h.backed⟩

end

end

theorem McpTokenRow.revoke_createdAt (row : McpTokenRow) (moment : Int) :
    (row.revoke moment).createdAt = row.createdAt := by
  unfold McpTokenRow.revoke
  split <;> rfl

omit [DecidableEq K] in
theorem Presented.unique {b b' : BearerToken} (hinj : Set.InjOn dep.keyFor tokens) (h : Presented tokens b)
    (h' : Presented tokens b') (hkey : dep.keyFor b.token = dep.keyFor b'.token) : b = b' := by
  obtain ⟨htoken, a, ha⟩ := h
  obtain ⟨htoken', a', ha'⟩ := h'
  exact parseBearer_unique (parseMcp_parse ha) (parseMcp_parse ha') (hinj htoken htoken' hkey)

theorem inv_begin (hinj : Set.InjOn dep.keyFor tokens)
    (hpresents : Presents tokens (.begin id authorization)) (h : Inv dep tokens w) :
    Inv dep tokens (begin_ dep w id authorization) := by
  obtain ⟨entries, hsub, hcases⟩ := begin_cases dep w id authorization
  rcases hcases with ⟨b, e, heq⟩ | ⟨a, b, rfl, hparse, hcases⟩
  · rw [heq]
    exact (h.fewer hsub).answer (le_refl _) fun _ _ _ hok => (nomatch hok)
  have hpresented : Presented tokens b := ⟨hpresents id a b rfl hparse, a, hparse⟩
  rcases hcases with ⟨entry, hentry, hkey, -, heq⟩ | heq
  · rw [heq]
    refine (h.fewer hsub).answer (le_refl _) fun b' p hb hok _ => ?_
    cases hb
    cases hok
    -- the entry's token is this one
    obtain ⟨-, b'', hb'', hkey'', hverified⟩ := h.entries entry hentry
    rw [hpresented.unique hinj hb'' (hkey.symm.trans hkey''.symm)]
    exact hverified
  · rw [heq]
    exact (h.fewer hsub).slots.put hpresented (le_refl _)

theorem inv_conclude (h : Inv dep tokens w)
    (hpresented : Presented tokens request.bearer) (hstart : request.startedAt.mono ≤ w.now.mono) :
    Inv dep tokens (conclude dep w request record) := by
  rcases conclude_cases dep w request record with heq | ⟨found, rfl, hsucceeds, heq⟩
  · rw [heq]
    exact h.answer hstart fun _ _ _ hok => (nomatch hok)
  · rw [heq]
    have hanswer : Inv dep tokens (w.answer ⟨some request.bearer, request.startedAt, some found, .ok found.mcpPrincipal⟩) :=
      h.answer hstart fun _ _ _ _ hnone => (nomatch hnone)
    refine ⟨hanswer.created, hanswer.requests, fun entry hentry => ?_, hanswer.answers, hanswer.backed⟩
    rcases PrincipalCache.mem_put hentry with hentry | ⟨rfl, -⟩
    · exact hanswer.entries entry hentry
    · exact ⟨le_refl _, request.bearer, hpresented, rfl, _, mem_append_right _ (mem_singleton_self _), rfl, rfl,
        found, rfl, hsucceeds.verified, rfl⟩

theorem inv_step {w' : World K} {act : Act} (hinj : Set.InjOn dep.keyFor tokens) (hpresents : Presents tokens act)
    (h : Inv dep tokens w) (hstep : step dep w act = some w') : Inv dep tokens w' := by
  cases act with
  | tick now =>
    obtain ⟨⟨hwall, hmono⟩, ⟨⟩⟩ := Option.ite_none_right_eq_some.1 hstep
    exact {
      created := fun row hrow => le_trans (h.created row hrow) hwall
      requests := fun id request hrequest =>
        ⟨(h.requests id request hrequest).1, le_trans (h.requests id request hrequest).2 hmono⟩
      entries := fun entry hentry => by
        obtain ⟨hdeadline, hrest⟩ := h.entries entry hentry
        exact ⟨by show _ ≤ now.mono + _; linarith, hrest⟩
      answers := fun answer hanswer => le_trans (h.answers answer hanswer) hmono
      backed := h.backed }
  | mint row =>
    obtain ⟨⟨-, hcreated, -, -⟩, ⟨⟩⟩ := Option.ite_none_right_eq_some.1 hstep
    refine ⟨fun row' hrow => ?_, h.requests, h.entries, h.answers, h.backed⟩
    rcases mem_append.1 hrow with hrow | hrow
    · exact h.created row' hrow
    · rw [mem_singleton.1 hrow]
      exact hcreated
  | revoke tokenPrefix moment =>
    obtain ⟨-, ⟨⟩⟩ := Option.ite_none_right_eq_some.1 hstep
    refine ⟨fun row hrow => ?_, h.requests, h.entries, h.answers, h.backed⟩
    obtain ⟨old, hold, rfl⟩ := mem_map.1 hrow
    split
    · rw [McpTokenRow.revoke_createdAt]
      exact h.created old hold
    · exact h.created old hold
  | begin id authorization =>
    obtain ⟨-, ⟨⟩⟩ := Option.ite_none_right_eq_some.1 hstep
    exact inv_begin hinj hpresents h
  | acquire id =>
    simp only [step] at hstep
    split at hstep
    · rename_i request hrequest
      obtain ⟨-, ⟨⟩⟩ := Option.ite_none_right_eq_some.1 hstep
      obtain ⟨hpresented, hstart⟩ := h.requests id request hrequest
      exact h.slots.put hpresented hstart
    · cases hstep
  | lookup id =>
    simp only [step] at hstep
    split at hstep
    · rename_i request hrequest
      obtain ⟨-, ⟨⟩⟩ := Option.ite_none_right_eq_some.1 hstep
      obtain ⟨hpresented, hstart⟩ := h.requests id request hrequest
      exact h.put hpresented hstart
    · cases hstep
  | finish id =>
    simp only [step] at hstep
    split at hstep
    · rename_i request hrequest
      split at hstep
      · rename_i record hstage
        cases hstep
        obtain ⟨hpresented, hstart⟩ := h.requests id request hrequest
        exact inv_conclude h.leave.slots hpresented hstart
      · cases hstep
    · cases hstep
  | abort id =>
    simp only [step] at hstep
    split at hstep
    · cases hstep
      exact h.leave.slots
    · cases hstep

end Inv

/-! ## From a revocation on -/

/-- No answer is a success for the token of a record that started later than `ttl` after `t`. -/
def Bound (dep : Deployment K) (tokenPrefix : String) (t : Clocks) (answers : List Answer) : Prop :=
  ∀ answer ∈ answers, ∀ b p, answer.bearer = some b → b.tokenPrefix = tokenPrefix →
    t.mono + dep.ttl < answer.startedAt.mono → answer.outcome ≠ .ok p

/-- A verification that succeeds after `t` with what it read of the record before. -/
def LatePut (dep : Deployment K) (tokenPrefix : String) (t : Clocks) (w : World K) (act : Act) : Prop :=
  ∃ id request found, act = .finish id ∧ w.requests id = some request ∧ request.stage = .looked (some found) ∧
    request.bearer.tokenPrefix = tokenPrefix ∧ t.mono < w.now.mono ∧ Succeeds dep w request found

structure Since (dep : Deployment K) (tokens : Set String) (tokenPrefix : String) (t : Clocks) (w : World K) : Prop where
  clock : t.mono ≤ w.now.mono
  row : ∃ row ∈ w.rows, row.tokenPrefix = tokenPrefix
  revoked : ∀ row ∈ w.rows, row.tokenPrefix = tokenPrefix → row.record.Revoked w.now.wall
  /-- Who started after `t` has read that it is revoked. -/
  requests : ∀ id request, w.requests id = some request → request.bearer.tokenPrefix = tokenPrefix →
    t.mono < request.startedAt.mono → ∀ found, request.stage = .looked (some found) → found.Revoked w.now.wall
  entries : ∀ entry ∈ w.entries, ∀ b, Presented tokens b → b.tokenPrefix = tokenPrefix →
    dep.keyFor b.token = entry.key → entry.deadline ≤ t.mono + dep.ttl
  bound : Bound dep tokenPrefix t w.answers

theorem McpTokenRecord.Revoked.mono {record : McpTokenRecord} {now later : Int} (h : record.Revoked now)
    (hle : now ≤ later) : record.Revoked later := by
  obtain ⟨at_, hat, hbefore⟩ := h
  exact ⟨at_, hat, le_trans hbefore hle⟩

theorem McpTokenRow.revoke_revoked {row : McpTokenRow} {moment now : Int} (hmoment : moment ≤ now)
    (hcreated : row.createdAt ≤ now) : (row.revoke moment).record.Revoked now := by
  unfold McpTokenRow.revoke
  split
  · rename_i hrevoked
    exact hrevoked.mono hmoment
  · exact ⟨_, rfl, max_le hmoment hcreated⟩

theorem McpTokenRow.revoke_prefix (row : McpTokenRow) (moment : Int) :
    (row.revoke moment).tokenPrefix = row.tokenPrefix := by
  unfold McpTokenRow.revoke
  split <;> rfl

section Since

variable {tokens : Set String} {tokenPrefix : String} {t : Clocks} {w : World K}

section

omit [DecidableEq K]

theorem Bound.append {answers : List Answer} {new : Answer} (h : Bound dep tokenPrefix t answers)
    (hnew : ∀ b p, new.bearer = some b → b.tokenPrefix = tokenPrefix → t.mono + dep.ttl < new.startedAt.mono →
      new.outcome ≠ .ok p) : Bound dep tokenPrefix t (answers ++ [new]) := by
  intro answer hanswer
  rcases mem_append.1 hanswer with hanswer | hanswer
  · exact h answer hanswer
  · rw [mem_singleton.1 hanswer]
    exact hnew

section

variable (h : Since dep tokens tokenPrefix t w)
include h

theorem Since.answer {answer : Answer}
    (hnew : ∀ b p, answer.bearer = some b → b.tokenPrefix = tokenPrefix → t.mono + dep.ttl < answer.startedAt.mono →
      answer.outcome ≠ .ok p) : Since dep tokens tokenPrefix t (w.answer answer) :=
  ⟨h.clock, h.row, h.revoked, h.requests, h.entries, h.bound.append hnew⟩

theorem Since.put
    (hrequest : request.bearer.tokenPrefix = tokenPrefix → t.mono < request.startedAt.mono →
      ∀ found, request.stage = .looked (some found) → found.Revoked w.now.wall) :
    Since dep tokens tokenPrefix t (w.put id request) := by
  refine ⟨h.clock, h.row, h.revoked, fun id' request' hrequest' => ?_, h.entries, h.bound⟩
  unfold World.put at hrequest'
  dsimp only at hrequest'
  by_cases hid : id' = id
  · rw [hid, Function.update_self] at hrequest'
    cases hrequest'
    exact hrequest
  · rw [Function.update_of_ne hid] at hrequest'
    exact h.requests id' request' hrequest'

theorem Since.leave : Since dep tokens tokenPrefix t (w.leave id) := by
  refine ⟨h.clock, h.row, h.revoked, fun id' request' hrequest' => ?_, h.entries, h.bound⟩
  unfold World.leave at hrequest'
  dsimp only at hrequest'
  by_cases hid : id' = id
  · rw [hid, Function.update_self] at hrequest'
    cases hrequest'
  · rw [Function.update_of_ne hid] at hrequest'
    exact h.requests id' request' hrequest'

theorem Since.slots {slots pending : Nat} :
    Since dep tokens tokenPrefix t { w with slots, pending } :=
  ⟨h.clock, h.row, h.revoked, h.requests, h.entries, h.bound⟩

theorem Since.fewer (hsub : entries ⊆ w.entries) :
    Since dep tokens tokenPrefix t { w with entries } :=
  ⟨h.clock, h.row, h.revoked, h.requests, fun entry hentry => h.entries entry (hsub hentry), h.bound⟩

end

end

theorem since_revoke {w' : World K} {moment : Int} (h : Inv dep tokens w)
    (hstep : step dep w (.revoke tokenPrefix moment) = some w') : Since dep tokens tokenPrefix w.now w' := by
  obtain ⟨⟨hmoment, hany⟩, ⟨⟩⟩ := Option.ite_none_right_eq_some.1 hstep
  exact {
    clock := le_refl _
    row := by
      obtain ⟨row, hrow, hprefix⟩ := any_eq_true.1 hany
      refine ⟨_, mem_map_of_mem hrow, ?_⟩
      split
      · rw [McpTokenRow.revoke_prefix]
        exact of_decide_eq_true hprefix
      · exact of_decide_eq_true hprefix
    revoked := fun row hrow hprefix => by
      obtain ⟨old, hold, rfl⟩ := mem_map.1 hrow
      split
      · exact McpTokenRow.revoke_revoked hmoment (h.created old hold)
      · rename_i hother
        rw [if_neg hother] at hprefix
        exact absurd hprefix hother
    requests := fun id request hrequest _ hstart => absurd (h.requests id request hrequest).2 (not_le.2 hstart)
    entries := fun entry hentry _ _ _ _ => (h.entries entry hentry).1
    bound := fun answer hanswer _ _ _ _ hstart => by
      have hbefore : answer.startedAt.mono ≤ w.now.mono := h.answers answer hanswer
      have := dep.ttl_pos
      linarith }

theorem since_begin (hpresents : Presents tokens (.begin id authorization)) (h : Since dep tokens tokenPrefix t w) :
    Since dep tokens tokenPrefix t (begin_ dep w id authorization) := by
  obtain ⟨entries, hsub, hcases⟩ := begin_cases dep w id authorization
  rcases hcases with ⟨b, e, heq⟩ | ⟨a, b, rfl, hparse, ⟨entry, hentry, hkey, hdeadline, heq⟩ | heq⟩
  · rw [heq]
    exact (h.fewer hsub).answer fun _ _ _ _ _ hok => (nomatch hok)
  · rw [heq]
    refine (h.fewer hsub).answer fun b' p hb hprefix hstart _ => ?_
    cases hb
    -- the entry's deadline has passed by then
    have hend := h.entries entry hentry b ⟨hpresents id a b rfl hparse, a, hparse⟩ hprefix hkey.symm
    have hstart' : t.mono + dep.ttl < w.now.mono := hstart
    linarith
  · rw [heq]
    exact (h.fewer hsub).slots.put fun _ _ _ hstage => (nomatch hstage)

theorem since_conclude (hinj : Set.InjOn dep.keyFor tokens)
    (h : Since dep tokens tokenPrefix t w) (hpresented : Presented tokens request.bearer)
    (hrevoked : request.bearer.tokenPrefix = tokenPrefix → t.mono < request.startedAt.mono →
      ∀ found, record = some found → found.Revoked w.now.wall)
    (htimely : ∀ found, record = some found → request.bearer.tokenPrefix = tokenPrefix → Succeeds dep w request found →
      w.now.mono ≤ t.mono) : Since dep tokens tokenPrefix t (conclude dep w request record) := by
  rcases conclude_cases dep w request record with heq | ⟨found, rfl, hsucceeds, heq⟩
  · rw [heq]
    exact h.answer fun _ _ _ _ _ hok => (nomatch hok)
  · rw [heq]
    have hanswer : Since dep tokens tokenPrefix t
        (w.answer ⟨some request.bearer, request.startedAt, some found, .ok found.mcpPrincipal⟩) := by
      refine h.answer fun b p hb hprefix hstart _ => ?_
      cases hb
      have hlater : t.mono < request.startedAt.mono := by
        have := dep.ttl_pos
        have hstart' : t.mono + dep.ttl < request.startedAt.mono := hstart
        linarith
      exact hsucceeds.unrevoked (hrevoked hprefix hlater found rfl)
    refine ⟨hanswer.clock, hanswer.row, hanswer.revoked, hanswer.requests, fun entry hentry b hb hprefix hkey => ?_,
      hanswer.bound⟩
    rcases PrincipalCache.mem_put hentry with hentry | ⟨rfl, -⟩
    · exact hanswer.entries entry hentry b hb hprefix hkey
    · obtain rfl := hb.unique hinj hpresented hkey
      have := htimely found rfl hprefix hsucceeds
      show w.now.mono + dep.ttl ≤ _
      linarith

theorem since_step {w' : World K} {act : Act} (hinj : Set.InjOn dep.keyFor tokens) (hpresents : Presents tokens act)
    (hinv : Inv dep tokens w) (h : Since dep tokens tokenPrefix t w) (htimely : ¬LatePut dep tokenPrefix t w act)
    (hstep : step dep w act = some w') : Since dep tokens tokenPrefix t w' := by
  cases act with
  | tick now =>
    obtain ⟨⟨hwall, hmono⟩, ⟨⟩⟩ := Option.ite_none_right_eq_some.1 hstep
    exact {
      clock := le_trans h.clock hmono
      row := h.row
      revoked := fun row hrow hprefix => (h.revoked row hrow hprefix).mono hwall
      requests := fun id request hrequest hprefix hstart found hstage =>
        (h.requests id request hrequest hprefix hstart found hstage).mono hwall
      entries := h.entries
      bound := h.bound }
  | mint row =>
    obtain ⟨⟨hunique, -⟩, ⟨⟩⟩ := Option.ite_none_right_eq_some.1 hstep
    obtain ⟨old, hold, hprefix⟩ := h.row
    refine ⟨h.clock, ⟨old, mem_append_left _ hold, hprefix⟩, fun row' hrow hprefix' => ?_, h.requests, h.entries, h.bound⟩
    rcases mem_append.1 hrow with hrow | hrow
    · exact h.revoked row' hrow hprefix'
    · rw [mem_singleton.1 hrow] at hprefix'
      exact absurd (Eq.trans hprefix hprefix'.symm) (of_decide_eq_true (all_eq_true.1 hunique old hold))
  | revoke other moment =>
    obtain ⟨⟨hmoment, -⟩, ⟨⟩⟩ := Option.ite_none_right_eq_some.1 hstep
    obtain ⟨old, hold, hprefix⟩ := h.row
    have hsame : ∀ row : McpTokenRow, (if row.tokenPrefix = other then row.revoke moment else row).tokenPrefix =
        row.tokenPrefix := fun row => by
      split
      · exact McpTokenRow.revoke_prefix row moment
      · rfl
    refine ⟨h.clock, ⟨_, mem_map_of_mem hold, (hsame old).trans hprefix⟩, fun row hrow hprefix' => ?_, h.requests,
      h.entries, h.bound⟩
    obtain ⟨row', hrow', rfl⟩ := mem_map.1 hrow
    split
    · exact McpTokenRow.revoke_revoked hmoment (hinv.created row' hrow')
    · exact h.revoked row' hrow' ((hsame row').symm.trans hprefix')
  | begin id authorization =>
    obtain ⟨-, ⟨⟩⟩ := Option.ite_none_right_eq_some.1 hstep
    exact since_begin hpresents h
  | acquire id =>
    simp only [step] at hstep
    split at hstep
    · obtain ⟨-, ⟨⟩⟩ := Option.ite_none_right_eq_some.1 hstep
      exact h.slots.put fun _ _ _ hstage => (nomatch hstage)
    · cases hstep
  | lookup id =>
    simp only [step] at hstep
    split at hstep
    · obtain ⟨-, ⟨⟩⟩ := Option.ite_none_right_eq_some.1 hstep
      refine h.put fun hprefix _ found hstage => ?_
      obtain ⟨row, hfind, rfl⟩ := Option.map_eq_some_iff.1 (Stage.looked.inj hstage)
      have hrow : row.tokenPrefix = tokenPrefix := by
        have hfound := List.find?_some hfind
        exact (of_decide_eq_true hfound).trans hprefix
      exact h.revoked row (List.mem_of_find?_eq_some hfind) hrow
    · cases hstep
  | finish id =>
    simp only [step] at hstep
    split at hstep
    · rename_i request hrequest
      split at hstep
      · rename_i record hstage
        cases hstep
        refine since_conclude hinj h.leave.slots (hinv.requests id request hrequest).1
          (fun hprefix hstart found hfound => h.requests id request hrequest hprefix hstart found (hstage.trans (hfound ▸ rfl)))
          fun found hfound hprefix hsucceeds => ?_
        by_contra hlate
        exact htimely ⟨id, request, found, rfl, hrequest, hstage.trans (hfound ▸ rfl), hprefix, not_le.1 hlate,
          ⟨hsucceeds.verified, hsucceeds.unrevoked, hsucceeds.unexpired⟩⟩
      · cases hstep
    · cases hstep
  | abort id =>
    simp only [step] at hstep
    split at hstep
    · cases hstep
      exact h.leave.slots
    · cases hstep

end Since

/-! ## Runs -/

/-- The tokens that the requests of a run present. -/
def presented (acts : List Act) : Set String :=
  { token | ∃ id a b, Act.begin id (some a) ∈ acts ∧ parseMcp a = some b ∧ b.token = token }

theorem presents_presented {acts : List Act} : ∀ act ∈ acts, Presents (presented acts) act := by
  rintro act hact id a b rfl hparse
  exact ⟨id, a, b, hact, hparse, rfl⟩

section Runs

variable {tokens : Set String} {tokenPrefix : String} {t : Clocks} {w w' : World K} {acts : List Act}

theorem inv_run (hinj : Set.InjOn dep.keyFor tokens) (hpresents : ∀ act ∈ acts, Presents tokens act)
    (h : Inv dep tokens w) (hrun : run (step dep) w acts = some w') : Inv dep tokens w' :=
  run_invariant_where (fun _ act _ hi (hp : Presents tokens act) hs => inv_step hinj hp hi hs) h
    (Meets.of_labels (fun act hact _ => hpresents act hact) w) hrun

theorem since_run (hinj : Set.InjOn dep.keyFor tokens) (hpresents : ∀ act ∈ acts, Presents tokens act)
    (hinv : Inv dep tokens w) (h : Since dep tokens tokenPrefix t w)
    (htimely : Meets (step dep) (fun w act => ¬LatePut dep tokenPrefix t w act) w acts)
    (hrun : run (step dep) w acts = some w') : Since dep tokens tokenPrefix t w' := by
  induction acts generalizing w with
  | nil =>
    cases hrun
    exact h
  | cons act acts ih =>
    obtain ⟨v, hstep, hrest⟩ := run_cons.1 hrun
    have hact := hpresents act mem_cons_self
    exact ih (fun act' hact' => hpresents act' (mem_cons_of_mem _ hact')) (inv_step hinj hact hinv hstep)
      (since_step hinj hact hinv h htimely.1 hstep) (htimely.2 v hstep) hrest

theorem latePut_breaks {act : Act} (hinv : Inv dep tokens w) (hlate : LatePut dep tokenPrefix t w act)
    (hstep : step dep w act = some w') :
    ∃ rest w'', run (step dep) w' rest = some w'' ∧ ¬Bound dep tokenPrefix t w''.answers := by
  obtain ⟨id, request, found, rfl, hrequest, hstage, hprefix, hlater, hsucceeds⟩ := hlate
  obtain ⟨⟨-, a, ha⟩, -⟩ := hinv.requests id request hrequest
  -- the entry is in the cache, and its deadline is later than the bound
  have hw' : w' = conclude dep ((w.leave id).release request) request (some found) := by
    simp only [step, hrequest, hstage] at hstep
    exact (Option.some.inj hstep).symm
  have hsucceeds' : Succeeds dep ((w.leave id).release request) request found :=
    ⟨hsucceeds.verified, hsucceeds.unrevoked, hsucceeds.unexpired⟩
  rw [conclude_succeeds hsucceeds'] at hw'
  have hpos := dep.ttl_pos
  let later : Clocks := ⟨w.now.wall, max w.now.mono ((t.mono + w.now.mono) / 2 + dep.ttl)⟩
  have hbefore : later.mono < w.now.mono + dep.ttl := max_lt (by linarith) (by linarith)
  have hafter : t.mono + dep.ttl < later.mono := lt_of_lt_of_le (by linarith) (le_max_right _ _)
  have hget : (PrincipalCache.get (PrincipalCache.put dep w.entries (dep.keyFor request.bearer.token) found.mcpPrincipal w.now)
      (dep.keyFor request.bearer.token) later).1 = some found.mcpPrincipal :=
    PrincipalCache.get_put hsucceeds.unexpired hbefore hsucceeds.unexpired
  have htick : step dep w' (.tick later) = some { w' with now := later } := by
    rw [hw']
    exact if_pos ⟨le_refl _, le_max_left _ _⟩
  have hfree : w'.requests id = none := by
    rw [hw']
    exact Function.update_self ..
  have hbegin : step dep { w' with now := later } (.begin id (some a)) =
      some (begin_ dep { w' with now := later } id (some a)) := by
    simp only [step, hfree, Option.isNone_none, if_true]
  refine ⟨[.tick later, .begin id (some a)], _, run_cons.2 ⟨_, htick, run_cons.2 ⟨_, hbegin, rfl⟩⟩, fun hbound => ?_⟩
  refine hbound ⟨some request.bearer, later, none, .ok found.mcpPrincipal⟩ ?_ request.bearer found.mcpPrincipal rfl hprefix
    hafter rfl
  unfold begin_
  rw [hw']
  dsimp only [World.answer, World.leave, World.release]
  rw [ha]
  dsimp only
  rw [hget]
  exact mem_append_right _ (mem_singleton_self _)

end Runs

/-- **The revocation bound.**  What the cache answers was verified.  From the commit of a revocation on, a run in which
no verification that read the record before it succeeds after it keeps the bound; once one does, some continuation
breaks it. -/
theorem revocation_bound {acts more : List Act} {now : Clocks} {rows : List McpTokenRow} {tokenPrefix : String}
    {moment : Int} {w w' w'' : World K} (hrows : ∀ row ∈ rows, row.createdAt ≤ now.wall)
    (hinj : Set.InjOn dep.keyFor (presented (acts ++ more)))
    (hrun : run (step dep) (World.start dep now rows) acts = some w)
    (hrevoke : step dep w (.revoke tokenPrefix moment) = some w') (hmore : run (step dep) w' more = some w'') :
    Backed dep w''.answers ∧
      (Meets (step dep) (fun v act => ¬LatePut dep tokenPrefix w.now v act) w' more →
        Bound dep tokenPrefix w.now w''.answers) ∧
      ∀ act v, LatePut dep tokenPrefix w.now w'' act → step dep w'' act = some v →
        ∃ rest v', run (step dep) v rest = some v' ∧ ¬Bound dep tokenPrefix w.now v'.answers := by
  have hpresents : ∀ act ∈ acts ++ more, Presents (presented (acts ++ more)) act := presents_presented
  have hinv := inv_run hinj (fun act hact => hpresents act (List.mem_append_left _ hact)) (Inv.start now rows hrows) hrun
  have hpresentsRevoke : Presents (presented (acts ++ more)) (.revoke tokenPrefix moment) := fun _ _ _ h => (nomatch h)
  have hinv' := inv_step hinj hpresentsRevoke hinv hrevoke
  have hpresentsMore := fun act hact => hpresents act (List.mem_append_right acts hact)
  have hinv'' := inv_run hinj hpresentsMore hinv' hmore
  refine ⟨hinv''.backed, fun htimely => ?_, fun act v hlate hstep => latePut_breaks hinv'' hlate hstep⟩
  exact (since_run hinj hpresentsMore hinv' (since_revoke hinv hrevoke) htimely hmore).bound

/-! ## A verification that queues -/

def sampleDeployment : Deployment String where
  keyFor := fun token => token
  verifies := fun verifier token => verifier = "$argon2id$v=19$" ++ token
  dummyVerifier := "$argon2id$v=19$agent-context-dummy-credential"
  ttl := 30
  ttl_pos := by decide
  maxEntries := 1024
  maxConcurrency := 4
  maxQueueDepth := 16

def sampleToken : String := "mcp_sample01.ssssssssssssssssssssssssssssssss"

def sampleRow : McpTokenRow :=
  ⟨"t1", "mcp_sample01", "$argon2id$v=19$" ++ sampleToken, "alice", ["memory:read"], 0, 1000000, none⟩

def sampleRequest (id : Nat) : Act := .begin id (some ("Bearer " ++ sampleToken))

/-- A success for the sample token that started later than an instant. -/
def Answer.succeedsAfter (answer : Answer) (mono : Rat) : Bool :=
  match answer.bearer, answer.outcome with
  | some b, .ok _ => b.tokenPrefix = "mcp_sample01" && mono < answer.startedAt.mono
  | _, _ => false

theorem not_bound_of_succeedsAfter {t : Clocks} {answers : List Answer}
    (h : answers.any (·.succeedsAfter (t.mono + sampleDeployment.ttl)) = true) :
    ¬Bound sampleDeployment "mcp_sample01" t answers := by
  obtain ⟨answer, hmem, hsucceeds⟩ := any_eq_true.1 h
  unfold Answer.succeedsAfter at hsucceeds
  split at hsucceeds
  · rename_i b p hbearer hok
    simp only [Bool.and_eq_true, decide_eq_true_eq] at hsucceeds
    exact fun hbound => hbound answer hmem b p hbearer hsucceeds.1 hsucceeds.2 hok
  · cases hsucceeds

/-- The record is read, the token is revoked, the verification succeeds ten seconds later: the token works after
thirty-five. -/
theorem late_put_outlives_bound :
    ∃ w w' w'', run (step sampleDeployment) (World.start sampleDeployment ⟨1, 0⟩ [sampleRow])
        [sampleRequest 0, .acquire 0, .lookup 0] = some w ∧
      step sampleDeployment w (.revoke "mcp_sample01" 1) = some w' ∧
      run (step sampleDeployment) w' [.tick ⟨11, 10⟩, .finish 0, .tick ⟨36, 35⟩, sampleRequest 1] = some w'' ∧
      ¬Bound sampleDeployment "mcp_sample01" w.now w''.answers := by
  have hrun : ((run (step sampleDeployment) (World.start sampleDeployment ⟨1, 0⟩ [sampleRow])
        [sampleRequest 0, .acquire 0, .lookup 0]).bind fun w =>
      (step sampleDeployment w (.revoke "mcp_sample01" 1)).bind fun w' =>
        (run (step sampleDeployment) w' [.tick ⟨11, 10⟩, .finish 0, .tick ⟨36, 35⟩, sampleRequest 1]).map fun w'' =>
          w''.answers.any (·.succeedsAfter (w.now.mono + sampleDeployment.ttl))) = some true := by
    decide +kernel
  obtain ⟨w, hw, hrun⟩ := Option.bind_eq_some_iff.1 hrun
  obtain ⟨w', hw', hrun⟩ := Option.bind_eq_some_iff.1 hrun
  obtain ⟨w'', hw'', hany⟩ := Option.map_eq_some_iff.1 hrun
  exact ⟨w, w', w'', hw, hw', hw'', not_bound_of_succeedsAfter hany⟩

/-- A token that was verified before its revocation. -/
theorem revocation_bound_sample : ∃ w w' w'',
    run (step sampleDeployment) (World.start sampleDeployment ⟨1, 0⟩ [sampleRow])
        [sampleRequest 0, .acquire 0, .lookup 0, .finish 0] = some w ∧
      step sampleDeployment w (.revoke "mcp_sample01" 1) = some w' ∧
      run (step sampleDeployment) w' [.tick ⟨41, 40⟩, sampleRequest 1] = some w'' ∧
      Backed sampleDeployment w''.answers ∧ Bound sampleDeployment "mcp_sample01" w.now w''.answers := by
  have hrun : (((run (step sampleDeployment) (World.start sampleDeployment ⟨1, 0⟩ [sampleRow])
        [sampleRequest 0, .acquire 0, .lookup 0, .finish 0]).bind fun w =>
      (step sampleDeployment w (.revoke "mcp_sample01" 1)).bind fun w' =>
        run (step sampleDeployment) w' [.tick ⟨41, 40⟩, sampleRequest 1])).isSome = true := by
    decide +kernel
  obtain ⟨w'', hrun⟩ := Option.isSome_iff_exists.1 hrun
  obtain ⟨w, hw, hrun⟩ := Option.bind_eq_some_iff.1 hrun
  obtain ⟨w', hw', hw''⟩ := Option.bind_eq_some_iff.1 hrun
  have hrows : ∀ row ∈ [sampleRow], row.createdAt ≤ (⟨1, 0⟩ : Clocks).wall := by decide
  have hbound := revocation_bound hrows (Set.injOn_of_injective fun _ _ h => h) hw hw' hw''
  refine ⟨w, w', w'', hw, hw', hw'', hbound.1, hbound.2.1 (Meets.of_labels (fun act hact _ => ?_) _)⟩
  rintro ⟨id, _, _, rfl, -⟩
  simp [sampleRequest] at hact

end Security
