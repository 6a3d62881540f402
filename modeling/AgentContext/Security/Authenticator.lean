import AgentContext.Security.Bearer

/-!
# Authentications

`McpAuthenticator` of one replica, with any number of requests in flight, and the operators' changes of the token
table.  A request awaits a slot of the verifier, then the lookup, then the verification; between two awaits it is not
interrupted.

    begin     parse, cache lookup, admission to the queue
    acquire   a slot of the verifier
    lookup    the token's record, as committed then
    finish    the verification's result, the checks, the cache put
    abort     a cancelled request or a failed lookup

Every answer is kept in `answers`, with the instant its request started at.
-/

namespace Security

inductive AuthError where
  | missingCredential
  | invalidCredential
  | authOverloaded
deriving DecidableEq, Repr

/-- How far a request is. -/
inductive Stage where
  | waiting
  | admitted
  | looked (record : Option McpTokenRecord)
deriving DecidableEq, Repr

structure Request where
  bearer : BearerToken
  startedAt : Clocks
  stage : Stage
deriving DecidableEq, Repr

/-- An answer, and the record it was verified against: none where the cache answered, or nothing was verified. -/
structure Answer where
  bearer : Option BearerToken
  startedAt : Clocks
  verified : Option McpTokenRecord
  outcome : Except AuthError McpPrincipal

structure World (K : Type) where
  now : Clocks
  rows : List McpTokenRow
  entries : List (Entry K)
  slots : Nat
  pending : Nat
  requests : Nat → Option Request
  answers : List Answer

inductive Act where
  | tick (now : Clocks)
  | mint (row : McpTokenRow)
  | revoke (tokenPrefix : String) (moment : Int)
  | begin (id : Nat) (authorization : Option String)
  | acquire (id : Nat)
  | lookup (id : Nat)
  | finish (id : Nat)
  | abort (id : Nat)
deriving DecidableEq, Repr

section Model

variable {K : Type} [DecidableEq K] (dep : Deployment K)

/-- A replica that starts on a token table. -/
def World.start (now : Clocks) (rows : List McpTokenRow) : World K :=
  ⟨now, rows, [], dep.maxConcurrency, 0, fun _ => none, []⟩

/-- `MCP_TOKEN_PREFIX`. -/
def mcpTokenPrefix : String := "mcp_"

def parseMcp (authorization : String) : Option BearerToken :=
  (parseBearer authorization).filter fun bearer => mcpTokenPrefix.isPrefixOf bearer.tokenPrefix

def World.put (w : World K) (id : Nat) (request : Request) : World K :=
  { w with requests := Function.update w.requests id (some request) }

/-- A request leaves, with or without an answer. -/
def World.leave (w : World K) (id : Nat) : World K := { w with requests := Function.update w.requests id none }

def World.answer (w : World K) (answer : Answer) : World K := { w with answers := w.answers ++ [answer] }

/-- `authenticate` up to its first wait. -/
def begin_ (w : World K) (id : Nat) (authorization : Option String) : World K :=
  match authorization with
  | none => w.answer ⟨none, w.now, none, .error .missingCredential⟩
  | some authorization =>
    match parseMcp authorization with
    | none => w.answer ⟨none, w.now, none, .error .invalidCredential⟩
    | some bearer =>
      let (cached, entries) := PrincipalCache.get w.entries (dep.keyFor bearer.token) w.now
      let w := { w with entries }
      match cached with
      | some principal => w.answer ⟨some bearer, w.now, none, .ok principal⟩
      | none =>
        if dep.maxConcurrency + dep.maxQueueDepth ≤ w.pending then
          w.answer ⟨some bearer, w.now, none, .error .authOverloaded⟩
        else ({ w with pending := w.pending + 1 }).put id ⟨bearer, w.now, .waiting⟩

/-- The end of `admission`. -/
def World.release (w : World K) (request : Request) : World K :=
  { w with
    pending := w.pending - 1
    slots := if request.stage = .waiting then w.slots else w.slots + 1 }

/-- `Argon2Verifier.verify`. -/
def Deployment.verify (record : Option McpTokenRecord) (token : String) : Bool :=
  dep.verifies (record.elim dep.dummyVerifier (·.tokenVerifier)) token && record.isSome

/-- `_authenticate` from the verification on. -/
def conclude (w : World K) (request : Request) (record : Option McpTokenRecord) : World K :=
  let refused := w.answer ⟨some request.bearer, request.startedAt, none, .error .invalidCredential⟩
  match record with
  | none => refused
  | some record =>
    if ¬dep.verify (some record) request.bearer.token then refused
    else if record.Revoked w.now.wall then refused
    else if record.expiresAt ≤ w.now.wall then refused
    else
      let principal := record.mcpPrincipal
      ({ w with
        entries := PrincipalCache.put dep w.entries (dep.keyFor request.bearer.token) principal w.now }).answer
        ⟨some request.bearer, request.startedAt, some record, .ok principal⟩

/-- `revoke_mcp_token` on one row. -/
def McpTokenRow.revoke (row : McpTokenRow) (moment : Int) : McpTokenRow :=
  if row.record.Revoked moment then row else { row with revokedAt := some (max moment row.createdAt) }

def step (w : World K) : Act → Option (World K)
  | .tick now => if w.now.wall ≤ now.wall ∧ w.now.mono ≤ now.mono then some { w with now } else none
  | .mint row =>
    if w.rows.all (fun r => r.tokenPrefix ≠ row.tokenPrefix) ∧ row.createdAt ≤ w.now.wall ∧ row.createdAt < row.expiresAt ∧
        row.revokedAt = none then
      some { w with rows := w.rows ++ [row] }
    else none
  | .revoke tokenPrefix moment =>
    if moment ≤ w.now.wall ∧ w.rows.any fun r => r.tokenPrefix = tokenPrefix then
      some { w with rows := w.rows.map fun r => if r.tokenPrefix = tokenPrefix then r.revoke moment else r }
    else none
  | .begin id authorization => if (w.requests id).isNone then some (begin_ dep w id authorization) else none
  | .acquire id =>
    match w.requests id with
    | some request =>
      if request.stage = .waiting ∧ 0 < w.slots then
        some (({ w with slots := w.slots - 1 }).put id { request with stage := .admitted })
      else none
    | none => none
  | .lookup id =>
    match w.requests id with
    | some request =>
      if request.stage = .admitted then
        let record := (w.rows.find? fun r => r.tokenPrefix = request.bearer.tokenPrefix).map (·.record)
        some (w.put id { request with stage := .looked record })
      else none
    | none => none
  | .finish id =>
    match w.requests id with
    | some request =>
      match request.stage with
      | .looked record => some (conclude dep ((w.leave id).release request) request record)
      | _ => none
    | none => none
  | .abort id =>
    match w.requests id with
    | some request => some ((w.leave id).release request)
    | none => none

end Model

end Security
