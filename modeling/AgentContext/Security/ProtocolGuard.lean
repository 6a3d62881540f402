import Mathlib.Data.List.Basic
import Mathlib.Tactic.Common

/-!
# The guard before the application

`ProtocolGuard`: host, origin, access gate, method, declared size, body, protocol version, then the application.

    readLimitedBody    the loop over the messages, and what it has taken of them
    serve              the checks after admission
    call               one request, as the events that are seen from outside

What the loop answers depends on the body up to its last message only, not on how it is cut into messages.
-/

namespace Security

abbrev Bytes := List UInt8

/-- What `receive` returns; fields that are left out have their defaults. -/
inductive Message where
  | disconnect
  | request (body : Option Bytes) (moreBody : Option Bool)

/-- A response; its body is the message of a JSON-RPC error, if there is one. -/
structure Response where
  status : Nat
  message : Option String
  allow : Option String

inductive Event where
  | admitted
  | receive (message : Message)
  | respond (response : Response)
  /-- The application runs; the messages are those that it can receive. -/
  | forward (messages : List Message)
  | finish (outcome : Option String)

structure HttpScope where
  isHttp : Bool
  method : String
  headers : List (Bytes × Bytes)

/-- The guard's settings, its gate, and the packages it calls: `unsupported_protocol_version_rejection` with the status
of its code, and whether the application raises. -/
structure ProtocolGuard where
  allowedHosts : List String
  allowedOrigins : List String
  maxBodyBytes : Nat
  admits : HttpScope → Bool
  versionRejection : String → Option (Nat × String)
  appRaises : List Message → Bool

/-! ## Headers -/

def latin1 (bytes : Bytes) : String := String.ofList (bytes.map fun b => Char.ofNat b.toNat)

/-- `bytes.lower`. -/
def lowerByte (b : UInt8) : UInt8 := if 65 ≤ b ∧ b ≤ 90 then b + 32 else b

/-- `str.lower` on a decoded byte. -/
def lowerLatin1 (b : UInt8) : UInt8 :=
  if 65 ≤ b ∧ b ≤ 90 ∨ 192 ≤ b ∧ b ≤ 222 ∧ b ≠ 215 then b + 32 else b

def headerValues (scope : HttpScope) (name : String) : List String :=
  (scope.headers.filter fun h => latin1 (h.1.map lowerByte) == name).map fun h => latin1 h.2

/-- `_single_valued_headers`: of a repeated header the last one counts. -/
def singleValued (scope : HttpScope) (name : String) : Option String :=
  (scope.headers.reverse.find? fun h => latin1 (h.1.map lowerLatin1) == name).map fun h => latin1 h.2

/-- `_PORT`. -/
def isPort (text : List Char) : Bool := 1 ≤ text.length && text.length ≤ 5 && text.all Char.isDigit

def allowlisted (value : String) (allowed : List String) : Bool :=
  allowed.any fun pattern =>
    let stem := pattern.toList.dropLast
    value == pattern || [':', '*'].isSuffixOf pattern.toList && stem.isPrefixOf value.toList &&
      isPort (value.toList.drop stem.length)

def allowedHeader (values allowed : List String) (required : Bool) : Bool :=
  match values with
  | [] => !required
  | [value] => allowlisted value allowed
  | _ => false

/-! ## The body -/

inductive Body where
  | complete (body : Bytes) (rest : List Message)
  | tooLarge
  | disconnected
  /-- The client sends nothing more. -/
  | waiting

/-- `_read_limited_body`, with the messages it takes. -/
def readLimitedBody (limit : Nat) : Bytes → List Message → List Message × Body
  | _, [] => ([], .waiting)
  | _, .disconnect :: _ => ([.disconnect], .disconnected)
  | chunks, .request body more :: rest =>
    let joined := chunks ++ body.getD []
    if limit < joined.length then ([.request body more], .tooLarge)
    else if more.getD false then
      let later := readLimitedBody limit joined rest
      (.request body more :: later.1, later.2)
    else ([.request body more], .complete joined rest)

/-- `int` refuses a text of more digits. -/
def maxStrDigits : Nat := 4300

inductive DeclaredLength where
  | within | tooLarge | unreadable
  deriving DecidableEq

def declaredLength (limit : Nat) (declared : String) : DeclaredLength :=
  let digits := declared.toList
  if digits = [] ∨ digits.any (!·.isDigit) then .tooLarge
  else if maxStrDigits < digits.length then .unreadable
  else if limit < digits.foldl (fun n c => 10 * n + (c.toNat - 48)) 0 then .tooLarge
  else .within

/-! ## The request -/

inductive Ending where
  | returned (outcome : Option String)
  | raised
  | waiting
  deriving DecidableEq

structure Served where
  events : List Event
  ending : Ending

namespace ProtocolGuard

variable (g : ProtocolGuard)

def tooLarge : Event := .respond ⟨413, some "Too large", none⟩

/-- What follows the body. -/
def dispatch (scope : HttpScope) (body : Bytes) (rest : List Message) : Served :=
  match g.versionRejection ((singleValued scope "mcp-protocol-version").getD "") with
  | some (status, message) => ⟨[.respond ⟨status, some message, none⟩], .returned none⟩
  | none =>
    -- `_replay`: the body again as one message, then the client's
    let messages := .request (some body) (some false) :: rest
    ⟨[.forward messages], if g.appRaises messages then .raised else .returned none⟩

def serve (scope : HttpScope) (messages : List Message) : Served :=
  if scope.method ≠ "POST" then ⟨[.respond ⟨405, none, some "POST"⟩], .returned none⟩
  else
    match ((singleValued scope "content-length").map (declaredLength g.maxBodyBytes)).getD .within with
    | .tooLarge => ⟨[tooLarge], .returned none⟩
    | .unreadable => ⟨[], .raised⟩
    | .within =>
      let read := readLimitedBody g.maxBodyBytes [] messages
      let received := read.1.map Event.receive
      match read.2 with
      | .waiting => ⟨received, .waiting⟩
      | .disconnected => ⟨received, .returned (some "disconnect")⟩
      | .tooLarge => ⟨received ++ [tooLarge], .returned none⟩
      | .complete body rest =>
        let served := g.dispatch scope body rest
        ⟨received ++ served.events, served.ending⟩

/-- `__call__`. -/
def call (scope : HttpScope) (messages : List Message) : List Event :=
  if !scope.isHttp then [.forward messages]
  else if !allowedHeader (headerValues scope "host") g.allowedHosts true then
    [.respond ⟨421, some "Invalid Host", none⟩]
  else if !allowedHeader (headerValues scope "origin") g.allowedOrigins false then
    [.respond ⟨403, some "Invalid Origin", none⟩]
  else if !g.admits scope then [.admitted]
  else
    let served := g.serve scope messages
    .admitted :: served.events ++ match served.ending with
      | .returned outcome => [.finish outcome]
      | .raised => [.finish (some "error")]
      | .waiting => []

end ProtocolGuard

/-! ## What the guard lets through -/

/-- The last message of a body. -/
def Message.ends : Message → Bool
  | .disconnect => true
  | .request _ more => !more.getD false

def Message.bytes : Message → Bytes
  | .disconnect => []
  | .request body _ => body.getD []

/-- The bytes up to the last message of the body. -/
def bodyOf : List Message → Bytes
  | [] => []
  | m :: rest => m.bytes ++ if m.ends then [] else bodyOf rest

/-- How a body ends, whatever its messages are. -/
def bodyEnd (limit : Nat) (messages : List Message) : Body :=
  if limit < (bodyOf messages).length then .tooLarge
  else
    match messages.dropWhile (!·.ends) with
    | [] => .waiting
    | .disconnect :: _ => .disconnected
    | .request _ _ :: rest => .complete (bodyOf messages) rest

def Body.isWaiting : Body → Bool
  | .waiting => true
  | _ => false

def Body.isDisconnected : Body → Bool
  | .disconnected => true
  | _ => false

@[simp] def Event.isFinish : Event → Bool
  | .finish _ => true
  | _ => false

/-- A response, or the application. -/
@[simp] def Event.isAnswer : Event → Bool
  | .respond _ => true
  | .forward _ => true
  | _ => false

theorem readLimitedBody_eq {limit : Nat} {chunks : Bytes} {messages : List Message} (h : chunks.length ≤ limit) :
    (readLimitedBody limit chunks messages).2 =
      if limit < (chunks ++ bodyOf messages).length then .tooLarge
      else
        match messages.dropWhile (!·.ends) with
        | [] => .waiting
        | .disconnect :: _ => .disconnected
        | .request _ _ :: rest => .complete (chunks ++ bodyOf messages) rest := by
  induction messages generalizing chunks with
  | nil => simp [readLimitedBody, bodyOf, h]
  | cons m rest ih =>
    cases m with
    | disconnect => simp [readLimitedBody, bodyOf, Message.bytes, Message.ends, h]
    | request body more =>
      have hends : (Message.request body more).ends = !more.getD false := rfl
      have hbytes : (Message.request body more).bytes = body.getD [] := rfl
      simp only [readLimitedBody, bodyOf, hbytes, List.dropWhile_cons, hends, ← List.append_assoc]
      by_cases hlarge : limit < (chunks ++ body.getD []).length
      · rw [if_pos hlarge, if_pos (by rw [List.length_append]; omega)]
      · rw [if_neg hlarge]
        by_cases hmore : more.getD false = true
        · simp [hmore, ih (Nat.not_lt.1 hlarge)]
        · simp [hmore, List.length_append ▸ hlarge]

namespace ProtocolGuard

variable (g : ProtocolGuard) (scope : HttpScope)

def namesHost : Bool :=
  allowedHeader (headerValues scope "host") g.allowedHosts true &&
    allowedHeader (headerValues scope "origin") g.allowedOrigins false

def declared : DeclaredLength := ((singleValued scope "content-length").map (declaredLength g.maxBodyBytes)).getD .within

/-- The guard reads the body. -/
def reads : Bool := scope.method = "POST" && g.declared scope = .within

theorem serve_spec (messages : List Message) : (∀ ms, .forward ms ∈ (g.serve scope messages).events ↔ g.reads scope ∧
      (∃ body rest, bodyEnd g.maxBodyBytes messages = .complete body rest ∧
        ms = .request (some body) (some false) :: rest) ∧
      g.versionRejection ((singleValued scope "mcp-protocol-version").getD "") = none) ∧
    (g.serve scope messages).events.countP Event.isFinish = 0 ∧
    ((g.serve scope messages).ending = .waiting ↔ g.reads scope ∧ (bodyEnd g.maxBodyBytes messages).isWaiting) ∧
    (g.serve scope messages).events.countP Event.isAnswer =
      if (scope.method = "POST" ∧ g.declared scope = .unreadable) ∨ g.reads scope ∧
        ((bodyEnd g.maxBodyBytes messages).isWaiting ∨ (bodyEnd g.maxBodyBytes messages).isDisconnected) then 0
      else 1 := by
  have hread : (readLimitedBody g.maxBodyBytes [] messages).2 = bodyEnd g.maxBodyBytes messages :=
    readLimitedBody_eq (Nat.zero_le _)
  have hdeclared : ((singleValued scope "content-length").map (declaredLength g.maxBodyBytes)).getD .within =
      g.declared scope := rfl
  simp only [serve, hread, hdeclared, reads]
  by_cases hpost : scope.method = "POST"
  swap
  · simp [hpost]
  obtain hlength | hlength | hlength : g.declared scope = .tooLarge ∨ g.declared scope = .unreadable ∨
      g.declared scope = .within := by cases g.declared scope <;> simp
  · simp [hpost, hlength, tooLarge]
  · simp [hpost, hlength]
  · cases bodyEnd g.maxBodyBytes messages with
    | waiting => simp [hpost, hlength, Body.isWaiting]
    | disconnected => simp [hpost, hlength, Body.isWaiting, Body.isDisconnected]
    | tooLarge => simp [hpost, hlength, tooLarge, Body.isWaiting, Body.isDisconnected]
    | complete body rest =>
      unfold dispatch
      cases g.versionRejection ((singleValued scope "mcp-protocol-version").getD "") with
      | some rejection => simp [hpost, hlength, Body.isWaiting, Body.isDisconnected]
      | none =>
        by_cases hraises : g.appRaises (.request (some body) (some false) :: rest) <;>
          simp [hpost, hlength, hraises, Body.isWaiting, Body.isDisconnected]

/-- **The guard lets exactly the intended requests through.**  It depends on the body, not on its messages; nothing is
read before admission; an admitted request is audited once, unless its client stalls; and one answer is given, by a
response or by the application, unless the gate has refused, the client goes away or stalls, or `int` fails. -/
theorem call_exact (messages : List Message) (hhttp : scope.isHttp = true) :
    let trace := g.call scope messages
    let ended := bodyEnd g.maxBodyBytes messages
    (∀ ms, .forward ms ∈ trace ↔ g.namesHost scope ∧ g.admits scope ∧ g.reads scope ∧
      (∃ body rest, ended = .complete body rest ∧ ms = .request (some body) (some false) :: rest) ∧
      g.versionRejection ((singleValued scope "mcp-protocol-version").getD "") = none) ∧
    (∀ m, .receive m ∈ trace → g.namesHost scope ∧ g.admits scope ∧ ∃ tail, trace = .admitted :: tail) ∧
    trace.countP Event.isFinish =
      (if g.namesHost scope ∧ g.admits scope ∧ ¬(g.reads scope ∧ ended.isWaiting) then 1 else 0) ∧
    trace.countP Event.isAnswer =
      if g.namesHost scope ∧ (g.admits scope → (scope.method = "POST" ∧ g.declared scope = .unreadable) ∨
        g.reads scope ∧ (ended.isWaiting ∨ ended.isDisconnected)) then 0 else 1 := by
  obtain ⟨hforward, hfinish, hwaiting, hanswer⟩ := g.serve_spec scope messages
  simp only [call, hhttp, namesHost]
  by_cases hhost : allowedHeader (headerValues scope "host") g.allowedHosts true
  swap
  · simp [hhost]
  by_cases horigin : allowedHeader (headerValues scope "origin") g.allowedOrigins false
  swap
  · simp [hhost, horigin]
  by_cases hadmits : g.admits scope
  swap
  · simp [hhost, horigin, hadmits]
  cases hending : (g.serve scope messages).ending with
  | waiting => simp [hhost, horigin, hadmits, hforward, hfinish, hanswer, hwaiting.1 hending]
  | raised =>
    have hnot := mt hwaiting.2 (by rw [hending]; simp)
    simp [hhost, horigin, hadmits, hforward, hfinish, hanswer, hnot]
  | returned outcome =>
    have hnot := mt hwaiting.2 (by rw [hending]; simp)
    simp [hhost, horigin, hadmits, hforward, hfinish, hanswer, hnot]

def local8 : ProtocolGuard where
  allowedHosts := ["localhost:*"]
  allowedOrigins := []
  maxBodyBytes := 8
  admits := fun _ => true
  versionRejection := fun version => if version = "2026-07-28" then none else some (400, "Unsupported protocol version")
  appRaises := fun _ => false

def post : HttpScope where
  isHttp := true
  method := "POST"
  headers := [("Host", "localhost:80"), ("mcp-protocol-version", "2026-07-28")].map fun h =>
    (h.1.toUTF8.data.toList, h.2.toUTF8.data.toList)

theorem call_exact_chunks : .forward [.request (some [1, 2, 3]) (some false)] ∈
    local8.call post [.request (some [1, 2]) (some true), .request (some [3]) none] :=
  ((local8.call_exact post _ rfl).1 _).2 ⟨by decide, rfl, by decide, ⟨_, _, rfl, rfl⟩, by decide⟩

end ProtocolGuard

end Security
