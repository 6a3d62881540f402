import AgentContext.Activity.Order
import AgentContext.Lib.Provenance

/-!
# Agent, Git and portfolio projectors

What each event writes, statement by statement.  A projector locks the nodes of the event first, which merges them.

    agent.session.*, agent.turn.*, agent.tool_call.*    Session, Turn, ToolCall    (Session)-[:TARGETED]->(Checkout),
                                                        (Session)-[:HAS_TURN]->(Turn)-[:INVOKED]->(ToolCall)
    git.checkout.observed, git.commit.observed,         Checkout, Branch, Commit, WorkspaceSnapshot and what they
    git.workspace_snapshot.captured                     belong to
    git.repository.observed and the contexts            Workspace, Project, Repository
-/

namespace Activity

open Properties (Clause)
open Provenance (Link)

/-! ## Values -/

inductive Value where
  | text (s : String)
  | time (t : DateTime)
  | number (n : Int)
  | flag (b : Bool)
  | texts (l : List String)
deriving DecidableEq

/-- `<`, which is null between values of two kinds.  Only texts and times are compared. -/
def Value.less : Value → Value → Bool
  | .text a, .text b => a < b
  | .time a, .time b => a < b
  | _, _ => false

/-- `STATUS_RANKS`, and `_CURRENT_STATUS_RANK` of a stored status. -/
def statusRank : Option Value → Int
  | some (.text "started") => 0
  | some (.text "stopped") => 1
  | some (.text "output_observed") => 1
  | some (.text "completed") => 2
  | some (.text "ended") => 2
  | _ => -1

/-! ## Statements -/

inductive Label where
  | session
  | turn
  | toolCall
  | checkout
  | repository
  | commit
  | branch
  | workspaceSnapshot
  | workspace
  | project
deriving DecidableEq, Repr

structure Node where
  label : Label
  id : String
deriving DecidableEq, Repr

abbrev Write : Type := Provenance.Write Node String String Value String

abbrev Graph : Type := Provenance.Graph Node String String Value String

/-- `min_non_null`. -/
def minNonNull (props : List (String × Option Value)) : List (Clause String Value) :=
  props.map fun prop => .least prop.1 prop.2

/-- `newest_wins`. -/
def newestWins (group order : String) (props : List (String × Option Value)) : List (Clause String Value) :=
  [.newest (group ++ "_order") (.text order) props]

/-- `advance_status`. -/
def advanceStatus (status : String) : List (Clause String Value) := [.raise "status" (.text status)]

/-! ## Events -/

structure SessionStarted where
  sessionId : String
  startReason : Option String
  model : Option String
  permissionMode : Option String
  sandboxMode : Option String
deriving DecidableEq

structure SessionEnded where
  sessionId : String
  endReason : Option String
  durationMs : Option Int
deriving DecidableEq

structure TurnStarted where
  sessionId : String
  turnId : String
  userMessageContentId : Option String
  model : Option String
  permissionMode : Option String
  sandboxMode : Option String
deriving DecidableEq

structure TurnStopped where
  sessionId : String
  turnId : String
  stopHookActive : Option Bool
  assistantMessageContentId : Option String
deriving DecidableEq

structure TurnCompleted where
  sessionId : String
  turnId : String
  success : Option Bool
  errorClass : Option String
  durationMs : Option Int
  assistantMessageContentId : Option String
deriving DecidableEq

structure ToolCallStarted where
  sessionId : String
  turnId : String
  toolCallId : String
  toolName : Option String
  inputContentId : Option String
deriving DecidableEq

structure ToolCallOutputObserved where
  sessionId : String
  turnId : String
  toolCallId : String
  toolName : Option String
  inputContentId : Option String
  outputContentId : Option String
deriving DecidableEq

structure ToolCallCompleted where
  sessionId : String
  turnId : String
  toolCallId : String
  toolName : Option String
  inputContentId : Option String
  outputContentId : Option String
  success : Option Bool
  errorClass : Option String
  durationMs : Option Int
deriving DecidableEq

structure CheckoutObserved where
  checkoutId : String
  repositoryId : String
  objectFormat : Option String
  headCommit : Option String
  branch : Option String
  detached : Option Bool
deriving DecidableEq

structure CommitObserved where
  repositoryId : String
  commitId : String
  treeId : Option String
  authoredAt : Option DateTime
  committedAt : Option DateTime
  messageContentId : Option String
  parentCommitIds : List String
deriving DecidableEq

structure WorkspaceSnapshotCaptured where
  snapshotId : String
  repositoryId : String
  checkoutId : String
  baseCommit : Option String
  dirtyPatchSha256 : Option String
  modifiedContentSha256 : List String
  untrackedPaths : List String
deriving DecidableEq

structure RepositoryObserved where
  repositoryId : String
  objectFormat : Option String
  remoteIdentities : List String
deriving DecidableEq

inductive Payload where
  | sessionStarted (payload : SessionStarted)
  | sessionEnded (payload : SessionEnded)
  | turnStarted (payload : TurnStarted)
  | turnStopped (payload : TurnStopped)
  | turnCompleted (payload : TurnCompleted)
  | toolCallStarted (payload : ToolCallStarted)
  | toolCallOutputObserved (payload : ToolCallOutputObserved)
  | toolCallCompleted (payload : ToolCallCompleted)
  | checkoutObserved (payload : CheckoutObserved)
  | commitObserved (payload : CommitObserved)
  | snapshotCaptured (payload : WorkspaceSnapshotCaptured)
  | repositoryObserved (payload : RepositoryObserved)
deriving DecidableEq

structure Context where
  workspaceId : Option String
  projectId : Option String
  repositoryId : Option String
  checkoutId : Option String
  sessionId : Option String
deriving DecidableEq, Repr

structure Event where
  eventId : String
  occurredAt : DateTime
  context : Context
  payload : Payload
deriving DecidableEq

def Event.order (event : Event) : String := eventOrder event.occurredAt event.eventId

/-! ## Identities -/

/-- An id made of two, with the length of the first. -/
def pairId (kind first second : String) : String :=
  kind ++ ":" ++ toString first.length ++ ":" ++ first ++ ":" ++ second

def turnNodeId (sessionId turnId : String) : String := pairId "turn" sessionId turnId

def toolCallNodeId (sessionId toolCallId : String) : String := pairId "tool_call" sessionId toolCallId

def commitNodeId (repositoryId oid : String) : String := pairId "commit" repositoryId oid

def branchNodeId (repositoryId name : String) : String := pairId "branch" repositoryId name

/-! ## Agent -/

section Agent

variable (event : Event)

/-- `assert_link`. -/
def assertLink (source : Node) (type : String) (target : Node) : Write := .link ⟨source, type, target⟩ event.eventId

def targetCheckout (sessionId : String) : List Write :=
  match event.context.checkoutId with
  | none => []
  | some checkoutId => [assertLink event ⟨.session, sessionId⟩ "TARGETED" ⟨.checkout, checkoutId⟩]

def hasTurn (sessionId turnId : String) : List Write :=
  [assertLink event ⟨.session, sessionId⟩ "HAS_TURN" ⟨.turn, turnNodeId sessionId turnId⟩]

def invoked (sessionId turnId toolCallId : String) : List Write :=
  [assertLink event ⟨.turn, turnNodeId sessionId turnId⟩ "INVOKED" ⟨.toolCall, toolCallNodeId sessionId toolCallId⟩]

def sessionStarted (payload : SessionStarted) : List Write :=
  .node ⟨.session, payload.sessionId⟩
    (minNonNull [("started_at", some (.time event.occurredAt)), ("start_reason", payload.startReason.map .text),
      ("model", payload.model.map .text), ("permission_mode", payload.permissionMode.map .text),
      ("sandbox_mode", payload.sandboxMode.map .text)] ++ advanceStatus "started") ::
  targetCheckout event payload.sessionId

def sessionEnded (payload : SessionEnded) : List Write :=
  .node ⟨.session, payload.sessionId⟩
    (newestWins "ended" event.order [("ended_at", some (.time event.occurredAt)),
      ("end_reason", payload.endReason.map .text), ("duration_ms", payload.durationMs.map .number)] ++
      advanceStatus "ended") ::
  targetCheckout event payload.sessionId

def turnStarted (payload : TurnStarted) : List Write :=
  .node ⟨.turn, turnNodeId payload.sessionId payload.turnId⟩
    (minNonNull [("session_id", some (.text payload.sessionId)), ("started_at", some (.time event.occurredAt)),
      ("user_message_content_id", payload.userMessageContentId.map .text), ("model", payload.model.map .text),
      ("permission_mode", payload.permissionMode.map .text), ("sandbox_mode", payload.sandboxMode.map .text)] ++
      advanceStatus "started") ::
  hasTurn event payload.sessionId payload.turnId

def turnStopped (payload : TurnStopped) : List Write :=
  .node ⟨.turn, turnNodeId payload.sessionId payload.turnId⟩
    (minNonNull [("session_id", some (.text payload.sessionId))] ++
      newestWins "stopped" event.order [("stopped_at", some (.time event.occurredAt)),
        ("stop_hook_active", payload.stopHookActive.map .flag),
        ("stopped_message_content_id", payload.assistantMessageContentId.map .text)] ++
      advanceStatus "stopped") ::
  hasTurn event payload.sessionId payload.turnId

def turnCompleted (payload : TurnCompleted) : List Write :=
  .node ⟨.turn, turnNodeId payload.sessionId payload.turnId⟩
    (minNonNull [("session_id", some (.text payload.sessionId))] ++
      newestWins "completed" event.order [("completed_at", some (.time event.occurredAt)),
        ("success", payload.success.map .flag), ("error_class", payload.errorClass.map .text),
        ("duration_ms", payload.durationMs.map .number),
        ("assistant_message_content_id", payload.assistantMessageContentId.map .text)] ++
      advanceStatus "completed") ::
  hasTurn event payload.sessionId payload.turnId

def toolCallStarted (payload : ToolCallStarted) : List Write :=
  .node ⟨.toolCall, toolCallNodeId payload.sessionId payload.toolCallId⟩
    (minNonNull [("session_id", some (.text payload.sessionId)),
      ("turn_id", some (.text (turnNodeId payload.sessionId payload.turnId))), ("tool_name", payload.toolName.map .text),
      ("input_content_id", payload.inputContentId.map .text), ("started_at", some (.time event.occurredAt))] ++
      advanceStatus "started") ::
  invoked event payload.sessionId payload.turnId payload.toolCallId

def toolCallOutputObserved (payload : ToolCallOutputObserved) : List Write :=
  .node ⟨.toolCall, toolCallNodeId payload.sessionId payload.toolCallId⟩
    (minNonNull [("session_id", some (.text payload.sessionId)),
      ("turn_id", some (.text (turnNodeId payload.sessionId payload.turnId))), ("tool_name", payload.toolName.map .text),
      ("input_content_id", payload.inputContentId.map .text), ("output_content_id", payload.outputContentId.map .text),
      ("output_observed_at", some (.time event.occurredAt))] ++
      advanceStatus "output_observed") ::
  invoked event payload.sessionId payload.turnId payload.toolCallId

def toolCallCompleted (payload : ToolCallCompleted) : List Write :=
  .node ⟨.toolCall, toolCallNodeId payload.sessionId payload.toolCallId⟩
    (minNonNull [("session_id", some (.text payload.sessionId)),
      ("turn_id", some (.text (turnNodeId payload.sessionId payload.turnId))), ("tool_name", payload.toolName.map .text),
      ("input_content_id", payload.inputContentId.map .text),
      ("output_content_id", payload.outputContentId.map .text)] ++
      newestWins "completed" event.order [("completed_at", some (.time event.occurredAt)),
        ("success", payload.success.map .flag), ("error_class", payload.errorClass.map .text),
        ("duration_ms", payload.durationMs.map .number)] ++
      advanceStatus "completed") ::
  invoked event payload.sessionId payload.turnId payload.toolCallId

end Agent

/-! ## Git -/

section Git

variable (event : Event)

/-- `_stub_commit`, and the node of the commit. -/
def stubCommit (repositoryId oid : String) : List Write :=
  [.node ⟨.commit, commitNodeId repositoryId oid⟩
      (minNonNull [("repository_id", some (.text repositoryId)), ("oid", some (.text oid))]),
    assertLink event ⟨.commit, commitNodeId repositoryId oid⟩ "IN_REPOSITORY" ⟨.repository, repositoryId⟩]

def checkoutObserved (payload : CheckoutObserved) : List Write :=
  [.node ⟨.checkout, payload.checkoutId⟩
      (minNonNull [("repository_id", some (.text payload.repositoryId)), ("object_format", payload.objectFormat.map .text)] ++
        newestWins "head" event.order [("head_commit", payload.headCommit.map .text), ("branch", payload.branch.map .text),
          ("detached", payload.detached.map .flag)]),
    assertLink event ⟨.checkout, payload.checkoutId⟩ "IN_REPOSITORY" ⟨.repository, payload.repositoryId⟩] ++
  (match payload.branch with
    | none => []
    | some name =>
      [.node ⟨.branch, branchNodeId payload.repositoryId name⟩
          (minNonNull [("repository_id", some (.text payload.repositoryId)), ("name", some (.text name))]),
        assertLink event ⟨.branch, branchNodeId payload.repositoryId name⟩ "IN_REPOSITORY"
          ⟨.repository, payload.repositoryId⟩,
        assertLink event ⟨.checkout, payload.checkoutId⟩ "OBSERVED_ON"
          ⟨.branch, branchNodeId payload.repositoryId name⟩]) ++
  match payload.headCommit with
  | none => []
  | some oid =>
    stubCommit event payload.repositoryId oid ++
      [assertLink event ⟨.checkout, payload.checkoutId⟩ "OBSERVED_AT" ⟨.commit, commitNodeId payload.repositoryId oid⟩]

/-- `_SESSION_PRODUCED_COMMIT` and `_SESSION_PRODUCED_SNAPSHOT`. -/
def produced (target : Node) : List Write :=
  match event.context.sessionId with
  | none => []
  | some sessionId => [assertLink event ⟨.session, sessionId⟩ "PRODUCED" target]

def commitObserved (payload : CommitObserved) : List Write :=
  let commit : Node := ⟨.commit, commitNodeId payload.repositoryId payload.commitId⟩
  [.node commit
      (minNonNull [("repository_id", some (.text payload.repositoryId)), ("oid", some (.text payload.commitId)),
        ("tree_id", payload.treeId.map .text), ("authored_at", payload.authoredAt.map .time),
        ("committed_at", payload.committedAt.map .time), ("message_content_id", payload.messageContentId.map .text)]),
    assertLink event commit "IN_REPOSITORY" ⟨.repository, payload.repositoryId⟩] ++
  (payload.parentCommitIds.flatMap fun oid =>
    stubCommit event payload.repositoryId oid ++
      [assertLink event commit "HAS_PARENT" ⟨.commit, commitNodeId payload.repositoryId oid⟩]) ++
  produced event commit

def snapshotCaptured (payload : WorkspaceSnapshotCaptured) : List Write :=
  let snapshot : Node := ⟨.workspaceSnapshot, payload.snapshotId⟩
  [.node snapshot
      (minNonNull [("repository_id", some (.text payload.repositoryId)), ("checkout_id", some (.text payload.checkoutId)),
        ("base_commit", payload.baseCommit.map .text), ("dirty_patch_sha256", payload.dirtyPatchSha256.map .text)] ++
        newestWins "collections" event.order
          [("modified_content_sha256", some (.texts (payload.modifiedContentSha256.insertionSort (· ≤ ·)))),
            ("untracked_paths", some (.texts (payload.untrackedPaths.insertionSort (· ≤ ·))))]),
    assertLink event ⟨.checkout, payload.checkoutId⟩ "HAS_SNAPSHOT" snapshot] ++
  (match payload.baseCommit with
    | none => []
    | some oid =>
      stubCommit event payload.repositoryId oid ++
        [assertLink event snapshot "BASED_ON" ⟨.commit, commitNodeId payload.repositoryId oid⟩]) ++
  produced event snapshot

end Git

/-! ## Portfolio -/

section Portfolio

variable (event : Event)

/-- `event.payload.get("repository_id")`. -/
def Payload.repositoryId : Payload → Option String
  | .checkoutObserved payload => some payload.repositoryId
  | .commitObserved payload => some payload.repositoryId
  | .snapshotCaptured payload => some payload.repositoryId
  | .repositoryObserved payload => some payload.repositoryId
  | _ => none

/-- `_repositories`. -/
def repositories : List String :=
  Keyset.sortedSet (event.context.repositoryId.toList ++ event.payload.repositoryId.toList)

/-- `_LINKING_TYPES`. -/
def Payload.links : Payload → Bool
  | .repositoryObserved _ | .checkoutObserved _ | .sessionStarted _ | .sessionEnded _ => true
  | _ => false

def repositoryObserved : Payload → List Write
  | .repositoryObserved payload =>
    [.node ⟨.repository, payload.repositoryId⟩
      (minNonNull [("object_format", payload.objectFormat.map .text)] ++
        newestWins "remotes" event.order [("remote_identities", some (.texts payload.remoteIdentities))])]
  | _ => []

def portfolioProject : List Write :=
  (event.context.workspaceId.toList.map fun id => .node ⟨.workspace, id⟩ []) ++
  (event.context.projectId.toList.map fun id => .node ⟨.project, id⟩ []) ++
  ((repositories event).map fun id => .node ⟨.repository, id⟩ []) ++
  repositoryObserved event event.payload ++
  (match event.payload.links, event.context.workspaceId, event.context.projectId with
    | true, some workspaceId, some projectId =>
      [assertLink event ⟨.workspace, workspaceId⟩ "HAS_PROJECT" ⟨.project, projectId⟩]
    | _, _, _ => []) ++
  match event.payload.links, event.context.projectId with
  | true, some projectId =>
    (repositories event).map fun id => assertLink event ⟨.project, projectId⟩ "USES_REPOSITORY" ⟨.repository, id⟩
  | _, _ => []

end Portfolio

/-! ## Projection -/

section Project

variable (event : Event)

/-- `agent.lock_keys`. -/
def agentLockKeys : Payload → List Node
  | .sessionStarted payload =>
    ⟨.session, payload.sessionId⟩ :: event.context.checkoutId.toList.map fun id => ⟨.checkout, id⟩
  | .sessionEnded payload =>
    ⟨.session, payload.sessionId⟩ :: event.context.checkoutId.toList.map fun id => ⟨.checkout, id⟩
  | .turnStarted payload => [⟨.session, payload.sessionId⟩, ⟨.turn, turnNodeId payload.sessionId payload.turnId⟩]
  | .turnStopped payload => [⟨.session, payload.sessionId⟩, ⟨.turn, turnNodeId payload.sessionId payload.turnId⟩]
  | .turnCompleted payload => [⟨.session, payload.sessionId⟩, ⟨.turn, turnNodeId payload.sessionId payload.turnId⟩]
  | .toolCallStarted payload =>
    [⟨.turn, turnNodeId payload.sessionId payload.turnId⟩,
      ⟨.toolCall, toolCallNodeId payload.sessionId payload.toolCallId⟩]
  | .toolCallOutputObserved payload =>
    [⟨.turn, turnNodeId payload.sessionId payload.turnId⟩,
      ⟨.toolCall, toolCallNodeId payload.sessionId payload.toolCallId⟩]
  | .toolCallCompleted payload =>
    [⟨.turn, turnNodeId payload.sessionId payload.turnId⟩,
      ⟨.toolCall, toolCallNodeId payload.sessionId payload.toolCallId⟩]
  | _ => []

/-- `git.lock_keys`: any event of a session but an observed checkout locks the session. -/
def gitLockKeys (payload : Payload) : List Node :=
  match payload with
  | .checkoutObserved payload =>
    [⟨.checkout, payload.checkoutId⟩, ⟨.repository, payload.repositoryId⟩] ++
      (payload.branch.toList.map fun name => ⟨.branch, branchNodeId payload.repositoryId name⟩) ++
      payload.headCommit.toList.map fun oid => ⟨.commit, commitNodeId payload.repositoryId oid⟩
  | .commitObserved payload =>
    (event.context.sessionId.toList.map fun id => ⟨.session, id⟩) ++
      [⟨.commit, commitNodeId payload.repositoryId payload.commitId⟩, ⟨.repository, payload.repositoryId⟩] ++
      payload.parentCommitIds.map fun oid => ⟨.commit, commitNodeId payload.repositoryId oid⟩
  | .snapshotCaptured payload =>
    (event.context.sessionId.toList.map fun id => ⟨.session, id⟩) ++
      [⟨.workspaceSnapshot, payload.snapshotId⟩, ⟨.checkout, payload.checkoutId⟩, ⟨.repository, payload.repositoryId⟩] ++
      payload.baseCommit.toList.map fun oid => ⟨.commit, commitNodeId payload.repositoryId oid⟩
  | _ => []

/-- `portfolio.lock_keys`. -/
def portfolioLockKeys : List Node :=
  ((repositories event).map fun id => ⟨.repository, id⟩) ++
    (event.context.workspaceId.toList.map fun id => ⟨.workspace, id⟩) ++
    event.context.projectId.toList.map fun id => ⟨.project, id⟩

/-- `lock_event_nodes`: a lock merges its node.  Their order matters to other workers only. -/
def lockEventNodes : List Write :=
  (agentLockKeys event event.payload ++ gitLockKeys event event.payload ++ portfolioLockKeys event).dedup.map
    fun node => .node node []

inductive Projector where
  | agent
  | git
  | portfolio
deriving DecidableEq, Repr

/-- `project`, of a projector that handles the event. -/
def Projector.project (projector : Projector) : List Write :=
  match projector, event.payload with
  | .agent, .sessionStarted payload => lockEventNodes event ++ sessionStarted event payload
  | .agent, .sessionEnded payload => lockEventNodes event ++ sessionEnded event payload
  | .agent, .turnStarted payload => lockEventNodes event ++ turnStarted event payload
  | .agent, .turnStopped payload => lockEventNodes event ++ turnStopped event payload
  | .agent, .turnCompleted payload => lockEventNodes event ++ turnCompleted event payload
  | .agent, .toolCallStarted payload => lockEventNodes event ++ toolCallStarted event payload
  | .agent, .toolCallOutputObserved payload => lockEventNodes event ++ toolCallOutputObserved event payload
  | .agent, .toolCallCompleted payload => lockEventNodes event ++ toolCallCompleted event payload
  | .git, .checkoutObserved payload => lockEventNodes event ++ checkoutObserved event payload
  | .git, .commitObserved payload => lockEventNodes event ++ commitObserved event payload
  | .git, .snapshotCaptured payload => lockEventNodes event ++ snapshotCaptured event payload
  | .portfolio, _ => lockEventNodes event ++ portfolioProject event
  | _, _ => []

/-- What the registered projectors write for an event, in their order. -/
def statements (registered : List Projector) : List Write := registered.flatMap fun projector => projector.project event

end Project

def deliver (registered : List Projector) (events : List Event) : Graph :=
  events.foldl (fun graph event => graph.writeAll Value.less statusRank (statements event registered)) Provenance.Graph.empty

theorem deliver_eq (registered : List Projector) (events : List Event) : deliver registered events =
      Provenance.Graph.empty.writeAll Value.less statusRank (events.flatMap fun event => statements event registered) := by
  unfold deliver Provenance.Graph.writeAll
  rw [List.foldl_flatMap]

end Activity
