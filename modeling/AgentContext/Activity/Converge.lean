import AgentContext.Activity.Projectors

/-!
# Agent and Git activity converges

Every property of a label has one role, in every statement that sets it:

    leastProps    times, models, content ids     the least value stated
    groups        head, ended, completed, …      the values of the greatest event that states the group
    statuses      status                         the status of the highest rank

so a delivery leaves what its set of events says, in whatever order and however often they come
(`activity_converges`).
-/

namespace Activity

open Properties Provenance Keyset List

/-! ## The layout -/

inductive Kind where
  | text
  | time
deriving DecidableEq, Repr

def Kind.Of : Kind → Value → Prop
  | .text, v => ∃ s, v = .text s
  | .time, v => ∃ t, v = .time t

/-- The properties that `min_non_null` sets. -/
def leastProps : Label → List (String × Kind)
  | .session =>
    [("started_at", .time), ("start_reason", .text), ("model", .text), ("permission_mode", .text), ("sandbox_mode", .text)]
  | .turn =>
    [("session_id", .text), ("started_at", .time), ("user_message_content_id", .text), ("model", .text),
      ("permission_mode", .text), ("sandbox_mode", .text)]
  | .toolCall =>
    [("session_id", .text), ("turn_id", .text), ("tool_name", .text), ("input_content_id", .text),
      ("output_content_id", .text), ("started_at", .time), ("output_observed_at", .time)]
  | .checkout => [("repository_id", .text), ("object_format", .text)]
  | .repository => [("object_format", .text)]
  | .commit =>
    [("repository_id", .text), ("oid", .text), ("tree_id", .text), ("authored_at", .time), ("committed_at", .time),
      ("message_content_id", .text)]
  | .branch => [("repository_id", .text), ("name", .text)]
  | .workspaceSnapshot =>
    [("repository_id", .text), ("checkout_id", .text), ("base_commit", .text), ("dirty_patch_sha256", .text)]
  | .workspace => []
  | .project => []

/-- The groups that `newest_wins` moves. -/
def groups : Label → List (String × List String)
  | .session => [("ended", ["ended_at", "end_reason", "duration_ms"])]
  | .turn =>
    [("stopped", ["stopped_at", "stop_hook_active", "stopped_message_content_id"]),
      ("completed", ["completed_at", "success", "error_class", "duration_ms", "assistant_message_content_id"])]
  | .toolCall => [("completed", ["completed_at", "success", "error_class", "duration_ms"])]
  | .checkout => [("head", ["head_commit", "branch", "detached"])]
  | .repository => [("remotes", ["remote_identities"])]
  | .workspaceSnapshot => [("collections", ["modified_content_sha256", "untracked_paths"])]
  | _ => []

/-- The statuses that `advance_status` sets. -/
def statuses : Label → List String
  | .session => ["started", "ended"]
  | .turn => ["started", "stopped", "completed"]
  | .toolCall => ["started", "output_observed", "completed"]
  | _ => []

def role (label : Label) (p : String) : Role String :=
  if p = "status" then .ranked
  else
    match (groups label).find? fun group => p ∈ group.2 with
    | some group => .member (group.1 ++ "_order")
    | none => if (groups label).any fun group => group.1 ++ "_order" = p then .stamp else .least

/-- The properties of the group of a stamp. -/
def members (label : Label) (stamp : String) : List String :=
  ((groups label).find? fun group => group.1 ++ "_order" = stamp).elim [] (·.2)

def domain (label : Label) (p : String) (v : Value) : Prop :=
  match role label p with
  | .least => ∃ kind ∈ (leastProps label).lookup p, kind.Of v
  | .stamp => ∃ s, v = .text s
  | .ranked => ∃ s ∈ statuses label, v = .text s
  | .member _ => False

theorem members_find {label : Label} {stamp : String} {p : String} (h : p ∈ members label stamp) :
    ∃ group ∈ groups label, group.1 ++ "_order" = stamp ∧ members label stamp = group.2 := by
  unfold members at h ⊢
  cases hfind : (groups label).find? fun group => group.1 ++ "_order" = stamp with
  | none =>
    rw [hfind] at h
    cases h
  | some group => exact ⟨group, List.mem_of_find?_eq_some hfind, by simpa using List.find?_some hfind, rfl⟩

theorem groups_apart : ∀ label, ∀ group ∈ groups label, group.2.Nodup ∧ role label (group.1 ++ "_order") = .stamp ∧
    members label (group.1 ++ "_order") = group.2 ∧ ∀ p ∈ group.2, role label p = .member (group.1 ++ "_order") := by
  intro label
  cases label <;> decide +kernel

def layout (label : Label) : Layout String Value where
  role := role label
  names := members label
  domain := domain label
  nodup := fun stamp => by
    by_contra hdup
    have hne : members label stamp ≠ [] := fun hnil => hdup (hnil ▸ List.nodup_nil)
    obtain ⟨p, hp⟩ := List.exists_mem_of_ne_nil _ hne
    obtain ⟨group, hgroup, -, hmembers⟩ := members_find hp
    exact hdup (hmembers ▸ (groups_apart label group hgroup).1)
  member := fun stamp p hp => by
    obtain ⟨group, hgroup, rfl, hmembers⟩ := members_find hp
    exact (groups_apart label group hgroup).2.2.2 p (hmembers ▸ hp)
  stamped := fun p stamp h => by
    unfold role at h
    split at h
    · cases h
    · split at h
      · rename_i group hfind
        cases h
        exact (groups_apart label group (List.mem_of_find?_eq_some hfind)).2.1
      · split at h <;> cases h

/-! ## The orders -/

theorem ordered_text : Ordered Value.less fun v => ∃ s, v = .text s where
  irrefl := by
    rintro _ ⟨a, rfl⟩
    simp [Value.less]
  trans := by
    rintro _ _ _ ⟨a, rfl⟩ ⟨b, rfl⟩ ⟨c, rfl⟩ hab hbc
    simp only [Value.less, decide_eq_true_eq] at hab hbc ⊢
    exact lt_trans hab hbc
  total := by
    rintro _ _ ⟨a, rfl⟩ ⟨b, rfl⟩ hab hba
    simp only [Value.less, decide_eq_false_iff_not] at hab hba
    exact congrArg Value.text (le_antisymm (not_lt.1 hba) (not_lt.1 hab))

theorem ordered_time : Ordered Value.less fun v => ∃ t, v = .time t where
  irrefl := by
    rintro _ ⟨a, rfl⟩
    simp [Value.less]
  trans := by
    rintro _ _ _ ⟨a, rfl⟩ ⟨b, rfl⟩ ⟨c, rfl⟩ hab hbc
    simp only [Value.less, decide_eq_true_eq] at hab hbc ⊢
    exact lt_trans hab hbc
  total := by
    rintro _ _ ⟨a, rfl⟩ ⟨b, rfl⟩ hab hba
    simp only [Value.less, decide_eq_false_iff_not] at hab hba
    exact congrArg Value.time (le_antisymm (not_lt.1 hba) (not_lt.1 hab))

theorem ordered_kind : ∀ kind : Kind, Ordered Value.less kind.Of
  | .text => ordered_text
  | .time => ordered_time

theorem statuses_ranked : ∀ label, ∀ s ∈ statuses label, statusRank none < statusRank (some (.text s)) ∧
    ∀ t ∈ statuses label, statusRank (some (.text s)) = statusRank (some (.text t)) → s = t := by
  intro label
  cases label <;> decide +kernel

theorem layout_lawful (label : Label) : (layout label).Lawful Value.less statusRank where
  least := fun p hp => by
    have hdomain : ∀ v, domain label p v → ∃ kind ∈ (leastProps label).lookup p, kind.Of v := fun v hv => by
      unfold domain at hv
      rw [show role label p = .least from hp] at hv
      exact hv
    cases hkind : (leastProps label).lookup p with
    | none =>
      refine Ordered.of_imp ordered_text fun v hv => ?_
      obtain ⟨kind, hmem, -⟩ := hdomain v hv
      rw [hkind] at hmem
      cases hmem
    | some kind =>
      refine Ordered.of_imp (ordered_kind kind) fun v hv => ?_
      obtain ⟨kind', hmem, hof⟩ := hdomain v hv
      rw [hkind] at hmem
      cases hmem
      exact hof
  stamp := fun p hp => Ordered.of_imp ordered_text fun v hv => by
    have hv' : domain label p v := hv
    unfold domain at hv'
    rw [show role label p = .stamp from hp] at hv'
    exact hv'
  ranked := fun p hp => by
    have hdomain : ∀ v, domain label p v → ∃ s ∈ statuses label, v = .text s := fun v hv => by
      unfold domain at hv
      rw [show role label p = .ranked from hp] at hv
      exact hv
    refine ⟨fun v hv => ?_, fun u v hu hv heq => ?_⟩
    · obtain ⟨s, hs, rfl⟩ := hdomain v hv
      exact (statuses_ranked label s hs).1
    · obtain ⟨s, hs, rfl⟩ := hdomain u hu
      obtain ⟨t, ht, rfl⟩ := hdomain v hv
      exact congrArg Value.text ((statuses_ranked label s hs).2 t ht heq)

/-! ## Statements -/

/-- A clause of an event keeps to the layout; the event states one group only, under its own order. -/
def Sound (event : Event) (values : List (String × Option Value)) (label : Label) (c : Clause String Value) : Prop :=
  (layout label).Fits c ∧ ∀ stamp order values', c = .newest stamp order values' →
    order = .text event.order ∧ values' = values

def SoundWrite (event : Event) (values : List (String × Option Value)) : Write → Prop
  | .node node clauses => ∀ c ∈ clauses, Sound event values node.label c
  | .link _ source => source = event.eventId

/-- The least properties of a statement. -/
def Stated (label : Label) (props : List (String × Option Value)) : Prop :=
  ∀ prop ∈ props, ∃ kind, (prop.1, kind) ∈ leastProps label ∧ ∀ v ∈ prop.2, kind.Of v

theorem leastProps_role : ∀ label, ∀ prop ∈ leastProps label, role label prop.1 = .least ∧
    (leastProps label).lookup prop.1 = some prop.2 := by
  intro label
  cases label <;> decide +kernel

variable {event : Event} {values : List (String × Option Value)} {label : Label}
variable {writes : List Write} {c : Clause String Value}

theorem sound_minNonNull {props : List (String × Option Value)} (h : Stated label props) :
    ∀ c ∈ minNonNull props, Sound event values label c := by
  intro c hc
  obtain ⟨prop, hprop, rfl⟩ := mem_map.1 hc
  obtain ⟨kind, hmem, hof⟩ := h prop hprop
  obtain ⟨hrole, hlookup⟩ := leastProps_role label _ hmem
  refine ⟨⟨hrole, fun v hv => ?_⟩, nofun⟩
  show domain label prop.1 v
  unfold domain
  rw [hrole]
  exact ⟨kind, hlookup, hof v hv⟩

theorem sound_newestWins {group : String} (hgroup : (group, values.map (·.1)) ∈ groups label) :
    ∀ c ∈ newestWins group event.order values, Sound event values label c := by
  intro c hc
  obtain ⟨-, hstamp, hmembers, -⟩ := groups_apart label _ hgroup
  rw [mem_singleton.1 hc]
  refine ⟨⟨hstamp, ?_, hmembers.symm⟩, fun stamp order values' heq => ?_⟩
  · show domain label (group ++ "_order") _
    unfold domain
    rw [hstamp]
    exact ⟨_, rfl⟩
  · simp only [Clause.newest.injEq] at heq
    exact ⟨heq.2.1.symm, heq.2.2.symm⟩

theorem sound_advanceStatus {status : String} (h : status ∈ statuses label) :
    ∀ c ∈ advanceStatus status, Sound event values label c := by
  intro c hc
  rw [mem_singleton.1 hc]
  exact ⟨⟨rfl, status, h, rfl⟩, nofun⟩

theorem sound_append {clauses clauses' : List (Clause String Value)} (h : ∀ c ∈ clauses, Sound event values label c)
    (h' : ∀ c ∈ clauses', Sound event values label c) : ∀ c ∈ clauses ++ clauses', Sound event values label c := fun c hc =>
  (mem_append.1 hc).elim (h c) (h' c)

/-! ## Handlers -/

theorem sound_assertLink (source : Node) (type : String) (target : Node) :
    SoundWrite event values (assertLink event source type target) := rfl

theorem sound_targetCheckout (sessionId : String) : ∀ w ∈ targetCheckout event sessionId, SoundWrite event values w := by
  unfold targetCheckout
  split
  · exact forall_mem_nil _
  · exact forall_mem_singleton.2 (sound_assertLink ..)

theorem sound_hasTurn (sessionId turnId : String) : ∀ w ∈ hasTurn event sessionId turnId, SoundWrite event values w :=
  forall_mem_singleton.2 (sound_assertLink ..)

theorem sound_invoked (sessionId turnId toolCallId : String) :
    ∀ w ∈ invoked event sessionId turnId toolCallId, SoundWrite event values w :=
  forall_mem_singleton.2 (sound_assertLink ..)

theorem sound_produced (target : Node) : ∀ w ∈ produced event target, SoundWrite event values w := by
  unfold produced
  split
  · exact forall_mem_nil _
  · exact forall_mem_singleton.2 (sound_assertLink ..)

theorem sound_sessionStarted (payload : SessionStarted) :
    ∀ w ∈ sessionStarted event payload, SoundWrite event values w := by
  refine forall_mem_cons.2 ⟨sound_append (sound_minNonNull ?_) (sound_advanceStatus ?_), sound_targetCheckout payload.sessionId⟩
  · simp [Stated, leastProps, Kind.Of]
  · simp [statuses]

theorem sound_sessionEnded (payload : SessionEnded) :
    ∃ values, ∀ w ∈ sessionEnded event payload, SoundWrite event values w := by
  refine ⟨_, forall_mem_cons.2 ⟨sound_append (sound_newestWins ?_) (sound_advanceStatus ?_), sound_targetCheckout payload.sessionId⟩⟩
  · simp [groups]
  · simp [statuses]

theorem sound_turnStarted (payload : TurnStarted) : ∀ w ∈ turnStarted event payload, SoundWrite event values w := by
  refine forall_mem_cons.2 ⟨sound_append (sound_minNonNull ?_) (sound_advanceStatus ?_), sound_hasTurn payload.sessionId payload.turnId⟩
  · simp [Stated, leastProps, Kind.Of]
  · simp [statuses]

theorem sound_turnStopped (payload : TurnStopped) :
    ∃ values, ∀ w ∈ turnStopped event payload, SoundWrite event values w := by
  refine ⟨_, forall_mem_cons.2 ⟨sound_append (sound_append (sound_minNonNull ?_) (sound_newestWins ?_)) (sound_advanceStatus ?_), sound_hasTurn payload.sessionId payload.turnId⟩⟩
  · simp [Stated, leastProps, Kind.Of]
  · simp [groups]
  · simp [statuses]

theorem sound_turnCompleted (payload : TurnCompleted) :
    ∃ values, ∀ w ∈ turnCompleted event payload, SoundWrite event values w := by
  refine ⟨_, forall_mem_cons.2 ⟨sound_append (sound_append (sound_minNonNull ?_) (sound_newestWins ?_)) (sound_advanceStatus ?_), sound_hasTurn payload.sessionId payload.turnId⟩⟩
  · simp [Stated, leastProps, Kind.Of]
  · simp [groups]
  · simp [statuses]

theorem sound_toolCallStarted (payload : ToolCallStarted) :
    ∀ w ∈ toolCallStarted event payload, SoundWrite event values w := by
  refine forall_mem_cons.2 ⟨sound_append (sound_minNonNull ?_) (sound_advanceStatus ?_), sound_invoked payload.sessionId payload.turnId payload.toolCallId⟩
  · simp [Stated, leastProps, Kind.Of]
  · simp [statuses]

theorem sound_toolCallOutputObserved (payload : ToolCallOutputObserved) :
    ∀ w ∈ toolCallOutputObserved event payload, SoundWrite event values w := by
  refine forall_mem_cons.2 ⟨sound_append (sound_minNonNull ?_) (sound_advanceStatus ?_), sound_invoked payload.sessionId payload.turnId payload.toolCallId⟩
  · simp [Stated, leastProps, Kind.Of]
  · simp [statuses]

theorem sound_toolCallCompleted (payload : ToolCallCompleted) :
    ∃ values, ∀ w ∈ toolCallCompleted event payload, SoundWrite event values w := by
  refine ⟨_, forall_mem_cons.2 ⟨sound_append (sound_append (sound_minNonNull ?_) (sound_newestWins ?_)) (sound_advanceStatus ?_), sound_invoked payload.sessionId payload.turnId payload.toolCallId⟩⟩
  · simp [Stated, leastProps, Kind.Of]
  · simp [groups]
  · simp [statuses]

theorem sound_stubCommit (repositoryId oid : String) :
    ∀ w ∈ stubCommit event repositoryId oid, SoundWrite event values w := by
  refine forall_mem_cons.2 ⟨sound_minNonNull ?_, forall_mem_singleton.2 (sound_assertLink ..)⟩
  simp [Stated, leastProps, Kind.Of]

theorem sound_checkoutObserved (payload : CheckoutObserved) :
    ∃ values, ∀ w ∈ checkoutObserved event payload, SoundWrite event values w := by
  refine ⟨_, forall_mem_append.2 ⟨forall_mem_append.2 ⟨forall_mem_cons.2
    ⟨sound_append (sound_minNonNull ?_) (sound_newestWins ?_), forall_mem_singleton.2 (sound_assertLink ..)⟩, ?_⟩, ?_⟩⟩
  · simp [Stated, leastProps, Kind.Of]
  · simp [groups]
  · split
    · exact forall_mem_nil _
    · refine forall_mem_cons.2 ⟨sound_minNonNull ?_, forall_mem_cons.2 ⟨sound_assertLink .., forall_mem_singleton.2 (sound_assertLink ..)⟩⟩
      simp [Stated, leastProps, Kind.Of]
  · split
    · exact forall_mem_nil _
    · exact forall_mem_append.2 ⟨sound_stubCommit _ _, forall_mem_singleton.2 (sound_assertLink ..)⟩

theorem sound_commitObserved (payload : CommitObserved) :
    ∀ w ∈ commitObserved event payload, SoundWrite event values w := by
  refine forall_mem_append.2 ⟨forall_mem_append.2 ⟨forall_mem_cons.2 ⟨sound_minNonNull ?_,
    forall_mem_singleton.2 (sound_assertLink ..)⟩, fun w hw => ?_⟩, sound_produced _⟩
  · simp [Stated, leastProps, Kind.Of]
  · obtain ⟨oid, -, hw⟩ := mem_flatMap.1 hw
    exact (forall_mem_append.2 ⟨sound_stubCommit _ oid, forall_mem_singleton.2 (sound_assertLink ..)⟩) w hw

theorem sound_snapshotCaptured (payload : WorkspaceSnapshotCaptured) :
    ∃ values, ∀ w ∈ snapshotCaptured event payload, SoundWrite event values w := by
  refine ⟨_, forall_mem_append.2 ⟨forall_mem_append.2 ⟨forall_mem_cons.2
    ⟨sound_append (sound_minNonNull ?_) (sound_newestWins ?_), forall_mem_singleton.2 (sound_assertLink ..)⟩, ?_⟩, sound_produced _⟩⟩
  · simp [Stated, leastProps, Kind.Of]
  · simp [groups]
  · split
    · exact forall_mem_nil _
    · exact forall_mem_append.2 ⟨sound_stubCommit _ _, forall_mem_singleton.2 (sound_assertLink ..)⟩

theorem sound_repositoryObserved (payload : Payload) :
    ∃ values, ∀ w ∈ repositoryObserved event payload, SoundWrite event values w := by
  cases payload with
  | repositoryObserved payload =>
    refine ⟨_, forall_mem_singleton.2 (sound_append (sound_minNonNull ?_) (sound_newestWins ?_))⟩
    · simp [Stated, leastProps, Kind.Of]
    · simp [groups]
  | _ => exact ⟨[], forall_mem_nil _⟩

theorem sound_portfolioProject (h : ∀ w ∈ repositoryObserved event event.payload, SoundWrite event values w) :
    ∀ w ∈ portfolioProject event, SoundWrite event values w := by
  have hbare : ∀ (label : Label) (ids : List String), ∀ w ∈ ids.map fun id => (.node ⟨label, id⟩ [] : Write),
      SoundWrite event values w := fun label ids w hw => by
    obtain ⟨id, -, rfl⟩ := mem_map.1 hw
    exact forall_mem_nil _
  unfold portfolioProject
  refine forall_mem_append.2 ⟨forall_mem_append.2 ⟨forall_mem_append.2 ⟨forall_mem_append.2
    ⟨forall_mem_append.2 ⟨hbare _ _, hbare _ _⟩, hbare _ _⟩, h⟩, ?_⟩, ?_⟩
  · split
    · exact forall_mem_singleton.2 (sound_assertLink ..)
    · exact forall_mem_nil _
  · split
    · intro w hw
      obtain ⟨id, -, rfl⟩ := mem_map.1 hw
      rfl
    · exact forall_mem_nil _

/-! ## Events -/

theorem sound_locked (h : ∀ w ∈ writes, SoundWrite event values w) :
    ∀ w ∈ lockEventNodes event ++ writes, SoundWrite event values w := by
  refine forall_mem_append.2 ⟨fun w hw => ?_, h⟩
  obtain ⟨node, -, rfl⟩ := mem_map.1 hw
  exact forall_mem_nil _

/-- What every projector writes, from what the handler of the event and the portfolio write. -/
theorem sound_projectors (hwrites : ∀ w ∈ writes, SoundWrite event values w)
    (hrepository : ∀ w ∈ repositoryObserved event event.payload, SoundWrite event values w)
    (hagent : Projector.project event .agent = [] ∨ Projector.project event .agent = lockEventNodes event ++ writes)
    (hgit : Projector.project event .git = [] ∨ Projector.project event .git = lockEventNodes event ++ writes) :
    ∀ projector : Projector, ∀ w ∈ projector.project event, SoundWrite event values w := by
  have hhandled : ∀ {ws : List Write}, ws = [] ∨ ws = lockEventNodes event ++ writes →
      ∀ w ∈ ws, SoundWrite event values w := by
    rintro ws (rfl | rfl)
    · exact forall_mem_nil _
    · exact sound_locked hwrites
  rintro (_ | _ | _)
  · exact hhandled hagent
  · exact hhandled hgit
  · exact sound_locked (sound_portfolioProject hrepository)

/-- **The writes of an event** keep to the layout, and state one group of values. -/
theorem sound_project (event : Event) : ∃ values, ∀ projector : Projector, ∀ w ∈ projector.project event,
    SoundWrite event values w := by
  obtain ⟨eventId, occurredAt, context, payload⟩ := event
  cases payload with
  | sessionStarted payload =>
    exact ⟨[], sound_projectors (sound_sessionStarted payload) (forall_mem_nil _) (.inr rfl) (.inl rfl)⟩
  | sessionEnded payload =>
    obtain ⟨values, h⟩ := sound_sessionEnded payload
    exact ⟨values, sound_projectors h (forall_mem_nil _) (.inr rfl) (.inl rfl)⟩
  | turnStarted payload =>
    exact ⟨[], sound_projectors (sound_turnStarted payload) (forall_mem_nil _) (.inr rfl) (.inl rfl)⟩
  | turnStopped payload =>
    obtain ⟨values, h⟩ := sound_turnStopped payload
    exact ⟨values, sound_projectors h (forall_mem_nil _) (.inr rfl) (.inl rfl)⟩
  | turnCompleted payload =>
    obtain ⟨values, h⟩ := sound_turnCompleted payload
    exact ⟨values, sound_projectors h (forall_mem_nil _) (.inr rfl) (.inl rfl)⟩
  | toolCallStarted payload =>
    exact ⟨[], sound_projectors (sound_toolCallStarted payload) (forall_mem_nil _) (.inr rfl) (.inl rfl)⟩
  | toolCallOutputObserved payload =>
    exact ⟨[], sound_projectors (sound_toolCallOutputObserved payload) (forall_mem_nil _) (.inr rfl) (.inl rfl)⟩
  | toolCallCompleted payload =>
    obtain ⟨values, h⟩ := sound_toolCallCompleted payload
    exact ⟨values, sound_projectors h (forall_mem_nil _) (.inr rfl) (.inl rfl)⟩
  | checkoutObserved payload =>
    obtain ⟨values, h⟩ := sound_checkoutObserved payload
    exact ⟨values, sound_projectors h (forall_mem_nil _) (.inl rfl) (.inr rfl)⟩
  | commitObserved payload =>
    exact ⟨[], sound_projectors (sound_commitObserved payload) (forall_mem_nil _) (.inl rfl) (.inr rfl)⟩
  | snapshotCaptured payload =>
    obtain ⟨values, h⟩ := sound_snapshotCaptured payload
    exact ⟨values, sound_projectors h (forall_mem_nil _) (.inl rfl) (.inr rfl)⟩
  | repositoryObserved payload =>
    obtain ⟨values, h⟩ := sound_repositoryObserved (.repositoryObserved payload)
    exact ⟨values, sound_projectors (forall_mem_nil _) h (.inl rfl) (.inl rfl)⟩

theorem sound_statements (event : Event) : ∃ values, ∀ registered, ∀ w ∈ statements event registered,
    SoundWrite event values w := by
  obtain ⟨values, h⟩ := sound_project event
  refine ⟨values, fun registered w hw => ?_⟩
  obtain ⟨projector, -, hw⟩ := mem_flatMap.1 hw
  exact h projector w hw

/-! ## Deliveries -/

/-- The event states the values of a stamp of a node. -/
def Event.States (registered : List Projector) (node : Node) (stamp : String) (e : Event) : Prop :=
  ∃ w ∈ statements e registered, ∃ order values, .newest stamp order values ∈ w.clauses node

def Event.asserts (registered : List Projector) (l : Link Node String) (e : Event) : Bool :=
  (statements e registered).any fun w => (w.source? l).isSome

/-- All that a delivery writes. -/
def written (registered : List Projector) (events : List Event) : List Write :=
  events.flatMap fun event => statements event registered

variable {registered : List Projector} {events events' : List Event} {node : Node}

theorem mem_clausesOf_written : c ∈ clausesOf node (written registered events) ↔
    ∃ e ∈ events, ∃ w ∈ statements e registered, c ∈ w.clauses node := by
  simp only [clausesOf, written, mem_flatMap]
  constructor
  · rintro ⟨w, ⟨e, he, hw⟩, hc⟩
    exact ⟨e, he, w, hw, hc⟩
  · rintro ⟨e, he, w, hw, hc⟩
    exact ⟨w, ⟨e, he, hw⟩, hc⟩

theorem SoundWrite.clauses {w : Write} (h : SoundWrite event values w) (hc : c ∈ w.clauses node) :
    Sound event values node.label c := by
  cases w with
  | node node' clauses =>
    simp only [Provenance.Write.clauses] at hc
    split at hc
    · rename_i heq
      exact heq ▸ h c hc
    · cases hc
  | link l source => cases hc

theorem eventOrder_inj {t t' : DateTime} {id id' : String} (h : eventOrder t id = eventOrder t' id') : t = t' ∧ id = id' := by
  have hnot : ¬ eventOrder t id < eventOrder t' id' := h ▸ lt_irrefl _
  have hnot' : ¬ eventOrder t' id' < eventOrder t id := h ▸ lt_irrefl _
  rw [eventOrder_lt_iff, not_lt] at hnot hnot'
  exact Prod.mk.inj (toLex.injective (le_antisymm hnot' hnot))

theorem fits_written : ∀ c ∈ clausesOf node (written registered events), (layout node.label).Fits c := fun c hc => by
  obtain ⟨e, -, w, hw, hc⟩ := mem_clausesOf_written.1 hc
  obtain ⟨values, h⟩ := sound_statements e
  exact ((h registered w hw).clauses hc).1

theorem shows_deliver : Shows (layout node.label) Value.less statusRank (clausesOf node (written registered events))
    ((deliver registered events).props node) := by
  have hprops : (deliver registered events).props node =
      runAll Value.less statusRank (fun _ => none) (clausesOf node (written registered events)) := by
    rw [deliver_eq]
    exact props_writeAll
  rw [hprops]
  exact shows_run (layout_lawful node.label) fits_written

section

variable (hids : ∀ e ∈ events, ∀ e' ∈ events, e.eventId = e'.eventId → e = e')
include hids

theorem values_of_order {stamp stamp' : String} {order : Value} {values values' : List (String × Option Value)}
    (h : .newest stamp order values ∈ clausesOf node (written registered events))
    (h' : .newest stamp' order values' ∈ clausesOf node (written registered events)) : values = values' := by
  obtain ⟨e, he, w, hw, hc⟩ := mem_clausesOf_written.1 h
  obtain ⟨e', he', w', hw', hc'⟩ := mem_clausesOf_written.1 h'
  obtain ⟨vs, hsound⟩ := sound_statements e
  obtain ⟨vs', hsound'⟩ := sound_statements e'
  obtain ⟨horder, rfl⟩ := ((hsound registered w hw).clauses hc).2 _ _ _ rfl
  obtain ⟨horder', rfl⟩ := ((hsound' registered w' hw').clauses hc').2 _ _ _ rfl
  obtain ⟨-, hid⟩ := eventOrder_inj (Value.text.inj (horder.symm.trans horder'))
  obtain rfl := hids e he e' he' hid
  exact (((hsound registered w' hw').clauses hc').2 _ _ _ rfl).2.symm

theorem coherent_written :
    Coherent (fun node => layout node.label) (written registered events) where
  fits := fun _ => fits_written
  agree := fun _ _ _ _ _ h h' => values_of_order hids h h'

theorem newest_deliver {e : Event} (he : e ∈ events)
    {w : Write} (hw : w ∈ statements e registered) {stamp : String} {order : Value} {values : List (String × Option Value)}
    (hc : .newest stamp order values ∈ w.clauses node)
    (hgreatest : ∀ e' ∈ events, e'.States registered node stamp →
      toLex (e'.occurredAt, e'.eventId) ≤ toLex (e.occurredAt, e.eventId)) :
    ∀ value ∈ values, (deliver registered events).props node value.1 = value.2 := by
  intro value hvalue
  have hmem : .newest stamp order values ∈ clausesOf node (written registered events) :=
    mem_clausesOf_written.2 ⟨e, he, w, hw, hc⟩
  obtain ⟨hstamp, -, hnames⟩ := fits_written _ hmem
  have hshows : Shows (layout node.label) Value.less statusRank (clausesOf node (written registered events))
      ((deliver registered events).props node) := shows_deliver
  have hnewest := hshows.newest stamp hstamp
  cases hheld : (deliver registered events).props node stamp with
  | none =>
    rw [hheld] at hnewest
    exact absurd hmem (hnewest.1 order values)
  | some held =>
    rw [hheld] at hnewest
    obtain ⟨values', hvalues', hle, hstated⟩ := hnewest
    have hsame : values' = values := by
      obtain ⟨e', he', w', hw', hc'⟩ := mem_clausesOf_written.1 hvalues'
      obtain ⟨_, hsound⟩ := sound_statements e
      obtain ⟨_, hsound'⟩ := sound_statements e'
      obtain ⟨rfl, -⟩ := ((hsound registered w hw).clauses hc).2 _ _ _ rfl
      obtain ⟨rfl, -⟩ := ((hsound' registered w' hw').clauses hc').2 _ _ _ rfl
      have hnot : ¬ eventOrder e'.occurredAt e'.eventId < eventOrder e.occurredAt e.eventId := by
        simpa [Value.less, Event.order] using hle _ _ hmem
      rw [eventOrder_lt_iff, not_lt] at hnot
      have heq := toLex.injective (le_antisymm (hgreatest e' he' ⟨w', hw', _, _, hc'⟩) hnot)
      obtain rfl := hids e' he' e he (Prod.mk.inj heq).2
      exact values_of_order hids hvalues' hmem
    subst hsame
    have hrole : role node.label value.1 = .member stamp :=
      (layout node.label).member stamp value.1 (hnames ▸ mem_map_of_mem hvalue)
    rw [hstated value.1 hrole]
    exact stating_of_mem (hnames ▸ (layout node.label).nodup stamp) hvalue

end

theorem status_deliver (e : Event) : statusRank ((deliver registered events).props node "status") ≤
    statusRank ((deliver registered (events ++ [e])).props node "status") := by
  have hprops : ∀ events, (deliver registered events).props node =
      runAll Value.less statusRank (fun _ => none) (clausesOf node (written registered events)) := fun events => by
    rw [deliver_eq]
    exact props_writeAll
  have hmore : clausesOf node (written registered (events ++ [e])) =
      clausesOf node (written registered events) ++ clausesOf node (written registered [e]) := by
    simp [clausesOf, written]
  rw [hprops, hprops, hmore, runAll_append]
  exact rank_le_runAll fits_written (show (layout node.label).role "status" = .ranked from rfl)

theorem links_deliver (l : Link Node String) : (deliver registered events).links l =
    if events.filter (·.asserts registered l) = [] then none
    else some (sortedSet ((events.filter (·.asserts registered l)).map (·.eventId))) := by
  have hlinks : (deliver registered events).links l =
      if sourcesOf l (written registered events) = [] then none
      else some (sortedSet (sourcesOf l (written registered events))) := by
    rw [deliver_eq]
    exact links_writeAll
  have hmem : ∀ id, id ∈ sourcesOf l (written registered events) ↔
      id ∈ (events.filter (·.asserts registered l)).map (·.eventId) := fun id => by
    have hid : ∀ {e : Event} {w : Write} {source : String}, w ∈ statements e registered → w.source? l = some source →
        source = e.eventId := fun {e w source} hw hsource => by
      obtain ⟨values, hsound⟩ := sound_statements e
      have h := hsound registered w hw
      cases w with
      | node _ _ => cases hsource
      | link l' source' =>
        simp only [Provenance.Write.source?, Option.ite_none_right_eq_some, Option.some.injEq] at hsource
        exact hsource.2.symm.trans h
    simp only [sourcesOf, written, mem_filterMap, mem_flatMap, mem_map, mem_filter, Event.asserts,
      any_eq_true]
    constructor
    · rintro ⟨w, ⟨e, he, hw⟩, hsource⟩
      exact ⟨e, ⟨he, w, hw, by rw [hsource]; rfl⟩, (hid hw hsource).symm⟩
    · rintro ⟨e, ⟨he, w, hw, hsome⟩, rfl⟩
      obtain ⟨source, hsource⟩ := Option.isSome_iff_exists.1 hsome
      exact ⟨w, ⟨e, he, hw⟩, hsource.trans (congrArg some (hid hw hsource))⟩
  have hnil : sourcesOf l (written registered events) = [] ↔ events.filter (·.asserts registered l) = [] := by
    rw [eq_nil_iff_forall_not_mem, ← map_eq_nil_iff (f := (·.eventId)), eq_nil_iff_forall_not_mem]
    exact forall_congr' fun id => not_congr (hmem id)
  rw [hlinks, if_congr hnil rfl rfl, sortedSet_congr hmem]

/-- **Agent and Git projections converge.** -/
theorem activity_converges (registered : List Projector) (events events' : List Event)
    (hids : ∀ e ∈ events, ∀ e' ∈ events, e.eventId = e'.eventId → e = e') (hsame : ∀ e, e ∈ events ↔ e ∈ events') :
    deliver registered events = deliver registered events' ∧
    (∀ (node : Node) p, role node.label p = .least →
      LeastOf Value.less (clausesOf node (written registered events)) p ((deliver registered events).props node p)) ∧
    (∀ node, ∀ e ∈ events, ∀ w ∈ statements e registered, ∀ stamp order values,
      .newest stamp order values ∈ w.clauses node →
      (∀ e' ∈ events, e'.States registered node stamp →
        toLex (e'.occurredAt, e'.eventId) ≤ toLex (e.occurredAt, e.eventId)) →
      ∀ value ∈ values, (deliver registered events).props node value.1 = value.2) ∧
    (∀ node e, statusRank ((deliver registered events).props node "status") ≤
      statusRank ((deliver registered (events ++ [e])).props node "status")) ∧
    ∀ l, (deliver registered events).links l =
      if events.filter (·.asserts registered l) = [] then none
      else some (sortedSet ((events.filter (·.asserts registered l)).map (·.eventId))) := by
  refine ⟨?_, fun node p hp => shows_deliver.least p hp, fun node e he w hw stamp order values hc hgreatest =>
    newest_deliver hids he hw hc hgreatest, fun node e => status_deliver e, links_deliver⟩
  have hwrites : ∀ w, w ∈ written registered events ↔ w ∈ written registered events' := fun w => by
    simp only [written, List.mem_flatMap, hsame]
  rw [deliver_eq, deliver_eq]
  exact writeAll_eq (fun node => layout_lawful node.label) (coherent_written hids) hwrites

def sampleContext : Context := ⟨some "workspace", some "project", some "repository", some "checkout", some "session"⟩

def sampleStarted : Event where
  eventId := "b"
  occurredAt := ⟨2026, 1, 31, 9, 5, 0, 250, by decide, by decide, by decide, by decide, by decide, by decide, by decide⟩
  context := sampleContext
  payload := .sessionStarted ⟨"session", none, some "model", none, none⟩

def sampleEnded : Event where
  eventId := "a"
  occurredAt := ⟨2026, 1, 31, 9, 6, 0, 0, by decide, by decide, by decide, by decide, by decide, by decide, by decide⟩
  context := sampleContext
  payload := .sessionEnded ⟨"session", some "logout", none⟩

theorem activity_converges_sample :
    deliver [.agent, .git] [sampleStarted, sampleEnded] = deliver [.agent, .git] [sampleEnded, sampleStarted, sampleEnded] ∧
      (deliver [.agent, .git] [sampleStarted, sampleEnded]).links ⟨⟨.session, "session"⟩, "TARGETED", ⟨.checkout, "checkout"⟩⟩ =
        some ["a", "b"] := by
  obtain ⟨hsame, -, -, -, hlinks⟩ := activity_converges [.agent, .git] [sampleStarted, sampleEnded]
    [sampleEnded, sampleStarted, sampleEnded] (by decide) (fun e => by simp [or_comm])
  exact ⟨hsame, (hlinks _).trans (rfl)⟩

end Activity
