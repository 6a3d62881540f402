import AgentContext.Adapters.GoReading

/-!
# The Go adapter: the constants of a group

Each spec of a group is digested after the explicit spec nearest before it, so every digest of the group is the one of
the reading that its place in the group gives (`digests_reading`).
-/

namespace Go

open Bracketed

section

variable {D β : Type}

/-- The explicit spec that a bare one after these specs repeats. -/
def sourceAfter (content : Bytes) (before : Option (Source D)) (specs : List ConstSpec) : Option (Source D) :=
  specs.foldl (fun before spec => spec.source content <|> before) before

/-- The reading of a name of a group, by the place of its spec and its own among the names of the spec. -/
def ConstDecl.reading (d : ConstDecl) (content : Bytes) (ordinal index : Nat) : Option (Reading D) := do
  let spec ← d.specs[ordinal]?
  let n ← spec.names[index]?
  some (spec.reading content ordinal (sourceAfter content none (d.specs.take ordinal)) index n)

variable (digest : String → List (Token D) → D) (take : β → Sym → Option β)

/-- The digests of the walk over a group at the top of a file, whatever the walk has seen of the file before. -/
def ConstDecl.digests (d : ConstDecl) (w : Walk D β) : List (Digested D) :=
  (walkNode digest take { w with opens := [], ancestors := ["source_file"], skipNode := none, digested := [] } d.node).digested

/-! ## The walk of a group -/

theorem walkNode_spec_digests (spec : ConstSpec) (w : Walk D β) (hw : w.InGroup) {before : Option (Source D)}
    (htail : w.constTail = tailOf before) :
    ∃ budget syms dropped owners, Owned w.content spec.names owners ∧ walkNode digest take w spec.node =
        { w with
            budget := budget
            syms := syms
            dropped := dropped
            constOrdinal := w.constOrdinal + 1
            tokens := w.tokens ++ stream (vocabulary D w.content) spec.node
            constTail := tailOf (spec.source w.content <|> before)
            digested := w.digested ++ owners.map (spec.digested digest w.content w.constOrdinal before) } := by
  obtain ⟨budget, syms, dropped, owners, howned, hwalk⟩ := walkNode_spec take digest spec w hw
  refine ⟨budget, syms, dropped, owners, howned, hwalk.trans ?_⟩
  have hclosing : Closing D spec w.content w.tokens.length w.constOrdinal owners _ := spec.entryEnd_closing w.content
  cases hsrc : spec.source (D := D) w.content with
  | none =>
    have hinit : spec.init = none := by
      rw [ConstSpec.source, Option.map_eq_none_iff] at hsrc
      exact hsrc
    refine Eq.trans (hclosing.finish_implicit digest hinit howned htail (by rfl)) ?_
    rw [show (none <|> before) = before from rfl, ← htail]
  | some src => exact hclosing.finish_explicit digest howned hsrc rfl before

theorem walkNode_other (w : Walk D β) (hw : w.InGroup) {c : Node} (hspec : c.label.kind ≠ "const_spec")
    (hvar : c.label.kind ≠ "var_spec") (hleaf : c.children = []) :
    walkNode digest take w c = { w with tokens := w.tokens ++ stream (vocabulary D w.content) c } := by
  rw [walkNode_eq]
  cases hskip : skipped c.label.kind with
  | true =>
    rw [stream_skip (vocabulary D w.content) hskip, List.append_nil]
    show _ = w
    simp [enter, hskip, exit, hw.opens, hw.skipNode]
  | false =>
    rw [stream_leaf (vocabulary D w.content) hskip hleaf]
    simp [enter, hskip, hw.ancestors, hw.skipNode, enterNested, hspec, hvar, Walk.touch, hw.opens, hleaf, exit, vocabulary]

/-- Where the digests of a group come from. -/
def Digested.From (digest : String → List (Token D) → D) (content : Bytes) (ordinal : Nat) (before : Option (Source D))
    (specs : List ConstSpec) (s : Digested D) : Prop :=
  ∃ k spec n, specs[k]? = some spec ∧ s.ordinal = ordinal + k ∧ spec.names[s.index]? = some n ∧
    name content n.label = some s.sym.simple ∧ s.sym.simple ≠ underscore ∧
    let reading := spec.reading content s.ordinal (sourceAfter content before (specs.take k)) s.index n
    s.semantic = reading.semantic digest ∧ s.signatureDigest = reading.signature digest

theorem walkNodes_group (nodes : List Node)
    (hothers : ∀ c ∈ nodes, c.label.kind ≠ "const_spec" → c.label.kind ≠ "var_spec" ∧ c.children = []) :
    ∀ (specs : List ConstSpec), (nodes.filter fun c => c.label.kind == "const_spec") = specs.map ConstSpec.node →
    ∀ (w : Walk D β), w.InGroup → ∀ before : Option (Source D), w.constTail = tailOf before →
    ∃ digested, (walkNodes digest take w nodes).digested = w.digested ++ digested ∧
      (walkNodes digest take w nodes).opens = [] ∧
      ∀ s ∈ digested, s.From digest w.content w.constOrdinal before specs := by
  induction nodes with
  | nil => exact fun specs _ w hw before _ => ⟨[], by rw [walkNodes, List.append_nil], by rw [walkNodes, hw.opens], by simp⟩
  | cons c nodes ih =>
    intro specs hspecs w hw before htail
    have ih := ih fun c hc => hothers c (List.mem_cons_of_mem _ hc)
    rw [walkNodes]
    by_cases hkind : c.label.kind = "const_spec"
    · rw [List.filter_cons_of_pos (by simpa using hkind)] at hspecs
      cases specs with
      | nil => cases hspecs
      | cons spec specs =>
        rw [List.map_cons, List.cons.injEq] at hspecs
        obtain ⟨rfl, hspecs⟩ := hspecs
        obtain ⟨budget, syms, dropped, owners, howned, hwalk⟩ := walkNode_spec_digests digest take spec w hw htail
        obtain ⟨digested, hrest, hopens, hfrom⟩ := ih specs hspecs (walkNode digest take w spec.node)
          (by rw [hwalk]; exact ⟨hw.opens, hw.skipNode, hw.ancestors⟩) _ (by rw [hwalk])
        rw [hwalk] at hrest hopens hfrom ⊢
        refine ⟨owners.map (spec.digested digest w.content w.constOrdinal before) ++ digested, ?_, hopens, ?_⟩
        · rw [hrest, List.append_assoc]
        · intro s hs
          rcases List.mem_append.mp hs with hs | hs
          · obtain ⟨o, ho, rfl⟩ := List.mem_map.mp hs
            obtain ⟨n, hn, hname⟩ := howned.named o ho
            refine ⟨0, spec, n, rfl, rfl, hn, hname.1, hname.2, ?_⟩
            simp [ConstSpec.digested, sourceAfter, hn]
          · obtain ⟨k, spec', n, hk, hordinal, hn, hrest⟩ := hfrom s hs
            refine ⟨k + 1, spec', n, by simpa using hk, ?_, hn, ?_⟩
            · rw [hordinal]
              simp only
              omega
            · simpa [sourceAfter] using hrest
    · obtain ⟨hvar, hleaf⟩ := hothers c List.mem_cons_self hkind
      rw [List.filter_cons_of_neg (by simpa using hkind)] at hspecs
      have hwalk := walkNode_other digest take w hw hkind hvar hleaf
      have hrest := ih specs hspecs (walkNode digest take w c)
        (by rw [hwalk]; exact ⟨hw.opens, hw.skipNode, hw.ancestors⟩) before (by rw [hwalk]; exact htail)
      rw [hwalk] at hrest ⊢
      exact hrest

theorem exit_idle {w : Walk D β} (h : w.opens = []) (a : Info) (opened : Bool) :
    (exit digest w a opened).digested = w.digested := by
  cases opened <;> simp only [exit, h, Bool.false_eq_true, if_false, if_true] <;> split <;> rfl

/-- Every digest of a group is the one of its place in the group. -/
theorem digests_reading (d : ConstDecl) (w : Walk D β) {s : Digested D} (hs : s ∈ d.digests digest take w) :
    s.From digest w.content 0 none d.specs := by
  unfold ConstDecl.digests at hs
  rw [walkNode_eq] at hs
  generalize htop : ({ w with opens := [], ancestors := ["source_file"], skipNode := none, digested := [] } : Walk D β) = top
    at hs
  have hopens : top.opens = [] := by rw [← htop]
  -- the group starts over: no spec to repeat, and the first position
  have henter : ∃ tainted, enterTop top d.node = { top with constTail := ([], []), constOrdinal := 0, tainted := tainted } := by
    simp only [enterTop, d.kind, if_true]
    split <;> exact ⟨_, rfl⟩
  obtain ⟨tainted, henter⟩ := henter
  have hskip : skipped d.node.label.kind = false := by
    rw [d.kind]
    rfl
  have hancestors : top.ancestors.length = 1 := by rw [← htop]; rfl
  cases hempty : d.node.children.isEmpty with
  | true =>
    simp only [enter, hskip, Bool.false_eq_true, if_false, hancestors, if_true, henter, Walk.touch, hopens, hempty] at hs
    have hidle := exit_idle digest (show ({ top with
        opens := []
        constTail := ([], [])
        constOrdinal := 0
        tainted := tainted
        tokens := top.tokens ++ [leafToken top.content d.node.label] } : Walk D β).opens = [] from rfl) d.node.label false
    rw [hidle, ← htop] at hs
    simp at hs
  | false =>
    simp only [enter, hskip, Bool.false_eq_true, if_false, hancestors, if_true, henter, Walk.touch, hopens, hempty] at hs
    have hgroup : Walk.InGroup ({ top with
        opens := []
        constTail := ([], [])
        constOrdinal := 0
        tainted := tainted
        tokens := top.tokens ++ [.opening d.node.label.kind]
        ancestors := top.ancestors ++ [d.node.label.kind] } : Walk D β) := by
      rw [← htop]
      exact ⟨rfl, rfl, by rw [d.kind]; rfl⟩
    obtain ⟨digested, hdigested, hopens', hfrom⟩ := walkNodes_group digest take d.node.children d.others d.specs d.children
      _ hgroup none rfl
    rw [exit_idle digest hopens', hdigested, List.mem_append] at hs
    rw [← htop] at hs hfrom
    exact hfrom s (hs.resolve_left (by simp))

end

end Go
