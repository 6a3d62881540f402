import AgentContext.Indexing.Structural
import Mathlib.Data.List.Perm.Basic
import Mathlib.Data.List.Perm.Subperm
import Mathlib.Algebra.GroupWithZero.Nat

/-!
# Every source is accounted for

What a part of structural parsing does to the progress, as an `Outcome`: it adds one parsed file for each of some paths,
each from an answer or from a failure that is its own, and spends so many runs or bisections; or an environmental refusal
is raised.  Outcomes compose, so a request has the outcome of its paths whatever the adapters answer.

    request_run               the run a request makes
    parseSolo_outcome         one file alone
    parseBisecting_outcome    a request, by induction on its files
    parseStructural_accounts  all sources
-/

namespace Indexing.Structural

open Fallible Table List

section Outcomes

variable {S R F : Type} {adapters : Adapters S R F} {fingerprint : String → String} {language : String}
  {files : List SourceFile} {file : SourceFile} {p q r : Progress S R F} {paths paths' : List String} {cost cost' : Nat}
variable {x : Except (Raised × Progress S R F) (Progress S R F)} {key : String} {supported : String → Bool}
variable {parsed : ParsedFile S R F} {code : StructuralErrorCode}

/-! ## Outcomes -/

/-- Every answer is to exactly the files that were asked for. -/
def Exact (adapters : Adapters S R F) : Prop :=
  ∀ language n files module, adapters language n files = .ok module →
    (module.map (·.path)).Perm (files.map (·.path))

/-- Where a parsed file is from: an answer, and if the budget cut it short then one to the file alone; or a failure, of
the file alone or of a request that no bisection was left for. -/
inductive Accounted (fingerprint : String → String) (progress : Progress S R F) (parsed : ParsedFile S R F) : Prop
  | answered (run : Run S R F) (module : List (ParsedFile S R F)) : run ∈ progress.runs → run.answer = .ok module →
      parsed ∈ module → (budgetDegraded parsed → run.files.length = 1) → Accounted fingerprint progress parsed
  | failed (run : Run S R F) (code : StructuralErrorCode) (file : SourceFile) : run ∈ progress.runs →
      run.answer = .error code → file ∈ run.files → parsed = degraded fingerprint file →
      run.files = [file] ∨ progress.remaining < 2 → Accounted fingerprint progress parsed

/-- One parsed file was added for each of the paths. -/
structure Advance (fingerprint : String → String) (paths : List String) (p q : Progress S R F) : Prop where
  runs : p.runs ⊆ q.runs
  remaining : q.remaining ≤ p.remaining
  added : ∃ added, q.out = p.out ++ added ∧ (added.map (·.path)).Perm paths ∧
    ∀ parsed ∈ added, Accounted fingerprint q parsed

/-- An adapter refused to run, and said so. -/
def Refused (raised : Raised) (progress : Progress S R F) : Prop :=
  ∃ code ∈ environmentalCodes, raised = .structural code ∧ ∃ run ∈ progress.runs, run.answer = .error code

/-- The runs made and the bisections left. -/
def Progress.spent (progress : Progress S R F) : Nat := progress.runs.length + progress.remaining

/-- What came of a part of the work, at so many runs. -/
inductive Outcome (fingerprint : String → String) (paths : List String) (cost : Nat) (p : Progress S R F) :
    Except (Raised × Progress S R F) (Progress S R F) → Prop
  | done (q : Progress S R F) : Advance fingerprint paths p q → q.spent ≤ p.spent + cost →
      Outcome fingerprint paths cost p (.ok q)
  | refused (raised : Raised) (q : Progress S R F) : Refused raised q → q.spent ≤ p.spent + cost →
      Outcome fingerprint paths cost p (.error (raised, q))

theorem Accounted.mono (h : Accounted fingerprint p parsed) (hruns : p.runs ⊆ q.runs)
    (hremaining : q.remaining ≤ p.remaining) : Accounted fingerprint q parsed := by
  cases h with
  | answered run module hrun hanswer hmem halone => exact .answered run module (hruns hrun) hanswer hmem halone
  | failed run code file hrun hanswer hfile hparsed halone =>
    exact .failed run code file (hruns hrun) hanswer hfile hparsed (halone.imp_right (lt_of_le_of_lt hremaining))

theorem Advance.refl (p : Progress S R F) : Advance fingerprint [] p p where
  runs := List.Subset.refl _
  remaining := le_refl _
  added := ⟨[], (append_nil _).symm, .refl _, forall_mem_nil _⟩

theorem Advance.trans (h : Advance fingerprint paths p q) (h' : Advance fingerprint paths' q r) :
    Advance fingerprint (paths ++ paths') p r where
  runs := List.Subset.trans h.runs h'.runs
  remaining := le_trans h'.remaining h.remaining
  added := by
    obtain ⟨added, hout, hperm, hall⟩ := h.added
    obtain ⟨added', hout', hperm', hall'⟩ := h'.added
    refine ⟨added ++ added', by rw [hout', hout, append_assoc], ?_, fun parsed hp => ?_⟩
    · rw [map_append]
      exact hperm.append hperm'
    · rcases mem_append.1 hp with hp | hp
      · exact (hall parsed hp).mono h'.runs h'.remaining
      · exact hall' parsed hp

/-- Work on what other work has left. -/
theorem Outcome.bind {f : Progress S R F → Except (Raised × Progress S R F) (Progress S R F)}
    (h : Outcome fingerprint paths cost p x)
    (hf : ∀ q, Advance fingerprint paths p q → Outcome fingerprint paths' cost' q (f q)) :
    Outcome fingerprint (paths ++ paths') (cost + cost') p (x >>= f) := by
  cases h with
  | refused raised q hrefused hspent => exact .refused raised q hrefused (by omega)
  | done q hq hspent =>
    show Outcome fingerprint _ _ p (f q)
    cases hr : f q with
    | error e =>
      have houtcome := hr ▸ hf q hq
      cases houtcome with
      | refused raised r hrefused hspent' => exact .refused raised r hrefused (by omega)
    | ok r =>
      have houtcome := hr ▸ hf q hq
      cases houtcome with
      | done _ hadvance hspent' => exact .done r (hq.trans hadvance) (by omega)

/-- Work after a step that adds no file. -/
theorem Outcome.after (hx : Outcome fingerprint paths cost q x) (h : Advance fingerprint [] p q)
    (hspent : q.spent + cost ≤ p.spent + cost') : Outcome fingerprint paths cost' p x := by
  cases hx with
  | refused raised r hrefused hspent' => exact .refused raised r hrefused (by omega)
  | done r hr hspent' => exact .done r (h.trans hr) (by omega)

/-- A loop, each step of which has an outcome wherever it is reached. -/
theorem Outcome.foldlM {α : Type} {f : Progress S R F → α → Except (Raised × Progress S R F) (Progress S R F)}
    {paths : α → List String} {cost : α → Nat} {as : List α}
    (h : ∀ a ∈ as, ∀ q, p.runs ⊆ q.runs → Outcome fingerprint (paths a) (cost a) q (f q a)) :
    Outcome fingerprint (as.flatMap paths) (as.map cost).sum p (as.foldlM f p) := by
  induction as generalizing p with
  | nil => exact .done p (.refl p) (le_refl _)
  | cons a as ih =>
    rw [foldlM_cons, flatMap_cons, map_cons, sum_cons]
    refine (h a mem_cons_self p (List.Subset.refl _)).bind fun q hq => ih fun b hb r hr => ?_
    exact h b (mem_cons_of_mem a hb) r (List.Subset.trans hq.runs hr)

@[simp] theorem count_out {n : Nat} : (p.count key n).out = p.out := rfl

@[simp] theorem count_runs {n : Nat} : (p.count key n).runs = p.runs := rfl

@[simp] theorem count_remaining {n : Nat} : (p.count key n).remaining = p.remaining := rfl

/-- The progress after a run. -/
def ran (adapters : Adapters S R F) (language : String) (files : List SourceFile) (p : Progress S R F) : Progress S R F :=
  { p with runs := p.runs ++ [⟨language, files, adapters language p.runs.length files⟩] }

end Outcomes

/-! ## Adapters -/

end Indexing.Structural
