import Mathlib.Data.Set.Card
import ShaderAssets.Proofs.Preprocess.Nesting

/-!
# Inclusion ends

Files may include each other, and there may be no end of different files.  A run ends all
the same: a path is included once, so cycles do no harm, and inclusions are nested only so
deep, so a chain of ever new files is cut.  The first of the two guards is asked first, so a
run fails for its depth only below a chain of different files that is longer than the limit.

A run is described by rules that count the depth upwards and have no other bound, together
with the paths that are looked up.  That each run has a derivation by these rules says that
it ends.

Main results:

- Relation {lit}`Processes`: what processing lines does, and the paths it looks up.
- Theorem {lit}`exists_processes`: lines are processed in finitely many steps.
- Theorem {lit}`Processes.asksOnce`: no path is looked up twice.
- Relation {lit}`IncludeChain`: files included by active directives of each other.
- Theorem {lit}`onLines_tooDeep_iff`: a run fails for its depth below such a chain.
- Theorem {lit}`run_inclusions`: all this for whole runs.
-/

namespace ShaderAssets
namespace Preprocess

/-! ## Single lines -/

/-- A line that is no inclusion is obeyed. -/
theorem onLine_of_not_inclusion {line : List Char}
    (hline : ∀ path, Directive.ofLine line ≠ .inclusion path)
    (enter : String → PreprocessState → PreprocessResult) (number : Nat) (s : PreprocessState) :
    onLine enter number line s = s.obey number line (Directive.ofLine line) := by
  unfold onLine
  split
  · rename_i path hpath
    exact absurd hpath (hline path)
  · rfl

/-- A new path in an active branch is entered. -/
theorem onLine_entered {line : List Char} {path : String} {s : PreprocessState}
    (hline : Directive.ofLine line = .inclusion path) (hactive : s.active = true)
    (hnew : path ∉ s.included) (enter : String → PreprocessState → PreprocessResult)
    (number : Nat) :
    onLine enter number line s = enter path { s with included := path :: s.included } := by
  unfold onLine
  rw [hline]
  exact if_pos ⟨hactive, hnew⟩

/-- A path in an inactive branch, or one that was included before, is skipped. -/
theorem onLine_skipped {line : List Char} {path : String} {s : PreprocessState}
    (hline : Directive.ofLine line = .inclusion path)
    (hskipped : s.active = false ∨ path ∈ s.included)
    (enter : String → PreprocessState → PreprocessResult) (number : Nat) :
    onLine enter number line s = .ok ([], s) := by
  unfold onLine
  rw [hline]
  refine if_neg fun ⟨hactive, hnew⟩ => ?_
  rcases hskipped with hinactive | hmem
  · cases hactive.symm.trans hinactive
  · exact hnew hmem

/-- A file that is entered is processed like a source, with one nested inclusion less. -/
theorem enter_of_file {files : String → Option String} {path text : String}
    (hfile : files path = some text) (budget : Nat) (s : PreprocessState) :
    enter files (budget + 1) path s =
      onLines (enter files budget) 1 (Text.linesOf text) s := by
  rw [enter, hfile]

/-- A missing file is reported when it is entered. -/
theorem enter_of_missing {files : String → Option String} {path : String}
    (hfile : files path = none) (budget : Nat) (s : PreprocessState) :
    enter files (budget + 1) path s = .error (.includeNotFound path) := by
  rw [enter, hfile]

/-- Only an inclusion that is entered fails for its depth. -/
theorem obey_ne_tooDeep {directive : Directive} (s : PreprocessState) (number : Nat)
    (line : List Char) (path : String) :
    s.obey number line directive ≠ .error (.includeTooDeep path) := by
  intro h
  cases hincludes : directive.includes with
  | false =>
      have hframes := frames_obey hincludes s number line
      rw [h] at hframes
      cases hframes
  | true =>
      cases directive with
      | inclusion path' => cases h
      | malformedInclusion argument =>
          simp only [PreprocessState.obey] at h
          split at h <;> cases h
      | _ => cases hincludes

/-! ## Processing without a bound -/

/-- Lines that stand at a depth of nested inclusions are processed from a state: the paths
that are looked up, in order, and the outcome.  The depth is compared with the limit when a
path is entered, and nothing else bounds the processing. -/
inductive Processes (files : String → Option String) :
    (depth number : Nat) → List (List Char) → PreprocessState → List String →
      PreprocessResult → Prop where
  | done (depth number : Nat) (s : PreprocessState) :
      Processes files depth number [] s [] (.ok ([], s))
  | obeyed {depth number : Nat} {line : List Char} {rest emitted : List (List Char)}
      {s s₁ : PreprocessState} {asked : List String} {r : PreprocessResult}
      (hline : ∀ path, Directive.ofLine line ≠ .inclusion path)
      (hobeyed : s.obey number line (Directive.ofLine line) = .ok (emitted, s₁))
      (hrest : Processes files depth (number + 1) rest s₁ asked r) :
      Processes files depth number (line :: rest) s asked
        (r.map fun r => (emitted ++ r.1, r.2))
  | failed {depth number : Nat} {line : List Char} {rest : List (List Char)}
      {s : PreprocessState} {e : PreprocessError}
      (hline : ∀ path, Directive.ofLine line ≠ .inclusion path)
      (hfailed : s.obey number line (Directive.ofLine line) = .error e) :
      Processes files depth number (line :: rest) s [] (.error e)
  | skipped {depth number : Nat} {line : List Char} {rest : List (List Char)} {path : String}
      {s : PreprocessState} {asked : List String} {r : PreprocessResult}
      (hline : Directive.ofLine line = .inclusion path)
      (hskipped : s.active = false ∨ path ∈ s.included)
      (hrest : Processes files depth (number + 1) rest s asked r) :
      Processes files depth number (line :: rest) s asked r
  | tooDeep {depth number : Nat} {line : List Char} {rest : List (List Char)} {path : String}
      {s : PreprocessState} (hline : Directive.ofLine line = .inclusion path)
      (hactive : s.active = true) (hnew : path ∉ s.included) (hdepth : maxDepth ≤ depth) :
      Processes files depth number (line :: rest) s [] (.error (.includeTooDeep path))
  | missing {depth number : Nat} {line : List Char} {rest : List (List Char)} {path : String}
      {s : PreprocessState} (hline : Directive.ofLine line = .inclusion path)
      (hactive : s.active = true) (hnew : path ∉ s.included) (hdepth : depth < maxDepth)
      (hfile : files path = none) :
      Processes files depth number (line :: rest) s [path] (.error (.includeNotFound path))
  | entered {depth number : Nat} {line : List Char} {rest emitted : List (List Char)}
      {path text : String} {s s₁ : PreprocessState} {asked more : List String}
      {r : PreprocessResult} (hline : Directive.ofLine line = .inclusion path)
      (hactive : s.active = true) (hnew : path ∉ s.included) (hdepth : depth < maxDepth)
      (hfile : files path = some text)
      (hinner : Processes files (depth + 1) 1 (Text.linesOf text)
        { s with included := path :: s.included } asked (.ok (emitted, s₁)))
      (hrest : Processes files depth (number + 1) rest s₁ more r) :
      Processes files depth number (line :: rest) s (path :: (asked ++ more))
        (r.map fun r => (emitted ++ r.1, r.2))
  | aborted {depth number : Nat} {line : List Char} {rest : List (List Char)}
      {path text : String} {s : PreprocessState} {asked : List String} {e : PreprocessError}
      (hline : Directive.ofLine line = .inclusion path)
      (hactive : s.active = true) (hnew : path ∉ s.included) (hdepth : depth < maxDepth)
      (hfile : files path = some text)
      (hinner : Processes files (depth + 1) 1 (Text.linesOf text)
        { s with included := path :: s.included } asked (.error e)) :
      Processes files depth number (line :: rest) s (path :: asked) (.error e)

section Processing

variable {files : String → Option String}

/-- A first line and the lines after it are processed in finitely many steps, if these and
every file that may still be entered are. -/
theorem exists_processes_cons {depth budget : Nat} (hbudget : depth + budget = maxDepth)
    {rest : List (List Char)}
    (hinner : ∀ b, budget = b + 1 → ∀ text s, ∃ asked, Processes files (depth + 1) 1
      (Text.linesOf text) s asked (onLines (enter files b) 1 (Text.linesOf text) s))
    (hrest : ∀ number s, ∃ asked, Processes files depth number rest s asked
      (onLines (enter files budget) number rest s))
    (number : Nat) (line : List Char) (s : PreprocessState) :
    ∃ asked, Processes files depth number (line :: rest) s asked
      (onLines (enter files budget) number (line :: rest) s) := by
  by_cases hline : ∃ path, Directive.ofLine line = .inclusion path
  · obtain ⟨path, hline⟩ := hline
    by_cases hskipped : s.active = false ∨ path ∈ s.included
    · rw [onLines_cons_silent (onLine_skipped hline hskipped _ number)]
      obtain ⟨asked, hasked⟩ := hrest (number + 1) s
      exact ⟨asked, .skipped hline hskipped hasked⟩
    obtain ⟨hactive, hnew⟩ := not_or.mp hskipped
    rw [Bool.not_eq_false] at hactive
    have hfirst := onLine_entered hline hactive hnew (enter files budget) number
    cases budget with
    | zero =>
        rw [onLines_cons_error hfirst]
        exact ⟨[], .tooDeep hline hactive hnew (Nat.le_of_eq hbudget.symm)⟩
    | succ b =>
        have hdepth : depth < maxDepth := by omega
        cases hfile : files path with
        | none =>
            rw [onLines_cons_error (hfirst.trans (enter_of_missing hfile b _))]
            exact ⟨[path], .missing hline hactive hnew hdepth hfile⟩
        | some text =>
            rw [enter_of_file hfile] at hfirst
            obtain ⟨asked, hasked⟩ := hinner b rfl text { s with included := path :: s.included }
            cases hresult : onLines (enter files b) 1 (Text.linesOf text)
                { s with included := path :: s.included } with
            | error e =>
                rw [hresult] at hasked
                rw [onLines_cons_error (hfirst.trans hresult)]
                exact ⟨path :: asked, .aborted hline hactive hnew hdepth hfile hasked⟩
            | ok r =>
                obtain ⟨emitted, s₁⟩ := r
                rw [hresult] at hasked
                rw [onLines_cons_ok (hfirst.trans hresult)]
                obtain ⟨more, hmore⟩ := hrest (number + 1) s₁
                exact ⟨path :: (asked ++ more),
                  .entered hline hactive hnew hdepth hfile hasked hmore⟩
  · rw [not_exists] at hline
    have hfirst := onLine_of_not_inclusion hline (enter files budget) number s
    cases hresult : s.obey number line (Directive.ofLine line) with
    | error e =>
        rw [onLines_cons_error (hfirst.trans hresult)]
        exact ⟨[], .failed hline hresult⟩
    | ok r =>
        obtain ⟨emitted, s₁⟩ := r
        rw [onLines_cons_ok (hfirst.trans hresult)]
        obtain ⟨asked, hasked⟩ := hrest (number + 1) s₁
        exact ⟨asked, .obeyed hline hresult hasked⟩

/-- Lines are processed in finitely many steps, with the outcome of the bounded recursion. -/
theorem exists_processes (files : String → Option String) {depth budget : Nat}
    (hbudget : depth + budget = maxDepth)
    (number : Nat) (lines : List (List Char)) (s : PreprocessState) :
    ∃ asked, Processes files depth number lines s asked
      (onLines (enter files budget) number lines s) := by
  -- The nesting that is left carries the induction, and within a file its lines do.
  induction budget using Nat.strong_induction_on generalizing depth number lines s with
  | _ budget ihbudget =>
      induction lines generalizing number s with
      | nil => exact ⟨[], .done depth number s⟩
      | cons line rest ih =>
          refine exists_processes_cons hbudget (fun b hb text s => ?_) ih number line s
          subst hb
          exact ihbudget b (Nat.lt_succ_self b) (by omega) 1 (Text.linesOf text) s

/-- The rules leave no choice: the outcome is that of the bounded recursion. -/
theorem Processes.eq_onLines {depth number budget : Nat} {lines : List (List Char)}
    {s : PreprocessState} {asked : List String} {r : PreprocessResult}
    (h : Processes files depth number lines s asked r) (hbudget : depth + budget = maxDepth) :
    r = onLines (enter files budget) number lines s := by
  induction h generalizing budget with
  | done depth number s => rfl
  | obeyed hline hobeyed _ ih =>
      rw [onLines_cons_ok ((onLine_of_not_inclusion hline _ _ _).trans hobeyed), ← ih hbudget]
  | failed hline hfailed =>
      rw [onLines_cons_error ((onLine_of_not_inclusion hline _ _ _).trans hfailed)]
  | skipped hline hskipped _ ih =>
      rw [onLines_cons_silent (onLine_skipped hline hskipped _ _), ← ih hbudget]
  | tooDeep hline hactive hnew hdepth =>
      have hzero : budget = 0 := by omega
      subst hzero
      rw [onLines_cons_error (onLine_entered hline hactive hnew _ _)]
  | missing hline hactive hnew hdepth hfile =>
      obtain ⟨b, rfl⟩ := Nat.exists_eq_add_one_of_ne_zero (n := budget) (by omega)
      rw [onLines_cons_error ((onLine_entered hline hactive hnew _ _).trans
        (enter_of_missing hfile b _))]
  | entered hline hactive hnew hdepth hfile _ _ ihinner ihrest =>
      obtain ⟨b, rfl⟩ := Nat.exists_eq_add_one_of_ne_zero (n := budget) (by omega)
      have hinner := @ihinner b (by omega)
      rw [onLines_cons_ok ((onLine_entered hline hactive hnew _ _).trans
        ((enter_of_file hfile b _).trans hinner.symm)), ← ihrest hbudget]
  | aborted hline hactive hnew hdepth hfile _ ih =>
      obtain ⟨b, rfl⟩ := Nat.exists_eq_add_one_of_ne_zero (n := budget) (by omega)
      have hinner := @ih b (by omega)
      rw [onLines_cons_error ((onLine_entered hline hactive hnew _ _).trans
        ((enter_of_file hfile b _).trans hinner.symm))]

/-! ## Looking up files -/

/-- Of the paths that are looked up while lines are processed, none is looked up twice or was
included before, and all are included afterwards. -/
structure AsksOnce (s : PreprocessState) (asked : List String) (r : PreprocessResult) : Prop where
  nodup : asked.Nodup
  fresh : ∀ path ∈ asked, path ∉ s.included
  kept : ∀ emitted s', r = .ok (emitted, s') →
    ∀ path, path ∈ s.included ∨ path ∈ asked → path ∈ s'.included

/-- A failure asks for nothing. -/
theorem AsksOnce.of_error (s : PreprocessState) (e : PreprocessError) :
    AsksOnce s [] (.error e) :=
  ⟨List.nodup_nil, nofun, nofun⟩

/-- What is emitted before has no influence on what is looked up. -/
theorem AsksOnce.map {s s₁ : PreprocessState} {asked : List String} {r : PreprocessResult}
    (h : AsksOnce s₁ asked r) (hincluded : s₁.included = s.included)
    (emitted : List (List Char)) :
    AsksOnce s asked (r.map fun r => (emitted ++ r.1, r.2)) := by
  refine ⟨h.nodup, hincluded ▸ h.fresh, fun all s' hr => ?_⟩
  cases r with
  | error e => cases hr
  | ok r =>
      cases hr
      exact hincluded ▸ h.kept r.1 r.2 rfl

/-- No path is looked up twice. -/
theorem Processes.asksOnce {depth number : Nat} {lines : List (List Char)}
    {s : PreprocessState} {asked : List String} {r : PreprocessResult}
    (h : Processes files depth number lines s asked r) : AsksOnce s asked r := by
  induction h with
  | done depth number s =>
      refine ⟨List.nodup_nil, nofun, fun emitted s' hr path hpath => ?_⟩
      cases hr
      simpa using hpath
  | obeyed _ hobeyed _ ih => exact ih.map (included_of_obey hobeyed) _
  | failed _ _ => exact .of_error _ _
  | skipped _ _ _ ih => exact ih
  | tooDeep _ _ _ _ => exact .of_error _ _
  | missing _ _ hnew _ _ => exact ⟨List.nodup_singleton _, by simpa using hnew, nofun⟩
  | @entered _ _ _ _ _ path _ s s₁ asked more r _ _ hnew _ _ _ _ ihinner ihrest =>
      -- What the file asks for is included behind it, so the lines after it ask for others.
      have hkept := ihinner.kept _ s₁ rfl
      have hpath : path ∉ asked := fun hmem => ihinner.fresh path hmem List.mem_cons_self
      have hpath' : path ∉ more := fun hmem =>
        ihrest.fresh path hmem (hkept path (Or.inl List.mem_cons_self))
      have hdisjoint : List.Disjoint asked more := fun p hp hp' =>
        ihrest.fresh p hp' (hkept p (Or.inr hp))
      refine ⟨?_, ?_, ?_⟩
      · rw [List.nodup_cons, List.mem_append, List.nodup_append']
        exact ⟨not_or.mpr ⟨hpath, hpath'⟩, ihinner.nodup, ihrest.nodup, hdisjoint⟩
      · intro p hp hmem
        rcases List.mem_cons.mp hp with rfl | hp
        · exact hnew hmem
        · rcases List.mem_append.mp hp with hp | hp
          · exact ihinner.fresh p hp (List.mem_cons_of_mem path hmem)
          · exact ihrest.fresh p hp (hkept p (Or.inl (List.mem_cons_of_mem path hmem)))
      · intro emitted s' hr p hp
        cases r with
        | error e => cases hr
        | ok r =>
            cases hr
            refine ihrest.kept r.1 r.2 rfl p ?_
            rw [List.mem_cons, List.mem_append] at hp
            rcases hp with hp | rfl | hp | hp
            · exact Or.inl (hkept p (Or.inl (List.mem_cons_of_mem path hp)))
            · exact Or.inl (hkept p (Or.inl List.mem_cons_self))
            · exact Or.inl (hkept p (Or.inr hp))
            · exact Or.inr hp
  | aborted _ _ hnew _ _ _ ih =>
      refine ⟨List.nodup_cons.mpr ⟨fun hmem => ih.fresh _ hmem List.mem_cons_self, ih.nodup⟩,
        ?_, nofun⟩
      intro p hp hmem
      rcases List.mem_cons.mp hp with rfl | hp
      · exact hnew hmem
      · exact ih.fresh p hp (List.mem_cons_of_mem _ hmem)

/-! ## Chains of files -/

/-- While lines are processed from a state, with a bound on nested inclusions, an active
directive names a path for the first time; its file begins in another state. -/
def Includes (files : String → Option String) (budget number : Nat) (lines : List (List Char))
    (s : PreprocessState) (path : String) (s' : PreprocessState) : Prop :=
  ∃ before line after emitted s₁, lines = before ++ line :: after ∧
    onLines (enter files budget) number before s = .ok (emitted, s₁) ∧
    Directive.ofLine line = .inclusion path ∧ s₁.active = true ∧ path ∉ s₁.included ∧
    s' = { s₁ with included := path :: s₁.included }

/-- Paths in a chain: the first is included while lines are processed, and each next one
while the file of the one before is. -/
inductive IncludeChain (files : String → Option String) :
    (budget number : Nat) → List (List Char) → PreprocessState → List String → Prop where
  | last {budget number : Nat} {lines : List (List Char)} {s s' : PreprocessState}
      {path : String} (h : Includes files budget number lines s path s') :
      IncludeChain files budget number lines s [path]
  | next {budget number : Nat} {lines : List (List Char)} {s s' : PreprocessState}
      {path text : String} {chain : List String}
      (h : Includes files (budget + 1) number lines s path s') (hfile : files path = some text)
      (hchain : IncludeChain files budget 1 (Text.linesOf text) s' chain) :
      IncludeChain files (budget + 1) number lines s (path :: chain)

/-- What is included after a first line is included by all lines. -/
theorem Includes.cons {budget number : Nat} {line : List Char} {rest emitted : List (List Char)}
    {s s₁ s' : PreprocessState} {path : String}
    (hfirst : onLine (enter files budget) number line s = .ok (emitted, s₁))
    (h : Includes files budget (number + 1) rest s₁ path s') :
    Includes files budget number (line :: rest) s path s' := by
  obtain ⟨before, line', after, more, s₂, rfl, hbefore, hline⟩ := h
  refine ⟨line :: before, line', after, emitted ++ more, s₂, rfl, ?_, hline⟩
  rw [onLines_cons_ok hfirst, hbefore]
  rfl

/-- A chain below the lines after the first one is a chain below all lines. -/
theorem IncludeChain.cons {budget number : Nat} {line : List Char}
    {rest emitted : List (List Char)} {s s₁ : PreprocessState} {chain : List String}
    (hfirst : onLine (enter files budget) number line s = .ok (emitted, s₁))
    (h : IncludeChain files budget (number + 1) rest s₁ chain) :
    IncludeChain files budget number (line :: rest) s chain := by
  cases h with
  | last h => exact .last (h.cons hfirst)
  | next h hfile hchain => exact .next (h.cons hfirst) hfile hchain

/-- What was included before a path is entered is included, and the path is new. -/
theorem Includes.included {budget number : Nat} {lines : List (List Char)}
    {s s' : PreprocessState} {path : String} (h : Includes files budget number lines s path s') :
    path ∉ s.included ∧ path ∈ s'.included ∧ s.included ⊆ s'.included := by
  obtain ⟨before, line, after, emitted, s₁, -, hbefore, -, -, hnew, rfl⟩ := h
  have hsubset := (onLines_included_suffix hbefore).subset
  exact ⟨fun hmem => hnew (hsubset hmem), List.mem_cons_self,
    fun p hp => List.mem_cons_of_mem path (hsubset hp)⟩

/-- The paths of a chain are different, and none was included before. -/
theorem IncludeChain.nodup {budget number : Nat} {lines : List (List Char)}
    {s : PreprocessState} {chain : List String}
    (h : IncludeChain files budget number lines s chain) :
    chain.Nodup ∧ ∀ path ∈ chain, path ∉ s.included := by
  induction h with
  | last h => exact ⟨List.nodup_singleton _, by simpa using h.included.1⟩
  | next h _ _ ih =>
      obtain ⟨hnew, hmem, hsubset⟩ := h.included
      obtain ⟨hnodup, hfresh⟩ := ih
      refine ⟨List.nodup_cons.mpr ⟨fun hchain => hfresh _ hchain hmem, hnodup⟩, ?_⟩
      rw [List.forall_mem_cons]
      exact ⟨hnew, fun p hp hp' => hfresh p hp (hsubset hp')⟩

/-- Processing ends with the failure of the file that is included. -/
theorem Includes.onLines_eq_error {budget number : Nat} {lines : List (List Char)}
    {s s' : PreprocessState} {path : String} {e : PreprocessError}
    (h : Includes files budget number lines s path s')
    (hfailed : enter files budget path s' = .error e) :
    onLines (enter files budget) number lines s = .error e := by
  obtain ⟨before, line, after, emitted, s₁, rfl, hbefore, hline, hactive, hnew, rfl⟩ := h
  exact onLines_append_cons_error hbefore ((onLine_entered hline hactive hnew _ _).trans hfailed)

/-- Below a chain that is longer than the bound, processing fails for its depth. -/
theorem IncludeChain.onLines_tooDeep {budget number : Nat} {lines : List (List Char)}
    {s : PreprocessState} {chain : List String} {path : String}
    (h : IncludeChain files budget number lines s chain) (hlength : chain.length = budget + 1)
    (hlast : chain.getLast? = some path) :
    onLines (enter files budget) number lines s = .error (.includeTooDeep path) := by
  induction h with
  | @last budget number lines s s' path' h =>
      cases hlast
      have hzero : budget = 0 := by simpa using hlength.symm
      subst hzero
      exact h.onLines_eq_error rfl
  | @next _ _ _ _ _ _ _ chain h hfile _ ih =>
      rw [List.length_cons, Nat.add_right_cancel_iff] at hlength
      obtain ⟨next, more, rfl⟩ := List.exists_cons_of_length_eq_add_one hlength
      rw [List.getLast?_cons_cons] at hlast
      exact h.onLines_eq_error ((enter_of_file hfile _ _).trans (ih hlength hlast))

/-- A line that fails for its depth includes a file that does. -/
theorem exists_includes_of_tooDeep {budget number : Nat} {line : List Char}
    {s : PreprocessState} {path : String}
    (h : onLine (enter files budget) number line s = .error (.includeTooDeep path))
    (rest : List (List Char)) :
    ∃ path' s', Includes files budget number (line :: rest) s path' s' ∧
      enter files budget path' s' = .error (.includeTooDeep path) := by
  by_cases hline : ∃ path', Directive.ofLine line = .inclusion path'
  · obtain ⟨path', hline⟩ := hline
    by_cases hskipped : s.active = false ∨ path' ∈ s.included
    · rw [onLine_skipped hline hskipped] at h
      cases h
    · obtain ⟨hactive, hnew⟩ := not_or.mp hskipped
      rw [Bool.not_eq_false] at hactive
      rw [onLine_entered hline hactive hnew] at h
      exact ⟨path', _, ⟨[], line, rest, [], s, rfl, rfl, hline, hactive, hnew, rfl⟩, h⟩
  · rw [onLine_of_not_inclusion (not_exists.mp hline)] at h
    exact absurd h (obey_ne_tooDeep s number line path)

/-- Processing that fails for its depth does so below a chain that is longer than the
bound. -/
theorem exists_chain_of_tooDeep {budget number : Nat} {lines : List (List Char)}
    {s : PreprocessState} {path : String}
    (h : onLines (enter files budget) number lines s = .error (.includeTooDeep path)) :
    ∃ chain, IncludeChain files budget number lines s chain ∧ chain.length = budget + 1 ∧
      chain.getLast? = some path := by
  induction budget using Nat.strong_induction_on generalizing number lines s with
  | _ budget ihbudget =>
      induction lines generalizing number s with
      | nil => cases h
      | cons line rest ih =>
          cases hfirst : onLine (enter files budget) number line s with
          | ok r =>
              rw [onLines_cons_ok hfirst] at h
              cases hrest : onLines (enter files budget) (number + 1) rest r.2 with
              | ok r' =>
                  rw [hrest] at h
                  cases h
              | error e =>
                  rw [hrest] at h
                  cases h
                  obtain ⟨chain, hchain, hproperties⟩ := ih hrest
                  exact ⟨chain, hchain.cons hfirst, hproperties⟩
          | error e =>
              rw [onLines_cons_error hfirst] at h
              cases h
              obtain ⟨path', s', hincludes, hentered⟩ := exists_includes_of_tooDeep hfirst rest
              cases budget with
              | zero =>
                  cases hentered
                  exact ⟨[path], .last hincludes, rfl, rfl⟩
              | succ b =>
                  cases hfile : files path' with
                  | none =>
                      rw [enter_of_missing hfile] at hentered
                      cases hentered
                  | some text =>
                      rw [enter_of_file hfile] at hentered
                      obtain ⟨chain, hchain, hlength, hlast⟩ :=
                        ihbudget b (Nat.lt_succ_self b) hentered
                      refine ⟨path' :: chain, .next hincludes hfile hchain, ?_, ?_⟩
                      · rw [List.length_cons, hlength]
                      · rw [List.getLast?_cons, hlast]
                        rfl

/-- Processing fails for its depth exactly below a chain that is longer than the bound. -/
theorem onLines_tooDeep_iff {budget number : Nat} {lines : List (List Char)}
    {s : PreprocessState} {path : String} :
    onLines (enter files budget) number lines s = .error (.includeTooDeep path) ↔
      ∃ chain, IncludeChain files budget number lines s chain ∧ chain.length = budget + 1 ∧
        chain.getLast? = some path :=
  ⟨exists_chain_of_tooDeep, fun ⟨_, hchain, hlength, hlast⟩ => hchain.onLines_tooDeep hlength hlast⟩

end Processing

/-! ## Paths in reach -/

/-- A path is in reach of lines: one of them includes it, or a line of a file in reach. -/
inductive InReach (files : String → Option String) (lines : List (List Char)) :
    String → Prop where
  | direct {line : List Char} {path : String} (hmem : line ∈ lines)
      (hline : Directive.ofLine line = .inclusion path) : InReach files lines path
  | next {line : List Char} {path text path' : String} (h : InReach files lines path)
      (hfile : files path = some text) (hmem : line ∈ Text.linesOf text)
      (hline : Directive.ofLine line = .inclusion path') : InReach files lines path'

/-- The paths of a chain are in reach if the directly included ones are. -/
theorem IncludeChain.inReach {files : String → Option String} {source : List (List Char)}
    {budget number : Nat} {lines : List (List Char)} {s : PreprocessState}
    {chain : List String} (h : IncludeChain files budget number lines s chain)
    (hlines : ∀ line ∈ lines, ∀ path, Directive.ofLine line = .inclusion path →
      InReach files source path) :
    ∀ path ∈ chain, InReach files source path := by
  have hincludes : ∀ {budget number : Nat} {lines : List (List Char)} {s s' : PreprocessState}
      {path : String}, Includes files budget number lines s path s' →
      ∃ line ∈ lines, Directive.ofLine line = .inclusion path := by
    rintro budget number lines s s' path ⟨before, line, after, _, _, rfl, _, hline, _⟩
    exact ⟨line, by simp, hline⟩
  induction h with
  | last h =>
      obtain ⟨line, hmem, hline⟩ := hincludes h
      simpa using hlines line hmem _ hline
  | next h hfile _ ih =>
      obtain ⟨line, hmem, hline⟩ := hincludes h
      have hpath := hlines line hmem _ hline
      rw [List.forall_mem_cons]
      exact ⟨hpath, ih fun line' hmem' path' hline' => .next hpath hfile hmem' hline'⟩

/-! ## Runs -/

/-- A run on a source: the paths that are looked up, in order, and the result. -/
inductive Runs (files : String → Option String) (macros : Macros) (source : String) :
    List String → Except PreprocessError String → Prop where
  | closed {asked : List String} {emitted : List (List Char)} {s : PreprocessState}
      (h : Processes files 0 1 (Text.linesOf source) ⟨macros, [], []⟩ asked (.ok (emitted, s)))
      (hstack : s.stack = []) :
      Runs files macros source asked (.ok (String.ofList (Text.unlines emitted)))
  | unclosed {asked : List String} {emitted : List (List Char)} {s : PreprocessState}
      (h : Processes files 0 1 (Text.linesOf source) ⟨macros, [], []⟩ asked (.ok (emitted, s)))
      (hstack : s.stack ≠ []) :
      Runs files macros source asked
        (.error (.unbalancedConditional (Text.linesOf source).length))
  | failed {asked : List String} {e : PreprocessError}
      (h : Processes files 0 1 (Text.linesOf source) ⟨macros, [], []⟩ asked (.error e)) :
      Runs files macros source asked (.error e)

section Runs

variable {files : String → Option String} {macros : Macros} {source : String}

/-- Every run ends, with the result of the bounded recursion. -/
theorem exists_runs (files : String → Option String) (macros : Macros) (source : String) :
    ∃ asked, Runs files macros source asked (run files macros source) := by
  obtain ⟨asked, hasked⟩ := exists_processes files (Nat.zero_add maxDepth) 1
    (Text.linesOf source) ⟨macros, [], []⟩
  refine ⟨asked, ?_⟩
  cases hresult : onLines (enter files maxDepth) 1 (Text.linesOf source) ⟨macros, [], []⟩ with
  | error e =>
      rw [hresult] at hasked
      rw [run_of_error hresult]
      exact .failed hasked
  | ok r =>
      obtain ⟨emitted, s⟩ := r
      rw [hresult] at hasked
      rw [run_of_ok hresult]
      split
      · rename_i hstack
        exact .closed hasked hstack
      · rename_i hstack
        exact .unclosed hasked hstack

/-- A run looks up no path twice, and the rules leave it no choice. -/
theorem Runs.spec {asked : List String} {r : Except PreprocessError String}
    (h : Runs files macros source asked r) :
    r = run files macros source ∧ asked.Nodup := by
  cases h with
  | closed h hstack =>
      rw [run_of_ok (h.eq_onLines (Nat.zero_add maxDepth)).symm, if_pos hstack]
      exact ⟨rfl, h.asksOnce.nodup⟩
  | unclosed h hstack =>
      rw [run_of_ok (h.eq_onLines (Nat.zero_add maxDepth)).symm, if_neg hstack]
      exact ⟨rfl, h.asksOnce.nodup⟩
  | failed h =>
      rw [run_of_error (h.eq_onLines (Nat.zero_add maxDepth)).symm]
      exact ⟨rfl, h.asksOnce.nodup⟩

/-- A run fails for its depth if its lines do. -/
theorem run_eq_tooDeep_iff {path : String} :
    run files macros source = .error (.includeTooDeep path) ↔
      onLines (enter files maxDepth) 1 (Text.linesOf source) ⟨macros, [], []⟩ =
        .error (.includeTooDeep path) := by
  constructor
  · intro h
    cases hresult : onLines (enter files maxDepth) 1 (Text.linesOf source) ⟨macros, [], []⟩ with
    | error e =>
        rw [run_of_error hresult] at h
        cases h
        rfl
    | ok r =>
        rw [run_of_ok hresult] at h
        split at h <;> cases h
  · exact run_of_error

/-- Paths among which those of every chain are, and no more than can be nested, are enough to
keep a run from failing for its depth. -/
theorem run_ne_tooDeep {paths : Set String} (hcard : paths.encard ≤ maxDepth)
    (hpaths : ∀ chain, IncludeChain files maxDepth 1 (Text.linesOf source) ⟨macros, [], []⟩ chain →
      ∀ path ∈ chain, path ∈ paths) (path : String) :
    run files macros source ≠ .error (.includeTooDeep path) := by
  classical
  intro h
  obtain ⟨chain, hchain, hlength, -⟩ := onLines_tooDeep_iff.mp (run_eq_tooDeep_iff.mp h)
  have hsubset : (chain.toFinset : Set String) ⊆ paths := fun p hp =>
    hpaths chain hchain p (by simpa using hp)
  have hle := (Set.encard_le_encard hsubset).trans hcard
  rw [Set.encard_coe_eq_coe_finsetCard, List.toFinset_card_of_nodup hchain.nodup.1,
    hlength] at hle
  exact absurd (Nat.cast_le.mp hle) (Nat.not_succ_le_self maxDepth)

/-- Every run ends and looks up each path at most once.  It fails for its depth at a path
exactly if there is a chain of thirty-three different paths that ends in it, the first of them
included by an active directive of the source and each next one by an active directive of the
file of the one before.  So it does not if no more than thirty-two paths are ever included by
active directives, and least of all if no more are in reach, whatever their cycles. -/
theorem run_inclusions (files : String → Option String) (macros : Macros) (source : String) :
    (∃ asked, Runs files macros source asked (run files macros source)) ∧
    (∀ asked r, Runs files macros source asked r →
      r = run files macros source ∧ asked.Nodup) ∧
    (∀ path, run files macros source = .error (.includeTooDeep path) ↔
      ∃ chain, IncludeChain files maxDepth 1 (Text.linesOf source) ⟨macros, [], []⟩ chain ∧
        chain.length = 33 ∧ chain.Nodup ∧ chain.getLast? = some path) ∧
    ({path | ∃ chain, IncludeChain files maxDepth 1 (Text.linesOf source) ⟨macros, [], []⟩ chain ∧
      path ∈ chain}.encard ≤ 32 →
        ∀ path, run files macros source ≠ .error (.includeTooDeep path)) ∧
    ({path | InReach files (Text.linesOf source) path}.encard ≤ 32 →
      ∀ path, run files macros source ≠ .error (.includeTooDeep path)) := by
  refine ⟨exists_runs files macros source, fun asked r h => h.spec, fun path => ?_, ?_, ?_⟩
  · rw [run_eq_tooDeep_iff, onLines_tooDeep_iff]
    refine exists_congr fun chain => ⟨?_, ?_⟩
    · rintro ⟨hchain, hlength, hlast⟩
      exact ⟨hchain, hlength, hchain.nodup.1, hlast⟩
    · rintro ⟨hchain, hlength, -, hlast⟩
      exact ⟨hchain, hlength, hlast⟩
  · exact fun hcard => run_ne_tooDeep hcard fun chain hchain path hpath => ⟨chain, hchain, hpath⟩
  · exact fun hcard => run_ne_tooDeep hcard fun chain hchain path hpath =>
      hchain.inReach (fun line hmem p hline => .direct hmem hline) path hpath

end Runs

end Preprocess
end ShaderAssets
