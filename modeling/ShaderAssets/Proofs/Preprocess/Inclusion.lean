import ShaderAssets.Proofs.Preprocess.Refinement

/-!
# Inclusion is substitution

An included file is processed in place of the line that includes it, with the names
defined so far and the groups open so far.  So a run does what it would do on the
lines that result when each inclusion that is reached is replaced by the lines of its
file, and every other inclusion is deleted.  Which inclusions are reached depends on
the definitions made on the way, those of included files among them; an included file
may open and close groups of the file around it.

The relation between the lines with and without inclusions speaks of the states in
between, but neither of depth nor of what is emitted.  A path is replaced once, so
files that include each other make no difference.

Main results:

- Inductive {lit}`Flattens`: replacing and deleting inclusions.
- Theorem {lit}`onLines_expands`: lines that are processed can be flattened, and the
  flat lines are processed in the same way.
- Theorem {lit}`onLines_congr_files`: only files in active branches are looked up.
- Theorem {lit}`run_flatten`: a run is a run on flat lines without any files.
-/

namespace ShaderAssets

/-- Whether a directive asks for another file. -/
def Directive.includes : Directive → Bool
  | .inclusion _ => true
  | .malformedInclusion _ => true
  | _ => false

namespace Preprocess

/-! ## Flat lines -/

/-- Lines that begin in a state, the same lines without inclusions, and the state in
which they end.  Of the inclusions, those in an active branch that name a path for the
first time are replaced, and the others are deleted. -/
inductive Flattens (files : String → Option String) :
    PreprocessState → List (List Char) → List (List Char) → PreprocessState → Prop where
  | nil (s : PreprocessState) : Flattens files s [] [] s
  | replaced {s s₁ s₂ : PreprocessState} {line : List Char} {rest inner more : List (List Char)}
      {path text : String} (hline : Directive.ofLine line = .inclusion path)
      (hactive : s.active = true) (hnew : path ∉ s.included) (hfile : files path = some text)
      (hinner : Flattens files { s with included := path :: s.included } (Text.linesOf text)
        inner s₁)
      (hrest : Flattens files s₁ rest more s₂) :
      Flattens files s (line :: rest) (inner ++ more) s₂
  | deleted {s s₁ : PreprocessState} {line : List Char} {rest more : List (List Char)}
      (hline : (Directive.ofLine line).includes = true)
      (hskipped : s.active = false ∨
        ∃ path ∈ s.included, Directive.ofLine line = .inclusion path)
      (hrest : Flattens files s rest more s₁) : Flattens files s (line :: rest) more s₁
  | kept {s s₁ s₂ : PreprocessState} {line : List Char} {rest more emitted : List (List Char)}
      (number : Nat) (hline : (Directive.ofLine line).includes = false)
      (hobeyed : s.obey number line (Directive.ofLine line) = .ok (emitted, s₁))
      (hrest : Flattens files s₁ rest more s₂) :
      Flattens files s (line :: rest) (line :: more) s₂

/-! ## Lines without inclusions -/

/-- A line that includes nothing is obeyed. -/
theorem onLine_of_not_includes {line : List Char}
    (hline : (Directive.ofLine line).includes = false)
    (enter : String → PreprocessState → PreprocessResult) (number : Nat)
    (s : PreprocessState) :
    onLine enter number line s = s.obey number line (Directive.ofLine line) := by
  unfold onLine
  split
  · rename_i path hpath
    rw [hpath] at hline
    cases hline
  · rfl

/-- The included paths have no influence on what a line does, and stay as they are. -/
theorem obey_included (s : PreprocessState) (number : Nat) (line : List Char)
    (directive : Directive) (included : List String) :
    PreprocessState.obey { s with included := included } number line directive =
      (s.obey number line directive).map fun r => (r.1, { r.2 with included := included }) := by
  have hactive : PreprocessState.active { s with included := included } = s.active := rfl
  have hevaluate : ∀ text, PreprocessState.evaluate { s with included := included } number text =
      s.evaluate number text := fun _ => rfl
  cases directive with
  | condition text =>
      simp only [PreprocessState.obey, hactive, hevaluate]
      split
      · cases s.evaluate number text <;> rfl
      · rfl
  | otherwiseIf text =>
      simp only [PreprocessState.obey, hevaluate]
      split
      · rfl
      · split
        · cases s.evaluate number text <;> rfl
        · rfl
  | malformedInclusion argument =>
      simp only [PreprocessState.obey, hactive]
      split <;> rfl
  | define name value =>
      simp only [PreprocessState.obey, hactive]
      split <;> rfl
  | undefine name =>
      simp only [PreprocessState.obey, hactive]
      split <;> rfl
  | otherwise =>
      simp only [PreprocessState.obey]
      split <;> rfl
  | endIf =>
      simp only [PreprocessState.obey]
      split <;> rfl
  | text => rfl
  | inclusion path => rfl
  | ifDefined name expected => rfl

/-- The number of a line matters for errors only. -/
theorem obey_number {s : PreprocessState} {number : Nat} {line : List Char}
    {directive : Directive} {r : List (List Char) × PreprocessState}
    (h : s.obey number line directive = .ok r) (number' : Nat) :
    s.obey number' line directive = .ok r := by
  have hevaluate : ∀ {text : String} {holds : Bool}, s.evaluate number text = .ok holds →
      s.evaluate number' text = .ok holds := by
    intro text holds hholds
    unfold PreprocessState.evaluate at hholds ⊢
    split at hholds
    · rename_i b hb
      simpa only [hb] using hholds
    · cases hholds
  cases directive with
  | condition text =>
      simp only [PreprocessState.obey] at h ⊢
      split at h
      · rename_i hactive
        cases hholds : s.evaluate number text with
        | error e =>
            rw [hholds] at h
            cases h
        | ok holds =>
            rw [hholds] at h
            rw [if_pos hactive, hevaluate hholds]
            exact h
      · rename_i hinactive
        rw [if_neg hinactive]
        exact h
  | otherwiseIf text =>
      simp only [PreprocessState.obey] at h ⊢
      split at h
      · cases h
      · rename_i frame outer hstack
        split at h
        · rename_i hopen
          cases hholds : s.evaluate number text with
          | error e =>
              rw [hholds] at h
              cases h
          | ok holds =>
              rw [hholds] at h
              simp only [hopen, if_true, hevaluate hholds]
              exact h
        · rename_i hclosed
          simp only [if_neg hclosed]
          exact h
  | otherwise =>
      simp only [PreprocessState.obey] at h ⊢
      split at h
      · cases h
      · exact h
  | endIf =>
      simp only [PreprocessState.obey] at h ⊢
      split at h
      · cases h
      · exact h
  | _ => exact h

/-- A line without inclusion leaves the included paths as they are. -/
theorem included_of_obey {s s' : PreprocessState} {number : Nat} {line : List Char}
    {directive : Directive} {emitted : List (List Char)}
    (h : s.obey number line directive = .ok (emitted, s')) : s'.included = s.included := by
  have hsame := obey_included s number line directive s.included
  rw [h] at hsame
  exact congrArg (fun r => r.2.included) (Except.ok.inj hsame)

/-! ## Processing flat lines -/

/-- Lines are processed one after the other. -/
theorem onLines_cons_eq_ok {enter : String → PreprocessState → PreprocessResult} {number : Nat}
    {line : List Char} {rest all : List (List Char)} {s s' : PreprocessState} :
    onLines enter number (line :: rest) s = .ok (all, s') ↔
      ∃ emitted s₁ more, onLine enter number line s = .ok (emitted, s₁) ∧
        onLines enter (number + 1) rest s₁ = .ok (more, s') ∧ all = emitted ++ more := by
  rw [onLines]
  constructor
  · intro h
    cases hline : onLine enter number line s with
    | error e =>
        rw [hline] at h
        cases h
    | ok r =>
        obtain ⟨emitted, s₁⟩ := r
        rw [hline] at h
        cases hrest : onLines enter (number + 1) rest s₁ with
        | error e =>
            simp only [bind, Except.bind, hrest] at h
            cases h
        | ok r =>
            obtain ⟨more, s₂⟩ := r
            simp only [bind, Except.bind, hrest] at h
            cases h
            exact ⟨emitted, s₁, more, rfl, hrest, rfl⟩
  · rintro ⟨emitted, s₁, more, hline, hrest, rfl⟩
    rw [hline]
    simp only [bind, Except.bind, hrest]
    rfl

/-- Lines that are processed in one way, whatever files there are, whatever was included
before and wherever the lines stand. -/
def Emits (s : PreprocessState) (lines emitted : List (List Char)) (s' : PreprocessState) : Prop :=
  ∀ (enter : String → PreprocessState → PreprocessResult) (number : Nat)
    (included : List String), onLines enter number lines { s with included := included } =
      .ok (emitted, { s' with included := included })

/-- Two parts that are processed in one way. -/
theorem Emits.append {s s₁ s₂ : PreprocessState} {first second emitted more : List (List Char)}
    (hfirst : Emits s first emitted s₁) (hsecond : Emits s₁ second more s₂) :
    Emits s (first ++ second) (emitted ++ more) s₂ := by
  intro enter number included
  rw [onLines_append, hfirst]
  simp only [bind, Except.bind]
  rw [hsecond enter (number + first.length) included]
  rfl

/-- A line without inclusion is processed in one way. -/
theorem Emits.of_obey {s s' : PreprocessState} {number : Nat} {line : List Char}
    {emitted : List (List Char)} (hline : (Directive.ofLine line).includes = false)
    (h : s.obey number line (Directive.ofLine line) = .ok (emitted, s')) :
    Emits s [line] emitted s' := by
  intro enter number' included
  have hobeyed : PreprocessState.obey { s with included := included } number' line
      (Directive.ofLine line) = .ok (emitted, { s' with included := included }) := by
    rw [obey_included, obey_number h number']
    rfl
  refine onLines_cons_eq_ok.mpr ⟨emitted, _, [], ?_, rfl, (List.append_nil _).symm⟩
  rw [onLine_of_not_includes hline]
  exact hobeyed

/-- Lines expand to flat lines that are processed in one way. -/
def Expands (files : String → Option String) (s : PreprocessState)
    (lines emitted : List (List Char)) (s' : PreprocessState) : Prop :=
  ∃ flat, Flattens files s lines flat s' ∧ Emits s flat emitted s'

/-- What a line with an inclusion does when it is processed: it replaces itself by
what the file gives, or it does nothing. -/
theorem onLine_includes {enter : String → PreprocessState → PreprocessResult} {number : Nat}
    {line : List Char} {s s' : PreprocessState} {emitted : List (List Char)}
    (hline : (Directive.ofLine line).includes = true)
    (h : onLine enter number line s = .ok (emitted, s')) :
    (∃ path, Directive.ofLine line = .inclusion path ∧ s.active = true ∧ path ∉ s.included ∧
        enter path { s with included := path :: s.included } = .ok (emitted, s')) ∨
      ((s.active = false ∨ ∃ path ∈ s.included, Directive.ofLine line = .inclusion path) ∧
        emitted = [] ∧ s' = s) := by
  unfold onLine at h
  split at h
  · rename_i path hpath
    split at h
    · rename_i hentered
      exact Or.inl ⟨path, hpath, hentered.1, hentered.2, h⟩
    · rename_i hskipped
      cases h
      refine Or.inr ⟨?_, rfl, rfl⟩
      cases hactive : s.active with
      | false => exact Or.inl rfl
      | true =>
          have hmem : path ∈ s.included :=
            Decidable.byContradiction fun hnew => hskipped ⟨hactive, hnew⟩
          exact Or.inr ⟨path, hmem, hpath⟩
  · rename_i hother
    cases hdirective : Directive.ofLine line with
    | inclusion path => exact absurd hdirective (hother path)
    | malformedInclusion argument =>
        rw [hdirective, PreprocessState.obey] at h
        split at h
        · cases h
        · rename_i hinactive
          cases h
          exact Or.inr ⟨Or.inl (Bool.eq_false_iff.mpr hinactive), rfl, rfl⟩
    | _ =>
        rw [hdirective] at hline
        cases hline

/-- If the files that are entered expand, so do lines that are processed. -/
theorem onLines_expands_of_enter {files : String → Option String}
    {enter : String → PreprocessState → PreprocessResult}
    (henter : ∀ path s emitted s', enter path s = .ok (emitted, s') →
      ∃ text, files path = some text ∧ Expands files s (Text.linesOf text) emitted s')
    {number : Nat} {lines emitted : List (List Char)} {s s' : PreprocessState}
    (h : onLines enter number lines s = .ok (emitted, s')) : Expands files s lines emitted s' := by
  induction lines generalizing number s emitted with
  | nil =>
      cases h
      exact ⟨[], .nil _, fun _ _ _ => rfl⟩
  | cons line rest ih =>
      obtain ⟨first, s₁, more, hfirst, hrest, rfl⟩ := onLines_cons_eq_ok.mp h
      obtain ⟨flat, hflat, hemits⟩ := ih hrest
      cases hline : (Directive.ofLine line).includes with
      | false =>
          rw [onLine_of_not_includes hline] at hfirst
          exact ⟨[line] ++ flat, .kept number hline hfirst hflat,
            (Emits.of_obey hline hfirst).append hemits⟩
      | true =>
          rcases onLine_includes hline hfirst with
            ⟨path, hpath, hactive, hnew, hentered⟩ | ⟨hskipped, rfl, rfl⟩
          · obtain ⟨text, hfile, inner, hinner, hemits_inner⟩ := henter path _ _ _ hentered
            refine ⟨inner ++ flat, .replaced hpath hactive hnew hfile hinner hflat, ?_⟩
            -- The inner lines begin with one more path included, which flat lines ignore.
            exact Emits.append hemits_inner hemits
          · exact ⟨flat, .deleted hline hskipped hflat, hemits⟩

/-- A file that is entered expands. -/
theorem enter_expands {files : String → Option String} {depth : Nat} {path : String}
    {s s' : PreprocessState} {emitted : List (List Char)}
    (h : enter files depth path s = .ok (emitted, s')) :
    ∃ text, files path = some text ∧ Expands files s (Text.linesOf text) emitted s' := by
  -- The depth carries the induction and leaves no trace in the relation.
  induction depth generalizing path s s' emitted with
  | zero => cases h
  | succ depth ih =>
      rw [enter] at h
      split at h
      · cases h
      · rename_i text hfile
        exact ⟨text, hfile, onLines_expands_of_enter (fun _ _ _ _ hentered => ih hentered) h⟩

/-- Lines that are processed expand to flat lines. -/
theorem onLines_expands {files : String → Option String} {depth number : Nat}
    {lines emitted : List (List Char)} {s s' : PreprocessState}
    (h : onLines (enter files depth) number lines s = .ok (emitted, s')) :
    Expands files s lines emitted s' :=
  onLines_expands_of_enter (fun _ _ _ _ hentered => enter_expands hentered) h

/-! ## What flat lines are -/

namespace Flattens

variable {files : String → Option String} {s s' : PreprocessState}
  {lines flat : List (List Char)}

/-- Flat lines include nothing. -/
theorem not_includes (h : Flattens files s lines flat s') :
    ∀ line ∈ flat, (Directive.ofLine line).includes = false := by
  induction h with
  | nil s => simp
  | replaced _ _ _ _ _ _ ihinner ihrest =>
      intro line hline
      rcases List.mem_append.mp hline with hline | hline
      · exact ihinner line hline
      · exact ihrest line hline
  | deleted _ _ _ ih => exact ih
  | kept _ hkept _ _ ih =>
      intro line hline
      rcases List.mem_cons.mp hline with rfl | hline
      · exact hkept
      · exact ih line hline

/-- Flat lines are lines of the source or of a file that was included. -/
theorem mem_lines (h : Flattens files s lines flat s') : ∀ line ∈ flat, line ∈ lines ∨
    ∃ path text, files path = some text ∧ line ∈ Text.linesOf text := by
  induction h with
  | nil s => simp
  | @replaced _ _ _ _ _ _ _ path text _ _ _ hfile _ _ ihinner ihrest =>
      intro line hline
      rcases List.mem_append.mp hline with hline | hline
      · rcases ihinner line hline with hinner | hother
        · exact Or.inr ⟨path, text, hfile, hinner⟩
        · exact Or.inr hother
      · exact (ihrest line hline).imp_left (List.mem_cons_of_mem _)
  | deleted _ _ _ ih =>
      intro line hline
      exact (ih line hline).imp_left (List.mem_cons_of_mem _)
  | kept _ _ _ _ ih =>
      intro line hline
      rcases List.mem_cons.mp hline with rfl | hline
      · exact Or.inl List.mem_cons_self
      · exact (ih line hline).imp_left (List.mem_cons_of_mem _)

/-- What was included stays included. -/
theorem included_suffix (h : Flattens files s lines flat s') : s.included <:+ s'.included := by
  induction h with
  | nil s => exact List.suffix_refl _
  | replaced _ _ _ _ _ _ ihinner ihrest =>
      exact ((List.suffix_cons _ _).trans ihinner).trans ihrest
  | deleted _ _ _ ih => exact ih
  | kept _ _ hobeyed _ ih => exact included_of_obey hobeyed ▸ ih

/-- Each path is replaced once. -/
theorem included_nodup (h : Flattens files s lines flat s') (hnodup : s.included.Nodup) :
    s'.included.Nodup := by
  induction h with
  | nil s => exact hnodup
  | replaced _ _ hnew _ _ _ ihinner ihrest =>
      exact ihrest (ihinner (List.nodup_cons.mpr ⟨hnew, hnodup⟩))
  | deleted _ _ _ ih => exact ih hnodup
  | kept _ _ hobeyed _ ih => exact ih (included_of_obey hobeyed ▸ hnodup)

/-- Lines have one flattening. -/
theorem unique {s₁ s₂ : PreprocessState} {flat₁ flat₂ : List (List Char)}
    (h₁ : Flattens files s lines flat₁ s₁) (h₂ : Flattens files s lines flat₂ s₂) :
    flat₁ = flat₂ ∧ s₁ = s₂ := by
  -- The rules exclude each other, so both flattenings begin with the same one.
  induction h₁ generalizing flat₂ s₂ with
  | nil s =>
      cases h₂
      exact ⟨rfl, rfl⟩
  | replaced hline hactive hnew hfile _ _ ihinner ihrest =>
      cases h₂ with
      | replaced hline' _ _ hfile' hinner' hrest' =>
          cases hline.symm.trans hline'
          cases hfile.symm.trans hfile'
          obtain ⟨rfl, rfl⟩ := ihinner hinner'
          obtain ⟨rfl, rfl⟩ := ihrest hrest'
          exact ⟨rfl, rfl⟩
      | deleted _ hskipped _ =>
          rcases hskipped with hinactive | ⟨path, hmem, hline'⟩
          · cases hactive.symm.trans hinactive
          · cases hline.symm.trans hline'
            exact absurd hmem hnew
      | kept _ hkept _ _ =>
          rw [hline] at hkept
          cases hkept
  | deleted hincludes hskipped _ ih =>
      cases h₂ with
      | replaced hline hactive hnew _ _ _ =>
          rcases hskipped with hinactive | ⟨path, hmem, hline'⟩
          · cases hactive.symm.trans hinactive
          · cases hline.symm.trans hline'
            exact absurd hmem hnew
      | deleted _ _ hrest => exact ih hrest
      | kept _ hkept _ _ => cases hincludes.symm.trans hkept
  | kept _ hkept hobeyed _ ih =>
      cases h₂ with
      | replaced hline _ _ _ _ _ =>
          rw [hline] at hkept
          cases hkept
      | deleted hincludes _ _ => cases hincludes.symm.trans hkept
      | kept _ _ hobeyed' hrest =>
          cases (obey_number hobeyed _).symm.trans hobeyed'
          obtain ⟨rfl, rfl⟩ := ih hrest
          exact ⟨rfl, rfl⟩

end Flattens

/-! ## The files that matter -/

/-- What was included stays included while lines are processed. -/
theorem onLines_included_suffix {files : String → Option String} {depth number : Nat}
    {lines emitted : List (List Char)} {s s' : PreprocessState}
    (h : onLines (enter files depth) number lines s = .ok (emitted, s')) :
    s.included <:+ s'.included := by
  obtain ⟨flat, hflat, _⟩ := onLines_expands h
  exact hflat.included_suffix

/-- Files that agree on what is included give the same lines, if they do so for each
file that is entered. -/
theorem onLines_congr_of_enter {files files' : String → Option String} {depth : Nat}
    (henter : ∀ path s emitted s', path ∈ s.included →
      enter files depth path s = .ok (emitted, s') →
      (∀ path ∈ s'.included, files' path = files path) →
      enter files' depth path s = .ok (emitted, s'))
    {number : Nat} {lines emitted : List (List Char)} {s s' : PreprocessState}
    (h : onLines (enter files depth) number lines s = .ok (emitted, s'))
    (hfiles : ∀ path ∈ s'.included, files' path = files path) :
    onLines (enter files' depth) number lines s = .ok (emitted, s') := by
  induction lines generalizing number s emitted with
  | nil => exact h
  | cons line rest ih =>
      obtain ⟨first, s₁, more, hfirst, hrest, rfl⟩ := onLines_cons_eq_ok.mp h
      -- What the first line included is among what is included in the end.
      have hfiles₁ : ∀ path ∈ s₁.included, files' path = files path := fun path hpath =>
        hfiles path ((onLines_included_suffix hrest).subset hpath)
      refine onLines_cons_eq_ok.mpr ⟨first, s₁, more, ?_, ih hrest, rfl⟩
      unfold onLine at hfirst ⊢
      split at hfirst
      · split at hfirst
        · exact (if_pos ‹_›).trans (henter _ _ _ _ List.mem_cons_self hfirst hfiles₁)
        · exact (if_neg ‹_›).trans hfirst
      · exact hfirst

/-- Only files that are included are looked up when a file is entered. -/
theorem enter_congr_files {files files' : String → Option String} {depth : Nat} {path : String}
    {s s' : PreprocessState} {emitted : List (List Char)} (hpath : path ∈ s.included)
    (h : enter files depth path s = .ok (emitted, s'))
    (hfiles : ∀ path ∈ s'.included, files' path = files path) :
    enter files' depth path s = .ok (emitted, s') := by
  induction depth generalizing path s s' emitted with
  | zero => cases h
  | succ depth ih =>
      rw [enter] at h ⊢
      split at h
      · cases h
      · rename_i text hfile
        have hfile' : files' path = some text :=
          (hfiles path ((onLines_included_suffix h).subset hpath)).trans hfile
        rw [hfile']
        exact onLines_congr_of_enter (fun _ _ _ _ hmem hentered hsame => ih hmem hentered hsame)
          h hfiles

/-- Only files that are included are looked up. -/
theorem onLines_congr_files {files files' : String → Option String} {depth number : Nat}
    {lines emitted : List (List Char)} {s s' : PreprocessState}
    (h : onLines (enter files depth) number lines s = .ok (emitted, s'))
    (hfiles : ∀ path ∈ s'.included, files' path = files path) :
    onLines (enter files' depth) number lines s = .ok (emitted, s') :=
  onLines_congr_of_enter
    (fun _ _ _ _ hmem hentered hsame => enter_congr_files hmem hentered hsame) h hfiles

/-! ## Runs -/

/-- A run fails with the failure of its lines. -/
theorem run_of_error {files : String → Option String} {macros : Macros} {source : String}
    {e : PreprocessError}
    (h : onLines (enter files maxDepth) 1 (Text.linesOf source) ⟨macros, [], []⟩ = .error e) :
    run files macros source = .error e := by
  unfold run
  dsimp only
  rw [h]
  rfl

/-- A run gives what its lines emit if they close every group. -/
theorem run_of_ok {files : String → Option String} {macros : Macros} {source : String}
    {emitted : List (List Char)} {s : PreprocessState}
    (h : onLines (enter files maxDepth) 1 (Text.linesOf source) ⟨macros, [], []⟩ =
      .ok (emitted, s)) :
    run files macros source =
      if s.stack = [] then .ok (String.ofList (Text.unlines emitted))
      else .error (.unbalancedConditional (Text.linesOf source).length) := by
  unfold run
  dsimp only
  rw [h]
  simp only [bind, Except.bind, List.isEmpty_iff]
  rfl

/-- A run that succeeds processes its lines and closes every group. -/
theorem run_eq_ok {files : String → Option String} {macros : Macros} {source out : String} :
    run files macros source = .ok out ↔
      ∃ emitted s, onLines (enter files maxDepth) 1 (Text.linesOf source) ⟨macros, [], []⟩ =
          .ok (emitted, s) ∧
        s.stack = [] ∧ out = String.ofList (Text.unlines emitted) := by
  cases hlines : onLines (enter files maxDepth) 1 (Text.linesOf source) ⟨macros, [], []⟩ with
  | error e =>
      rw [run_of_error hlines]
      constructor
      · intro h
        cases h
      · rintro ⟨_, _, h, _⟩
        cases h
  | ok r =>
      obtain ⟨emitted, s⟩ := r
      rw [run_of_ok hlines]
      constructor
      · intro h
        split at h
        · cases h
          exact ⟨emitted, s, rfl, ‹_›, rfl⟩
        · cases h
      · rintro ⟨_, _, h, hstack, rfl⟩
        cases h
        exact if_pos hstack

/-- Flat lines of texts without carriage returns lose nothing to line feeds. -/
theorem Flattens.isLine {files : String → Option String} {s s' : PreprocessState}
    {source : String} {flat : List (List Char)}
    (h : Flattens files s (Text.linesOf source) flat s') (hsource : '\r' ∉ source.toList)
    (hfiles : ∀ path text, files path = some text → '\r' ∉ text.toList) :
    ∀ line ∈ flat, Text.IsLine line := by
  intro line hline
  rcases h.mem_lines line hline with hmem | ⟨path, text, hfile, hmem⟩
  · exact .of_not_mem (Text.not_mem_of_mem_lines hmem)
      fun hreturn => hsource (Text.mem_of_mem_lines hmem hreturn)
  · exact .of_not_mem (Text.not_mem_of_mem_lines hmem)
      fun hreturn => hfiles path text hfile (Text.mem_of_mem_lines hmem hreturn)

/-- Lines of texts without carriage returns, written one by one, are read back. -/
theorem Flattens.linesOf_unlines {files : String → Option String} {s s' : PreprocessState}
    {source : String} {flat : List (List Char)}
    (h : Flattens files s (Text.linesOf source) flat s') (hsource : '\r' ∉ source.toList)
    (hfiles : ∀ path text, files path = some text → '\r' ∉ text.toList) :
    Text.linesOf (String.ofList (Text.unlines flat)) = flat := by
  rw [Text.linesOf, String.toList_ofList, Text.lines_unlines (h.isLine hsource hfiles)]

/-- A run is a run without files on flat lines: those that result when every inclusion
in an active branch that names a path for the first time is replaced by the flat lines
of its file, and every other inclusion is deleted.  Texts without carriage returns
allow writing these lines one by one.  Files that are not included have no influence. -/
theorem run_flatten {files : String → Option String} {macros : Macros} {source out : String}
    (h : run files macros source = .ok out) :
    ∃ flat final, Flattens files ⟨macros, [], []⟩ (Text.linesOf source) flat final ∧
      (∀ line ∈ flat, (Directive.ofLine line).includes = false) ∧
      (∃ text, Text.linesOf text = flat) ∧
      (∀ text, Text.linesOf text = flat → run (fun _ => none) macros text = .ok out) ∧
      ('\r' ∉ source.toList →
        (∀ path text, files path = some text → '\r' ∉ text.toList) →
        Text.linesOf (String.ofList (Text.unlines flat)) = flat) ∧
      final.included.Nodup ∧
      ∀ files' : String → Option String, (∀ path ∈ final.included, files' path = files path) →
        run files' macros source = .ok out := by
  obtain ⟨emitted, final, hlines, hstack, rfl⟩ := run_eq_ok.mp h
  obtain ⟨flat, hflat, hemits⟩ := onLines_expands hlines
  refine ⟨flat, final, hflat, hflat.not_includes, ?_, ?_, hflat.linesOf_unlines,
    hflat.included_nodup List.nodup_nil, ?_⟩
  · have hnewline : ∀ line ∈ flat, '\n' ∉ line := by
      intro line hline
      rcases hflat.mem_lines line hline with hmem | ⟨path, text, _, hmem⟩
      · exact Text.not_mem_of_mem_lines hmem
      · exact Text.not_mem_of_mem_lines hmem
    obtain ⟨text, htext⟩ := Text.exists_lines_eq hnewline
    exact ⟨String.ofList text, by rw [Text.linesOf, String.toList_ofList, htext]⟩
  · intro text htext
    rw [← htext] at hemits
    exact run_eq_ok.mpr ⟨emitted, { final with included := [] }, hemits _ 1 [], hstack, rfl⟩
  · intro files' hfiles'
    exact run_eq_ok.mpr ⟨emitted, final, onLines_congr_files hlines hfiles', hstack, rfl⟩

/-- A file that includes itself and leaves a group open. -/
def sampleFiles (path : String) : Option String :=
  if path = "a.h" then some "#include <a.h>\n#ifdef X\nx\n" else none

/-- A missing file is named in the group that the included file leaves open; after the
end of the group the file is named once more. -/
def sampleSource : String :=
  "#include \"a.h\"\n#include <missing>\n#endif\n#include \"a.h\"\nmain\n"

/-- The file is replaced once, and the missing one is not looked up. -/
theorem flattens_sample :
    Flattens sampleFiles ⟨[], [], []⟩ (Text.linesOf sampleSource)
      (["#ifdef X", "x", "#endif", "main"].map String.toList) ⟨[], [], ["a.h"]⟩ := by
  have hlines : Text.linesOf sampleSource = ["#include \"a.h\"", "#include <missing>", "#endif",
      "#include \"a.h\"", "main"].map String.toList := by decide +kernel
  have hinner : Flattens sampleFiles ⟨[], [], ["a.h"]⟩
      (Text.linesOf "#include <a.h>\n#ifdef X\nx\n")
      (["#ifdef X", "x"].map String.toList) ⟨[], [⟨false, false, true⟩], ["a.h"]⟩ := by
    have hlines : Text.linesOf "#include <a.h>\n#ifdef X\nx\n" =
        ["#include <a.h>", "#ifdef X", "x"].map String.toList := by decide +kernel
    rw [hlines]
    refine .deleted (by decide +kernel) (.inr ⟨"a.h", by simp, by decide +kernel⟩) ?_
    exact .kept 1 (by decide +kernel) rfl (.kept 1 (by decide +kernel) rfl (.nil _))
  have hrest : Flattens sampleFiles ⟨[], [⟨false, false, true⟩], ["a.h"]⟩
      (["#include <missing>", "#endif", "#include \"a.h\"", "main"].map String.toList)
      (["#endif", "main"].map String.toList) ⟨[], [], ["a.h"]⟩ := by
    refine .deleted (by decide +kernel) (.inl rfl) ?_
    refine .kept 1 (by decide +kernel) rfl ?_
    refine .deleted (by decide +kernel) (.inr ⟨"a.h", by simp, by decide +kernel⟩) ?_
    exact .kept 1 (by decide +kernel) rfl (.nil _)
  have hfirst : Directive.ofLine "#include \"a.h\"".toList = .inclusion "a.h" := by
    decide +kernel
  have hactive : PreprocessState.active ⟨[], [], []⟩ = true := rfl
  have hfile : sampleFiles "a.h" = some "#include <a.h>\n#ifdef X\nx\n" := rfl
  rw [hlines]
  exact Flattens.replaced hfirst hactive List.not_mem_nil hfile hinner hrest

/-- A run and a run without files, on lines that are written out. -/
theorem run_flatten_sample :
    run sampleFiles [] sampleSource = .ok "main\n" ∧
      run (fun _ => none) [] "#ifdef X\nx\n#endif\nmain" = .ok "main\n" := by
  have hrun : run sampleFiles [] sampleSource = .ok "main\n" := by rfl
  obtain ⟨flat, final, hflat, _, _, hsame, _⟩ := run_flatten hrun
  obtain ⟨rfl, rfl⟩ := hflat.unique flattens_sample
  exact ⟨hrun, hsame _ (by decide +kernel)⟩

end Preprocess
end ShaderAssets
