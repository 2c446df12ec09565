import Mathlib.Data.Nat.Find
import ShaderAssets.Proofs.Preprocess.Inclusion

/-!
# Unbalanced conditionals

Which branches of a source are active depends on what is defined, and so does almost
everything in the state of a run.  The number of groups that are open does not: an
opening adds a frame and an end removes one, in active and inactive branches alike.
So whether the conditionals of a source without inclusions are balanced can be told
from their lines alone, and a run tells it for all definitions in the same way, unless
it meets a malformed condition before.

Main results:

- Relation {lit}`WellNested`: the conditional directives of balanced lines.
- Relation {lit}`IsFault`: the line at which lines are not balanced.
- Theorem {lit}`wellNested_iff`: lines without a fault are well nested.
- Theorem {lit}`onLines_groups`: the groups that are open after every line.
- Theorem {lit}`run_unbalanced_iff`: what a run reports as unbalanced.
-/

namespace ShaderAssets

/-! ## Conditional directives -/

/-- What a conditional directive does to the groups. -/
inductive GroupMark where
  | opens
  /-- Begins another branch of the innermost group. -/
  | turns
  | closes
deriving DecidableEq, Repr

namespace Directive

/-- What a directive does to the groups, if it is a conditional one. -/
def groupMark? : Directive → Option GroupMark
  | .ifDefined _ _ | .condition _ => some .opens
  | .otherwiseIf _ | .otherwise => some .turns
  | .endIf => some .closes
  | _ => none

end Directive

namespace GroupMark

/-- The number of groups that are open after a directive.  An end closes nothing if none
is open. -/
def after (mark : GroupMark) (groups : Nat) : Nat :=
  match mark with
  | .opens => groups + 1
  | .turns => groups
  | .closes => groups - 1

end GroupMark

namespace Preprocess

/-- What a line does to the groups, if it is a conditional directive. -/
def markOf (line : List Char) : Option GroupMark :=
  (Directive.ofLine line).groupMark?

/-- The conditional directives of some lines, in order. -/
def conditionals (lines : List (List Char)) : List GroupMark :=
  lines.filterMap markOf

/-- Conditional directives are well nested: they are groups, side by side or in each
other, and inside of a group some of them may begin other branches. -/
inductive WellNested : (inside : Bool) → List GroupMark → Prop where
  | nil {inside : Bool} : WellNested inside []
  | turn {rest : List GroupMark} (hrest : WellNested true rest) :
      WellNested true (.turns :: rest)
  | group {inside : Bool} {body rest : List GroupMark} (hbody : WellNested true body)
      (hrest : WellNested inside rest) : WellNested inside (.opens :: (body ++ .closes :: rest))

/-! ## Faults -/

/-- The number of groups that are open after some lines, from a number of groups that are
open before them. -/
def openAfter (groups : Nat) (lines : List (List Char)) : Nat :=
  (conditionals lines).foldl (fun groups mark => mark.after groups) groups

/-- The line at a place needs an open group, and none is open. -/
def IsStray (groups : Nat) (lines : List (List Char)) (i : Nat) : Prop :=
  ∃ mark, lines[i]?.bind markOf = some mark ∧ mark ≠ .opens ∧ openAfter groups (lines.take i) = 0

/-- The number of the line at which lines are unbalanced: the first one that needs an open
group where none is open, or the last one if there is no such line and a group is left
open. -/
inductive IsFault (lines : List (List Char)) : Nat → Prop where
  | stray {i : Nat} (hstray : IsStray 0 lines i) (hfirst : ∀ j < i, ¬IsStray 0 lines j) :
      IsFault lines (i + 1)
  | unclosed (hnone : ∀ i, ¬IsStray 0 lines i) (hopen : openAfter 0 lines ≠ 0) :
      IsFault lines lines.length

/-- Lines have one fault. -/
theorem IsFault.unique {lines : List (List Char)} {n m : Nat} (hn : IsFault lines n)
    (hm : IsFault lines m) : n = m := by
  cases hn with
  | @stray i hstray hfirst =>
      cases hm with
      | @stray j hstray' hfirst' =>
          rcases Nat.lt_trichotomy i j with h | rfl | h
          · exact absurd hstray (hfirst' i h)
          · rfl
          · exact absurd hstray' (hfirst j h)
      | unclosed hnone _ => exact absurd hstray (hnone i)
  | unclosed hnone _ =>
      cases hm with
      | @stray j hstray' _ => exact absurd hstray' (hnone j)
      | unclosed _ _ => rfl

/-- Lines without a fault have no line that needs a group in vain, and leave no group
open. -/
theorem not_exists_isFault_iff {lines : List (List Char)} :
    (¬∃ n, IsFault lines n) ↔ (∀ i, ¬IsStray 0 lines i) ∧ openAfter 0 lines = 0 := by
  classical
  constructor
  · intro h
    have hnone : ∀ i, ¬IsStray 0 lines i := by
      intro i hi
      exact h ⟨_, .stray (Nat.find_spec ⟨i, hi⟩) fun j hj => Nat.find_min ⟨i, hi⟩ hj⟩
    exact ⟨hnone, Decidable.byContradiction fun hopen => h ⟨_, .unclosed hnone hopen⟩⟩
  · rintro ⟨hnone, hopen⟩ ⟨n, hn⟩
    cases hn with
    | stray hstray _ => exact hnone _ hstray
    | unclosed _ hne => exact hne hopen

/-! ## One line after the other -/

/-- The number of groups that are open after one line. -/
def groupsAfter (groups : Nat) (line : List Char) : Nat :=
  match markOf line with
  | some mark => mark.after groups
  | none => groups

@[simp]
theorem openAfter_nil (groups : Nat) : openAfter groups [] = groups :=
  rfl

@[simp]
theorem openAfter_cons (groups : Nat) (line : List Char) (rest : List (List Char)) :
    openAfter groups (line :: rest) = openAfter (groupsAfter groups line) rest := by
  unfold openAfter conditionals groupsAfter
  cases hmark : markOf line <;> simp [hmark]

/-- The first line needs a group in vain if none is open before it. -/
theorem isStray_zero {groups : Nat} {line : List Char} {rest : List (List Char)} :
    IsStray groups (line :: rest) 0 ↔
      ∃ mark, markOf line = some mark ∧ mark ≠ .opens ∧ groups = 0 := by
  simp [IsStray]

/-- A line after the first one needs a group in vain if it does so in the lines after the
first one. -/
theorem isStray_succ {groups : Nat} {line : List Char} {rest : List (List Char)} {i : Nat} :
    IsStray groups (line :: rest) (i + 1) ↔ IsStray (groupsAfter groups line) rest i := by
  simp [IsStray]

/-- No line needs a group in vain if the first one does not and none of the others does. -/
theorem forall_not_isStray_cons {groups : Nat} {line : List Char} {rest : List (List Char)} :
    (∀ i, ¬IsStray groups (line :: rest) i) ↔ ¬IsStray groups (line :: rest) 0 ∧
      ∀ i, ¬IsStray (groupsAfter groups line) rest i := by
  constructor
  · exact fun h => ⟨h 0, fun i hi => h (i + 1) (isStray_succ.mpr hi)⟩
  · rintro ⟨hfirst, hrest⟩ i
    cases i with
    | zero => exact hfirst
    | succ i => exact fun h => hrest i (isStray_succ.mp h)

/-! ## Well-nested lines -/

/-- Conditional directives that close a number of open groups, with well-nested ones in
front of each end. -/
def Ends : Nat → List GroupMark → Prop
  | 0, marks => WellNested false marks
  | groups + 1, marks => ∃ body rest, marks = body ++ .closes :: rest ∧ WellNested true body ∧
      Ends groups rest

/-- What ends the open groups still does so behind a group. -/
theorem Ends.behind_group {groups : Nat} {body rest : List GroupMark}
    (hbody : WellNested true body) (hrest : Ends groups rest) :
    Ends groups (.opens :: (body ++ .closes :: rest)) := by
  cases groups with
  | zero => exact WellNested.group hbody hrest
  | succ groups =>
      obtain ⟨body', rest', rfl, hbody', hrest'⟩ := hrest
      exact ⟨.opens :: (body ++ .closes :: body'), rest', by simp, .group hbody hbody', hrest'⟩

/-- An opening has to be ended before the groups that are open. -/
theorem ends_cons_opens {groups : Nat} {marks : List GroupMark} :
    Ends groups (.opens :: marks) ↔ Ends (groups + 1) marks := by
  constructor
  · intro h
    cases groups with
    | zero =>
        cases h with
        | group hbody hrest => exact ⟨_, _, rfl, hbody, hrest⟩
    | succ groups =>
        obtain ⟨body, rest, hmarks, hbody, hrest⟩ := h
        cases hbody with
        | nil => cases hmarks
        | turn _ => cases hmarks
        | @group _ body' rest' hbody' hrest' =>
            rw [List.cons_append, List.append_assoc, List.cons_append] at hmarks
            obtain ⟨-, rfl⟩ := List.cons.inj hmarks
            exact ⟨body', rest' ++ .closes :: rest, rfl, hbody', rest', rest, rfl, hrest', hrest⟩
  · rintro ⟨body, rest, rfl, hbody, hrest⟩
    exact hrest.behind_group hbody

/-- A branch needs an open group and leaves it open. -/
theorem ends_cons_turns {groups : Nat} {marks : List GroupMark} :
    Ends groups (.turns :: marks) ↔ groups ≠ 0 ∧ Ends groups marks := by
  cases groups with
  | zero =>
      constructor
      · intro h
        cases h
      · rintro ⟨h, -⟩
        exact absurd rfl h
  | succ groups =>
      constructor
      · rintro ⟨body, rest, hmarks, hbody, hrest⟩
        cases hbody with
        | nil => cases hmarks
        | group _ _ => cases hmarks
        | @turn body' hbody' =>
            obtain ⟨-, rfl⟩ := List.cons.inj hmarks
            exact ⟨Nat.succ_ne_zero _, body', rest, rfl, hbody', hrest⟩
      · rintro ⟨-, body, rest, rfl, hbody, hrest⟩
        exact ⟨.turns :: body, rest, rfl, .turn hbody, hrest⟩

/-- An end needs an open group and closes it. -/
theorem ends_cons_closes {groups : Nat} {marks : List GroupMark} :
    Ends groups (.closes :: marks) ↔ groups ≠ 0 ∧ Ends (groups - 1) marks := by
  cases groups with
  | zero =>
      constructor
      · intro h
        cases h
      · rintro ⟨h, -⟩
        exact absurd rfl h
  | succ groups =>
      constructor
      · rintro ⟨body, rest, hmarks, hbody, hrest⟩
        cases hbody with
        | nil =>
            obtain ⟨-, rfl⟩ := List.cons.inj hmarks
            exact ⟨Nat.succ_ne_zero _, hrest⟩
        | turn _ => cases hmarks
        | group _ _ => cases hmarks
      · rintro ⟨-, hrest⟩
        exact ⟨[], marks, rfl, .nil, hrest⟩

/-- A directive other than an opening needs an open group, and what follows it ends the
groups that are open after it. -/
theorem ends_cons {groups : Nat} {mark : GroupMark} {marks : List GroupMark} :
    Ends groups (mark :: marks) ↔
      (mark ≠ .opens → groups ≠ 0) ∧ Ends (mark.after groups) marks := by
  cases mark with
  | opens => simp [ends_cons_opens, GroupMark.after]
  | turns => simp [ends_cons_turns, GroupMark.after]
  | closes => simp [ends_cons_closes, GroupMark.after]

/-- Lines end the open groups if none of them needs a group in vain and they leave none
open. -/
theorem ends_conditionals_iff {groups : Nat} {lines : List (List Char)} :
    Ends groups (conditionals lines) ↔
      (∀ i, ¬IsStray groups lines i) ∧ openAfter groups lines = 0 := by
  induction lines generalizing groups with
  | nil =>
      cases groups with
      | zero => exact ⟨fun _ => ⟨fun i hi => by simp [IsStray] at hi, rfl⟩, fun _ => .nil⟩
      | succ groups => simp [Ends, conditionals]
  | cons line rest ih =>
      rw [openAfter_cons, forall_not_isStray_cons, and_assoc, ← ih, isStray_zero]
      unfold conditionals groupsAfter
      cases hmark : markOf line with
      | none => simp [hmark]
      | some mark => simp [hmark, ends_cons]

/-- Lines are well nested if they have no fault. -/
theorem wellNested_iff {lines : List (List Char)} :
    WellNested false (conditionals lines) ↔ ¬∃ n, IsFault lines n := by
  rw [not_exists_isFault_iff, ← ends_conditionals_iff]
  rfl

/-! ## Frames -/

/-- What a line does that includes nothing: it leaves the number of frames as it is, or
changes it like the number of open groups, or fails, for want of an open group or with a
malformed condition. -/
inductive Frames (number groups : Nat) (mark : Option GroupMark) : PreprocessResult → Prop where
  | kept {emitted : List (List Char)} {s : PreprocessState} (hmark : mark = none)
      (hframes : s.stack.length = groups) : Frames number groups mark (.ok (emitted, s))
  | changed {emitted : List (List Char)} {s : PreprocessState} {m : GroupMark}
      (hmark : mark = some m) (hneeds : m ≠ .opens → groups ≠ 0)
      (hframes : s.stack.length = m.after groups) : Frames number groups mark (.ok (emitted, s))
  | stray {m : GroupMark} (hmark : mark = some m) (hneeds : m ≠ .opens) (hnone : groups = 0) :
      Frames number groups mark (.error (.unbalancedConditional number))
  | malformed (text : String) : Frames number groups mark (.error (.badExpression number text))

/-- Evaluating a condition succeeds or finds it malformed. -/
theorem evaluate_cases (s : PreprocessState) (number : Nat) (text : String) :
    (∃ holds, s.evaluate number text = .ok holds) ∨
      s.evaluate number text = .error (.badExpression number text) := by
  unfold PreprocessState.evaluate
  cases Condition.holds? s.macros.find? text.toList with
  | none => exact Or.inr rfl
  | some holds => exact Or.inl ⟨holds, rfl⟩

/-- Every directive but an inclusion does one of these. -/
theorem frames_obey {directive : Directive} (h : directive.includes = false)
    (s : PreprocessState) (number : Nat) (line : List Char) :
    Frames number s.stack.length directive.groupMark? (s.obey number line directive) := by
  cases directive with
  | text => exact .kept rfl rfl
  | inclusion path => cases h
  | malformedInclusion argument => cases h
  | define name value =>
      simp only [PreprocessState.obey]
      split <;> exact .kept rfl rfl
  | undefine name =>
      simp only [PreprocessState.obey]
      split <;> exact .kept rfl rfl
  | ifDefined name expected => exact .changed rfl (absurd rfl) rfl
  | condition text =>
      simp only [PreprocessState.obey]
      split
      · rcases evaluate_cases s number text with ⟨holds, heq⟩ | heq
        · rw [heq]
          exact .changed rfl (absurd rfl) rfl
        · rw [heq]
          exact .malformed text
      · exact .changed rfl (absurd rfl) rfl
  | otherwiseIf text =>
      simp only [PreprocessState.obey]
      split
      · rename_i hstack
        exact .stray rfl (by decide) (by rw [hstack]; rfl)
      · rename_i frame outer hstack
        rw [hstack]
        split
        · rcases evaluate_cases s number text with ⟨holds, heq⟩ | heq
          · rw [heq]
            exact .changed rfl (fun _ => Nat.succ_ne_zero _) rfl
          · rw [heq]
            exact .malformed text
        · exact .changed rfl (fun _ => Nat.succ_ne_zero _) rfl
  | otherwise =>
      simp only [PreprocessState.obey]
      split
      · rename_i hstack
        exact .stray rfl (by decide) (by rw [hstack]; rfl)
      · rename_i frame outer hstack
        rw [hstack]
        exact .changed rfl (fun _ => Nat.succ_ne_zero _) rfl
  | endIf =>
      simp only [PreprocessState.obey]
      split
      · rename_i hstack
        exact .stray rfl (by decide) (by rw [hstack]; rfl)
      · rename_i frame outer hstack
        rw [hstack]
        exact .changed rfl (fun _ => Nat.succ_ne_zero _) rfl

/-- What lines do that include nothing: in the end there is a frame for each open group, or
the first line that needed a group in vain is reported, or a malformed condition is. -/
inductive LinesFrames (number groups : Nat) (lines : List (List Char)) :
    PreprocessResult → Prop where
  | balanced {emitted : List (List Char)} {s : PreprocessState}
      (hnone : ∀ i, ¬IsStray groups lines i) (hframes : s.stack.length = openAfter groups lines) :
      LinesFrames number groups lines (.ok (emitted, s))
  | stray {i : Nat} (hstray : IsStray groups lines i) (hfirst : ∀ j < i, ¬IsStray groups lines j) :
      LinesFrames number groups lines (.error (.unbalancedConditional (number + i)))
  | malformed (n : Nat) (text : String) :
      LinesFrames number groups lines (.error (.badExpression n text))

/-- A first line that does not fail goes before what the other lines do. -/
theorem LinesFrames.cons {number groups : Nat} {line : List Char} {rest : List (List Char)}
    {r : PreprocessResult} (hfirst : ¬IsStray groups (line :: rest) 0)
    (hrest : LinesFrames (number + 1) (groupsAfter groups line) rest r)
    (emitted : List (List Char)) :
    LinesFrames number groups (line :: rest) (r.map fun r => (emitted ++ r.1, r.2)) := by
  cases hrest with
  | balanced hnone hframes =>
      exact .balanced (forall_not_isStray_cons.mpr ⟨hfirst, hnone⟩)
        (hframes.trans (openAfter_cons groups line rest).symm)
  | @stray i hstray hbefore =>
      rw [Nat.add_assoc, Nat.add_comm 1 i]
      refine .stray (isStray_succ.mpr hstray) fun j hj => ?_
      cases j with
      | zero => exact hfirst
      | succ j => exact fun h => hbefore j (Nat.lt_of_succ_lt_succ hj) (isStray_succ.mp h)
  | malformed n text => exact .malformed n text

/-- The groups that are open after every line are the same whatever is defined: lines that
include nothing do one of these. -/
theorem onLines_groups (enter : String → PreprocessState → PreprocessResult) (number : Nat)
    {lines : List (List Char)} (hlines : ∀ line ∈ lines, (Directive.ofLine line).includes = false)
    (s : PreprocessState) :
    LinesFrames number s.stack.length lines (onLines enter number lines s) := by
  induction lines generalizing number s with
  | nil => exact .balanced (fun i hi => by simp [IsStray] at hi) rfl
  | cons line rest ih =>
      rw [List.forall_mem_cons] at hlines
      have hline := frames_obey hlines.1 s number line
      rw [← onLine_of_not_includes hlines.1 enter number s] at hline
      cases hresult : onLine enter number line s with
      | error e =>
          rw [onLines_cons_error hresult]
          rw [hresult] at hline
          cases hline with
          | stray hmark hneeds hnone =>
              exact .stray (i := 0) (isStray_zero.mpr ⟨_, hmark, hneeds, hnone⟩) nofun
          | malformed text => exact .malformed number text
      | ok r =>
          obtain ⟨emitted, s₁⟩ := r
          rw [onLines_cons_ok hresult]
          rw [hresult] at hline
          have hrest := ih (number + 1) hlines.2 s₁
          cases hline with
          | kept hmark hframes =>
              have hafter : groupsAfter s.stack.length line = s₁.stack.length := by
                rw [groupsAfter, markOf, hmark, hframes]
              refine .cons (fun hstray => ?_) (hafter ▸ hrest) emitted
              obtain ⟨m, hm, -⟩ := isStray_zero.mp hstray
              cases hmark.symm.trans hm
          | changed hmark hneeds hframes =>
              have hafter : groupsAfter s.stack.length line = s₁.stack.length := by
                rw [groupsAfter, markOf, hmark, hframes]
              refine .cons (fun hstray => ?_) (hafter ▸ hrest) emitted
              obtain ⟨m, hm, hopens, hnone⟩ := isStray_zero.mp hstray
              cases hmark.symm.trans hm
              exact hneeds hopens hnone

/-! ## Runs -/

/-- What a run on a source without inclusions does: it succeeds on lines without a fault,
or reports their fault, or a malformed condition. -/
theorem run_cases {source : String}
    (hsource : ∀ line ∈ Text.linesOf source, (Directive.ofLine line).includes = false)
    (files : String → Option String) (macros : Macros) :
    ((∃ out, run files macros source = .ok out) ∧ ¬∃ n, IsFault (Text.linesOf source) n) ∨
    (∃ n, run files macros source = .error (.unbalancedConditional n) ∧
      IsFault (Text.linesOf source) n) ∨
    ∃ n text, run files macros source = .error (.badExpression n text) := by
  have hgroups := onLines_groups (enter files maxDepth) 1 hsource ⟨macros, [], []⟩
  cases hresult : onLines (enter files maxDepth) 1 (Text.linesOf source) ⟨macros, [], []⟩ with
  | error e =>
      rw [run_of_error hresult]
      rw [hresult] at hgroups
      cases hgroups with
      | @stray i hstray hfirst =>
          exact Or.inr (Or.inl ⟨_, rfl, Nat.add_comm 1 i ▸ .stray hstray hfirst⟩)
      | malformed n text => exact Or.inr (Or.inr ⟨n, text, rfl⟩)
  | ok r =>
      obtain ⟨emitted, s⟩ := r
      rw [run_of_ok hresult]
      rw [hresult] at hgroups
      cases hgroups with
      | balanced hnone hframes =>
          split
          · rename_i hstack
            rw [hstack] at hframes
            exact Or.inl ⟨⟨_, rfl⟩, not_exists_isFault_iff.mpr ⟨hnone, hframes.symm⟩⟩
          · rename_i hstack
            refine Or.inr (Or.inl ⟨_, rfl, .unclosed hnone fun hzero => hstack ?_⟩)
            exact List.length_eq_zero_iff.mp (hframes.trans hzero)

/-- A run that meets no malformed condition reports the fault of the lines. -/
theorem run_eq_unbalanced_iff {files : String → Option String} {macros : Macros}
    {source : String}
    (hsource : ∀ line ∈ Text.linesOf source, (Directive.ofLine line).includes = false)
    (hgood : ∀ n text, run files macros source ≠ .error (.badExpression n text)) {n : Nat} :
    run files macros source = .error (.unbalancedConditional n) ↔
      IsFault (Text.linesOf source) n := by
  rcases run_cases hsource files macros with ⟨⟨out, hrun⟩, hnone⟩ | ⟨m, hrun, hm⟩ | ⟨m, text, hrun⟩
  · rw [hrun]
    exact ⟨nofun, fun hn => absurd ⟨n, hn⟩ hnone⟩
  · rw [hrun]
    constructor
    · intro h
      cases h
      exact hm
    · intro hn
      rw [hn.unique hm]
  · exact absurd hrun (hgood m text)

/-- A run on a source without inclusions that meets no malformed condition reports unbalanced
conditionals exactly if they are not well nested.  It names the line of the fault, which is
the first one that needs an open group where none is open, or else the last line.  So two
such runs report the same line, whatever is defined. -/
theorem run_unbalanced_iff {files : String → Option String} {macros : Macros} {source : String}
    (hsource : ∀ line ∈ Text.linesOf source, (Directive.ofLine line).includes = false)
    (hgood : ∀ n text, run files macros source ≠ .error (.badExpression n text)) :
    ((∃ n, run files macros source = .error (.unbalancedConditional n)) ↔
      ¬WellNested false (conditionals (Text.linesOf source))) ∧
    (∀ n, run files macros source = .error (.unbalancedConditional n) ↔
      IsFault (Text.linesOf source) n) ∧
    ∀ files' macros', (∀ n text, run files' macros' source ≠ .error (.badExpression n text)) →
      ∀ n, run files' macros' source = .error (.unbalancedConditional n) ↔
        run files macros source = .error (.unbalancedConditional n) := by
  have hfault := fun n => run_eq_unbalanced_iff hsource hgood (n := n)
  refine ⟨?_, hfault, fun files' macros' hgood' n => ?_⟩
  · rw [wellNested_iff, not_not]
    exact exists_congr hfault
  · rw [hfault, run_eq_unbalanced_iff hsource hgood']

/-- A malformed condition stands in a branch that is active only if {lit}`A` is defined.  Behind
its group a branch begins where no group is open, and a group is left open at the end. -/
def straySource : String :=
  "#ifdef A\n#if (\n#else\n#endif\n#endif\n #elif A\n#ifndef A\nx\n"

/-- Whatever is defined, a run that does not meet the malformed condition reports the sixth
line. -/
theorem run_unbalanced_sample :
    run (fun _ => none) [] straySource = .error (.unbalancedConditional 6) ∧
      ¬WellNested false (conditionals (Text.linesOf straySource)) ∧
      IsFault (Text.linesOf straySource) 6 ∧
      ∀ macros, (∀ n text, run (fun _ => none) macros straySource ≠ .error (.badExpression n text)) →
        run (fun _ => none) macros straySource = .error (.unbalancedConditional 6) := by
  have hsource : ∀ line ∈ Text.linesOf straySource, (Directive.ofLine line).includes = false := by
    decide +kernel
  have hrun : run (fun _ => none) [] straySource = .error (.unbalancedConditional 6) := by rfl
  have hgood : ∀ n text, run (fun _ => none) [] straySource ≠ .error (.badExpression n text) := by
    rw [hrun]
    exact nofun
  obtain ⟨hnested, hfault, hsame⟩ := run_unbalanced_iff hsource hgood
  exact ⟨hrun, hnested.mp ⟨6, hrun⟩, (hfault 6).mp hrun,
    fun macros hmacros => (hsame _ macros hmacros 6).mpr hrun⟩

end Preprocess
end ShaderAssets
