import ShaderAssets.Proofs.Preprocess.Block

/-!
# Frames implement nesting

The preprocessor reads a source line by line with a stack of frames.  On the lines
of a well-nested tree it does what the tree means.

A frame is closed when no later branch of its group can be taken: the group stands
in an inactive branch, or one of its branches was taken already.  The lines of a
closed group, and those of a block in an inactive branch, change nothing.  A block
in an active branch, and the branches of a group that is still open, have the
outcome of their evaluation.

Main results:

- Theorem {lit}`Block.onLines_inactive`: an inactive block is silent.
- Theorem {lit}`Block.onLines_active`: an active block is evaluated.
- Theorem {lit}`Block.run_render`: a run on the written tree is its evaluation.
-/

namespace ShaderAssets
namespace Preprocess

variable {enter : String → PreprocessState → PreprocessResult}

/-! ## States -/

/-- A state inside one more group. -/
def within (s : PreprocessState) (frame : Frame) : PreprocessState :=
  { s with stack := frame :: s.stack }

/-- The outcome of an evaluation as seen by the state that it starts from. -/
def resultFrom (s : PreprocessState) (r : List (List Char) × Macros) :
    List (List Char) × PreprocessState :=
  (r.1, { s with macros := r.2 })

/-- No later branch of a group can be taken. -/
def IsClosed (frame : Frame) : Prop :=
  (frame.outerActive && !frame.taken) = false

/-! ## Sequences of lines -/

/-- Lines are processed one part after the other. -/
theorem onLines_append (number : Nat) (first second : List (List Char)) (s : PreprocessState) :
    onLines enter number (first ++ second) s = do
      let (emitted, s) ← onLines enter number first s
      let (more, s) ← onLines enter (number + first.length) second s
      return (emitted ++ more, s) := by
  induction first generalizing number s with
  | nil =>
      simp only [List.nil_append, onLines, List.length_nil, Nat.add_zero, bind, Except.bind]
      cases onLines enter number second s <;> rfl
  | cons line first ih =>
      have hnumber : number + 1 + first.length = number + (line :: first).length := by
        simp only [List.length_cons]
        omega
      simp only [List.cons_append, onLines, ih, hnumber]
      cases onLine enter number line s with
      | error e => rfl
      | ok r =>
          obtain ⟨emitted, s₁⟩ := r
          cases hfirst : onLines enter (number + 1) first s₁ with
          | error e => simp [bind, Except.bind, hfirst]
          | ok r =>
              obtain ⟨middle, s₂⟩ := r
              simp only [bind, Except.bind, pure, Except.pure, hfirst]
              cases onLines enter (number + (line :: first).length) second s₂ with
              | error e => rfl
              | ok r => simp [List.append_assoc]

/-- Two parts that are evaluated one after the other. -/
theorem onLines_append_eval {number : Nat} {first second : List (List Char)}
    {s t t' : PreprocessState} {r : Outcome} {next : Macros → Outcome}
    (hfirst : onLines enter number first t = r.map (resultFrom t'))
    (hsecond : ∀ macros, onLines enter (number + first.length) second
      { t' with macros := macros } = (next macros).map (resultFrom s)) :
    onLines enter number (first ++ second) t = (r.andThen next).map (resultFrom s) := by
  rw [onLines_append, hfirst]
  cases r with
  | error e => rfl
  | ok r =>
      simp only [bind, Except.bind, Except.map, resultFrom, hsecond, Outcome.andThen]
      cases next r.2 <;> rfl

/-- A first part that emits nothing only changes the state. -/
theorem onLines_append_silent {number : Nat} {first second : List (List Char)}
    {s s' : PreprocessState} (h : onLines enter number first s = .ok ([], s')) :
    onLines enter number (first ++ second) s =
      onLines enter (number + first.length) second s' := by
  rw [onLines_append, h]
  simp only [bind, Except.bind, List.nil_append]
  cases onLines enter (number + first.length) second s' <;> rfl

/-- A first line that emits nothing only changes the state. -/
theorem onLines_cons_silent {number : Nat} {line : List Char} {rest : List (List Char)}
    {s s' : PreprocessState} (h : onLine enter number line s = .ok ([], s')) :
    onLines enter number (line :: rest) s = onLines enter (number + 1) rest s' := by
  rw [onLines, h]
  simp only [bind, Except.bind, List.nil_append]
  cases onLines enter (number + 1) rest s' <;> rfl

/-- The lines after the first one are processed in the state that it leaves. -/
theorem onLines_cons_ok {number : Nat} {line : List Char} {rest emitted : List (List Char)}
    {s s' : PreprocessState} (h : onLine enter number line s = .ok (emitted, s')) :
    onLines enter number (line :: rest) s =
      (onLines enter (number + 1) rest s').map fun r => (emitted ++ r.1, r.2) := by
  rw [onLines, h]
  simp only [bind, Except.bind]
  cases onLines enter (number + 1) rest s' <;> rfl

/-- A failing first line ends the processing. -/
theorem onLines_cons_error {number : Nat} {line : List Char} {rest : List (List Char)}
    {s : PreprocessState} {e : PreprocessError} (h : onLine enter number line s = .error e) :
    onLines enter number (line :: rest) s = .error e := by
  rw [onLines, h]
  rfl

/-- Where a line fails behind others, all fail. -/
theorem onLines_append_cons_error {number : Nat} {before after : List (List Char)}
    {line : List Char} {emitted : List (List Char)} {s s' : PreprocessState} {e : PreprocessError}
    (hbefore : onLines enter number before s = .ok (emitted, s'))
    (hline : onLine enter (number + before.length) line s' = .error e) :
    onLines enter number (before ++ line :: after) s = .error e := by
  rw [onLines_append, hbefore]
  simp only [bind, Except.bind]
  rw [onLines_cons_error hline]

/-! ## Single lines -/

variable (enter)

/-- A line that is no inclusion is obeyed. -/
theorem onLine_eq_obey {directive : Directive} (line : LineOf directive)
    (hdirective : ∀ path, directive ≠ .inclusion path) (number : Nat) (s : PreprocessState) :
    onLine enter number line.text s = s.obey number line.text directive := by
  unfold onLine
  rw [line.reads]
  cases directive with
  | inclusion path => exact absurd rfl (hdirective path)
  | _ => rfl

/-- An active statement emits its lines and updates the definitions. -/
theorem onLine_statement_active {statement : Statement} (line : LineOf statement.directive)
    (number : Nat) {s : PreprocessState} (h : s.active = true) :
    onLine enter number line.text s =
      .ok (statement.emitted line.text, { s with macros := statement.update s.macros }) := by
  rw [onLine_eq_obey enter line (by intro path; cases statement <;> exact nofun)]
  cases statement with
  | text => simp [Statement.directive, PreprocessState.obey, PreprocessState.emit, h,
      Statement.emitted, Statement.update]
  | define name value =>
      by_cases hname : name = ""
      · simp [Statement.directive, PreprocessState.obey, hname, Statement.emitted,
          Statement.update]
      · simp [Statement.directive, PreprocessState.obey, h, hname, Statement.emitted,
          Statement.update]
  | undefine name => simp [Statement.directive, PreprocessState.obey, h, Statement.emitted,
      Statement.update]

/-- An inactive statement does nothing. -/
theorem onLine_statement_inactive {statement : Statement} (line : LineOf statement.directive)
    (number : Nat) {s : PreprocessState} (h : s.active = false) :
    onLine enter number line.text s = .ok ([], s) := by
  rw [onLine_eq_obey enter line (by intro path; cases statement <;> exact nofun)]
  cases statement <;>
    simp [Statement.directive, PreprocessState.obey, PreprocessState.emit, h]

/-- The condition of the machine is that of the evaluation. -/
theorem evaluate_eq (s : PreprocessState) (number : Nat) (text : String) :
    s.evaluate number text = conditionHolds number s.macros text :=
  rfl

/-- An opening in an active branch opens a group with the value of its condition. -/
theorem onLine_opening_active {opening : Opening} (line : LineOf opening.directive)
    (number : Nat) {s : PreprocessState} (h : s.active = true) :
    onLine enter number line.text s =
      (opening.holds number s.macros).map fun taken => ([], within s ⟨taken, taken, true⟩) := by
  rw [onLine_eq_obey enter line (by intro path; cases opening <;> exact nofun)]
  cases opening with
  | ifDefined name expected =>
      simp [Opening.directive, PreprocessState.obey, PreprocessState.openGroup, h,
        Opening.holds, Except.map, within]
  | condition text =>
      simp only [Opening.directive, PreprocessState.obey, h, if_true, evaluate_eq, Opening.holds]
      cases conditionHolds number s.macros text with
      | error e => rfl
      | ok taken => simp [bind, Except.bind, pure, Except.pure, Except.map,
          PreprocessState.openGroup, h, within]

/-- An opening in an inactive branch opens a group that stays inactive. -/
theorem onLine_opening_inactive {opening : Opening} (line : LineOf opening.directive)
    (number : Nat) {s : PreprocessState} (h : s.active = false) :
    ∃ taken, onLine enter number line.text s = .ok ([], within s ⟨false, taken, false⟩) := by
  rw [onLine_eq_obey enter line (by intro path; cases opening <;> exact nofun)]
  cases opening with
  | ifDefined name expected =>
      refine ⟨s.macros.isDefined name == expected, ?_⟩
      simp [Opening.directive, PreprocessState.obey, PreprocessState.openGroup, h, within]
  | condition text =>
      refine ⟨false, ?_⟩
      simp [Opening.directive, PreprocessState.obey, PreprocessState.openGroup, h, within]

/-- The end of a group gives back the state around it. -/
theorem onLine_endIf (line : LineOf .endIf) (number : Nat) (s : PreprocessState) (frame : Frame) :
    onLine enter number line.text (within s frame) = .ok ([], s) := by
  rw [onLine_eq_obey enter line (by exact nofun)]
  rfl

/-- An alternative is active if the group is not closed. -/
theorem onLine_otherwise (line : LineOf .otherwise) (number : Nat) (s : PreprocessState)
    (frame : Frame) :
    onLine enter number line.text (within s frame) =
      .ok ([], within s { frame with
        active := frame.outerActive && !frame.taken, taken := true }) := by
  rw [onLine_eq_obey enter line (by exact nofun)]
  rfl

/-- A condition in a closed group is not evaluated. -/
theorem onLine_otherwiseIf_closed {text : String} (line : LineOf (.otherwiseIf text))
    (number : Nat) (s : PreprocessState) {frame : Frame} (h : IsClosed frame) :
    onLine enter number line.text (within s frame) =
      .ok ([], within s { frame with active := false }) := by
  rw [onLine_eq_obey enter line (by exact nofun)]
  unfold IsClosed at h
  simp [PreprocessState.obey, within, h]

/-- A condition in an open group decides on its branch. -/
theorem onLine_otherwiseIf_open {text : String} (line : LineOf (.otherwiseIf text))
    (number : Nat) (s : PreprocessState) (active : Bool) :
    onLine enter number line.text (within s ⟨active, false, true⟩) =
      (conditionHolds number s.macros text).map fun taken =>
        ([], within s ⟨taken, taken, true⟩) := by
  rw [onLine_eq_obey enter line (by exact nofun)]
  simp only [PreprocessState.obey, within, evaluate_eq, Bool.not_false, Bool.and_self, if_true]
  cases conditionHolds number s.macros text <;> rfl

/-! ## Silent lines -/

mutual

/-- A block in an inactive branch emits nothing and changes nothing. -/
theorem Block.onLines_inactive : ∀ (b : Block) (number : Nat) {s : PreprocessState},
    s.active = false → onLines enter number b.lines s = .ok ([], s)
  | .nil, _, _, _ => rfl
  | .line _ line rest, number, s, h => by
      rw [Block.lines, onLines_cons_silent (onLine_statement_inactive enter line number h)]
      exact rest.onLines_inactive (number + 1) h
  | .group _ line body others rest, number, s, h => by
      obtain ⟨taken, hopening⟩ := onLine_opening_inactive enter line number h
      have hbody := body.onLines_inactive (number + 1) (s := within s ⟨false, taken, false⟩) rfl
      have hothers := others.onLines_closed (number + 1 + body.lines.length) s
        ⟨false, taken, false⟩ rfl
      rw [Block.lines, onLines_cons_silent hopening, onLines_append_silent hbody,
        onLines_append_silent hothers]
      exact rest.onLines_inactive _ h

/-- The remaining branches of a closed group emit nothing and change nothing. -/
theorem Branches.onLines_closed : ∀ (b : Branches) (number : Nat) (s : PreprocessState)
    (frame : Frame), IsClosed frame →
      onLines enter number b.lines (within s frame) = .ok ([], s)
  | .endIf closing, number, s, frame, _ => by
      rw [Branches.lines, onLines_cons_silent (onLine_endIf enter closing number s frame)]
      rfl
  | .otherwise line body closing, number, s, frame, h => by
      have hotherwise := onLine_otherwise enter line number s frame
      rw [show (frame.outerActive && !frame.taken) = false from h] at hotherwise
      rw [Branches.lines, onLines_cons_silent hotherwise,
        onLines_append_silent (body.onLines_inactive (number + 1) rfl),
        onLines_cons_silent (onLine_endIf enter closing _ s _)]
      rfl
  | .otherwiseIf _ line body others, number, s, frame, h => by
      have hothers := others.onLines_closed (number + 1 + body.lines.length) s
        { frame with active := false } h
      rw [Branches.lines, onLines_cons_silent (onLine_otherwiseIf_closed enter line number s h),
        onLines_append_silent (body.onLines_inactive (number + 1) rfl)]
      exact hothers

end

/-! ## Evaluated lines -/

/-- The branch that is taken, in front of lines that only close the group. -/
theorem onLines_taken {body : Block} {closing : List (List Char)} {number : Nat}
    {s : PreprocessState} {frame : Frame}
    (hbody : onLines enter number body.lines (within s frame) =
      (body.eval number s.macros).map (resultFrom (within s frame)))
    (hclosing : ∀ macros, onLines enter (number + body.lines.length) closing
      (within { s with macros := macros } frame) = .ok ([], { s with macros := macros })) :
    onLines enter number (body.lines ++ closing) (within s frame) =
      (body.eval number s.macros).map (resultFrom s) := by
  have hnothing : onLines enter number (body.lines ++ closing) (within s frame) =
      ((body.eval number s.macros).andThen fun macros => .ok ([], macros)).map (resultFrom s) :=
    onLines_append_eval hbody hclosing
  rw [hnothing, Outcome.andThen_nothing]

/-- Below a condition that was evaluated, its own branch or the branches after it are
processed. -/
theorem onLines_branches {body : Block} {others : Branches} {number : Nat}
    {s : PreprocessState} (taken : Bool)
    (hbody : ∀ {t : PreprocessState}, t.active = true →
      onLines enter number body.lines t = (body.eval number t.macros).map (resultFrom t))
    (hothers : onLines enter (number + body.lines.length) others.lines
        (within s ⟨false, false, true⟩) =
      (others.eval (number + body.lines.length) s.macros).map (resultFrom s)) :
    onLines enter number (body.lines ++ others.lines) (within s ⟨taken, taken, true⟩) =
      (if taken then body.eval number s.macros
        else others.eval (number + body.lines.length) s.macros).map (resultFrom s) := by
  cases taken with
  | false =>
      rw [onLines_append_silent (body.onLines_inactive enter number rfl), hothers]
      rfl
  | true =>
      have hactive := hbody (t := within s ⟨true, true, true⟩) rfl
      exact onLines_taken enter hactive fun macros => others.onLines_closed enter _ _ _ rfl

mutual

/-- A block in an active branch has the outcome of its evaluation. -/
theorem Block.onLines_active : ∀ (b : Block) (number : Nat) {s : PreprocessState},
    s.active = true →
      onLines enter number b.lines s = (b.eval number s.macros).map (resultFrom s)
  | .nil, _, _, _ => rfl
  | .line statement line rest, number, s, h => by
      have hline := onLine_statement_active enter line number h
      have hrest := rest.onLines_active (number + 1)
        (s := { s with macros := statement.update s.macros }) h
      rw [Block.lines, onLines, hline, Block.eval]
      simp only [bind, Except.bind, hrest, Outcome.andThen]
      cases rest.eval (number + 1) (statement.update s.macros) <;> rfl
  | .group opening line body others rest, number, s, h => by
      have hopening := onLine_opening_active enter line number h
      rw [Block.lines, Block.eval]
      cases htaken : opening.holds number s.macros with
      | error e =>
          rw [htaken] at hopening
          rw [onLines_cons_error hopening]
          rfl
      | ok taken =>
          rw [htaken] at hopening
          have hbranches := onLines_branches enter taken
            (body.onLines_active (number + 1))
            (others.onLines_open (number + 1 + body.lines.length) s false)
          have hrest := fun macros => rest.onLines_active
            (number + 1 + (body.lines ++ others.lines).length)
            (s := { s with macros := macros }) h
          rw [onLines_cons_silent hopening, ← List.append_assoc,
            onLines_append_eval hbranches hrest, List.length_append, ← Nat.add_assoc]
          rfl

/-- The remaining branches of an open group have the outcome of their evaluation. -/
theorem Branches.onLines_open : ∀ (b : Branches) (number : Nat) (s : PreprocessState)
    (active : Bool),
      onLines enter number b.lines (within s ⟨active, false, true⟩) =
        (b.eval number s.macros).map (resultFrom s)
  | .endIf closing, number, s, active => by
      rw [Branches.lines, onLines_cons_silent (onLine_endIf enter closing number s _)]
      rfl
  | .otherwise line body closing, number, s, active => by
      have hbody := body.onLines_active (number + 1) (s := within s ⟨true, true, true⟩) rfl
      have hotherwise := onLine_otherwise enter line number s ⟨active, false, true⟩
      have hclosing := fun macros => (Branches.endIf closing).onLines_closed enter
        (number + 1 + body.lines.length) { s with macros := macros } ⟨true, true, true⟩ rfl
      rw [Branches.lines, onLines_cons_silent hotherwise, Branches.eval]
      exact onLines_taken enter hbody hclosing
  | .otherwiseIf text line body others, number, s, active => by
      have hcondition := onLine_otherwiseIf_open enter line number s active
      rw [Branches.lines, Branches.eval]
      cases htaken : conditionHolds number s.macros text with
      | error e =>
          rw [htaken] at hcondition
          rw [onLines_cons_error hcondition]
          rfl
      | ok taken =>
          rw [htaken] at hcondition
          rw [onLines_cons_silent hcondition]
          exact onLines_branches enter taken (body.onLines_active (number + 1))
            (others.onLines_open (number + 1 + body.lines.length) s false)

end

/-! ## Runs -/

/-- A run on a source with the lines of a block is the evaluation of the block. -/
theorem Block.run_of_linesOf (b : Block) {source : String} (h : Text.linesOf source = b.lines)
    (resolve : String → Option String) (macros : Macros) :
    run resolve macros source =
      (b.eval 1 macros).map fun r => String.ofList (Text.unlines r.1) := by
  have hlines := b.onLines_active (enter resolve maxDepth) 1
    (s := ⟨macros, [], []⟩) rfl
  unfold run
  rw [h]
  dsimp only
  rw [hlines]
  cases b.eval 1 macros <;> rfl

/-- A run on a well-nested source without inclusions is the evaluation of its tree: it
gives the emitted lines, each followed by a line feed, or the first error. -/
theorem Block.run_render (b : Block) (resolve : String → Option String) (macros : Macros) :
    run resolve macros b.render =
      (b.eval 1 macros).map fun r => String.ofList (Text.unlines r.1) :=
  b.run_of_linesOf b.linesOf_render resolve macros

/-- A definition and two groups.  The first one has two malformed conditions, one of them in an
inactive branch and one below the branch that is taken; the second one asks for the name that
was taken back in between. -/
def sampleBlock : Block :=
  let endIf : LineOf .endIf := ⟨"#endif".toList, ⟨by decide, by decide⟩, by decide +kernel⟩
  let malformed : Block :=
    .group (.condition "(") ⟨"#if (".toList, ⟨by decide, by decide⟩, by decide +kernel⟩
      .nil (.endIf endIf) .nil
  .line (.define "N" "2") ⟨"#define N 2".toList, ⟨by decide, by decide⟩, by decide +kernel⟩
    (.group (.ifDefined "A" true) ⟨"#ifdef A".toList, ⟨by decide, by decide⟩, by decide +kernel⟩
      malformed
      (.otherwiseIf "N == 2"
        ⟨"#elif N == 2".toList, ⟨by decide, by decide⟩, by decide +kernel⟩
        (.line .text ⟨"two();".toList, ⟨by decide, by decide⟩, by decide +kernel⟩ .nil)
        (.otherwiseIf "(" ⟨"#elif (".toList, ⟨by decide, by decide⟩, by decide +kernel⟩ .nil
          (.endIf endIf)))
      (.line (.undefine "N") ⟨"#undef N".toList, ⟨by decide, by decide⟩, by decide +kernel⟩
        (.group (.ifDefined "N" false)
          ⟨"#ifndef N".toList, ⟨by decide, by decide⟩, by decide +kernel⟩
          (.line .text ⟨"none();".toList, ⟨by decide, by decide⟩, by decide +kernel⟩ .nil)
          (.otherwise ⟨"#else".toList, ⟨by decide, by decide⟩, by decide +kernel⟩ malformed endIf)
          .nil)))

/-- No malformed condition is evaluated, and one branch of either group is processed. -/
theorem run_sampleBlock :
    (run (fun _ => none) [] sampleBlock.render).toOption = some "two();\nnone();\n" := by
  rw [sampleBlock.run_render (fun _ => none) []]
  decide +kernel

end Preprocess
end ShaderAssets
