import ShaderAssets.Preprocess.Run
import ShaderAssets.Proofs.Preprocess.Directives
import ShaderAssets.Proofs.Text.Lines

/-!
# Well-nested sources

A source whose conditional groups are nested properly is a tree: a block is a list
of items, and an item is a line of its own or a group, each branch of which is a
block again.  Every node keeps the source lines that it was read from, with the
proof that they are read that way, so only well-nested sources can be built.  Which
lines are read in which way, {lit}`Directive.ofLine_eq_iff` says.

The tree has a meaning that needs neither frames nor flags.  Items are processed in
order with the names defined so far.  In a group the conditions are evaluated in
order up to the first one that holds, and the branch below it is processed; nothing
of the other branches is.

Main results:

- Inductives {lit}`Block` and {lit}`Branches`: the tree.
- Definition {lit}`Block.eval`: its meaning.
- Theorem {lit}`Block.eval_eq_error`: what an evaluation can fail with.
- Theorem {lit}`Block.linesOf_render`: the written tree has the lines of the tree.
-/

namespace ShaderAssets
namespace Preprocess

/-! ## Lines -/

/-- A line of source text that is read as a given directive. -/
structure LineOf (directive : Directive) where
  text : List Char
  isLine : Text.IsLine text
  reads : Directive.ofLine text = directive

/-- What a line outside of conditionals may say, inclusions apart. -/
inductive Statement where
  | text
  | define (name value : String)
  | undefine (name : String)

namespace Statement

/-- The directive of a statement. -/
def directive : Statement → Directive
  | .text => .text
  | .define name value => .define name value
  | .undefine name => .undefine name

/-- The lines that a statement emits, given its own line. -/
def emitted (line : List Char) : Statement → List (List Char)
  | .text => [line]
  | .define _ _ | .undefine _ => []

/-- The names that are defined after a statement.  A definition of nothing changes
nothing. -/
def update (macros : Macros) : Statement → Macros
  | .text => macros
  | .define name value => if name = "" then macros else macros.define name value
  | .undefine name => macros.undefine name

end Statement

/-- What opens a group. -/
inductive Opening where
  | ifDefined (name : String) (expected : Bool)
  | condition (text : String)

/-- Whether a condition on a line holds.  A malformed one is an error of that line. -/
def conditionHolds (number : Nat) (macros : Macros) (text : String) :
    Except PreprocessError Bool :=
  match Condition.holds? macros.find? text.toList with
  | some b => .ok b
  | none => .error (.badExpression number text)

namespace Opening

/-- The directive that opens a group. -/
def directive : Opening → Directive
  | .ifDefined name expected => .ifDefined name expected
  | .condition text => .condition text

/-- Whether the first branch of a group on a line is taken. -/
def holds (number : Nat) (macros : Macros) : Opening → Except PreprocessError Bool
  | .ifDefined name expected => .ok (macros.isDefined name == expected)
  | .condition text => conditionHolds number macros text

end Opening

/-! ## The tree -/

mutual

/-- Items in order. -/
inductive Block where
  | nil
  | line (statement : Statement) (line : LineOf statement.directive) (rest : Block)
  | group (opening : Opening) (line : LineOf opening.directive) (body : Block)
      (others : Branches) (rest : Block)

/-- The branches of a group after its first one, and the line that closes it. -/
inductive Branches where
  | endIf (closing : LineOf .endIf)
  | otherwise (line : LineOf .otherwise) (body : Block) (closing : LineOf .endIf)
  | otherwiseIf (text : String) (line : LineOf (.otherwiseIf text)) (body : Block)
      (others : Branches)

end

mutual

/-- The source lines of a block. -/
def Block.lines : Block → List (List Char)
  | .nil => []
  | .line _ line rest => line.text :: rest.lines
  | .group _ line body others rest => line.text :: (body.lines ++ (others.lines ++ rest.lines))

/-- The source lines of branches, up to the line that closes the group. -/
def Branches.lines : Branches → List (List Char)
  | .endIf closing => [closing.text]
  | .otherwise line body closing => line.text :: (body.lines ++ [closing.text])
  | .otherwiseIf _ line body others => line.text :: (body.lines ++ others.lines)

end

/-- The source text of a block. -/
def Block.render (b : Block) : String :=
  String.ofList (Text.unlines b.lines)

/-! ## Its meaning -/

/-- The lines emitted and the names defined afterwards. -/
abbrev Outcome := Except PreprocessError (List (List Char) × Macros)

/-- Goes on with the names defined so far and emits further lines. -/
def Outcome.andThen (first : Outcome) (next : Macros → Outcome) : Outcome := do
  let (emitted, macros) ← first
  let (more, macros) ← next macros
  return (emitted ++ more, macros)

/-- Nothing follows. -/
theorem Outcome.andThen_nothing (first : Outcome) :
    first.andThen (fun macros => .ok ([], macros)) = first := by
  cases first with
  | error e => rfl
  | ok r => simp [andThen, bind, Except.bind, pure, Except.pure]

mutual

/-- The outcome of a block whose first line has a given number. -/
def Block.eval (number : Nat) (macros : Macros) : Block → Outcome
  | .nil => .ok ([], macros)
  | .line statement line rest =>
      Outcome.andThen (.ok (statement.emitted line.text, statement.update macros))
        fun macros => rest.eval (number + 1) macros
  | .group opening _ body others rest => do
      let afterBody := number + 1 + body.lines.length
      let taken ← opening.holds number macros
      Outcome.andThen
        (if taken then body.eval (number + 1) macros else others.eval afterBody macros)
        fun macros => rest.eval (afterBody + others.lines.length) macros

/-- The outcome of branches of which none before was taken. -/
def Branches.eval (number : Nat) (macros : Macros) : Branches → Outcome
  | .endIf _ => .ok ([], macros)
  | .otherwise _ body _ => body.eval (number + 1) macros
  | .otherwiseIf text _ body others => do
      let taken ← conditionHolds number macros text
      if taken then body.eval (number + 1) macros
      else others.eval (number + 1 + body.lines.length) macros

end

/-! ## Errors -/

/-- The line of some lines that a malformed condition stands on is the one that an
error names. -/
def IsConditionError (number : Nat) (lines : List (List Char)) (e : PreprocessError) : Prop :=
  ∃ i line text, lines[i]? = some line ∧ e = .badExpression (number + i) text ∧
    (Directive.ofLine line = .condition text ∨ Directive.ofLine line = .otherwiseIf text)

/-- An error in a part of some lines is an error in all of them. -/
theorem IsConditionError.append {number start : Nat} {lines : List (List Char)}
    {e : PreprocessError} (h : IsConditionError start lines e) (before after : List (List Char))
    (hstart : start = number + before.length) :
    IsConditionError number (before ++ (lines ++ after)) e := by
  obtain ⟨i, line, text, hline, rfl, hdirective⟩ := h
  refine ⟨before.length + i, line, text, ?_, by rw [hstart, Nat.add_assoc], hdirective⟩
  rw [List.getElem?_append_right (Nat.le_add_right _ _), Nat.add_sub_cancel_left,
    List.getElem?_append_left (List.getElem?_eq_some_iff.mp hline).1]
  exact hline

/-- A condition fails only with an error of its own line. -/
theorem conditionHolds_eq_error {number : Nat} {macros : Macros} {text : String}
    {e : PreprocessError} (h : conditionHolds number macros text = .error e) :
    e = .badExpression number text := by
  unfold conditionHolds at h
  split at h
  · cases h
  · cases h
    rfl

/-- What fails of two parts is one of them. -/
theorem Outcome.andThen_eq_error {first : Outcome} {next : Macros → Outcome}
    {e : PreprocessError} (h : first.andThen next = .error e) :
    first = .error e ∨ ∃ macros, next macros = .error e := by
  cases first with
  | error e' => exact Or.inl h
  | ok r =>
      refine Or.inr ⟨r.2, ?_⟩
      cases hnext : next r.2 with
      | error e' => simpa [andThen, bind, Except.bind, hnext] using h
      | ok r' => simp [andThen, bind, Except.bind, hnext, pure, Except.pure] at h

mutual

/-- An evaluation fails only with an error of a condition in the block. -/
theorem Block.eval_eq_error : ∀ (b : Block) (number : Nat) (macros : Macros)
    {e : PreprocessError}, b.eval number macros = .error e → IsConditionError number b.lines e
  | .nil, number, macros, e, h => by
      rw [Block.eval] at h
      cases h
  | .line statement line rest, number, macros, e, h => by
      rw [Block.eval] at h
      rcases Outcome.andThen_eq_error h with h | ⟨macros', h⟩
      · cases h
      · have hrest := rest.eval_eq_error (number + 1) macros' h
        simpa [Block.lines] using hrest.append [line.text] [] rfl
  | .group opening line body others rest, number, macros, e, h => by
      rw [Block.eval] at h
      rw [Block.lines]
      cases htaken : opening.holds number macros with
      | error e' =>
          rw [htaken] at h
          cases h
          cases opening with
          | ifDefined name expected => cases htaken
          | condition text =>
              have htext : Directive.ofLine line.text = .condition text := line.reads
              exact ⟨0, line.text, text, rfl, conditionHolds_eq_error htaken, Or.inl htext⟩
      | ok taken =>
          rw [htaken] at h
          simp only [bind, Except.bind] at h
          rcases Outcome.andThen_eq_error h with h | ⟨macros', h⟩
          · cases taken with
            | true =>
                have hbody := body.eval_eq_error (number + 1) macros h
                exact hbody.append [line.text] (others.lines ++ rest.lines) rfl
            | false =>
                have hothers := others.eval_eq_error (number + 1 + body.lines.length) macros h
                simpa using hothers.append (line.text :: body.lines) rest.lines
                  (by simp only [List.length_cons]; omega)
          · have hrest := rest.eval_eq_error _ macros' h
            simpa using hrest.append (line.text :: (body.lines ++ others.lines)) []
              (by simp only [List.length_cons, List.length_append]; omega)

/-- An evaluation fails only with an error of a condition in the branches. -/
theorem Branches.eval_eq_error : ∀ (b : Branches) (number : Nat) (macros : Macros)
    {e : PreprocessError}, b.eval number macros = .error e → IsConditionError number b.lines e
  | .endIf _, number, macros, e, h => by
      rw [Branches.eval] at h
      cases h
  | .otherwise line body closing, number, macros, e, h => by
      rw [Branches.eval] at h
      have hbody := body.eval_eq_error (number + 1) macros h
      exact hbody.append [line.text] [closing.text] rfl
  | .otherwiseIf text line body others, number, macros, e, h => by
      rw [Branches.eval] at h
      rw [Branches.lines]
      cases htaken : conditionHolds number macros text with
      | error e' =>
          rw [htaken] at h
          cases h
          exact ⟨0, line.text, text, rfl, conditionHolds_eq_error htaken, Or.inr line.reads⟩
      | ok taken =>
          rw [htaken] at h
          cases taken with
          | true =>
              have hbody := body.eval_eq_error (number + 1) macros h
              exact hbody.append [line.text] others.lines rfl
          | false =>
              change others.eval (number + 1 + body.lines.length) macros = .error e at h
              have hothers := others.eval_eq_error (number + 1 + body.lines.length) macros h
              simpa using hothers.append (line.text :: body.lines) []
                (by simp only [List.length_cons]; omega)

end

/-! ## Rendering -/

mutual

/-- A block is made of lines. -/
theorem Block.isLine_of_mem : ∀ (b : Block), ∀ line ∈ b.lines, Text.IsLine line
  | .nil, line, h => absurd h List.not_mem_nil
  | .line _ first rest, line, h => by
      rw [Block.lines, List.mem_cons] at h
      rcases h with rfl | h
      · exact first.isLine
      · exact rest.isLine_of_mem line h
  | .group _ first body others rest, line, h => by
      rw [Block.lines, List.mem_cons, List.mem_append, List.mem_append] at h
      rcases h with rfl | h | h | h
      · exact first.isLine
      · exact body.isLine_of_mem line h
      · exact others.isLine_of_mem line h
      · exact rest.isLine_of_mem line h

/-- Branches are made of lines. -/
theorem Branches.isLine_of_mem : ∀ (b : Branches), ∀ line ∈ b.lines, Text.IsLine line
  | .endIf closing, line, h => by
      rw [Branches.lines, List.mem_singleton] at h
      rw [h]
      exact closing.isLine
  | .otherwise first body closing, line, h => by
      rw [Branches.lines, List.mem_cons, List.mem_append, List.mem_singleton] at h
      rcases h with rfl | h | rfl
      · exact first.isLine
      · exact body.isLine_of_mem line h
      · exact closing.isLine
  | .otherwiseIf _ first body others, line, h => by
      rw [Branches.lines, List.mem_cons, List.mem_append] at h
      rcases h with rfl | h | h
      · exact first.isLine
      · exact body.isLine_of_mem line h
      · exact others.isLine_of_mem line h

end

/-- The written tree has the lines of the tree. -/
theorem Block.linesOf_render (b : Block) : Text.linesOf b.render = b.lines := by
  unfold Block.render Text.linesOf
  rw [String.toList_ofList]
  exact Text.lines_unlines b.isLine_of_mem

end Preprocess
end ShaderAssets
