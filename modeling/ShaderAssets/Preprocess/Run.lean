import ShaderAssets.Text.Lines
import ShaderAssets.Preprocess.Condition
import ShaderAssets.Preprocess.Directive

/-!
# Preprocessing

A source is processed line by line.  Conditional groups keep a stack of frames,
and only lines in active branches are emitted or obeyed.  An included file is
processed in place of the line that includes it, with the same definitions and
the same stack; a path is included once.  Defined names are not replaced in
ordinary lines.

Inclusion is a recursion on the number of nested inclusions still allowed, and
within a file a recursion on its lines, so every run ends.
-/

namespace ShaderAssets

/-- Why preprocessing failed. -/
inductive PreprocessError where
  | includeNotFound (path : String)
  | includeTooDeep (path : String)
  | unbalancedConditional (line : Nat)
  | badExpression (line : Nat) (text : String)
deriving DecidableEq, Repr, Inhabited

namespace PreprocessError

/-- The wording of a preprocessing error. -/
def message : PreprocessError → String
  | .includeNotFound path => "Include not found: \"" ++ path ++ "\""
  | .includeTooDeep path => "Include nesting too deep at \"" ++ path ++ "\""
  | .unbalancedConditional line =>
      "Unbalanced conditional directive at line " ++ toString line
  | .badExpression line text =>
      "Cannot evaluate '#if " ++ text ++ "' at line " ++ toString line

end PreprocessError

/-! ## Definitions -/

/-- Defined names with their values, each name once. -/
abbrev Macros := List (String × String)

namespace Macros

/-- Gives a name a value. -/
def define (m : Macros) (name value : String) : Macros :=
  (name, value) :: m.filter (·.1 != name)

/-- Forgets a name. -/
def undefine (m : Macros) (name : String) : Macros :=
  m.filter (·.1 != name)

/-- The value of a name, if it is defined. -/
def find? (m : Macros) (name : String) : Option String :=
  m.lookup name

/-- Whether a name is defined. -/
def isDefined (m : Macros) (name : String) : Bool :=
  (m.find? name).isSome

/-- The value of a name among those that are kept. -/
theorem lookup_filter (m : Macros) (name other : String) :
    List.lookup other (m.filter (·.1 != name)) =
      if other = name then none else m.lookup other := by
  induction m with
  | nil => simp
  | cons head rest ih =>
      obtain ⟨n, v⟩ := head
      by_cases hn : n = name
      · subst hn
        by_cases ho : other = n
        · subst ho
          simpa using ih
        · simp [ho, ih, List.lookup_cons, beq_eq_false_iff_ne.mpr ho]
      · by_cases ho : other = n
        · subst ho
          simp [hn]
        · simp [hn, List.lookup_cons, beq_eq_false_iff_ne.mpr ho, ih]

/-- A definition changes the value of its own name only. -/
theorem find?_define (m : Macros) (name value other : String) :
    (m.define name value).find? other =
      if other = name then some value else m.find? other := by
  by_cases h : other = name
  · simp [define, find?, h]
  · simp [define, find?, List.lookup_cons, beq_eq_false_iff_ne.mpr h, lookup_filter, h]

/-- Forgetting a name touches no other. -/
theorem find?_undefine (m : Macros) (name other : String) :
    (m.undefine name).find? other = if other = name then none else m.find? other :=
  lookup_filter m name other

end Macros

/-! ## Conditional groups -/

/-- An open conditional group. -/
structure Frame where
  /-- Lines of the current branch are emitted. -/
  active : Bool
  /-- Some branch of the group was taken already. -/
  taken : Bool
  /-- The group itself stands in an active branch. -/
  outerActive : Bool
deriving DecidableEq, Repr, Inhabited

/-- What the preprocessor knows between two lines. -/
structure PreprocessState where
  macros : Macros
  /-- The open groups, the innermost first. -/
  stack : List Frame
  /-- The paths included so far. -/
  included : List String
deriving DecidableEq, Repr, Inhabited

/-- The outcome of processing lines: the lines emitted and the state after
them. -/
abbrev PreprocessResult := Except PreprocessError (List (List Char) × PreprocessState)

namespace PreprocessState

/-- Whether lines are emitted here. -/
def active (s : PreprocessState) : Bool :=
  match s.stack with
  | [] => true
  | frame :: _ => frame.active

/-- Opens a group whose first branch holds or not. -/
def openGroup (s : PreprocessState) (active taken : Bool) : PreprocessState :=
  { s with stack := ⟨active, taken, s.active⟩ :: s.stack }

/-- Evaluates a condition on a line. -/
def evaluate (s : PreprocessState) (number : Nat) (text : String) :
    Except PreprocessError Bool :=
  match Condition.holds? s.macros.find? text.toList with
  | some b => .ok b
  | none => .error (.badExpression number text)

/-- The lines that an ordinary line emits. -/
def emit (s : PreprocessState) (line : List Char) : List (List Char) :=
  if s.active then [line] else []

/-- Obeys a directive on a line, inclusions apart. -/
def obey (s : PreprocessState) (number : Nat) (line : List Char) :
    Directive → PreprocessResult
  | .text => .ok (s.emit line, s)
  | .inclusion _ => .ok ([], s)
  | .malformedInclusion argument =>
      if s.active then .error (.includeNotFound argument) else .ok ([], s)
  | .define name value =>
      if s.active ∧ name ≠ "" then .ok ([], { s with macros := s.macros.define name value })
      else .ok ([], s)
  | .undefine name =>
      if s.active then .ok ([], { s with macros := s.macros.undefine name })
      else .ok ([], s)
  | .ifDefined name expected =>
      let holds := s.macros.isDefined name == expected
      .ok ([], s.openGroup (s.active && holds) holds)
  | .condition text =>
      if s.active then do
        let holds ← s.evaluate number text
        return ([], s.openGroup holds holds)
      else .ok ([], s.openGroup false false)
  | .otherwiseIf text =>
      match s.stack with
      | [] => .error (.unbalancedConditional number)
      | frame :: outer =>
          if frame.outerActive && !frame.taken then do
            let holds ← s.evaluate number text
            return ([], { s with stack := { frame with active := holds, taken := holds } :: outer })
          else .ok ([], { s with stack := { frame with active := false } :: outer })
  | .otherwise =>
      match s.stack with
      | [] => .error (.unbalancedConditional number)
      | frame :: outer =>
          let active := frame.outerActive && !frame.taken
          .ok ([], { s with stack := { frame with active := active, taken := true } :: outer })
  | .endIf =>
      match s.stack with
      | [] => .error (.unbalancedConditional number)
      | _ :: outer => .ok ([], { s with stack := outer })

end PreprocessState

namespace Preprocess

/-! ## Lines and files -/

/-- Processes one line; `enter` processes a path that is included for the first
time. -/
def onLine (enter : String → PreprocessState → PreprocessResult) (number : Nat)
    (line : List Char) (s : PreprocessState) : PreprocessResult :=
  match Directive.ofLine line with
  | .inclusion path =>
      if s.active ∧ path ∉ s.included then
        enter path { s with included := path :: s.included }
      else .ok ([], s)
  | directive => s.obey number line directive

/-- Processes lines in order, the first of them having a given number. -/
def onLines (enter : String → PreprocessState → PreprocessResult) (number : Nat) :
    List (List Char) → PreprocessState → PreprocessResult
  | [], s => .ok ([], s)
  | line :: rest, s => do
      let (emitted, s) ← onLine enter number line s
      let (more, s) ← onLines enter (number + 1) rest s
      return (emitted ++ more, s)

/-- Processes the file at a path, with a bound on nested inclusions. -/
def enter (resolve : String → Option String) :
    Nat → String → PreprocessState → PreprocessResult
  | 0, path, _ => .error (.includeTooDeep path)
  | depth + 1, path, s =>
      match resolve path with
      | none => .error (.includeNotFound path)
      | some text =>
          onLines (fun path s => enter resolve depth path s) 1 (Text.linesOf text) s

/-- The number of inclusions that may be nested. -/
def maxDepth : Nat := 32

/-- Processes a source.  Every group must be closed at its end. -/
def run (resolve : String → Option String) (macros : Macros) (source : String) :
    Except PreprocessError String := do
  let lines := Text.linesOf source
  let (emitted, s) ← onLines (enter resolve maxDepth) 1 lines ⟨macros, [], []⟩
  if s.stack.isEmpty then return String.ofList (Text.unlines emitted)
  else .error (.unbalancedConditional lines.length)

end Preprocess

end ShaderAssets
