import ShaderAssets.Proofs.Stage.Balance
import ShaderAssets.Proofs.Stage.Statements
import ShaderAssets.Proofs.Text.Parts
import ShaderAssets.Proofs.Text.Slashes
import ShaderAssets.Proofs.Text.Trim
import ShaderAssets.Stage.Compile

/-!
# Which stages compile

A stage compiles exactly if its source preprocesses and the code that is left without
comments is in order: the names it lists are declared, the brackets of its body match, and
the body mentions the entry point.  The bytecode then has the names that the code lists as
its inputs and outputs.

Main results:

- Relation {lit}`Lists`: a line lists a name behind a keyword.
- Relation {lit}`DeclaresVarying`: a line of a varying text declares a name.
- Theorem {lit}`mem_declaredNames_iff`: the names that a varying text declares.
- Structure {lit}`Accepts`: what is asked of a stage, with the code that it leaves.
- Theorem {lit}`Accepts.compile_eq_ok`: a stage that is in order compiles.
- Theorem {lit}`accepts_of_compile`: no other stage compiles.
-/

namespace ShaderAssets
namespace StageInput

open Text (IsWord IsUncommented)

/-! ## Lines -/

/-- Whether a character stands between listed names. -/
def isNameGap (c : Char) : Bool :=
  c == ',' || Text.isBlank c

/-- A line begins with a keyword, apart from white space, and lists a name behind it. -/
def Lists (keyword : String) (line name : List Char) : Prop :=
  ∃ rest, Text.trim line = keyword.toList ++ rest ∧ IsWord isNameGap rest name

/-- A line belongs to the body if it begins with neither keyword. -/
def IsBodyLine (line : List Char) : Prop :=
  ¬"$input".toList <+: Text.trim line ∧ ¬"$output".toList <+: Text.trim line

instance (line : List Char) : Decidable (IsBodyLine line) :=
  inferInstanceAs (Decidable (_ ∧ _))

/-- The lines of a code that belong to its body. -/
def bodyOf (code : List Char) : List Char :=
  Text.unlines ((Text.lines code).filter fun line => decide (IsBodyLine line))

/-- A code lists a name behind a keyword. -/
def ListsName (keyword : String) (code : List Char) (name : List Char) : Prop :=
  ∃ line ∈ Text.lines code, Lists keyword line name

/-! ## Varyings -/

/-- A line of a varying text declares a name: its second word in front of a comment, without
the colons and semicolons at the end of the word. -/
def DeclaresVarying (line name : List Char) : Prop :=
  ∃ code type marks more, IsUncommented line code ∧
    Text.words code = type :: (name ++ marks) :: more ∧
    (∀ c ∈ marks, c = ':' ∨ c = ';') ∧ ∀ c, name.getLast? = some c → c ≠ ':' ∧ c ≠ ';'

/-- The colons and semicolons at the end of a word are taken off. -/
theorem dropWhile_marks_eq_iff {word name : List Char} :
    (word.reverse.dropWhile (fun c => c == ':' || c == ';')).reverse = name ↔
      ∃ marks, word = name ++ marks ∧ (∀ c ∈ marks, c = ':' ∨ c = ';') ∧
        ∀ c, name.getLast? = some c → c ≠ ':' ∧ c ≠ ';' := by
  constructor
  · rintro rfl
    refine ⟨(word.reverse.takeWhile (fun c => c == ':' || c == ';')).reverse, ?_, ?_, ?_⟩
    · rw [← List.reverse_append, List.takeWhile_append_dropWhile, List.reverse_reverse]
    · intro c hc
      simpa using List.mem_takeWhile_imp (List.mem_reverse.mp hc)
    · intro c hc
      rw [List.getLast?_reverse] at hc
      simpa using Text.head?_dropWhile hc
  · rintro ⟨marks, rfl, hmarks, hlast⟩
    rw [List.reverse_append,
      List.dropWhile_append_of_pos fun c hc => by simpa using hmarks c (List.mem_reverse.mp hc),
      Text.dropWhile_eq_self fun c hc => by simpa using hlast c (by simpa using hc),
      List.reverse_reverse]

/-- A line of a varying text is read as the name that it declares. -/
theorem declaredIn?_eq_some_iff {line name : List Char} :
    declaredIn? line = some name ↔ DeclaresVarying line name := by
  unfold declaredIn?
  constructor
  · intro h
    split at h
    · rename_i type word more hwords
      obtain ⟨marks, rfl, hmarks, hlast⟩ := dropWhile_marks_eq_iff.mp (Option.some.inj h)
      exact ⟨_, type, marks, more, Text.beforeMark_eq_iff.mp rfl, hwords, hmarks, hlast⟩
    · cases h
  · rintro ⟨code, type, marks, more, hcode, hwords, hmarks, hlast⟩
    rw [Text.beforeMark_eq_iff.mpr hcode, hwords]
    exact congrArg some (dropWhile_marks_eq_iff.mpr ⟨marks, rfl, hmarks, hlast⟩)

/-- The names that a varying text declares are those of its lines. -/
theorem mem_declaredNames_iff {varying : String} {name : List Char} :
    name ∈ declaredNames varying ↔ ∃ line ∈ Text.linesOf varying, DeclaresVarying line name := by
  simp only [declaredNames, List.mem_filterMap, declaredIn?_eq_some_iff]

/-- Comments, colons and semicolons are no parts of the names. -/
example : declaredNames "vec3 a_position : POSITION; // v_none\nvec2 v_uv;\nv_alone\n" =
    ["a_position".toList, "v_uv".toList] := by
  decide +kernel

namespace CodeLine

/-- The names behind a keyword are the words between gaps. -/
theorem mem_readNames_iff {rest name : List Char} :
    name ∈ readNames rest ↔ IsWord isNameGap rest name :=
  Text.mem_filter_splitOnP_iff

/-- A line is one of three kinds. -/
theorem read_cases (line : List Char) :
    (∃ rest, Text.trim line = "$input".toList ++ rest ∧ read line = .inputs (readNames rest)) ∨
    (∃ rest, Text.trim line = "$output".toList ++ rest ∧ read line = .outputs (readNames rest)) ∨
    (IsBodyLine line ∧ read line = .body line) := by
  unfold read
  dsimp only
  cases hinput : Text.dropPrefix? "$input".toList (Text.trim line) with
  | some rest => exact Or.inl ⟨rest, Text.dropPrefix?_eq_some_iff.mp hinput, rfl⟩
  | none =>
      cases houtput : Text.dropPrefix? "$output".toList (Text.trim line) with
      | some rest => exact Or.inr (Or.inl ⟨rest, Text.dropPrefix?_eq_some_iff.mp houtput, rfl⟩)
      | none =>
          exact Or.inr (Or.inr ⟨⟨Text.dropPrefix?_eq_none_iff.mp hinput,
            Text.dropPrefix?_eq_none_iff.mp houtput⟩, rfl⟩)

/-- No line begins with both keywords. -/
theorem not_output_of_input {s : List Char} (h : "$input".toList <+: s) :
    ¬"$output".toList <+: s := by
  rintro ⟨rest', rfl⟩
  obtain ⟨rest, hrest⟩ := h
  have hsecond := congrArg (·[1]?) hrest
  cases hsecond

/-- A line that lists names begins with the keyword. -/
theorem prefix_of_lists {keyword : String} {line name : List Char}
    (h : Lists keyword line name) : keyword.toList <+: Text.trim line := by
  obtain ⟨rest, htrim, -⟩ := h
  exact ⟨rest, htrim.symm⟩

/-- A line that begins with a keyword lists the names behind it. -/
theorem mem_readNames_iff_lists {keyword : String} {line rest name : List Char}
    (htrim : Text.trim line = keyword.toList ++ rest) :
    name ∈ readNames rest ↔ Lists keyword line name := by
  rw [mem_readNames_iff]
  constructor
  · exact fun h => ⟨rest, htrim, h⟩
  · rintro ⟨rest', htrim', h⟩
    rwa [List.append_cancel_left (htrim.symm.trans htrim')]

/-- The inputs of a line are the names that it lists behind the keyword. -/
theorem mem_inputNames_iff {line name : List Char} :
    name ∈ (read line).inputNames ↔ Lists "$input" line name := by
  rcases read_cases line with ⟨rest, htrim, hread⟩ | ⟨rest, htrim, hread⟩ | ⟨hbody, hread⟩
  · rw [hread]
    exact mem_readNames_iff_lists htrim
  · rw [hread]
    exact iff_of_false List.not_mem_nil
      fun h => not_output_of_input (prefix_of_lists h) ⟨rest, htrim.symm⟩
  · rw [hread]
    exact iff_of_false List.not_mem_nil fun h => hbody.1 (prefix_of_lists h)

/-- So are its outputs. -/
theorem mem_outputNames_iff {line name : List Char} :
    name ∈ (read line).outputNames ↔ Lists "$output" line name := by
  rcases read_cases line with ⟨rest, htrim, hread⟩ | ⟨rest, htrim, hread⟩ | ⟨hbody, hread⟩
  · rw [hread]
    exact iff_of_false List.not_mem_nil
      fun h => not_output_of_input ⟨rest, htrim.symm⟩ (prefix_of_lists h)
  · rw [hread]
    exact mem_readNames_iff_lists htrim
  · rw [hread]
    exact iff_of_false List.not_mem_nil fun h => hbody.2 (prefix_of_lists h)

/-- The names of a line are its inputs and its outputs. -/
theorem mem_names_iff {line : CodeLine} {name : List Char} :
    name ∈ line.names ↔ name ∈ line.inputNames ∨ name ∈ line.outputNames := by
  cases line <;> simp [names, inputNames, outputNames]

/-- A line is in the body if it begins with neither keyword. -/
theorem body?_read (line : List Char) :
    (read line).body? = if IsBodyLine line then some line else none := by
  rcases read_cases line with ⟨rest, htrim, hread⟩ | ⟨rest, htrim, hread⟩ | ⟨hbody, hread⟩
  · rw [hread, if_neg fun h => h.1 ⟨rest, htrim.symm⟩]
    rfl
  · rw [hread, if_neg fun h => h.2 ⟨rest, htrim.symm⟩]
    rfl
  · rw [hread, if_pos hbody]
    rfl

end CodeLine

/-! ## Codes -/

/-- The lines that are read as body make up the body. -/
theorem unlines_filterMap_body? (code : List Char) :
    Text.unlines (((Text.lines code).map CodeLine.read).filterMap CodeLine.body?) =
      bodyOf code := by
  rw [List.filterMap_map, bodyOf, ← List.filterMap_eq_filter]
  congr 2
  funext line
  rw [Function.comp_apply, CodeLine.body?_read]
  simp [Option.guard]

/-- The inputs of the lines of a code are the names that it lists. -/
theorem mem_flatMap_inputNames_iff {code name : List Char} :
    name ∈ ((Text.lines code).map CodeLine.read).flatMap CodeLine.inputNames ↔
      ListsName "$input" code name := by
  simp [List.mem_flatMap, CodeLine.mem_inputNames_iff, ListsName]

/-- So are the outputs. -/
theorem mem_flatMap_outputNames_iff {code name : List Char} :
    name ∈ ((Text.lines code).map CodeLine.read).flatMap CodeLine.outputNames ↔
      ListsName "$output" code name := by
  simp [List.mem_flatMap, CodeLine.mem_outputNames_iff, ListsName]

/-- The names of the lines of a code are those of both kinds. -/
theorem mem_flatMap_names_iff {code name : List Char} :
    name ∈ ((Text.lines code).map CodeLine.read).flatMap CodeLine.names ↔
      ListsName "$input" code name ∨ ListsName "$output" code name := by
  rw [← mem_flatMap_inputNames_iff, ← mem_flatMap_outputNames_iff]
  simp only [List.mem_flatMap, CodeLine.mem_names_iff, ← exists_or, and_or_left]

/-- A name is among the texts of names if its characters are among the names. -/
theorem mem_map_ofList_iff {names : List (List Char)} {name : String} :
    name ∈ names.map String.ofList ↔ name.toList ∈ names := by
  rw [List.mem_map]
  constructor
  · rintro ⟨chars, hmem, rfl⟩
    rwa [String.toList_ofList]
  · exact fun h => ⟨name.toList, h, String.ofList_toList⟩

/-- What is asked of code without comments. -/
structure InOrder (r : StageInput) (code : List Char) : Prop where
  /-- The listed names are declared. -/
  declared : ∀ name, ListsName "$input" code name ∨ ListsName "$output" code name →
    ∃ line ∈ Text.linesOf r.varying, DeclaresVarying line name
  /-- The brackets of the body match. -/
  balanced : Balance.Matched (Balance.brackets (bodyOf code))
  /-- The body mentions the entry point. -/
  entry : IsWord (!Reflection.isWordChar ·) (bodyOf code) "main".toList

/-- Bytecode has the names that a code lists. -/
structure Bears (b : Bytecode) (code : List Char) : Prop where
  inputs : ∀ name, name ∈ b.inputs ↔ ListsName "$input" code name.toList
  outputs : ∀ name, name ∈ b.outputs ↔ ListsName "$output" code name.toList

/-- No listed name is found undeclared if all are declared. -/
theorem find?_undeclared_eq_none_iff {varying : String} {code : List Char} :
    (((Text.lines code).map CodeLine.read).flatMap CodeLine.names).find?
        (fun name => !(declaredNames varying).contains name) = none ↔
      ∀ name, ListsName "$input" code name ∨ ListsName "$output" code name →
        ∃ line ∈ Text.linesOf varying, DeclaresVarying line name := by
  simp only [List.find?_eq_none, mem_flatMap_names_iff, Bool.not_eq_true, Bool.not_eq_false',
    List.contains_iff_mem, mem_declaredNames_iff]

/-- A code has an entry point if it mentions it. -/
theorem definesMain_iff {code : List Char} :
    Reflection.definesMain code = true ↔
      IsWord (!Reflection.isWordChar ·) code "main".toList :=
  Reflection.mentions_iff

/-- Code that is in order assembles to bytecode with its names. -/
theorem InOrder.assemble_eq_ok {r : StageInput} {code : List Char} (h : r.InOrder code) :
    ∃ b, r.assemble code = .ok b ∧ Bears b code := by
  have hdeclared := find?_undeclared_eq_none_iff.mpr h.declared
  have hbalanced := Balance.check_eq_ok_iff.mpr h.balanced
  have hentry := definesMain_iff.mpr h.entry
  unfold assemble
  dsimp only
  rw [hdeclared, unlines_filterMap_body?, hbalanced, hentry]
  refine ⟨_, rfl, fun name => ?_, fun name => ?_⟩
  · rw [← mem_flatMap_inputNames_iff]
    exact mem_map_ofList_iff
  · rw [← mem_flatMap_outputNames_iff]
    exact mem_map_ofList_iff

/-- Only code that is in order assembles. -/
theorem inOrder_of_assemble {r : StageInput} {code : List Char} {b : Bytecode}
    (h : r.assemble code = .ok b) : r.InOrder code := by
  unfold assemble at h
  dsimp only at h
  rw [unlines_filterMap_body?] at h
  split at h
  · cases h
  · rename_i hdeclared
    cases hbalanced : Balance.check (bodyOf code) with
    | error e =>
        rw [hbalanced] at h
        cases h
    | ok _ =>
        rw [hbalanced] at h
        cases hentry : Reflection.definesMain (bodyOf code) with
        | false =>
            rw [hentry] at h
            cases h
        | true =>
            exact ⟨find?_undeclared_eq_none_iff.mp hdeclared, Balance.check_eq_ok_iff.mp hbalanced,
              definesMain_iff.mp hentry⟩

/-! ## Stages -/

/-- What is asked of a stage: its source preprocesses under its defines, and the code that
is left without comments is in order. -/
structure Accepts (files : String → Option String) (r : StageInput) (code : List Char) :
    Prop extends r.InOrder code where
  expands : ∃ text, Preprocess.run files r.macros (markless r.source) = .ok text ∧
    Comments.strip text.toList = code

variable {files : String → Option String} {r : StageInput}

/-- A stage that is in order compiles to bytecode with the names of its code. -/
theorem Accepts.compile_eq_ok {code : List Char} (h : r.Accepts files code) :
    ∃ b, r.compile files = .ok b ∧ Bears b code := by
  obtain ⟨text, hrun, rfl⟩ := h.expands
  obtain ⟨b, hassemble, hbears⟩ := h.toInOrder.assemble_eq_ok
  exact ⟨b, by rw [compile, hrun]; exact hassemble, hbears⟩

/-- Only a stage that is in order compiles. -/
theorem accepts_of_compile {b : Bytecode} (h : r.compile files = .ok b) :
    ∃ code, r.Accepts files code ∧ Bears b code := by
  unfold compile at h
  split at h
  · cases h
  · rename_i text hrun
    have haccepts : r.Accepts files _ := ⟨inOrder_of_assemble h, text, hrun, rfl⟩
    obtain ⟨b', hassemble, hbears⟩ := haccepts.toInOrder.assemble_eq_ok
    cases h.symm.trans hassemble
    exact ⟨_, haccepts, hbears⟩

/-- A stage that lists names of its varying text compiles. -/
example :
    let r : StageInput :=
      { stage := .vertex
        path := ""
        source := "$input a_position\n$output v_uv\nvoid main() \x7b \x7d\n"
        varying := "vec3 a_position : POSITION; // in model space\nvec2 v_uv;\n"
        defines := []
        platform := .linux
        profile := none }
    (r.compile fun _ => none).toOption.isSome = true := by
  decide +kernel

end StageInput
end ShaderAssets
