import ShaderAssets.Source.Canonical
import ShaderAssets.Proofs.Source.RawSection
import ShaderAssets.Proofs.Source.ParamsLine
import ShaderAssets.Proofs.Source.TagLine

/-!
# Texts of parameter and tag blocks

The texts that stand between the braces of a written parameter block and of a written
tag section, and what reading their lines gives.

Main results:

- Theorem {lit}`Tags.tags_tagsText`: a tag section gives its tags and no warning.
- Theorem {lit}`isEnclosed_tagsText`: its braces enclose its text.
- Theorem {lit}`Params.uniforms_paramsText`: a parameter block declares its uniforms
  and has no warning.
-/

namespace ShaderAssets
namespace Source

open Text

/-! ## Tags -/

/-- The text between the braces of a tag section. -/
def tagsText (tags : List Tag) : String :=
  if tags.isEmpty then ""
  else "\n" ++ String.join (tags.map fun tag => "        " ++ tag.line ++ "\n") ++ "    "

/-- The tag section of a pass is the block of its text. -/
theorem sectionText_tagsText (tags : List Tag) :
    PassSource.sectionText "tags" (tagsText tags) =
      if tags.isEmpty then ""
      else "    tags\n    \x7b\n" ++
        String.join (tags.map fun tag => "        " ++ tag.line ++ "\n") ++ "    \x7d\n" := by
  unfold tagsText PassSource.sectionText
  cases tags with
  | nil => rfl
  | cons tag tags =>
      rw [← String.toList_inj]
      simp

/-- Indented lines with a break after each are written lines. -/
theorem toList_join_lines {α : Type} (k : Nat) (indent : String) (line : α → String)
    (hindent : indent.toList = List.replicate k ' ') (as : List α) :
    (String.join (as.map fun a => indent ++ line a ++ "\n")).toList =
      unlines (as.map fun a => List.replicate k ' ' ++ (line a).toList) := by
  simp [String.toList_join, unlines, List.flatMap_map, hindent]

/-- The characters of a tag section. -/
theorem toList_tagsText {tags : List Tag} (hne : tags ≠ []) :
    (tagsText tags).toList =
      '\n' :: (unlines (tags.map fun tag => List.replicate 8 ' ' ++ tag.line.toList) ++
        List.replicate 4 ' ') := by
  rw [← toList_join_lines 8 "        " Tag.line (by rfl), tagsText]
  simp [hne]

/-- The lines of a tag section: an empty one, the tags and an indentation. -/
theorem lines_tagsText {tags : List Tag} (h : ∀ tag ∈ tags, tag.Legible) (hne : tags ≠ []) :
    lines (tagsText tags).toList =
      [] :: (tags.map fun tag => List.replicate 8 ' ' ++ tag.line.toList) ++
        [List.replicate 4 ' '] := by
  have hlines : ∀ line ∈ tags.map fun tag => List.replicate 8 ' ' ++ tag.line.toList,
      IsLine line := by
    intro line hline
    obtain ⟨tag, htag, rfl⟩ := List.mem_map.mp hline
    exact (Tag.isLine_line (h tag htag)).indent 8
  have hfirst : IsLine [] := IsLine.of_not_mem (by simp) (by simp)
  rw [toList_tagsText hne, ← List.nil_append ('\n' :: _), lines_append_newline hfirst,
    lines_unlines_append hlines]
  rfl

/-- Lines that say the same at every place are read one by one. -/
theorem map_zipIdx_lines {α β : Type} (read : Nat → List Char → β) (line : α → List Char)
    (value : α → β) {as : List α} (h : ∀ a ∈ as, ∀ n, read n (line a) = value a) (k : Nat) :
    (((as.map line).zipIdx k).map fun (text, n) => read n text) = as.map value := by
  induction as generalizing k with
  | nil => rfl
  | cons a as ih =>
      rw [List.map_cons, List.zipIdx_cons, List.map_cons, List.map_cons,
        ih fun b hb => h b (List.mem_cons_of_mem a hb)]
      exact congrArg (· :: as.map value) (h a (by simp) k)

/-- A blank line gives no tag. -/
theorem TagLine.read_spaces (n k : Nat) : TagLine.read n (List.replicate k ' ') = .empty := by
  have hindented : Token.ofLine (List.replicate k ' ' ++ Token.renderLine []) false = [] :=
    Token.ofLine_indented (by simp) k
  have htokens : Token.ofLine (List.replicate k ' ') false = [] := by simpa using hindented
  rw [TagLine.read, htokens]
  rfl

/-- The lines of a tag section give its tags and nothing else. -/
theorem Tags.readLines_tagsText {tags : List Tag} (h : ∀ tag ∈ tags, tag.Legible)
    (hne : tags ≠ []) :
    Tags.readLines (tagsText tags) = .empty :: tags.map TagLine.tag ++ [.empty] := by
  have htags := map_zipIdx_lines TagLine.read
    (fun tag : Tag => List.replicate 8 ' ' ++ tag.line.toList) TagLine.tag
    (fun tag htag n => TagLine.read_line (h tag htag) n 8) 1
  have hfirst : TagLine.read 0 [] = .empty := TagLine.read_spaces 0 0
  rw [Tags.readLines, linesOf, lines_tagsText h hne, List.zipIdx_append, List.map_append,
    List.cons_append, List.zipIdx_cons, List.map_cons, Nat.zero_add, htags]
  simp only [hfirst, List.zipIdx_singleton, List.map_cons, List.map_nil, TagLine.read_spaces,
    List.cons_append]

/-- A tag section gives its tags and no warning. -/
theorem Tags.tags_tagsText {tags : List Tag} (h : ∀ tag ∈ tags, tag.Legible) :
    Tags.tags (tagsText tags) = tags ∧ Tags.warnings (tagsText tags) = [] := by
  by_cases hne : tags = []
  · subst hne
    exact ⟨rfl, rfl⟩
  · rw [Tags.tags, Tags.warnings, readLines_tagsText h hne]
    constructor
    · simp [List.filterMap_map]
    · simp [List.filterMap_map]

/-- What follows written lines holds the last line. -/
theorem getLastD_splitOn_unlines_append (ls : List (List Char)) (rest : List Char) :
    ((unlines ls ++ rest).splitOn '\n').getLastD [] = (rest.splitOn '\n').getLastD [] := by
  induction ls with
  | nil => rfl
  | cons line ls ih =>
      have hcut : unlines (line :: ls) ++ rest = line ++ '\n' :: (unlines ls ++ rest) := by
        simp [unlines]
      rw [hcut, getLastD_splitOn_append_cons, ih]

/-- The braces of a tag section enclose its text. -/
theorem isEnclosed_tagsText {tags : List Tag} (h : ∀ tag ∈ tags, tag.WellFormed) :
    IsEnclosed (tagsText tags).toList := by
  by_cases hne : tags = []
  · subst hne
    exact by decide
  · refine IsEnclosed.of_not_isBrace ?_ ?_
    · intro c hc
      simp only [toList_tagsText hne, unlines, List.mem_cons, List.mem_append, List.mem_flatMap,
        List.mem_map, List.mem_replicate, List.not_mem_nil, or_false] at hc
      rcases hc with rfl | ⟨line, ⟨tag, htag, rfl⟩, hc | rfl⟩ | ⟨-, rfl⟩
      · decide
      · rcases List.mem_append.mp hc with hc | hc
        · rw [List.eq_of_mem_replicate hc]
          decide
        · exact Tag.not_isBrace_of_mem_line (h tag htag) c hc
      · decide
      · decide
    · rw [toList_tagsText hne, ← List.nil_append ('\n' :: _), getLastD_splitOn_append_cons,
        getLastD_splitOn_unlines_append]
      decide

/-! ## Parameters -/

/-- The text of a parameter block with its breaks. -/
def paramsText (us : List UniformDeclaration) : String :=
  if us.isEmpty then ""
  else "\n" ++ String.join (us.map fun u => "    " ++ u.line ++ "\n") ++ "\n"

/-- The line of a well-formed declaration loses nothing to the line break after it. -/
theorem UniformDeclaration.isLine_line {u : UniformDeclaration} (h : u.WellFormed) :
    IsLine u.line.toList := by
  rw [u.line_eq_renderLine]
  exact Token.isLine_renderLine fun t ht => (fits_of_mem_tokens h t ht).stands

/-- The lines of a parameter block declare its uniforms and nothing else. -/
theorem Params.readLines_paramsText {us : List UniformDeclaration}
    (h : ∀ u ∈ us, u.WellFormed) (hne : us ≠ []) :
    Params.readLines (paramsText us) = .empty :: us.map ParamsLine.declaration ++ [.empty] := by
  have hlines : ∀ line ∈ us.map fun u => List.replicate 4 ' ' ++ u.line.toList,
      IsLine line := by
    intro line hline
    obtain ⟨u, hu, rfl⟩ := List.mem_map.mp hline
    exact (UniformDeclaration.isLine_line (h u hu)).indent 4
  have hfirst : IsLine [] := IsLine.of_not_mem (by simp) (by simp)
  have htext : (paramsText us).toList =
      [] ++ '\n' ::
        (unlines (us.map fun u => List.replicate 4 ' ' ++ u.line.toList) ++ ['\n']) := by
    rw [← toList_join_lines 4 "    " UniformDeclaration.line (by rfl), paramsText]
    simp [hne]
  have hread := map_zipIdx_lines ParamsLine.read
    (fun u : UniformDeclaration => List.replicate 4 ' ' ++ u.line.toList)
    ParamsLine.declaration (fun u hu n => ParamsLine.read_line (h u hu) n 4) 1
  have hempty : ∀ n, ParamsLine.read n [] = .empty := fun n => rfl
  rw [Params.readLines, linesOf, htext, lines_append_newline hfirst,
    lines_unlines_append hlines, ← List.cons_append, List.zipIdx_append, List.map_append,
    List.zipIdx_cons, List.map_cons, Nat.zero_add, hread]
  simp [hempty, lines]

/-- Declarations are added one after the other. -/
theorem Params.foldl_addLine_declarations (vs us : List UniformDeclaration) :
    (us.map ParamsLine.declaration).foldl addLine vs = vs ++ us := by
  induction us generalizing vs with
  | nil => simp
  | cons u us ih => simp [addLine, ih]

/-- A parameter block declares its uniforms and has no warning. -/
theorem Params.uniforms_paramsText {us : List UniformDeclaration} (h : ∀ u ∈ us, u.WellFormed) :
    Params.uniforms (paramsText us) = us ∧ Params.warnings (paramsText us) = [] := by
  by_cases hne : us = []
  · subst hne
    exact ⟨rfl, rfl⟩
  · rw [Params.uniforms, Params.warnings, readLines_paramsText h hne]
    constructor
    · simp [addLine, foldl_addLine_declarations]
    · simp [List.filterMap_map]

end Source
end ShaderAssets
