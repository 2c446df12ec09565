import Mathlib.Tactic.SplitIfs
import ShaderAssets.Source.Reader
import ShaderAssets.Proofs.Source.SectionText
import ShaderAssets.Proofs.Text.Lines
import ShaderAssets.Proofs.Text.Trim

/-!
# The shape of what was read

Whatever the blocks of a file say, what is read from them has a certain shape: names
and values hold neither quotes nor line breaks, default literals have no more
components than their type, only ranged types have bounds, and the marks of
conditional tags are no values.

Main results:

- Theorem {lit}`shaped_of_mem_uniforms`: the declarations of a parameter block.
- Theorem {lit}`shaped_of_mem_tags`: the tags of a tag block.
- Structure {lit}`ShaderSource.Shaped`: the shape of a whole source.
-/

namespace ShaderAssets
namespace Source

open Text

/-! ## Tokens -/

/-- A text that can stand between quotes on one line. -/
structure IsQuotable (s : String) : Prop where
  no_quote : '"' ∉ s.toList
  no_newline : '\n' ∉ s.toList

theorem isQuotable_empty : IsQuotable "" :=
  ⟨by decide, by decide⟩

namespace Token

/-- What holds of the pending characters and of all characters of a line but quotes
holds of the characters of its tokens. -/
theorem forall_mem_text {p : Char → Prop} (colons : Bool) (line : List Char)
    (hline : ∀ c ∈ line, c ≠ '"' → p c) (pending : String) (hpending : ∀ c ∈ pending.toList, p c) :
    (∀ t ∈ readWords colons pending line, ∀ c ∈ t.text.toList, p c) ∧
      ∀ t ∈ readQuoted colons pending line, ∀ c ∈ t.text.toList, p c := by
  have hofPending : ∀ pending : String, (∀ c ∈ pending.toList, p c) →
      ∀ t ∈ ofPending pending, ∀ c ∈ t.text.toList, p c := by
    intro pending hpending t ht
    unfold ofPending at ht
    split at ht
    · cases ht
    · obtain rfl := List.mem_singleton.mp ht
      exact hpending
  induction line generalizing pending with
  | nil =>
      refine ⟨hofPending pending hpending, fun t ht => ?_⟩
      obtain rfl := List.mem_singleton.mp ht
      exact hpending
  | cons d rest ih =>
      have hrest := ih fun c hc => hline c (List.mem_cons_of_mem d hc)
      have hempty := hrest "" (by simp)
      have hpush : d ≠ '"' → ∀ c ∈ (pending.push d).toList, p c := by
        intro hd c hc
        rw [String.toList_push, List.mem_append, List.mem_singleton] at hc
        rcases hc with hc | rfl
        · exact hpending c hc
        · exact hline c List.mem_cons_self hd
      constructor
      · intro t ht
        rw [readWords] at ht
        split_ifs at ht with hmark hquote hcolon hblank
        · exact hofPending pending hpending t ht
        · rcases List.mem_append.mp ht with ht | ht
          · exact hofPending pending hpending t ht
          · exact hempty.2 t ht
        · rcases List.mem_append.mp ht with ht | ht
          · exact hofPending pending hpending t ht
          · rcases List.mem_cons.mp ht with rfl | ht
            · intro c hc
              obtain rfl : c = ':' := by simpa [text] using hc
              exact hline ':' (by simp [hcolon.1]) (by decide)
            · exact hempty.1 t ht
        · rcases List.mem_append.mp ht with ht | ht
          · exact hofPending pending hpending t ht
          · exact hempty.1 t ht
        · exact (hrest _ (hpush hquote)).1 t ht
      · intro t ht
        rw [readQuoted] at ht
        split_ifs at ht with hquote
        · rcases List.mem_cons.mp ht with rfl | ht
          · exact hpending
          · exact hempty.1 t ht
        · exact (hrest _ (hpush hquote)).2 t ht

/-- The tokens of a line can stand between quotes. -/
theorem isQuotable_text {colons : Bool} {line : List Char} (hline : '\n' ∉ line) {t : Token}
    (ht : t ∈ ofLine line colons) : IsQuotable t.text := by
  have hall := (forall_mem_text (p := fun c => c ≠ '"' ∧ c ≠ '\n') colons line
    (fun c hc hquote => ⟨hquote, fun hbreak => hline (hbreak ▸ hc)⟩) "" (by simp)).1 t ht
  exact ⟨fun hmem => (hall _ hmem).1 rfl, fun hmem => (hall _ hmem).2 rfl⟩

end Token

/-! ## Declarations -/

/-- The tokens behind the qualifiers of a line. -/
theorem Qualifiers.mem_of_mem_read {q : Qualifiers} {ts : List Token} {t : Token}
    (h : t ∈ (q.read ts).2) : t ∈ ts := by
  induction q, ts using Qualifiers.read.induct with
  | case1 q rest ih => exact List.mem_cons_of_mem _ (ih (by simpa [Qualifiers.read] using h))
  | case2 q rest ih => exact List.mem_cons_of_mem _ (ih (by simpa [Qualifiers.read] using h))
  | case3 q rest hdefine hhidden => simpa [Qualifiers.read] using h

namespace UniformDeclaration

/-- The shape of a declaration that a line makes. -/
structure Shaped (u : UniformDeclaration) : Prop where
  display_quotable : IsQuotable u.displayName
  components_length : u.components.length ≤ u.type.arity
  ranged : u.lower.isSome = true ∨ u.upper.isSome = true → u.type.isRanged = true

/-- Every type has a component. -/
theorem one_le_arity (type : UniformType) : 1 ≤ type.arity := by
  cases type <;> decide

/-- The default literal of a declaration without one has one component. -/
theorem components_plain (type : UniformType) (bindName displayName : String) :
    (plain type bindName displayName).components = [['0']] := by
  change "0".toList.splitOn ',' = [['0']]
  decide

/-- A part after a colon sets bounds only of ranged types. -/
theorem Shaped.addSuffix {u : UniformDeclaration} (h : u.Shaped) (suffix : List Token) :
    (u.addSuffix suffix).Shaped := by
  unfold UniformDeclaration.addSuffix
  split
  · exact h
  · split
    · exact ⟨h.display_quotable, h.components_length, h.ranged⟩
    · split
      · rename_i hranged
        exact ⟨h.display_quotable, h.components_length, fun _ => hranged⟩
      · exact h

/-- The parts after the colons keep the shape. -/
theorem Shaped.foldl_addSuffix {u : UniformDeclaration} (h : u.Shaped)
    (suffixes : List (List Token)) : (suffixes.foldl UniformDeclaration.addSuffix u).Shaped := by
  induction suffixes generalizing u with
  | nil => exact h
  | cons suffix suffixes ih => exact ih (h.addSuffix suffix)

/-- Qualifiers keep the shape. -/
theorem Shaped.qualify {u : UniformDeclaration} (h : u.Shaped) (q : Qualifiers) :
    (u.qualify q).Shaped :=
  ⟨h.display_quotable, h.components_length, h.ranged⟩

/-- A default literal has the components that were read for it. -/
theorem components_intercalate {u : UniformDeclaration} {arity : Nat} {tokens : List Token}
    (hne : (readComponents arity tokens).isEmpty = false)
    (hu : u.defaultValue = ",".intercalate (readComponents arity tokens)) :
    u.components.length ≤ arity := by
  obtain ⟨parts, hparts⟩ : ∃ parts : List (List Char),
      parts = ((tokens.flatMap fun t => t.text.toList.splitOn ',').filter
        fun p => !p.isEmpty).take arity := ⟨_, rfl⟩
  have hread : readComponents arity tokens = parts.map String.ofList := by
    rw [readComponents, hparts]
  have hcomma : ∀ part ∈ parts, ',' ∉ part := by
    intro part hpart
    rw [hparts] at hpart
    obtain ⟨t, -, ht⟩ := List.mem_flatMap.mp (List.mem_filter.mp (List.mem_of_mem_take hpart)).1
    exact not_mem_of_mem_splitOn ht
  have hsome : parts ≠ [] := by
    rintro rfl
    simp [hread] at hne
  have hcomponents : u.components = parts := by
    have hid : (parts.map String.ofList).map String.toList = parts := by
      simp [Function.comp_def]
    rw [components, hu, hread, String.toList_intercalate, hid]
    exact List.splitOn_intercalate ',' hcomma hsome
  rw [hcomponents, hparts]
  exact List.length_take_le arity _

/-- The tokens after a type make a declaration of the right shape. -/
theorem shaped_of_read? {type : UniformType} {tokens : List Token} {u : UniformDeclaration}
    (htokens : ∀ t ∈ tokens, IsQuotable t.text) (h : read? type tokens = some u) : u.Shaped := by
  unfold read? at h
  split at h
  · rename_i bind rest suffixes hsplit
    have hmem : ∀ t ∈ bind :: rest, IsQuotable t.text := by
      intro t ht
      exact htokens t (mem_of_mem_splitOnP (hsplit ▸ List.mem_cons_self) ht)
    have hdisplay : IsQuotable ((rest.head?.map Token.text).getD bind.text) := by
      cases rest with
      | nil => exact hmem bind (by simp)
      | cons display rest => exact hmem display (by simp)
    split at h
    · cases h
    · simp only [Option.some.injEq] at h
      rw [← h]
      refine Shaped.foldl_addSuffix ?_ suffixes
      split
      · refine ⟨hdisplay, ?_, by simp [plain]⟩
        rw [components_plain]
        exact one_le_arity type
      · rename_i hcomponents
        rw [Bool.not_eq_true] at hcomponents
        exact ⟨hdisplay, components_intercalate hcomponents rfl, by simp [plain]⟩
  · cases h

end UniformDeclaration

/-- A line declares a uniform of the right shape. -/
theorem ParamsLine.shaped_of_read {n : Nat} {line : List Char} {u : UniformDeclaration}
    (hline : '\n' ∉ line) (h : ParamsLine.read n line = .declaration u) : u.Shaped := by
  unfold ParamsLine.read at h
  simp only at h
  split at h
  · cases h
  · split at h
    · cases h
    · rename_i q keyword rest hread
      have hrest : ∀ t ∈ rest, IsQuotable t.text := by
        intro t ht
        have hmem : t ∈ (Qualifiers.none.read (Token.ofLine line true)).2 := by
          rw [hread]
          exact List.mem_cons_of_mem keyword ht
        exact Token.isQuotable_text hline (Qualifiers.mem_of_mem_read hmem)
      split at h
      · cases h
      · split at h
        · rename_i v hv
          cases h
          exact (UniformDeclaration.shaped_of_read? hrest hv).qualify q
        · cases h

namespace Params

/-- One line keeps the shape of the declarations before it. -/
theorem shaped_of_mem_addLine {us : List UniformDeclaration} (hus : ∀ u ∈ us, u.Shaped)
    {line : ParamsLine} (hline : ∀ u, line = .declaration u → u.Shaped) :
    ∀ u ∈ addLine us line, u.Shaped := by
  intro u hu
  cases line with
  | empty => exact hus u hu
  | qualifiers q =>
      obtain ⟨i, hi, rfl⟩ := List.mem_iff_getElem.mp hu
      simp only [addLine, qualifyLast, List.getElem_modify]
      split
      · exact (hus _ (List.getElem_mem _)).qualify q
      · exact hus _ (List.getElem_mem _)
  | declaration v =>
      rcases List.mem_append.mp hu with hu | hu
      · exact hus u hu
      · obtain rfl := List.mem_singleton.mp hu
        exact hline u rfl
  | faulty warning => exact hus u hu

/-- A parameter block declares uniforms of the right shape. -/
theorem shaped_of_mem_uniforms {text : String} {u : UniformDeclaration}
    (h : u ∈ Params.uniforms text) : u.Shaped := by
  have hread : ∀ line ∈ readLines text, ∀ u, line = .declaration u → u.Shaped := by
    intro line hline u hu
    obtain ⟨⟨chars, n⟩, hmem, rfl⟩ := List.mem_map.mp hline
    exact ParamsLine.shaped_of_read
      (not_mem_of_mem_lines (List.fst_mem_of_mem_zipIdx hmem)) hu
  have hfold : ∀ (lines : List ParamsLine) (us : List UniformDeclaration),
      (∀ line ∈ lines, ∀ u, line = .declaration u → u.Shaped) → (∀ u ∈ us, u.Shaped) →
      ∀ u ∈ lines.foldl addLine us, u.Shaped := by
    intro lines
    induction lines with
    | nil => exact fun us _ hus => hus
    | cons line lines ih =>
        intro us hlines hus
        exact ih _ (fun l hl => hlines l (List.mem_cons_of_mem line hl))
          (shaped_of_mem_addLine hus (hlines line (by simp)))
  exact hfold (readLines text) [] hread (by simp) u h

end Params

/-! ## Tags -/

/-- The shape of a tag that a line gives. -/
def Tag.Shaped : Tag → Prop
  | .plain _ values => (∀ v ∈ values, IsQuotable v) ∧ values ≠ [] ∧ values.head? ≠ some "="
  | .conditional _ define ifSet ifUnset =>
      (∀ v ∈ ifSet ++ ifUnset, IsQuotable v ∧ v ≠ ":") ∧ define ≠ "?"

/-- The values of the branches were values of the tag, and none is a colon. -/
theorem Tag.mem_branches {values : List String} {v : String}
    (h : v ∈ (branches values).1 ++ (branches values).2) : v ∈ values ∧ v ≠ ":" := by
  rcases List.mem_append.mp h with h | h
  · have hne : (v != ":") = true := List.all_eq_true.mp List.all_takeWhile v h
    exact ⟨(List.takeWhile_sublist _).subset h, by simpa using hne⟩
  · obtain ⟨hmem, hne⟩ := List.mem_filter.mp h
    exact ⟨(List.dropWhile_sublist _).subset hmem, by simpa using hne⟩

/-- A line gives a tag of the right shape. -/
theorem TagLine.shaped_of_read {n : Nat} {line : List Char} {tag : Tag} (hline : '\n' ∉ line)
    (h : TagLine.read n line = .tag tag) : tag.Shaped := by
  have htexts : ∀ s ∈ (Token.ofLine line false).map Token.text, IsQuotable s := by
    intro s hs
    obtain ⟨t, ht, rfl⟩ := List.mem_map.mp hs
    exact Token.isQuotable_text hline ht
  unfold TagLine.read at h
  split at h
  · rename_i name rest hread
    split at h
    · rename_i declaration hconditional
      cases h
      unfold Tag.readConditional? at hconditional
      split at hconditional
      · rename_i define value values
        split_ifs at hconditional with hdefine
        cases hconditional
        refine ⟨fun v hv => ?_, hdefine⟩
        have hbranches : v ∈ (Tag.branches (value :: values)).1 ++
            (Tag.branches (value :: values)).2 := hv
        obtain ⟨hmem, hcolon⟩ := Tag.mem_branches hbranches
        refine ⟨htexts v ?_, hcolon⟩
        rw [hread]
        simp only [List.mem_cons] at hmem ⊢
        exact Or.inr (Or.inr (Or.inr (Or.inr hmem)))
      · cases hconditional
    · cases h
  · rename_i name value values hequals hread
    cases h
    refine ⟨fun v hv => htexts v ?_, by simp, ?_⟩
    · rw [hread]
      exact List.mem_cons_of_mem name hv
    · simpa using hequals
  · cases h

/-- A tag block gives tags of the right shape. -/
theorem Tags.shaped_of_mem_tags {text : String} {tag : Tag} (h : tag ∈ Tags.tags text) :
    tag.Shaped := by
  obtain ⟨line, hline, hline'⟩ := List.mem_filterMap.mp h
  obtain ⟨⟨chars, n⟩, hmem, rfl⟩ := List.mem_map.mp hline
  simp only at hline'
  split at hline'
  · rename_i declaration hread
    obtain rfl := Option.some.inj hline'
    exact TagLine.shaped_of_read (not_mem_of_mem_lines (List.fst_mem_of_mem_zipIdx hmem)) hread
  · cases hline'

/-! ## Passes and sources -/

/-- The shape of a pass that was read. -/
structure PassSource.Shaped (p : PassSource) : Prop where
  tags_shaped : ∀ tag ∈ p.tags, tag.Shaped
  varying_enclosed : IsEnclosed p.varying.toList
  vertex_enclosed : IsEnclosed p.vertex.toList
  fragment_enclosed : IsEnclosed p.fragment.toList

/-- The shape of a source that was read. -/
structure ShaderSource.Shaped (s : ShaderSource) : Prop where
  name_quotable : IsQuotable s.name
  uniforms_shaped : ∀ u ∈ s.uniforms, u.Shaped
  passes_shaped : ∀ p ∈ s.passes, p.Shaped

/-- The empty text is enclosed. -/
theorem isEnclosed_nil : IsEnclosed [] := by
  decide

/-- An empty pass has this shape. -/
theorem PassSource.shaped_empty : PassSource.empty.Shaped where
  tags_shaped := by simp [PassSource.empty]
  varying_enclosed := isEnclosed_nil
  vertex_enclosed := isEnclosed_nil
  fragment_enclosed := isEnclosed_nil

/-- A name line gives a name that can stand between quotes. -/
theorem Reader.isQuotable_nameOfLine {line : String} (h : '\n' ∉ line.toList) :
    IsQuotable (Reader.nameOfLine line) := by
  unfold Reader.nameOfLine
  split
  · rename_i before rest hsplit
    obtain ⟨hline, -⟩ := eq_append_of_splitOnce hsplit
    refine ⟨fun hmem => ?_, fun hmem => ?_⟩
    · rw [String.toList_ofList] at hmem
      have hne : ('"' != '"') = true :=
        List.all_eq_true.mp (List.all_takeWhile (p := (· != '"'))) _ hmem
      exact absurd hne (by decide)
    · rw [String.toList_ofList] at hmem
      have hrest := (List.takeWhile_sublist _).subset hmem
      exact h (by rw [hline]; simp [hrest])
  · rename_i hsplit
    refine ⟨fun hmem => ?_, fun hmem => ?_⟩
    · rw [String.toList_ofList] at hmem
      exact not_mem_of_splitOnce hsplit (mem_of_mem_trim hmem)
    · rw [String.toList_ofList] at hmem
      exact h (mem_of_mem_trim hmem)

end Source
end ShaderAssets
