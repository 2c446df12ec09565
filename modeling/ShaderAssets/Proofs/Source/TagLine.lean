import ShaderAssets.Source.Canonical
import ShaderAssets.Source.Tags
import ShaderAssets.Proofs.Source.BlockLine

/-!
# Lines that give tags

The line of a tag consists of its name and its values; a conditional tag has the
define, the question mark and, unless it is empty, the second branch behind a colon
of its own.  Reading the tokens gives the tag back.

Main results:

- Structure {lit}`Legible`: which tags are read back from their lines.
- Theorem {lit}`ofLine_line`: the tokens of a legible tag's line.
- Theorem {lit}`TagLine.read_line`: the line of a legible tag gives it again.
- Theorem {lit}`not_isBrace_of_mem_line`: that of a well-formed tag holds no brace.
-/

namespace ShaderAssets
namespace Source

open Text

/-! ## Values -/

namespace Tag

/-- A value as a token: quoted when it is empty or has white space. -/
def valueToken (value : String) : Token :=
  if value = "" ∨ value.toList.any isBlank then .quoted value else .word value

/-- The token of a value stands for it. -/
@[simp]
theorem text_valueToken (value : String) : (valueToken value).text = value := by
  unfold valueToken
  split <;> rfl

/-- The tokens of values stand for them. -/
@[simp]
theorem map_text_valueToken (values : List String) :
    (values.map valueToken).map Token.text = values := by
  simp [Function.comp_def]

/-- The token of a value is written as its text. -/
theorem render_valueToken (value : String) :
    (valueToken value).render = (valueText value).toList := by
  unfold valueToken valueText
  split <;> simp [Token.render]

/-- Values are written as a line of tokens. -/
theorem toList_valuesText (values : List String) :
    (valuesText values).toList = Token.renderLine (values.map valueToken) := by
  rw [valuesText, String.toList_intercalate, List.map_map, Token.renderLine, List.map_map]
  congr 1
  apply List.map_congr_left
  intro value _
  exact (render_valueToken value).symm

/-- A value without quotes and line breaks can stand on a line, unless it holds a
comment mark that white space does not make quoted. -/
theorem stands_valueToken {value : String} (hquote : '"' ∉ value.toList)
    (hbreak : '\n' ∉ value.toList)
    (hmark : hasComment value.toList = true → value.toList.any isBlank = true) :
    (valueToken value).Stands false := by
  unfold valueToken
  split
  · exact ⟨hquote, hbreak⟩
  · rename_i hbare
    simp only [not_or, Bool.not_eq_true] at hbare
    obtain ⟨hne, hblank⟩ := hbare
    have hcomment : hasComment value.toList = false := by
      rw [← Bool.not_eq_true]
      intro hcomment
      rw [hmark hcomment] at hblank
      cases hblank
    refine ⟨?_, ?_, hcomment⟩
    · simpa using hne
    · intro c hc
      have hc' : isBlank c = false := by
        simpa using List.any_eq_false.mp hblank c hc
      have hc'' : c ≠ '"' := by
        rintro rfl
        exact hquote hc
      simp [isWordly, hc', hc'']

/-! ## The line of a tag -/

/-- The second branch of a conditional tag, behind its colon. -/
def elseTokens (values : List String) : List Token :=
  if values.isEmpty then [] else .word ":" :: values.map valueToken

/-- The tokens of a tag's line. -/
def tokens : Tag → List Token
  | .plain name values => .word name :: values.map valueToken
  | .conditional name define ifSet ifUnset =>
      [.word name, .word "=", .word define, .word "?"] ++ ifSet.map valueToken ++
        elseTokens ifUnset

/-- The line of a plain tag is its tokens. -/
theorem toList_line_plain (name : String) {values : List String} (h : values ≠ []) :
    (Tag.plain name values).line.toList =
      Token.renderLine (.word name :: values.map valueToken) := by
  rw [Token.renderLine_cons, ← Token.cons_renderLine (by simpa using h), ← toList_valuesText]
  simp [line, Token.render]

/-- The second branch is written behind a blank. -/
theorem toList_elseText (values : List String) :
    (if values.isEmpty then "" else " : " ++ valuesText values).toList =
      Token.renderTail (elseTokens values) := by
  unfold elseTokens
  cases values with
  | nil => rfl
  | cons value values =>
      have htail : ' ' :: Token.renderLine ((value :: values).map valueToken) =
          Token.renderTail ((value :: values).map valueToken) := Token.cons_renderLine (by simp)
      simp only [List.isEmpty_cons, Bool.false_eq_true, if_false, String.toList_append,
        Token.renderTail_cons, ← htail, toList_valuesText]
      rfl

/-- The line of a conditional tag: the first four tokens, then the branches. -/
theorem toList_line_conditional (name define : String) (ifSet ifUnset : List String) :
    (Tag.conditional name define ifSet ifUnset).line.toList =
      Token.renderLine [.word name, .word "=", .word define, .word "?"] ++
        ' ' :: (Token.renderLine (ifSet.map valueToken) ++
          Token.renderTail (elseTokens ifUnset)) := by
  rw [← toList_elseText, ← toList_valuesText]
  simp [line, Token.renderLine_cons, Token.render]

/-- The marks of the conditional form are not taken for values, and there are values. -/
def MarksApart : Tag → Prop
  | .plain _ values => values ≠ [] ∧ values.head? ≠ some "="
  | .conditional _ define ifSet ifUnset =>
      define ≠ "?" ∧ (∀ v ∈ ifSet ++ ifUnset, v ≠ ":") ∧ ifSet ++ ifUnset ≠ []

/-- A tag that is read back from its line.  Braces are ordinary characters there. -/
structure Legible (tag : Tag) : Prop where
  tokens_stand : ∀ t ∈ tag.tokens, t.Stands false
  marks_apart : tag.MarksApart

/-- The tokens of a plain tag can stand on a line if its name and its values can. -/
theorem stands_of_mem_plain {name : String} {values : List String}
    (hname : IsWord false name.toList) (hvalues : ∀ v ∈ values, (valueToken v).Stands false) :
    ∀ t ∈ (Tag.plain name values).tokens, t.Stands false := by
  intro t ht
  rcases List.mem_cons.mp ht with rfl | ht
  · exact hname
  · obtain ⟨v, hv, rfl⟩ := List.mem_map.mp ht
    exact hvalues v hv

/-- The tokens of a conditional tag can stand on a line if its name, its define and its
values can. -/
theorem stands_of_mem_conditional {name define : String} {ifSet ifUnset : List String}
    (hname : IsWord false name.toList) (hdefine : IsWord false define.toList)
    (hvalues : ∀ v ∈ ifSet ++ ifUnset, (valueToken v).Stands false) :
    ∀ t ∈ (Tag.conditional name define ifSet ifUnset).tokens, t.Stands false := by
  intro t ht
  simp only [tokens, elseTokens, List.mem_append, List.mem_cons, List.not_mem_nil, or_false,
    List.mem_ite_nil_left, List.mem_map] at ht
  rcases ht with ((rfl | rfl | rfl | rfl) | ⟨v, hv, rfl⟩) | ⟨-, rfl | ⟨v, hv, rfl⟩⟩
  · exact hname
  · exact (by decide : IsWord false "=".toList)
  · exact hdefine
  · exact (by decide : IsWord false "?".toList)
  · exact hvalues v (List.mem_append_left ifUnset hv)
  · exact (by decide : IsWord false ":".toList)
  · exact hvalues v (List.mem_append_right ifSet hv)

/-- A well-formed tag is read back from its line. -/
theorem WellFormed.legible {tag : Tag} (h : tag.WellFormed) : tag.Legible := by
  have hvalue : ∀ v : String, IsValue v → (valueToken v).Stands false := fun v hv =>
    stands_valueToken hv.no_quote hv.no_newline hv.no_bare_comment
  cases tag with
  | plain name values =>
      obtain ⟨hname, hvalues, hne, hhead⟩ := h
      exact ⟨stands_of_mem_plain hname.toIsWord fun v hv => hvalue v (hvalues v hv), hne, hhead⟩
  | conditional name define ifSet ifUnset =>
      obtain ⟨hname, hdefine, hmark, hvalues, hne⟩ := h
      exact ⟨stands_of_mem_conditional hname.toIsWord hdefine.toIsWord
        fun v hv => hvalue v (hvalues v hv).1, hmark, fun v hv => (hvalues v hv).2, hne⟩

/-- The tokens of a legible tag are read back from its line. -/
theorem ofLine_line {tag : Tag} (h : tag.Legible) (k : Nat) :
    Token.ofLine (List.replicate k ' ' ++ tag.line.toList) false = tag.tokens := by
  have hstands := h.tokens_stand
  cases tag with
  | plain name values =>
      rw [toList_line_plain name h.marks_apart.1]
      exact Token.ofLine_indented hstands k
  | conditional name define ifSet ifUnset =>
      have hwritable : ∀ t ∈ (Tag.conditional name define ifSet ifUnset).tokens,
          t.IsWritable false := fun t ht => (hstands t ht).isWritable
      simp only [tokens, List.mem_append] at hwritable
      have hfront := Token.readWords_renderLine
        (fun t ht => hwritable t (Or.inl (Or.inl ht)))
        (Token.startsBlank_cons (by decide : isBlank ' ' = true)
          (Token.renderLine (ifSet.map valueToken) ++ Token.renderTail (elseTokens ifUnset)))
      have helse : Token.readWords false "" (Token.renderTail (elseTokens ifUnset)) =
          elseTokens ifUnset := by
        have hread := Token.readWords_renderTail
          (fun t ht => hwritable t (Or.inr ht)) Token.startsBlank_nil
        simpa [Token.readWords, Token.ofPending] using hread
      have hblank := Token.startsBlank_renderTail (elseTokens ifUnset) Token.startsBlank_nil
      rw [List.append_nil] at hblank
      have hset := Token.readWords_renderLine
        (fun t ht => hwritable t (Or.inl (Or.inr ht))) hblank
      rw [Token.ofLine, Token.readWords_spaces, toList_line_conditional, hfront,
        Token.readWords_blank false "" (by decide), hset, helse, tokens, List.append_assoc]
      rfl

/-- The line of a legible tag loses nothing to the line break after it. -/
theorem isLine_line {tag : Tag} (h : tag.Legible) : IsLine tag.line.toList := by
  have hstands := h.tokens_stand
  cases tag with
  | plain name values =>
      rw [toList_line_plain name h.marks_apart.1]
      exact Token.isLine_renderLine hstands
  | conditional name define ifSet ifUnset =>
      simp only [tokens, List.mem_append] at hstands
      have hfront := Token.isLine_renderLine fun t ht => hstands t (Or.inl (Or.inl ht))
      have hset := Token.isLine_renderLine fun t ht => hstands t (Or.inl (Or.inr ht))
      have helse : ∀ t ∈ elseTokens ifUnset, t.Stands false := fun t ht => hstands t (Or.inr ht)
      rw [toList_line_conditional]
      exact (Token.isLine_append_renderTail hset helse).append_blank hfront.no_newline

/-! ## Braces -/

/-- A value that a tag can carry is written without braces. -/
theorem not_isBrace_of_mem_valueToken {value : String} (h : IsValue value) :
    ∀ c ∈ (valueToken value).render, isBrace c = false := by
  intro c hc
  unfold valueToken at hc
  split at hc
  · simp only [Token.render, List.mem_cons, List.mem_append, List.not_mem_nil, or_false] at hc
    rcases hc with rfl | hc | rfl
    · decide
    · exact h.no_brace c hc
    · decide
  · exact h.no_brace c hc

/-- The line of a well-formed tag has no brace. -/
theorem not_isBrace_of_mem_line {tag : Tag} (h : tag.WellFormed) :
    ∀ c ∈ tag.line.toList, isBrace c = false := by
  have hvalues : ∀ values : List String, (∀ v ∈ values, IsValue v) →
      ∀ c ∈ (valuesText values).toList, isBrace c = false := by
    intro values hvs c hc
    rw [toList_valuesText] at hc
    rcases Token.mem_renderLine hc with rfl | ⟨t, ht, hc⟩
    · decide
    · obtain ⟨v, hv, rfl⟩ := List.mem_map.mp ht
      exact not_isBrace_of_mem_valueToken (hvs v hv) c hc
  cases tag with
  | plain name values =>
      obtain ⟨hname, hvs, -, -⟩ := h
      have hblank : ∀ c ∈ " ".toList, isBrace c = false := by decide
      intro c hc
      simp only [line, String.toList_append, List.mem_append] at hc
      rcases hc with (hc | hc) | hc
      · exact hname.no_brace c hc
      · exact hblank c hc
      · exact hvalues values hvs c hc
  | conditional name define ifSet ifUnset =>
      obtain ⟨hname, hdefine, -, hvs, -⟩ := h
      have hset : ∀ v ∈ ifSet, IsValue v := fun v hv =>
        (hvs v (List.mem_append_left ifUnset hv)).1
      have hunset : ∀ v ∈ ifUnset, IsValue v := fun v hv =>
        (hvs v (List.mem_append_right ifSet hv)).1
      have hequals : ∀ c ∈ " = ".toList, isBrace c = false := by decide
      have hmark : ∀ c ∈ " ? ".toList, isBrace c = false := by decide
      have hcolon : ∀ c ∈ " : ".toList, isBrace c = false := by decide
      intro c hc
      simp only [line, String.toList_append, List.mem_append] at hc
      rcases hc with ((((hc | hc) | hc) | hc) | hc) | hc
      · exact hname.no_brace c hc
      · exact hequals c hc
      · exact hdefine.no_brace c hc
      · exact hmark c hc
      · exact hvalues ifSet hset c hc
      · split at hc
        · simp at hc
        · rcases List.mem_append.mp (String.toList_append ▸ hc) with hc | hc
          · exact hcolon c hc
          · exact hvalues ifUnset hunset c hc

/-! ## Reading the tokens -/

/-- The branches of a conditional tag are read back. -/
theorem branches_append {ifSet ifUnset : List String} (hset : ∀ v ∈ ifSet, v ≠ ":")
    (hunset : ∀ v ∈ ifUnset, v ≠ ":") :
    branches (ifSet ++ (elseTokens ifUnset).map Token.text) = (ifSet, ifUnset) := by
  have htake : ∀ v ∈ ifSet, (v != ":") = true := fun v hv => by simpa using hset v hv
  have hfilter : ifUnset.filter (· != ":") = ifUnset := by
    rw [List.filter_eq_self]
    intro v hv
    simpa using hunset v hv
  rw [branches, List.takeWhile_append_of_pos htake, List.dropWhile_append_of_pos htake]
  cases ifUnset with
  | nil => simp [elseTokens]
  | cons value values =>
      have hmap : (elseTokens (value :: values)).map Token.text = ":" :: value :: values := by
        rw [elseTokens, List.isEmpty_cons, if_neg Bool.false_ne_true, List.map_cons,
          map_text_valueToken]
        rfl
      rw [hmap]
      simp [hfilter]

end Tag

/-- The line of a legible tag gives it again. -/
theorem TagLine.read_line {tag : Tag} (h : tag.Legible) (n k : Nat) :
    TagLine.read n (List.replicate k ' ' ++ tag.line.toList) = .tag tag := by
  rw [TagLine.read, Tag.ofLine_line h]
  have hmarks := h.marks_apart
  cases tag with
  | plain name values =>
      obtain ⟨hne, hhead⟩ := hmarks
      obtain ⟨value, values, rfl⟩ := List.exists_cons_of_ne_nil hne
      have hequals : value ≠ "=" := by simpa using hhead
      rw [Tag.tokens, List.map_cons, Tag.map_text_valueToken]
      simp [Token.text]
  | conditional name define ifSet ifUnset =>
      obtain ⟨hmark, hvs, hne⟩ := hmarks
      have hbranches := Tag.branches_append
        (fun v hv => hvs v (List.mem_append_left ifUnset hv))
        (fun v hv => hvs v (List.mem_append_right ifSet hv))
      have hsome : ifSet ++ (Tag.elseTokens ifUnset).map Token.text ≠ [] := by
        intro hnil
        rw [hnil] at hbranches
        apply hne
        simp only [Tag.branches, List.takeWhile_nil, List.dropWhile_nil, List.filter_nil,
          Prod.mk.injEq] at hbranches
        rw [← hbranches.1, ← hbranches.2]
        rfl
      have htext : (Tag.conditional name define ifSet ifUnset).tokens.map Token.text =
          name :: "=" :: define :: "?" :: (ifSet ++ (Tag.elseTokens ifUnset).map Token.text) := by
        rw [Tag.tokens, List.map_append, List.map_append, Tag.map_text_valueToken]
        rfl
      obtain ⟨value, values, hvalues⟩ := List.exists_cons_of_ne_nil hsome
      rw [htext, hvalues]
      rw [hvalues] at hbranches
      simp [Tag.readConditional?, hmark, hbranches]

end Source
end ShaderAssets
