import ShaderAssets.Proofs.Source.SectionText
import ShaderAssets.Proofs.Source.Turns
import ShaderAssets.Proofs.Text.Trim

/-!
# The end of a file

The end of a file completes what a line feed would complete: a keyword, a line, and the
last line of a parameter block.  The two go apart only in a parameter block that ends in a
carriage return, since a line feed takes that with it: inside a quote it is a character of
the quoted text, and outside it is white space.  So it has to be known where the tokens of
the last line of the block stand, and the reader's own record of quotes tells.

Main results:

- Function {lit}`LineEnd.ofLine`: where the tokens of a line end.
- Theorem {lit}`Token.ofLine_concat_blank`: white space behind a line counts in quotes only.
- Definition {lit}`Reader.InParams`: the reader's place in a parameter block agrees with
  the tokens of its last line.
- Theorem {lit}`Params.same_newline`: a line feed behind a parameter block.
- Theorem {lit}`ShaderSource.parse_append_newline`: a line feed at the end of a file.
-/

namespace ShaderAssets
namespace Source

open Text

/-! ## The end of a line -/

/-- Where the tokens of a line may end. -/
inductive LineEnd where
  /-- Outside quotes and comments, behind a slash or not. -/
  | words (slash : Bool)
  | quoted
  | comment
deriving DecidableEq, Repr, Inhabited

namespace LineEnd

/-- One more character of the line. -/
def next : LineEnd → Char → LineEnd
  | .words slash, c =>
      if c = '/' ∧ slash = true then .comment
      else if c = '"' then .quoted
      else .words (c == '/')
  | .quoted, c => if c = '"' then .words false else .quoted
  | .comment, _ => .comment

/-- Where the tokens of a line end. -/
def ofLine (line : List Char) : LineEnd :=
  line.foldl next (.words false)

@[simp]
theorem ofLine_nil : ofLine [] = .words false :=
  rfl

@[simp]
theorem ofLine_concat (line : List Char) (c : Char) :
    ofLine (line ++ [c]) = (ofLine line).next c := by
  simp [ofLine]

end LineEnd

namespace Token

variable {b : Char}

/-- White space behind a line counts in quotes only, from wherever the line is read on. -/
theorem read_concat_blank (hb : isBlank b = true) (colons : Bool) (line : List Char) :
    (∀ (pending : String) (slash : Bool), (slash = true → line.head? ≠ some '/') →
      line.foldl LineEnd.next (.words slash) ≠ .quoted →
      readWords colons pending (line ++ [b]) = readWords colons pending line) ∧
    ∀ pending : String, line.foldl LineEnd.next .quoted ≠ .quoted →
      readQuoted colons pending (line ++ [b]) = readQuoted colons pending line := by
  have hslash : b ≠ '/' := by rintro rfl; exact absurd hb (by decide)
  have hquote : b ≠ '"' := by rintro rfl; exact absurd hb (by decide)
  have hcolon : b ≠ ':' := by rintro rfl; exact absurd hb (by decide)
  induction line with
  | nil =>
      refine ⟨fun pending slash _ _ => ?_, fun pending hend => absurd rfl hend⟩
      simp [readWords, hslash, hquote, hcolon, hb, ofPending]
  | cons c rest ih =>
      obtain ⟨hwords, hquoted⟩ := ih
      constructor
      · intro pending slash hhead hend
        have hcomment : ¬(c = '/' ∧ slash = true) := fun h => hhead h.2 (by simp [h.1])
        rw [List.foldl_cons, LineEnd.next, if_neg hcomment] at hend
        rw [List.cons_append, readWords, readWords]
        by_cases hmark : c = '/' ∧ rest.head? = some '/'
        · have hmark' : c = '/' ∧ (rest ++ [b]).head? = some '/' := by simp [hmark]
          rw [if_pos hmark, if_pos hmark']
        have hmark' : ¬(c = '/' ∧ (rest ++ [b]).head? = some '/') := by
          cases rest with
          | nil => simp [hslash]
          | cons d rest => simpa using hmark
        rw [if_neg hmark, if_neg hmark']
        by_cases hc : c = '"'
        · rw [if_pos hc] at hend
          rw [if_pos hc, if_pos hc, hquoted "" hend]
        · rw [if_neg hc] at hend
          have hrest : ∀ pending : String,
              readWords colons pending (rest ++ [b]) = readWords colons pending rest :=
            fun pending => hwords pending (c == '/')
              (fun h hhead => hmark ⟨by simpa using h, hhead⟩) hend
          simp only [if_neg hc, hrest]
      · intro pending hend
        rw [List.foldl_cons, LineEnd.next] at hend
        rw [List.cons_append, readQuoted, readQuoted]
        by_cases hc : c = '"'
        · rw [if_pos hc] at hend
          rw [if_pos hc, if_pos hc, hwords "" false (by simp) hend]
        · rw [if_neg hc] at hend
          rw [if_neg hc, if_neg hc, hquoted _ hend]

/-- White space behind a line counts in quotes only. -/
theorem ofLine_concat_blank (hb : isBlank b = true) {line : List Char}
    (hend : LineEnd.ofLine line ≠ .quoted) (colons : Bool) :
    ofLine (line ++ [b]) colons = ofLine line colons :=
  (read_concat_blank hb colons line).1 "" false (by simp) hend

end Token

/-! ## The last line of a parameter block -/

/-- A line of which a line feed takes nothing away but white space outside quotes. -/
def Unquoted (line : List Char) : Prop :=
  line.getLast? = some '\r' → LineEnd.ofLine line ≠ .quoted

/-- Such a line says the same without its carriage return. -/
theorem ParamsLine.read_dropReturn {line : List Char} (h : Unquoted line) (number : Nat) :
    ParamsLine.read number (dropReturn line) = ParamsLine.read number line := by
  unfold dropReturn
  split
  · rename_i hreturn
    have hend := h hreturn
    obtain ⟨front, rfl⟩ := List.getLast?_eq_some_iff.mp hreturn
    have hfront : LineEnd.ofLine front ≠ .quoted := by
      intro hquoted
      exact hend (by rw [LineEnd.ofLine_concat, hquoted]; rfl)
    have htokens : Token.ofLine (front ++ ['\r']) true = Token.ofLine front true :=
      Token.ofLine_concat_blank (by decide) hfront true
    have htrim : Text.trim (front ++ ['\r']) = Text.trim front := by
      have hend : trimEnd (front ++ ['\r']) = trimEnd front := by
        rw [trimEnd, List.reverse_append, List.reverse_singleton, List.singleton_append,
          List.dropWhile_cons_of_pos (by decide), trimEnd]
      rw [← trim_trimEnd, hend, trim_trimEnd]
    rw [List.dropLast_concat, ParamsLine.read, ParamsLine.read, htokens, htrim]
  · rfl

namespace Params

/-- A line feed ends the last line of a text, or adds an empty one. -/
theorem lines_concat_newline (text : List Char) :
    ∃ before, lines text = before ++ lines (lastLine text) ∧
      lines (text ++ ['\n']) = before ++ [dropReturn (lastLine text)] := by
  obtain ⟨hline, htext | ⟨front, htext⟩⟩ := eq_append_lastLine text
  all_goals
    generalize lastLine text = line at hline htext ⊢
    have hended : lines (line ++ ['\n']) = [dropReturn line] := lines_append_cons hline []
    subst htext
  · exact ⟨[], rfl, hended⟩
  · refine ⟨lines (front ++ ['\n']), lines_append_break front line, ?_⟩
    rw [List.append_assoc, List.cons_append, lines_append_break, hended]

/-- A line feed behind a parameter block says nothing, or an empty line. -/
theorem readLines_newline {text : String} (h : Unquoted (lastLine text.toList)) :
    readLines (text.push '\n') = readLines text ∨
      readLines (text.push '\n') = readLines text ++ [.empty] := by
  obtain ⟨before, hlines, hmore⟩ := lines_concat_newline text.toList
  obtain ⟨hline, -⟩ := eq_append_lastLine text.toList
  have hread := ParamsLine.read_dropReturn h
  rw [readLines, readLines, linesOf, linesOf, String.toList_push, hmore, hlines,
    lines_of_not_mem hline]
  generalize lastLine text.toList = line at hread ⊢
  split
  · rename_i hempty
    subst hempty
    refine Or.inr ?_
    rw [List.zipIdx_append, List.map_append, List.append_nil]
    rfl
  · refine Or.inl ?_
    rw [List.zipIdx_append, List.zipIdx_append, List.map_append, List.map_append]
    simp [hread]

/-- A line feed behind a parameter block changes neither the uniforms nor the warnings. -/
theorem same_newline {text : String} (h : Unquoted (lastLine text.toList)) :
    uniforms (text.push '\n') = uniforms text ∧ warnings (text.push '\n') = warnings text := by
  unfold uniforms warnings
  rcases readLines_newline h with hread | hread
  · rw [hread]
    exact ⟨rfl, rfl⟩
  · rw [hread, List.foldl_append, List.filterMap_append]
    exact ⟨rfl, List.append_nil _⟩

end Params

/-! ## The reader in a parameter block -/

namespace ParamsPlace

/-- A place in a line fits where the tokens of the line end. -/
def Fits (place : ParamsPlace) (last : Option Char) (e : LineEnd) : Prop :=
  match place with
  | .plain => e ≠ .quoted ∧ (last = some '/' → e = .words true ∨ e = .comment)
  | .quote => e = .quoted ∨ e = .comment
  | .comment => e = .comment

variable {last : Option Char} {e : LineEnd} {c : Char}

/-- A comment goes on. -/
theorem Fits.next_comment (h : comment.Fits last e) (c : Char) :
    comment.Fits (some c) (e.next c) := by
  obtain rfl : e = .comment := h
  rfl

/-- A quoted text goes on. -/
theorem Fits.next_quoted (h : quote.Fits last e) (hc : c ≠ '"') :
    quote.Fits (some c) (e.next c) := by
  rcases h with rfl | rfl
  · exact Or.inl (if_neg hc)
  · exact Or.inr rfl

/-- A quote ends. -/
theorem Fits.next_unquote (h : quote.Fits last e) : plain.Fits (some '"') (e.next '"') := by
  rcases h with rfl | rfl
  · exact ⟨by decide, by decide⟩
  · exact ⟨by decide, by decide⟩

/-- A comment begins. -/
theorem Fits.next_mark (h : plain.Fits last e) (hlast : last = some '/') :
    comment.Fits (some '/') (e.next '/') := by
  rcases h.2 hlast with rfl | rfl
  · rfl
  · rfl

/-- A quote begins, unless the tokens have come to a comment that the reader does not see. -/
theorem Fits.next_quote (h : plain.Fits last e) : quote.Fits (some '"') (e.next '"') := by
  cases e with
  | words slash => exact Or.inl (by cases slash <;> decide)
  | quoted => exact absurd rfl h.1
  | comment => exact Or.inr rfl

/-- Any other character stands outside quotes. -/
theorem Fits.next_plain (h : plain.Fits last e) (hc : c ≠ '"') :
    plain.Fits (some c) (e.next c) := by
  cases e with
  | words slash =>
      by_cases hmark : c = '/' ∧ slash = true
      · have hnext : (LineEnd.words slash).next c = .comment := if_pos hmark
        exact ⟨by simp [hnext], fun _ => Or.inr hnext⟩
      · have hnext : (LineEnd.words slash).next c = .words (c == '/') := by
          simp [LineEnd.next, hmark, hc]
        exact ⟨by simp [hnext], fun hslash => Or.inl (by rw [hnext, Option.some.inj hslash]; rfl)⟩
  | quoted => exact absurd rfl h.1
  | comment => exact ⟨by simp [LineEnd.next], fun _ => Or.inr rfl⟩

end ParamsPlace

namespace Reader

variable {r r' : Reader} {c : Char}

/-- The reader's place in a parameter block agrees with where the tokens of its last line
end, and in quotes and comments every character is kept.  Outside the block a line of it
has just ended. -/
def InParams (r : Reader) : Prop :=
  let line := lastLine r.parameterText.toList
  match r.mode with
  | .params place => place.Fits r.last (LineEnd.ofLine line) ∧
      (place ≠ .plain → r.parameterText.toList.getLast? = r.last)
  | _ => line = []

/-- Outside the block a line of it has just ended. -/
theorem InParams.lastLine_eq (h : r.InParams) (hmode : ∀ place, r.mode ≠ .params place) :
    lastLine r.parameterText.toList = [] := by
  unfold InParams at h
  dsimp only at h
  split at h
  · rename_i place hplace
    exact absurd hplace (hmode place)
  · exact h

/-- In the block the place fits. -/
theorem InParams.fits {place : ParamsPlace} (h : r.InParams) (hmode : r.mode = .params place) :
    place.Fits r.last (LineEnd.ofLine (lastLine r.parameterText.toList)) ∧
      (place ≠ .plain → r.parameterText.toList.getLast? = r.last) := by
  unfold InParams at h
  rwa [hmode] at h

/-- A character that is read outside the block keeps this. -/
theorem Turns.inParams (h : Turns r c r') (hr : r.InParams)
    (hmode : ∀ place, r.mode ≠ .params place) : r'.InParams := by
  have hline := hr.lastLine_eq hmode
  cases h with
  | @moves mode word buffer hplace hbuffer =>
      unfold InParams
      dsimp only
      rw [hline]
      split
      · obtain ⟨rfl, rfl⟩ := hplace _ rfl
        exact ⟨⟨by simp, by simp⟩, fun hplain => absurd rfl hplain⟩
      · rfl
  | declares hplace hcollects => exact absurd hplace (hmode _)
  | _ => exact hline

/-- A character that is kept ends a line, or is its next character. -/
theorem inParams_keep {place : ParamsPlace}
    (hbreak : c = '\n' → place = .plain)
    (hfits : c ≠ '\n' →
      place.Fits (some c) ((LineEnd.ofLine (lastLine r.parameterText.toList)).next c)) :
    { r with
      mode := .params place, parameterText := r.parameterText.push c
      last := some c }.InParams := by
  unfold InParams
  dsimp only
  rw [String.toList_push]
  refine ⟨?_, fun _ => List.getLast?_concat⟩
  by_cases hc : c = '\n'
  · rw [hc, hbreak hc, lastLine_concat_newline]
    exact ⟨by simp, by simp⟩
  · rw [lastLine_concat _ hc, LineEnd.ofLine_concat]
    exact hfits hc

/-- A character of the block keeps this. -/
theorem InParams.feedParams {place : ParamsPlace} (h : r.InParams) (hmode : r.mode = .params place)
    (c : Char) : { r.feedParams place c with last := some c }.InParams := by
  obtain ⟨hfits, -⟩ := h.fits hmode
  unfold Reader.feedParams
  cases place with
  | comment =>
      refine inParams_keep (fun hc => if_pos hc) fun hc => ?_
      rw [if_neg hc]
      exact hfits.next_comment c
  | quote =>
      refine inParams_keep (fun hc => if_pos (Or.inl hc)) fun hc => ?_
      by_cases hquote : c = '"'
      · rw [if_pos (Or.inr hquote), hquote]
        exact hfits.next_unquote
      · rw [if_neg (by simp [hc, hquote])]
        exact hfits.next_quoted hquote
  | plain =>
      dsimp only
      split
      · rename_i hmark
        obtain ⟨rfl, hlast⟩ := hmark
        exact inParams_keep (by decide) fun _ => hfits.next_mark hlast
      split
      · rename_i hquote
        subst hquote
        exact inParams_keep (by decide) fun _ => hfits.next_quote
      rename_i hquote
      split
      · unfold InParams
        dsimp only
        rw [String.toList_push, lastLine_concat_newline]
      split
      · rename_i hopen
        unfold InParams
        dsimp only
        exact ⟨⟨hfits.1, fun hslash => by simp [hopen] at hslash⟩, fun hplain => absurd rfl hplain⟩
      · exact inParams_keep (fun _ => rfl) fun _ => hfits.next_plain hquote

/-- One character keeps the agreement. -/
theorem InParams.feed (h : r.InParams) (hregular : r.Regular) (c : Char) :
    (r.feed c).InParams := by
  by_cases hmode : ∃ place, r.mode = .params place
  · obtain ⟨place, hmode⟩ := hmode
    have hfeed : r.feed c = { r.feedParams place c with last := some c } := by
      rw [Reader.feed, step, hmode]
    rw [hfeed]
    exact h.feedParams hmode c
  · exact (hregular.turns c).inParams h fun place hplace => hmode ⟨place, hplace⟩

/-- Every text keeps the agreement. -/
theorem InParams.feedText (h : r.InParams) (hregular : r.Regular) (text : List Char) :
    (r.feedText text).InParams :=
  hregular.feedText_induction h (fun _ c hs hbefore => hbefore.feed hs c) text

/-- The character fed last is the last one of the text. -/
theorem last_feedText (text : List Char) : (initial.feedText text).last = text.getLast? := by
  rcases text.eq_nil_or_concat with rfl | ⟨front, c, rfl⟩
  · rfl
  · rw [List.concat_eq_append, last_feedText_concat, List.getLast?_concat]

/-- Behind a text that does not end in a carriage return the last line of the parameter
block does not end in one either, quotes apart. -/
theorem InParams.unquoted (h : r.InParams) (hlast : r.last ≠ some '\r') :
    Unquoted (lastLine r.parameterText.toList) := by
  intro hreturn hquoted
  by_cases hmode : ∃ place, r.mode = .params place
  · obtain ⟨place, hmode⟩ := hmode
    obtain ⟨hfits, hkept⟩ := h.fits hmode
    rw [hquoted] at hfits
    cases place with
    | plain => exact hfits.1 rfl
    | quote =>
        rw [getLast?_lastLine _ (by decide), hkept (by decide)] at hreturn
        exact hlast hreturn
    | comment => cases hfits
  · rw [h.lastLine_eq fun place hplace => hmode ⟨place, hplace⟩] at hreturn
    cases hreturn

/-! ## Ending a file -/

/-- Two readers that have read the same, up to what is being read. -/
structure SameParts (r r' : Reader) : Prop where
  depth_eq : r'.depth = r.depth
  name_eq : r'.name = r.name
  renderMode_eq : r'.renderMode = r.renderMode
  passes_eq : r'.passes = r.passes
  warnings_eq : r'.warnings = r.warnings
  uniforms_eq : Params.uniforms r'.parameterText = Params.uniforms r.parameterText
  parameters_eq : Params.warnings r'.parameterText = Params.warnings r.parameterText

/-- Nothing else counts at the end of a file. -/
theorem SameParts.result_eq (h : SameParts r r') : r'.endPass.result = r.endPass.result := by
  unfold endPass
  rw [h.depth_eq]
  split
  · simp only [result, h.name_eq, h.renderMode_eq, h.passes_eq, h.warnings_eq, h.uniforms_eq,
      h.parameters_eq]
  · simp only [result, h.name_eq, h.renderMode_eq, h.passes_eq, h.warnings_eq, h.uniforms_eq,
      h.parameters_eq]

/-- Between words and lines the end of a file completes nothing. -/
theorem endLine_eq (hword : r.word = "") (hname : r.mode ≠ .nameLine) (hmode : r.mode ≠ .modeLine) :
    r.endWord.endLine = r := by
  rw [endWord, if_pos hword]
  unfold endLine
  split
  · rename_i h
    exact absurd h hname
  · rename_i h
    exact absurd h hmode
  · rfl

/-- A mode line is read alike in every mode. -/
theorem takeMode_mode (r : Reader) (mode : ReadMode) :
    { r with mode := mode }.takeMode = { r.takeMode with mode := mode } := by
  unfold takeMode
  dsimp only
  split <;> rfl

/-- It is enough to know what a line feed and the end of the file leave behind. -/
theorem sameParts_of_feed {ended fed : Reader} (hend : r.endWord.endLine = ended)
    (hfeed : r.feed '\n' = fed) (hword : fed.word = "") (hname : fed.mode ≠ .nameLine)
    (hmode : fed.mode ≠ .modeLine) (h : SameParts ended fed) :
    SameParts r.endWord.endLine (r.feed '\n').endWord.endLine := by
  rw [hend, hfeed, endLine_eq hword hname hmode]
  exact h

/-- So it is if they leave the same behind, the mode and the last character apart. -/
theorem sameParts_of_moved {ended : Reader} {mode : ReadMode} {last : Option Char}
    (hend : r.endWord.endLine = ended)
    (hfeed : r.feed '\n' = { ended with mode := mode, last := last })
    (hword : ended.word = "") (hname : mode ≠ .nameLine) (hmode : mode ≠ .modeLine) :
    SameParts r.endWord.endLine (r.feed '\n').endWord.endLine :=
  sameParts_of_feed hend hfeed hword hname hmode ⟨rfl, rfl, rfl, rfl, rfl, rfl, rfl⟩

/-- At top level a line feed completes what the end of the file completes. -/
theorem sameParts_topLevel (hmode : r.mode = .topLevel) :
    SameParts r.endWord.endLine (r.feed '\n').endWord.endLine := by
  have hbreak : isWordChar '\n' = false := by decide
  cases hkeyword : keywordMode? r.depth r.word with
  | none =>
      have hfeed : r.feed '\n' =
          { r with mode := .topLevel, word := "", last := some '\n' } := by
        simp [feed, step, hmode, feedTop, hbreak, hkeyword, feedPlain]
      have hend : r.endWord.endLine = { r with mode := .topLevel, word := "" } := by
        by_cases hword : r.word = ""
        · rw [endLine_eq hword (by simp [hmode]) (by simp [hmode]), ← hmode, ← hword]
        · simp [endWord, hword, hkeyword, endLine]
      exact sameParts_of_moved hend hfeed rfl (by simp) (by simp)
  | some mode =>
      have hword : r.word ≠ "" := by
        intro hword
        rw [hword, keywordMode?_empty] at hkeyword
        cases hkeyword
      rcases keywordMode?_eq_some hkeyword with
        ⟨-, ⟨-, rfl⟩ | ⟨-, rfl⟩ | ⟨-, rfl⟩⟩ | ⟨-, sec, -, rfl⟩
      · have hfeed : r.feed '\n' =
            { { r with mode := .nameLine, word := "", buffer := "" }.takeName with
              mode := .topLevel, last := some '\n' } := by
          simp [feed, step, hmode, feedTop, hbreak, hkeyword, feedName, takeName]
        have hend : r.endWord.endLine =
            { r with mode := .nameLine, word := "", buffer := "" }.takeName := by
          simp [endWord, hword, hkeyword, endLine]
        exact sameParts_of_moved hend hfeed rfl (by simp) (by simp)
      · have hfeed : r.feed '\n' =
            { { r with mode := .modeLine, word := "", buffer := "" }.takeMode with
              mode := .topLevel, last := some '\n' } := by
          rw [takeMode_mode { r with word := "", buffer := "" } .modeLine]
          simp [feed, step, hmode, feedTop, hbreak, hkeyword, feedMode]
        have hend : r.endWord.endLine =
            { r with mode := .modeLine, word := "", buffer := "" }.takeMode := by
          simp [endWord, hword, hkeyword, endLine]
        exact sameParts_of_moved hend hfeed (word_takeMode _) (by simp) (by simp)
      · have hfeed : r.feed '\n' =
            { r with mode := .paramsOpen, word := "", last := some '\n' } := by
          simp [feed, step, hmode, feedTop, hbreak, hkeyword, feedParamsOpen, isBlank]
        have hend : r.endWord.endLine = { r with mode := .paramsOpen, word := "" } := by
          simp [endWord, hword, hkeyword, endLine]
        exact sameParts_of_moved hend hfeed rfl (by simp) (by simp)
      · have hfeed : r.feed '\n' =
            { r with mode := .sectionOpen sec, word := "", last := some '\n' } := by
          simp [feed, step, hmode, feedTop, hbreak, hkeyword, feedSectionOpen, isBlank]
        have hend : r.endWord.endLine = { r with mode := .sectionOpen sec, word := "" } := by
          simp [endWord, hword, hkeyword, endLine]
        exact sameParts_of_moved hend hfeed rfl (by simp) (by simp)

/-- A line feed completes what the end of the file completes. -/
theorem Regular.sameParts_newline (h : r.Regular)
    (hline : Unquoted (lastLine r.parameterText.toList)) :
    SameParts r.endWord.endLine (r.feed '\n').endWord.endLine := by
  by_cases htop : r.mode = .topLevel
  · exact sameParts_topLevel htop
  have hword := h.word_eq htop
  have hself : r.mode ≠ .nameLine → r.mode ≠ .modeLine → r.endWord.endLine = r :=
    endLine_eq hword
  cases hmode : r.mode with
  | topLevel => exact absurd hmode htop
  | nameLine =>
      have hfeed : r.feed '\n' =
          { r.takeName with mode := .topLevel, last := some '\n' } := by
        simp [Reader.feed, step, hmode, feedName]
      have hend : r.endWord.endLine = r.takeName := by
        rw [Reader.endWord, if_pos hword, endLine, hmode]
      exact sameParts_of_moved hend hfeed hword (by simp) (by simp)
  | modeLine =>
      have hfeed : r.feed '\n' =
          { r.takeMode with mode := .topLevel, last := some '\n' } := by
        simp [Reader.feed, step, hmode, feedMode]
      have hend : r.endWord.endLine = r.takeMode := by
        rw [Reader.endWord, if_pos hword, endLine, hmode]
      exact sameParts_of_moved hend hfeed ((word_takeMode r).trans hword) (by simp) (by simp)
  | paramsOpen =>
      have hfeed : r.feed '\n' = { r with mode := .paramsOpen, last := some '\n' } := by
        simp [Reader.feed, step, hmode, feedParamsOpen, isBlank]
      exact sameParts_of_moved (hself (by simp [hmode]) (by simp [hmode])) hfeed hword (by simp)
        (by simp)
  | params place =>
      have hfeed : r.feed '\n' =
          { r with
            mode := .params .plain, parameterText := r.parameterText.push '\n'
            last := some '\n' } := by
        cases place <;> simp [Reader.feed, step, hmode, Reader.feedParams]
      obtain ⟨huniforms, hwarnings⟩ := Params.same_newline hline
      exact sameParts_of_feed (hself (by simp [hmode]) (by simp [hmode])) hfeed hword (by simp)
        (by simp) ⟨rfl, rfl, rfl, rfl, rfl, huniforms, hwarnings⟩
  | sectionOpen sec =>
      have hfeed : r.feed '\n' = { r with mode := .sectionOpen sec, last := some '\n' } := by
        simp [Reader.feed, step, hmode, feedSectionOpen, isBlank]
      exact sameParts_of_moved (hself (by simp [hmode]) (by simp [hmode])) hfeed hword (by simp)
        (by simp)
  | inSection sec depth comment =>
      have hfeed : r.feed '\n' =
          { r with
            mode := .inSection sec depth false, buffer := r.buffer.push '\n'
            last := some '\n' } := by
        cases comment <;> simp [Reader.feed, step, hmode, feedSection]
      exact sameParts_of_feed (hself (by simp [hmode]) (by simp [hmode])) hfeed hword (by simp)
        (by simp) ⟨rfl, rfl, rfl, rfl, rfl, rfl, rfl⟩
  | comment =>
      have hfeed : r.feed '\n' = { r with mode := .topLevel, last := some '\n' } := by
        simp [Reader.feed, step, hmode]
      exact sameParts_of_moved (hself (by simp [hmode]) (by simp [hmode])) hfeed hword (by simp)
        (by simp)

end Reader

namespace ShaderSource

/-- The end of a file acts like a line feed, whatever is being read there, if the file does
not end in a carriage return. -/
theorem parse_append_newline (text : String) (h : text.toList.getLast? ≠ some '\r') :
    parse (text ++ "\n") = parse text := by
  have hregular := Reader.regular_initial.feedText text.toList
  have hstart : Reader.initial.InParams := lastLine_nil
  have hplace := hstart.feedText Reader.regular_initial text.toList
  have hlast : (Reader.initial.feedText text.toList).last ≠ some '\r' := by
    rwa [Reader.last_feedText]
  rw [parse, parse, String.toList_append, Reader.feedText_append]
  exact (hregular.sameParts_newline (hplace.unquoted hlast)).result_eq

/-- A file that ends in a parameter block, with a carriage return in front of a brace that
is dropped. -/
theorem parse_append_newline_sample :
    "params\x7bfloat a \"A\" 1\r\x7b".toList.getLast? ≠ some '\r' ∧
      parse ("params\x7bfloat a \"A\" 1\r\x7b" ++ "\n") =
        parse "params\x7bfloat a \"A\" 1\r\x7b" ∧
      (parse "params\x7bfloat a \"A\" 1\r\x7b").source.uniforms.length = 1 := by
  have hlast : "params\x7bfloat a \"A\" 1\r\x7b".toList.getLast? ≠ some '\r' := by
    decide
  exact ⟨hlast, parse_append_newline _ hlast, by decide +kernel⟩

/-- A carriage return at the end of a file may count: inside a quote it is a character of
the display name, unless a line feed follows. -/
example : parse ("params\x7bfloat a \"A\r" ++ "\n") ≠ parse "params\x7bfloat a \"A\r" := by
  decide +kernel

end ShaderSource
end Source
end ShaderAssets
