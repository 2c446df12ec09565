import ShaderAssets.Proofs.Source.Dispatch

/-!
# What one character does

Whatever mode it is read in, a character does one of a few things: it moves the reader on
without completing anything, completes a line, the text of a section or a pass, adds to
the parameter block, or opens or closes a brace of a pass block.  What holds along a file
is derived from this list.

Main results:

- Relation {lit}`Reader.Turns`: what a character makes of a reader.
- Theorem {lit}`Reader.Regular.turns`: a character does one of these things.
-/

namespace ShaderAssets
namespace Source

/-- The modes that collect the text of a line or of a section. -/
def ReadMode.collects : ReadMode → Bool
  | .nameLine | .modeLine | .inSection .. => true
  | _ => false

namespace Reader

/-- What a character makes of a reader. -/
inductive Turns (r : Reader) (c : Char) : Reader → Prop where
  /-- The reader moves on; at most a brace opens the parameter block. -/
  | moves {mode : ReadMode} {word buffer : String}
      (hmode : ∀ place, mode = .params place → place = .plain ∧ c = '{')
      (hbuffer : mode.collects = true ∨ r.mode.collects = false ∧ buffer = r.buffer) :
      Turns r c { r with mode := mode, word := word, buffer := buffer, last := some c }
  /-- A name line is completed. -/
  | names (name : String) :
      Turns r c
        { r with mode := .topLevel, word := "", buffer := "", name := name, last := some c }
  /-- A render mode line is completed. -/
  | chooses (mode : RenderMode) {unknown : List Warning}
      (hunknown : ∀ w ∈ unknown, ∃ text, w = .unknownRenderMode text) :
      Turns r c
        { r with
          mode := .topLevel, word := "", buffer := "", renderMode := mode
          warnings := r.warnings ++ unknown, last := some c }
  /-- A character of the parameter block is read. -/
  | declares {place : ParamsPlace} {mode : ReadMode} {text : String}
      (hplace : r.mode = .params place) (hmode : mode.collects = false) :
      Turns r c { r with mode := mode, word := "", parameterText := text, last := some c }
  /-- The text of a section is completed. -/
  | fills {sec : Section} {depth : Nat} (hmode : r.mode = .inSection sec depth false) :
      Turns r c
        { r with
          mode := .topLevel, word := "", buffer := "", pass := r.pass.set r.buffer sec
          last := some c }
  /-- A brace of a pass block is opened. -/
  | opens (hc : c = '{') (hmode : r.mode.collects = false) :
      Turns r c { r with mode := .topLevel, word := "", depth := r.depth + 1, last := some c }
  /-- A brace inside a pass block is closed. -/
  | closes {depth : Nat} (hc : c = '}') (hdepth : r.depth = depth + 2)
      (hmode : r.mode.collects = false) :
      Turns r c { r with mode := .topLevel, word := "", depth := depth + 1, last := some c }
  /-- The brace of a pass is closed. -/
  | stores (hc : c = '}') (hdepth : r.depth = 1) (hmode : r.mode.collects = false) :
      Turns r c
        { r with
          mode := .topLevel, word := "", depth := 0, pass := .empty
          passes := r.passes ++ [passOf r.pass]
          warnings := r.warnings ++ passWarnings r.pass r.passes.length, last := some c }

variable {r r' : Reader} {c : Char}

/-- The word before the character does not count. -/
theorem Turns.of_word {word : String} (h : Turns { r with word := word } c r') : Turns r c r' := by
  cases h with
  | moves hmode hbuffer => exact .moves hmode hbuffer
  | names name => exact .names name
  | chooses mode hunknown => exact .chooses mode hunknown
  | declares hplace hmode => exact .declares hplace hmode
  | fills hmode => exact .fills hmode
  | opens hc hmode => exact .opens hc hmode
  | closes hc hdepth hmode => exact .closes hc hdepth hmode
  | stores hc hdepth hmode => exact .stores hc hdepth hmode

/-! ## The handlers -/

/-- A character with no word before it. -/
theorem turns_feedPlain (hmode : r.mode.collects = false) (hword : r.word = "") (c : Char) :
    Turns r c { r.feedPlain c with last := some c } := by
  obtain ⟨mode, last, word, buffer, depth, pass, name, renderMode, parameterText, passes,
    warnings⟩ := r
  obtain rfl : word = "" := hword
  unfold feedPlain
  dsimp only
  split
  · exact .moves (fun _ h => nomatch h) (.inr ⟨hmode, rfl⟩)
  split
  · exact .moves (fun _ h => nomatch h) (.inr ⟨hmode, rfl⟩)
  split
  · rename_i hc
    exact .opens hc hmode
  split
  · rename_i hc
    split
    · exact .moves (fun _ h => nomatch h) (.inr ⟨hmode, rfl⟩)
    · exact .stores hc rfl hmode
    · exact .closes hc rfl hmode
  · exact .moves (fun _ h => nomatch h) (.inr ⟨hmode, rfl⟩)

/-- A character of a name line. -/
theorem turns_feedName (r : Reader) (buffer : String) (c : Char) :
    Turns r c { { r with word := "", buffer := buffer }.feedName c with last := some c } := by
  unfold feedName
  split
  · exact .names _
  · exact .moves (fun _ h => nomatch h) (.inl rfl)

/-- A character of a render mode line. -/
theorem turns_feedMode (r : Reader) (buffer : String) (c : Char) :
    Turns r c { { r with word := "", buffer := buffer }.feedMode c with last := some c } := by
  unfold feedMode
  split
  · unfold takeMode
    dsimp only
    split
    · rename_i mode _
      have hknown : ∀ w ∈ ([] : List Warning), ∃ text, w = .unknownRenderMode text := by simp
      simpa using Turns.chooses (r := r) (c := c) mode hknown
    · exact .chooses _ (by simp)
  · exact .moves (fun _ h => nomatch h) (.inl rfl)

/-- A character between {lit}`params` and its brace. -/
theorem turns_feedParamsOpen (hmode : r.mode.collects = false) (hword : r.word = "") (c : Char) :
    Turns r c { r.feedParamsOpen c with last := some c } := by
  unfold feedParamsOpen
  split
  · rename_i hc
    exact .moves (fun place h => ⟨(ReadMode.params.inj h).symm, hc⟩) (.inr ⟨hmode, rfl⟩)
  split
  · exact .moves (fun _ h => nomatch h) (.inr ⟨hmode, rfl⟩)
  · exact turns_feedPlain hmode hword c

/-- A character between a section keyword and its brace. -/
theorem turns_feedSectionOpen (hmode : r.mode.collects = false) (hword : r.word = "")
    (sec : Section) (c : Char) : Turns r c { r.feedSectionOpen sec c with last := some c } := by
  unfold feedSectionOpen
  split
  · exact .moves (fun _ h => nomatch h) (.inl rfl)
  split
  · exact .moves (fun _ h => nomatch h) (.inr ⟨hmode, rfl⟩)
  · exact turns_feedPlain hmode hword c

/-- A character at top level. -/
theorem turns_feedTop (hmode : r.mode = .topLevel) (c : Char) :
    Turns r c { r.feedTop c with last := some c } := by
  have hcollects : r.mode.collects = false := by rw [hmode]; rfl
  unfold feedTop
  split
  · refine .moves (fun place h => ?_) (.inr ⟨hcollects, rfl⟩)
    rw [hmode] at h
    cases h
  dsimp only
  split
  · exact turns_feedName r "" c
  · exact turns_feedMode r "" c
  · exact (turns_feedParamsOpen (r := { r with word := "" }) hcollects rfl c).of_word
  · exact (turns_feedSectionOpen (r := { r with word := "" }) hcollects rfl _ c).of_word
  · exact (turns_feedPlain (r := { r with word := "" }) hcollects rfl c).of_word

/-- A character of a parameter block. -/
theorem turns_feedParams {place : ParamsPlace} (hmode : r.mode = .params place)
    (hword : r.word = "") (c : Char) :
    Turns r c { r.feedParams place c with last := some c } := by
  obtain ⟨mode, last, word, buffer, depth, pass, name, renderMode, parameterText, passes,
    warnings⟩ := r
  obtain rfl : word = "" := hword
  obtain rfl : mode = .params place := hmode
  unfold feedParams
  dsimp only
  cases place with
  | comment => exact .declares rfl rfl
  | quote => exact .declares rfl rfl
  | plain =>
      dsimp only
      split
      · exact .declares rfl rfl
      split
      · exact .declares rfl rfl
      split
      · exact .declares rfl rfl
      split
      · exact .declares rfl rfl
      · exact .declares rfl rfl

/-- A character of a raw section. -/
theorem turns_feedSection {sec : Section} {depth : Nat} {comment : Bool}
    (hmode : r.mode = .inSection sec depth comment) (hword : r.word = "") (c : Char) :
    Turns r c { r.feedSection sec depth comment c with last := some c } := by
  obtain ⟨mode, last, word, buffer, count, pass, name, renderMode, parameterText, passes,
    warnings⟩ := r
  obtain rfl : word = "" := hword
  obtain rfl : mode = .inSection sec depth comment := hmode
  unfold feedSection
  dsimp only
  split
  · exact .moves (fun _ h => nomatch h) (.inl rfl)
  rename_i hcomment
  rw [Bool.not_eq_true] at hcomment
  subst hcomment
  split
  · exact .moves (fun _ h => nomatch h) (.inl rfl)
  split
  · exact .moves (fun _ h => nomatch h) (.inl rfl)
  split
  · split
    · exact .fills rfl
    · exact .moves (fun _ h => nomatch h) (.inl rfl)
  · exact .moves (fun _ h => nomatch h) (.inl rfl)

/-! ## The step -/

/-- A character read by a regular reader does one of the listed things. -/
theorem Regular.turns (h : r.Regular) (c : Char) : Turns r c (r.feed c) := by
  unfold Reader.feed Reader.step
  cases hmode : r.mode with
  | topLevel => exact turns_feedTop hmode c
  | nameLine =>
      have hself : { r with word := "", buffer := r.buffer } = r := by
        rw [← h.word_eq (by simp [hmode])]
      have hturns := turns_feedName r r.buffer c
      rwa [hself] at hturns
  | modeLine =>
      have hself : { r with word := "", buffer := r.buffer } = r := by
        rw [← h.word_eq (by simp [hmode])]
      have hturns := turns_feedMode r r.buffer c
      rwa [hself] at hturns
  | paramsOpen =>
      exact turns_feedParamsOpen (by rw [hmode]; rfl) (h.word_eq (by simp [hmode])) c
  | params place => exact turns_feedParams hmode (h.word_eq (by simp [hmode])) c
  | sectionOpen sec =>
      exact turns_feedSectionOpen (by rw [hmode]; rfl) (h.word_eq (by simp [hmode])) sec c
  | inSection sec depth comment =>
      exact turns_feedSection hmode (h.word_eq (by simp [hmode])) c
  | comment =>
      have hcollects : r.mode.collects = false := by rw [hmode]; rfl
      dsimp only
      split
      · exact .moves (fun _ h => nomatch h) (.inr ⟨hcollects, rfl⟩)
      · exact .moves (fun _ h => nomatch h) (.inr ⟨hcollects, rfl⟩)

/-! ## The run -/

/-- What every character keeps of a regular reader, a text keeps. -/
theorem Regular.feedText_induction {P : Reader → Prop} (h : r.Regular) (hr : P r)
    (hstep : ∀ (s : Reader) (c : Char), s.Regular → P s → P (s.feed c)) (text : List Char) :
    P (r.feedText text) := by
  induction text generalizing r with
  | nil => exact hr
  | cons c text ih => exact ih (h.feed c) (hstep r c h hr)

end Reader
end Source
end ShaderAssets
