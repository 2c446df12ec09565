import ShaderAssets.Source.Canonical
import ShaderAssets.Proofs.Source.RawSection
import ShaderAssets.Proofs.Source.ParamsLine
import ShaderAssets.Proofs.Source.TagLine

/-!
# Reading the blocks of a file

What the reader does with each block of a written file: the name line, the mode
line, the parameter block and the sections of a pass.  Between two blocks it stands
ready at the start of a line.

Main results:

- Theorem {lit}`feedText_name`: a name line gives the name.
- Theorem {lit}`feedText_mode`: a mode line gives the render mode.
- Theorem {lit}`feedText_params`: a parameter block is collected.
- Theorem {lit}`feedText_sectionText`: a section puts its text into the pass.
-/

namespace ShaderAssets
namespace Source

open Text

namespace Reader

/-- The reader outside all words, lines and sections. -/
def ready (s : Reader) (last : Option Char) : Reader :=
  { s with mode := .topLevel, word := "", buffer := "", last := last }

/-- The reader behind the letters of a word. -/
def afterWord (s : Reader) (word : String) (last : Option Char) : Reader :=
  { s with mode := .topLevel, word := word, buffer := "", last := last }

variable (s : Reader)

/-- The empty word starts nothing. -/
theorem keywordMode?_empty (depth : Nat) : keywordMode? depth "" = none := by
  rcases depth with _ | _ | depth <;> rfl

/-- Blanks are skipped. -/
theorem feed_ready_space (last : Option Char) : (s.ready last).feed ' ' = s.ready (some ' ') := by
  simp [ready, feed, step, feedTop, feedPlain, keywordMode?_empty, isWordChar]

/-- Line breaks are skipped. -/
theorem feed_ready_newline (last : Option Char) :
    (s.ready last).feed '\n' = s.ready (some '\n') := by
  simp [ready, feed, step, feedTop, feedPlain, keywordMode?_empty, isWordChar]

/-- An indentation is skipped. -/
theorem feedText_ready_spaces (last : Option Char) (k : Nat) :
    (s.ready last).feedText (List.replicate (k + 1) ' ') = s.ready (some ' ') := by
  induction k generalizing last with
  | zero => exact feed_ready_space s last
  | succ k ih =>
      rw [List.replicate_succ, ← ih (some ' '), ← feed_ready_space s last]
      rfl

/-- The letters of a word are collected. -/
theorem feedText_afterWord (word : String) (last : Option Char) {w : List Char}
    (hw : ∀ c ∈ w, isWordChar c = true) :
    ∃ last', (s.afterWord word last).feedText w =
      s.afterWord (word ++ String.ofList w) last' := by
  refine feedText_collect _ (fun c hc text last => ?_) word last
  simp [afterWord, feed, step, feedTop, hw c hc]

/-- The letters of a keyword are collected. -/
theorem feedText_ready_keyword (last : Option Char) (keyword : String)
    (h : ∀ c ∈ keyword.toList, isWordChar c = true) :
    ∃ last', (s.ready last).feedText keyword.toList = s.afterWord keyword last' := by
  obtain ⟨last', hfeed⟩ := feedText_afterWord s "" last h
  refine ⟨last', ?_⟩
  rw [String.empty_append, String.ofList_toList] at hfeed
  exact hfeed

/-! ## The name and mode lines -/

/-- The text of a name line is collected and then gives the name. -/
theorem feedText_nameLine (text : String) (last : Option Char) {t : List Char}
    (h : '\n' ∉ t) :
    ({ s with mode := .nameLine, word := "", buffer := text, last := last } : Reader).feedText
        (t ++ ['\n']) =
      { s with name := nameOfLine (text ++ String.ofList t) }.ready (some '\n') := by
  obtain ⟨last', hfeed⟩ := feedText_collect
    (fun text last =>
      { s with mode := .nameLine, word := "", buffer := text, last := last })
    (fun c hc text last => by
      have hbreak : c ≠ '\n' := fun hn => h (hn ▸ hc)
      simp [feed, step, feedName, hbreak]) text last
  rw [feedText_append, hfeed]
  simp [feedText, feed, step, feedName, takeName, ready]

/-- The text of a mode line is collected and then gives the mode. -/
theorem feedText_modeLine (text : String) (last : Option Char) {t : List Char}
    (h : '\n' ∉ t) {mode : RenderMode}
    (hmode : RenderMode.ofKeyword?
      (String.ofList (trim (text.toList ++ t))) = some mode) :
    ({ s with mode := .modeLine, word := "", buffer := text, last := last } : Reader).feedText
        (t ++ ['\n']) =
      { s with renderMode := mode }.ready (some '\n') := by
  obtain ⟨last', hfeed⟩ := feedText_collect
    (fun text last =>
      { s with mode := .modeLine, word := "", buffer := text, last := last })
    (fun c hc text last => by
      have hbreak : c ≠ '\n' := fun hn => h (hn ▸ hc)
      simp [feed, step, feedMode, hbreak]) text last
  rw [feedText_append, hfeed]
  simp [feedText, feed, step, feedMode, takeMode, ready, hmode]

/-- A name line gives the text between its quotes. -/
theorem nameOfLine_quoted {name : String} (h : '"' ∉ name.toList) :
    nameOfLine (" " ++ String.ofList ('"' :: name.toList ++ ['"'])) = name := by
  have hsplit : splitOnce '"' (' ' :: '"' :: (name.toList ++ ['"'])) =
      some ([' '], name.toList ++ ['"']) := by
    simp [splitOnce]
  have htake : (name.toList ++ ['"']).takeWhile (· != '"') = name.toList :=
    takeWhile_ne_append h (by simp)
  simp [nameOfLine, hsplit, htake]

/-- The name line of a file gives its name. -/
theorem feedText_name (hdepth : s.depth = 0) (last : Option Char) {name : String}
    (hquote : '"' ∉ name.toList) (hbreak : '\n' ∉ name.toList) :
    (s.ready last).feedText ("name \"" ++ name ++ "\"\n").toList =
      { s with name := name }.ready (some '\n') := by
  have hsplit : ("name \"" ++ name ++ "\"\n").toList =
      "name".toList ++ ' ' :: (('"' :: name.toList ++ ['"']) ++ ['\n']) := by
    simp
  obtain ⟨last', hword⟩ := feedText_ready_keyword s last "name" (by decide)
  have hblank : (s.afterWord "name" last').feed ' ' =
      { s with mode := .nameLine, word := "", buffer := " ", last := some ' ' } := by
    simp [afterWord, feed, step, feedTop, feedName, keywordMode?, hdepth, isWordChar]
  have hline := feedText_nameLine s " " (some ' ') (t := '"' :: name.toList ++ ['"'])
    (by simp [hbreak])
  rw [nameOfLine_quoted hquote] at hline
  rw [hsplit, feedText_append, hword, ← hline, ← hblank]
  rfl

/-- The mode line of a file gives its render mode. -/
theorem feedText_mode (hdepth : s.depth = 0) (last : Option Char) (mode : RenderMode) :
    (s.ready last).feedText ("render_mode " ++ mode.keyword ++ "\n").toList =
      { s with renderMode := mode }.ready (some '\n') := by
  have hsplit : ("render_mode " ++ mode.keyword ++ "\n").toList =
      "render_mode".toList ++ ' ' :: (mode.keyword.toList ++ ['\n']) := by
    simp
  obtain ⟨last', hword⟩ := feedText_ready_keyword s last "render_mode" (by decide)
  have hblank : (s.afterWord "render_mode" last').feed ' ' =
      { s with mode := .modeLine, word := "", buffer := " ", last := some ' ' } := by
    simp [afterWord, feed, step, feedTop, feedMode, keywordMode?, hdepth, isWordChar]
  have hbreak : '\n' ∉ mode.keyword.toList := by
    cases mode <;> decide
  have hmode : RenderMode.ofKeyword? (String.ofList (trim (" ".toList ++ mode.keyword.toList))) =
      some mode := by
    cases mode <;> decide
  have hline := feedText_modeLine s " " (some ' ') hbreak hmode
  rw [hsplit, feedText_append, hword, ← hline, ← hblank]
  rfl

/-! ## The parameter block -/

/-- The reader inside a parameter block, with the text of the block so far. -/
def inParams (s : Reader) (place : ParamsPlace) (text : String) (last : Option Char) : Reader :=
  { s with mode := .params place, parameterText := text, last := last }

/-- A token of a parameter line is collected. -/
theorem feedText_params_token {t : Token} (ht : t.Fits true) (text : String)
    (last : Option Char) (hlast : last ≠ some '/') :
    ∃ last', (s.inParams .plain text last).feedText t.render =
      s.inParams .plain (text ++ String.ofList t.render) last' := by
  cases t with
  | word w =>
      have hw : IsBare true w.toList := ht
      refine feedText_collect_code (fun _ text last => s.inParams .plain text last)
        (fun c hc _ _ text last _ hmark => ?_) hw.no_comment
        (bracesAfter?_of_not_isBrace hw.no_brace 0) text fun _ => hlast
      have hwordly : isWordly true c = true := hw.wordly c hc
      have hbrace : isBrace c = false := hw.no_brace c hc
      simp only [isWordly, Bool.and_eq_true, bne_iff_ne, ne_eq] at hwordly
      simp only [isBrace, Bool.or_eq_false_iff, beq_eq_false_iff_ne] at hbrace
      simp [inParams, feed, step, feedParams, hmark, hwordly.1.2, hbrace.1, hbrace.2]
  | quoted w =>
      have hw : '"' ∉ w.toList ∧ '\n' ∉ w.toList := ht
      have hopen : (s.inParams .plain text last).feed '"' =
          s.inParams .quote (text.push '"') (some '"') := by
        simp [inParams, feed, step, feedParams]
      obtain ⟨last', hcollect⟩ := feedText_collect
        (fun text last => s.inParams .quote text last) (t := w.toList)
        (fun c hc text last => by
          have hquote : c ≠ '"' := fun hq => hw.1 (hq ▸ hc)
          have hbreak : c ≠ '\n' := fun hn => hw.2 (hn ▸ hc)
          simp [inParams, feed, step, feedParams, hquote, hbreak]) (text.push '"') (some '"')
      have hclose : (s.inParams .quote (text.push '"' ++ String.ofList w.toList) last').feed '"' =
          s.inParams .plain (text ++ String.ofList (Token.quoted w).render) (some '"') := by
        have htext : (text.push '"' ++ String.ofList w.toList).push '"' =
            text ++ String.ofList (Token.quoted w).render := by
          rw [← String.toList_inj]
          simp [Token.render]
        rw [← htext]
        simp [inParams, feed, step, feedParams]
      refine ⟨some '"', ?_⟩
      have hrender : (Token.quoted w).render = '"' :: (w.toList ++ ['"']) := rfl
      rw [← hclose, ← hcollect, ← hopen, hrender, ← List.singleton_append, feedText_append,
        feedText_append]
      rfl
  | colon =>
      refine ⟨some ':', ?_⟩
      have htext : text.push ':' = text ++ String.ofList [':'] := by
        rw [← String.toList_inj]
        simp
      simp [Token.render, feedText, inParams, feed, step, feedParams, ← htext]

/-- A blank of a parameter line is collected. -/
theorem feed_params_space (text : String) (last : Option Char) :
    (s.inParams .plain text last).feed ' ' = s.inParams .plain (text.push ' ') (some ' ') := by
  simp [inParams, feed, step, feedParams]

/-- A line break of a parameter block is collected. -/
theorem feed_params_newline (text : String) (last : Option Char) :
    (s.inParams .plain text last).feed '\n' = s.inParams .plain (text.push '\n') (some '\n') := by
  simp [inParams, feed, step, feedParams]

/-- Tokens behind blanks are collected. -/
theorem feedText_params_tail {ts : List Token} (hts : ∀ t ∈ ts, t.Fits true) (text : String)
    (last : Option Char) :
    ∃ last', (s.inParams .plain text last).feedText (Token.renderTail ts) =
      s.inParams .plain (text ++ String.ofList (Token.renderTail ts)) last' := by
  induction ts generalizing text last with
  | nil => exact ⟨last, by simp [feedText]⟩
  | cons t ts ih =>
      obtain ⟨last₁, htoken⟩ := feedText_params_token s (hts t (by simp)) (text.push ' ')
        (some ' ') (by decide)
      obtain ⟨last', htail⟩ := ih (fun u hu => hts u (List.mem_cons_of_mem t hu))
        (text.push ' ' ++ String.ofList t.render) last₁
      have htext : text ++ String.ofList (Token.renderTail (t :: ts)) =
          text.push ' ' ++ String.ofList t.render ++ String.ofList (Token.renderTail ts) := by
        rw [← String.toList_inj]
        simp
      refine ⟨last', ?_⟩
      rw [htext, ← htail, ← htoken, ← feed_params_space s text last, Token.renderTail_cons,
        feedText_append]
      rfl

/-- A line of a parameter block is collected with its indentation and its break. -/
theorem feedText_params_line {u : UniformDeclaration} (h : u.WellFormed) (text : String)
    (last : Option Char) :
    (s.inParams .plain text last).feedText ("    " ++ u.line ++ "\n").toList =
      s.inParams .plain (text ++ ("    " ++ u.line ++ "\n")) (some '\n') := by
  obtain ⟨last₁, hspaces⟩ := feedText_collect
    (fun text last => s.inParams .plain text last) (t := [' ', ' ', ' '])
    (fun c hc text last => by
      obtain rfl : c = ' ' := by simpa using hc
      exact feed_params_space s text last) text last
  have htail : (' ' :: u.line.toList) = Token.renderTail u.tokens := by
    rw [u.line_eq_renderLine, Token.cons_renderLine (by simp [UniformDeclaration.tokens])]
  obtain ⟨last₂, htokens⟩ := feedText_params_tail s
    (UniformDeclaration.fits_of_mem_tokens h) (text ++ String.ofList [' ', ' ', ' ']) last₁
  have hsplit : ("    " ++ u.line ++ "\n").toList =
      [' ', ' ', ' '] ++ (' ' :: u.line.toList) ++ ['\n'] := by
    simp
  have htext : text ++ ("    " ++ u.line ++ "\n") =
      (text ++ String.ofList [' ', ' ', ' '] ++
        String.ofList (' ' :: u.line.toList)).push '\n' := by
    rw [← String.toList_inj]
    simp
  rw [hsplit, htext, feedText_append, feedText_append, hspaces, htail, htokens]
  exact feed_params_newline s _ last₂

/-- The lines of a parameter block are collected. -/
theorem feedText_params_lines {us : List UniformDeclaration} (h : ∀ u ∈ us, u.WellFormed)
    (text : String) :
    (s.inParams .plain text (some '\n')).feedText
        (String.join (us.map fun u => "    " ++ u.line ++ "\n")).toList =
      s.inParams .plain (text ++ String.join (us.map fun u => "    " ++ u.line ++ "\n"))
        (some '\n') := by
  induction us generalizing text with
  | nil => simp [feedText]
  | cons u us ih =>
      rw [List.map_cons, String.join_cons, String.toList_append, feedText_append,
        feedText_params_line s (h u (by simp)), ih fun v hv => h v (List.mem_cons_of_mem u hv),
        String.append_assoc]

/-- The parameter block of a file is collected. -/
theorem feedText_params (hdepth : s.depth = 0) (hempty : s.parameterText = "")
    {us : List UniformDeclaration} (h : ∀ u ∈ us, u.WellFormed) (last : Option Char) :
    (s.ready last).feedText
        ("params\n\x7b\n" ++
          String.join (us.map fun u : UniformDeclaration => "    " ++ u.line ++ "\n") ++
          "\x7d\n").toList =
      { s with
        parameterText :=
          "\n" ++ String.join (us.map fun u : UniformDeclaration => "    " ++ u.line ++ "\n") ++
            "\n" }.ready (some '\n') := by
  generalize hlines : String.join (us.map fun u : UniformDeclaration => "    " ++ u.line ++ "\n") =
    lines
  obtain ⟨last', hword⟩ := feedText_ready_keyword s last "params" (by decide)
  have hopen : (s.afterWord "params" last').feedText ['\n', '{', '\n'] =
      ({ s with word := "", buffer := "" } : Reader).inParams .plain "\n" (some '\n') := by
    simp [afterWord, feedText, feed, step, feedTop, feedParamsOpen, feedParams, inParams,
      keywordMode?, hdepth, hempty, isWordChar, isBlank]
  have hcollect := feedText_params_lines { s with word := "", buffer := "" } h "\n"
  rw [hlines] at hcollect
  have hclose : (({ s with word := "", buffer := "" } : Reader).inParams .plain ("\n" ++ lines)
      (some '\n')).feedText ['}', '\n'] =
        { s with parameterText := "\n" ++ lines ++ "\n" }.ready (some '\n') := by
    have htext : ("\n" ++ lines).push '\n' = "\n" ++ lines ++ "\n" := by
      rw [← String.toList_inj]
      simp
    simp [feedText, feed, step, feedTop, feedPlain, feedParams, inParams, ready,
      keywordMode?_empty, isWordChar, htext]
  have hsplit : ("params\n\x7b\n" ++ lines ++ "\x7d\n").toList =
      "params".toList ++ ['\n', '{', '\n'] ++ lines.toList ++ ['}', '\n'] := by
    simp
  rw [hsplit, feedText_append, feedText_append, feedText_append, hword, hopen, hcollect, hclose]

/-! ## The sections of a pass -/

/-- The block of a section puts its text into the pass. -/
theorem feedText_sectionText (hdepth : s.depth = 1) (sec : Section) {text : String}
    (h : IsEnclosed text.toList) (hunset : s.pass.set "" sec = s.pass) :
    (s.ready (some '\n')).feedText (PassSource.sectionText sec.keyword text).toList =
      { s with pass := s.pass.set text sec }.ready (some '\n') := by
  by_cases hempty : text = ""
  · subst hempty
    rw [hunset]
    rfl
  · have hword : ∀ c ∈ sec.keyword.toList, isWordChar c = true := by
      cases sec <;> decide
    obtain ⟨last', hkeyword⟩ := feedText_ready_keyword s (some ' ') sec.keyword hword
    have hopen : (s.afterWord sec.keyword last').feedText ['\n', ' ', ' ', ' ', ' ', '{'] =
        ({ s with word := "" } : Reader).inside sec 1 false "" (some '{') := by
      simp [afterWord, feedText, feed, step, feedTop, feedSectionOpen, inside, keywordMode?,
        hdepth, isWordChar, isBlank]
    have hsection := feedText_section { s with word := "" } sec h (some '{') (by decide)
    have hclose : ({ s with mode := .topLevel, word := "", pass := s.pass.set text sec,
                            buffer := "", last := some '}' } : Reader).feed '\n' =
        { s with pass := s.pass.set text sec }.ready (some '\n') :=
      feed_ready_newline { s with pass := s.pass.set text sec } (some '}')
    have hsplit : (PassSource.sectionText sec.keyword text).toList =
        List.replicate (3 + 1) ' ' ++ (sec.keyword.toList ++ (['\n', ' ', ' ', ' ', ' ', '{'] ++
          ((text.toList ++ ['}']) ++ ['\n']))) := by
      simp [PassSource.sectionText, hempty]
    rw [hsplit, feedText_append, feedText_ready_spaces, feedText_append, hkeyword,
      feedText_append, hopen, feedText_append, hsection, ← hclose]
    rfl

end Reader

end Source
end ShaderAssets
