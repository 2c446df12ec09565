import ShaderAssets.Proofs.Source.PassBraces

/-!
# Comments outside sections

A comment outside lines, blocks and sections is passed over up to the end of its line, but
it always ends at top level.  With no keyword before it, it is white space.  Between a
keyword and its brace it drops the keyword: the brace then opens a brace of a pass block
instead of the parameter block or the section.

Main results:

- Theorem {lit}`Reader.feedText_comment`: what a comment leaves behind.
- Theorem {lit}`ShaderSource.parse_comment_iff`: a comment is white space exactly where no
  keyword waits for its brace.
- Theorem {lit}`ShaderSource.comment_drops_keyword`: a parameter block that a comment turns
  into a pass.
-/

namespace ShaderAssets
namespace Source

open Text

namespace Reader

variable {r : Reader}

/-- Reading stands between words: at top level, or between a keyword and its brace. -/
structure Between (r : Reader) : Prop where
  mode_eq : r.mode = .topLevel ∨ r.mode = .paramsOpen ∨ ∃ sec, r.mode = .sectionOpen sec
  word_eq : r.word = ""

/-! ## White space and comments -/

/-- Between words a line feed changes nothing. -/
theorem Between.feed_newline (h : r.Between) : r.feed '\n' = { r with last := some '\n' } := by
  have hbreak : isWordChar '\n' = false := by decide
  have hword := h.word_eq
  rcases h.mode_eq with hmode | hmode | ⟨sec, hmode⟩
  · simp [feed, step, hmode, feedTop, hbreak, hword, keywordMode?_empty, feedPlain]
  · simp [feed, step, hmode, feedParamsOpen, isBlank]
  · simp [feed, step, hmode, feedSectionOpen, isBlank]

/-- Between words a slash begins a comment, or may do so with the next character. -/
theorem Between.feed_slash (h : r.Between) :
    r.feed '/' =
      { r with
        mode := if r.last = some '/' then .comment else .topLevel
        last := some '/' } := by
  have hslash : isWordChar '/' = false := by decide
  have hplain : r.feedPlain '/' =
      { r with mode := if r.last = some '/' then .comment else .topLevel } := by
    by_cases hlast : r.last = some '/' <;> simp [feedPlain, hslash, hlast]
  have hword := h.word_eq
  rcases h.mode_eq with hmode | hmode | ⟨sec, hmode⟩
  · have hself : { r with word := "" } = r := by rw [← hword]
    have htop : r.feedTop '/' = r.feedPlain '/' := by
      rw [feedTop, if_neg (by simp [hslash])]
      simp only [hword, keywordMode?_empty, hself]
    simp only [feed, step, hmode, htop, hplain]
  · simp [feed, step, hmode, feedParamsOpen, isBlank, hplain]
  · simp [feed, step, hmode, feedSectionOpen, isBlank, hplain]

/-- Two slashes begin a comment. -/
theorem Between.feed_slashes (h : r.Between) :
    (r.feed '/').feed '/' = { r with mode := .comment, last := some '/' } := by
  rw [h.feed_slash]
  split
  · rfl
  · have hagain : { r with mode := .topLevel, last := some '/' }.Between :=
      ⟨Or.inl rfl, h.word_eq⟩
    rw [hagain.feed_slash, if_pos rfl]

/-- A comment is passed over to the end of its line. -/
theorem feedText_inComment (hmode : r.mode = .comment) {text : List Char} (htext : '\n' ∉ text) :
    r.feedText (text ++ ['\n']) = { r with mode := .topLevel, last := some '\n' } := by
  induction text generalizing r with
  | nil => simp [feedText, feed, step, hmode]
  | cons c text ih =>
      obtain ⟨hc, hrest⟩ : '\n' ≠ c ∧ '\n' ∉ text := by simpa using htext
      have hfeed : r.feed c = { r with last := some c } := by
        simp [feed, step, hmode, Ne.symm hc]
      have hnext : (r.feed c).mode = .comment := by rw [hfeed, hmode]
      have hmore := ih hnext hrest
      rw [List.cons_append]
      exact hmore.trans (by rw [hfeed])

/-- A comment leaves behind what its line feed leaves behind, but at top level. -/
theorem Between.feedText_comment (h : r.Between) {text : List Char} (htext : '\n' ∉ text) :
    r.feedText ('/' :: '/' :: text ++ ['\n']) = { r.feed '\n' with mode := .topLevel } := by
  have hcomment : ((r.feed '/').feed '/').feedText (text ++ ['\n']) =
      { r.feed '\n' with mode := .topLevel } := by
    have hmode : ((r.feed '/').feed '/').mode = .comment := by rw [h.feed_slashes]
    rw [feedText_inComment hmode htext, h.feed_slashes, h.feed_newline]
  exact hcomment

/-! ## A keyword that is dropped -/

/-- A brace behind `params` opens no pass, but a brace at top level does. -/
theorem passes_paramsOpen (hmode : r.mode = .paramsOpen) (hdepth : r.depth = 0)
    (hword : r.word = "") :
    (r.feed '{').finish.source.passes = r.passes ∧
      ({ r with mode := .topLevel }.feed '{').finish.source.passes = r.passes ++ [.empty] := by
  obtain ⟨mode, last, word, buffer, depth, pass, name, renderMode, parameterText, passes,
    warnings⟩ := r
  obtain rfl : mode = .paramsOpen := hmode
  obtain rfl : depth = 0 := hdepth
  obtain rfl : word = "" := hword
  rw [passes_finish, passes_finish]
  exact ⟨List.append_nil passes, rfl⟩

/-- At depth two no word is a keyword, so a text without braces and slashes is passed over,
up to its last word. -/
theorem feedText_deep (hmode : r.mode = .topLevel) (hdepth : r.depth = 2) {text : List Char}
    (htext : ∀ c ∈ text, c ≠ '{' ∧ c ≠ '}' ∧ c ≠ '/') :
    ∃ word last, r.feedText text = { r with word := word, last := last } := by
  induction text generalizing r with
  | nil => exact ⟨r.word, r.last, rfl⟩
  | cons c text ih =>
      obtain ⟨hopen, hclose, hslash⟩ := htext c (by simp)
      have hfeed : ∃ word, r.feed c = { r with word := word, last := some c } := by
        by_cases hchar : isWordChar c = true
        · exact ⟨r.word.push c, by simp [feed, step, hmode, feedTop, hchar]⟩
        · refine ⟨"", ?_⟩
          simp [feed, step, hmode, feedTop, hchar, hdepth, keywordMode?, feedPlain, hopen, hclose,
            hslash]
      obtain ⟨word, hfeed⟩ := hfeed
      have hnext : (r.feed c).mode = .topLevel ∧ (r.feed c).depth = 2 := by
        rw [hfeed]
        exact ⟨hmode, hdepth⟩
      obtain ⟨word', last', hmore⟩ :=
        ih hnext.1 hnext.2 fun d hd => htext d (List.mem_cons_of_mem c hd)
      exact ⟨word', last', hmore.trans (by rw [hfeed])⟩

/-- The brace that closes a pass stores it. -/
theorem passes_close (hmode : r.mode = .topLevel) (hdepth : r.depth = 1) (hword : r.word = "") :
    (r.feed '}').finish.source.passes = r.passes ++ [passOf r.pass] := by
  have hbrace : isWordChar '}' = false := by decide
  have hfeed : (r.feed '}').depth = 0 ∧ (r.feed '}').passes = r.passes ++ [passOf r.pass] := by
    simp [feed, step, hmode, feedTop, hbrace, hword, keywordMode?_empty, feedPlain, hdepth,
      storePass]
  rw [passes_finish, if_pos hfeed.1, hfeed.2, List.append_nil]

/-- Behind a section keyword a text in braces fills the section, but at top level it is
passed over. -/
theorem passes_sectionOpen {sec : Section} (hmode : r.mode = .sectionOpen sec)
    (hdepth : r.depth = 1) (hword : r.word = "") {text : String}
    (htext : ∀ c ∈ text.toList, c ≠ '{' ∧ c ≠ '}' ∧ c ≠ '/') (henclosed : IsEnclosed text.toList) :
    (r.feedText ('{' :: (text.toList ++ ['}']) ++ ['}'])).finish.source.passes =
        r.passes ++ [passOf (r.pass.set text sec)] ∧
      ({ r with mode := .topLevel }.feedText
          ('{' :: (text.toList ++ ['}']) ++ ['}'])).finish.source.passes =
        r.passes ++ [passOf r.pass] := by
  have hsplit : ∀ s : Reader, s.feedText ('{' :: (text.toList ++ ['}']) ++ ['}']) =
      ((s.feed '{').feedText (text.toList ++ ['}'])).feed '}' :=
    fun s => feedText_append s ('{' :: (text.toList ++ ['}'])) ['}']
  constructor
  · have hopen : r.feed '{' = r.inside sec 1 false "" (some '{') := by
      simp [feed, step, hmode, feedSectionOpen, inside]
    rw [hsplit, hopen, feedText_section r sec henclosed (some '{') (by decide)]
    exact passes_close rfl hdepth hword
  · have hbrace : isWordChar '{' = false ∧ isWordChar '}' = false := by decide
    have hopen : { r with mode := .topLevel }.feed '{' =
        { r with mode := .topLevel, depth := 2, last := some '{' } := by
      simp [feed, step, feedTop, hbrace.1, hword, keywordMode?_empty, feedPlain, hdepth]
    obtain ⟨word, last, hinner⟩ := feedText_deep
      (r := { r with mode := .topLevel, depth := 2, last := some '{' }) rfl rfl htext
    have hclose : { r with mode := .topLevel, depth := 2, word := word, last := last }.feed '}' =
        { r with mode := .topLevel, depth := 1, word := "", last := some '}' } := by
      simp [feed, step, feedTop, hbrace.2, keywordMode?, feedPlain]
    have hstored := passes_close
      (r := { r with mode := .topLevel, depth := 1, word := "", last := some '}' }) rfl rfl rfl
    rw [hsplit, hopen, feedText_append, hinner, ← hstored, ← hclose]
    rfl

/-- Every section counts: a pass with one text in it says something else than with another. -/
theorem passOf_set_ne (pass : OpenPass) (sec : Section) :
    passOf (pass.set "" sec) ≠ passOf (pass.set "a b" sec) := by
  have htags : Tags.tags "" ≠ Tags.tags "a b" := by decide +kernel
  intro hsame
  cases sec with
  | tags =>
      have hsaid := congrArg PassSource.tags hsame
      simp only [passOf, OpenPass.set] at hsaid
      exact htags hsaid
  | varying => exact absurd (congrArg PassSource.varying hsame) (by simp [passOf, OpenPass.set])
  | vertex => exact absurd (congrArg PassSource.vertex hsame) (by simp [passOf, OpenPass.set])
  | fragment => exact absurd (congrArg PassSource.fragment hsame) (by simp [passOf, OpenPass.set])

/-- Reading on from top level gives the same for every text only if no keyword was waiting
for its brace. -/
theorem Regular.mode_eq_of_finish_eq (hregular : r.Regular) (h : r.Between)
    (hsame : ∀ text : List Char,
      ({ r with mode := .topLevel }.feedText text).finish = (r.feedText text).finish) :
    r.mode = .topLevel := by
  have hpasses : ∀ text : List Char,
      ({ r with mode := .topLevel }.feedText text).finish.source.passes =
        (r.feedText text).finish.source.passes := fun text => by rw [hsame text]
  have hplaced := hregular.placed
  rcases h.mode_eq with hmode | hmode | ⟨sec, hmode⟩
  · exact hmode
  · rw [Placed, hmode] at hplaced
    obtain ⟨hopen, htop⟩ := passes_paramsOpen hmode hplaced h.word_eq
    have hbrace := htop.symm.trans ((hpasses ['{']).trans hopen)
    exact absurd hbrace (by simp)
  · rw [Placed, hmode] at hplaced
    have hset : ∀ text : String, (∀ c ∈ text.toList, c ≠ '{' ∧ c ≠ '}' ∧ c ≠ '/') →
        IsEnclosed text.toList → passOf r.pass = passOf (r.pass.set text sec) := by
      intro text htext henclosed
      obtain ⟨hfill, hpass⟩ := passes_sectionOpen hmode hplaced h.word_eq htext henclosed
      have hblock := hpass.symm.trans ((hpasses _).trans hfill)
      simpa using hblock
    have hempty := hset "" (by decide) (.of_not_isBrace (by decide) (by decide))
    have hwords := hset "a b" (by decide) (.of_not_isBrace (by decide) (by decide))
    exact absurd (hempty.symm.trans hwords) (passOf_set_ne _ _)

end Reader

/-! ## Files -/

namespace ShaderSource

/-- A comment between words ends at top level and otherwise acts like its line feed.  So it
is white space, whatever follows, exactly if no keyword is waiting for its brace. -/
theorem parse_comment_iff (a c : String) (hc : '\n' ∉ c.toList)
    (h : (Reader.initial.feedText a.toList).Between) :
    Reader.initial.feedText (a ++ "//" ++ c ++ "\n").toList =
        { Reader.initial.feedText (a ++ "\n").toList with mode := .topLevel } ∧
      ((∀ b : String, parse (a ++ "//" ++ c ++ "\n" ++ b) = parse (a ++ "\n" ++ b)) ↔
        (Reader.initial.feedText a.toList).mode = .topLevel) := by
  have hregular := Reader.regular_initial.feedText a.toList
  have hbreak : Reader.initial.feedText (a ++ "\n").toList =
      { Reader.initial.feedText a.toList with last := some '\n' } := by
    rw [String.toList_append, Reader.feedText_append]
    exact h.feed_newline
  have hcomment : Reader.initial.feedText (a ++ "//" ++ c ++ "\n").toList =
      { Reader.initial.feedText (a ++ "\n").toList with mode := .topLevel } := by
    have hsplit : (a ++ "//" ++ c ++ "\n").toList =
        a.toList ++ ('/' :: '/' :: c.toList ++ ['\n']) := by simp
    rw [hsplit, Reader.feedText_append, h.feedText_comment hc, hbreak, h.feed_newline]
  have hsplit : ∀ x b : String,
      parse (x ++ b) = ((Reader.initial.feedText x.toList).feedText b.toList).finish := by
    intro x b
    rw [parse, String.toList_append, Reader.feedText_append]
  refine ⟨hcomment, fun hsame => ?_, fun hmode b => ?_⟩
  · have hnext : { Reader.initial.feedText a.toList with last := some '\n' }.Between :=
      ⟨h.mode_eq, h.word_eq⟩
    refine (hregular.setLast (some '\n')).mode_eq_of_finish_eq hnext fun text => ?_
    have htext := hsame (String.ofList text)
    rw [hsplit, hsplit, hcomment, hbreak, String.toList_ofList] at htext
    exact htext
  · have hself : { Reader.initial.feedText (a ++ "\n").toList with mode := .topLevel } =
        Reader.initial.feedText (a ++ "\n").toList := by
      rw [hbreak, ← hmode]
    rw [hsplit, hsplit, hcomment, hself]

/-- A comment behind a name, at top level. -/
theorem parse_comment_iff_sample :
    parse ("name \"a\"\n" ++ "//" ++ " b \x7b" ++ "\n" ++ "pass\x7bvertex\x7bc\x7d\x7d") =
      parse ("name \"a\"\n" ++ "\n" ++ "pass\x7bvertex\x7bc\x7d\x7d") := by
  have hbetween : (Reader.initial.feedText "name \"a\"\n".toList).Between :=
    ⟨Or.inl (by decide), by decide⟩
  exact (parse_comment_iff "name \"a\"\n" " b \x7b" (by decide) hbetween).2.mpr (by decide) _

/-- Behind `params` a comment turns the parameter block into a pass: the uniform is lost,
and a pass without a program comes in its place. -/
theorem comment_drops_keyword :
    (Reader.initial.feedText "params ".toList).mode = .paramsOpen ∧
      (Reader.initial.feedText "params ".toList).word = "" ∧
      parse
          ("params " ++ "//" ++ " colours" ++ "\n" ++ "\x7bfloat a\n\x7d\x7bvertex\x7bb\x7d\x7d") ≠
        parse ("params " ++ "\n" ++ "\x7bfloat a\n\x7d\x7bvertex\x7bb\x7d\x7d") := by
  decide +kernel

end ShaderSource
end Source
end ShaderAssets
