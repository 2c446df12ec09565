import ShaderAssets.Proofs.Text.Parts
import ShaderAssets.Proofs.Text.Slashes
import ShaderAssets.Proofs.Text.Trim
import ShaderAssets.Stage.Comments

/-!
# Codes as characters and comments

Read from left to right, a code is a sequence of pieces: comments, each from its opening
mark to its end, and characters that begin no comment where they stand.  Stripping keeps
the characters and, of the comments, the line feeds.  Removing a comment never brings a new
opening mark about: a slash in front of a comment would itself have opened one.

Main results:

- Relation {lit}`Reads`: the pieces of a code.
- Theorems {lit}`exists_reads` and {lit}`Reads.unique`: every code has pieces in one way.
- Theorem {lit}`Reads.strip_eq`: what stripping keeps of the pieces.
- Theorem {lit}`strip_exact`: what stripping gives for any code.
-/

namespace ShaderAssets
namespace Comments

open Text

/-! ## Pieces -/

/-- A piece of a code. -/
inductive Piece where
  /-- A character outside comments. -/
  | code (c : Char)
  /-- A comment up to the end of its line. -/
  | line (body : List Char)
  /-- A comment between its opening and its closing mark. -/
  | block (body : List Char)
  /-- A comment from its opening mark to the end of the code. -/
  | unclosed (body : List Char)
deriving DecidableEq, Repr, Inhabited

namespace Piece

/-- The text of a piece. -/
def source : Piece → List Char
  | .code c => [c]
  | .line body => '/' :: '/' :: body
  | .block body => '/' :: '*' :: (body ++ ['*', '/'])
  | .unclosed body => '/' :: '*' :: body

/-- What stripping keeps of a piece: a character as it is, and the line feeds of a comment. -/
def kept : Piece → List Char
  | .code c => [c]
  | .line body | .block body | .unclosed body => body.filter (· == '\n')

/-- No line feed is lost. -/
theorem count_kept (p : Piece) : p.kept.count '\n' = p.source.count '\n' := by
  cases p <;> simp [kept, source, List.count_filter]

end Piece

/-- A text begins with the opening mark of a comment. -/
def Opens (s : List Char) : Prop :=
  ['/', '/'] <+: s ∨ ['/', '*'] <+: s

/-- The opening mark of a comment stands somewhere in a text. -/
def HasMark (s : List Char) : Prop :=
  ['/', '/'] <:+: s ∨ ['/', '*'] <:+: s

/-- A code is read from left to right as pieces.  A line comment ends in front of the next
line feed and a block comment behind the next closing mark, whatever stands before that. -/
inductive Reads : List Char → List Piece → Prop where
  | done : Reads [] []
  | code {c : Char} {s : List Char} {ps : List Piece} (hc : ¬Opens (c :: s)) (h : Reads s ps) :
      Reads (c :: s) (.code c :: ps)
  | line {body s : List Char} {ps : List Piece} (hbody : '\n' ∉ body)
      (hend : ∀ c, s.head? = some c → c = '\n') (h : Reads s ps) :
      Reads ('/' :: '/' :: (body ++ s)) (.line body :: ps)
  | block {body s : List Char} {ps : List Piece} (hbody : ¬['*', '/'] <:+: body ++ ['*'])
      (h : Reads s ps) : Reads ('/' :: '*' :: (body ++ '*' :: '/' :: s)) (.block body :: ps)
  | unclosed {body : List Char} (hbody : ¬['*', '/'] <:+: body) :
      Reads ('/' :: '*' :: body) [.unclosed body]

/-- An opening mark is a slash and a slash or star. -/
theorem opens_cons_iff {c : Char} {s : List Char} :
    Opens (c :: s) ↔ c = '/' ∧ (s.head? = some '/' ∨ s.head? = some '*') := by
  rw [Opens, pair_prefix_cons_iff, pair_prefix_cons_iff, and_or_left]

/-- An opening mark stands at the front of a text or further on. -/
theorem hasMark_cons_iff {c : Char} {s : List Char} :
    HasMark (c :: s) ↔ Opens (c :: s) ∨ HasMark s := by
  rw [HasMark, List.infix_cons_iff, List.infix_cons_iff, or_or_or_comm]
  rfl

/-- An empty text has no mark. -/
theorem not_hasMark_nil : ¬HasMark [] := by
  simp [HasMark]

/-! ## The ends of comments -/

/-- A text has a first line, which ends in front of the first line feed. -/
theorem exists_line (t : List Char) :
    ∃ body s, t = body ++ s ∧ '\n' ∉ body ∧ ∀ c, s.head? = some c → c = '\n' := by
  rcases first_separator (· == '\n') t with hfree | ⟨body, c, rest, rfl, hfree, hc⟩
  · exact ⟨t, [], by simp, fun hmem => by simpa using hfree _ hmem, by simp⟩
  · exact ⟨body, c :: rest, rfl, fun hmem => by simpa using hfree _ hmem, by simpa using hc⟩

/-- The first line of a text is all in front of the first line feed. -/
theorem line_unique {body body' s s' : List Char} (h : body ++ s = body' ++ s')
    (hbody : '\n' ∉ body) (hbody' : '\n' ∉ body') (hend : ∀ c, s.head? = some c → c = '\n')
    (hend' : ∀ c, s'.head? = some c → c = '\n') : body = body' ∧ s = s' := by
  have hsame : body = body' := by
    rw [← takeWhile_ne_append hbody hend, h, takeWhile_ne_append hbody' hend']
  exact ⟨hsame, List.append_cancel_left (hsame ▸ h)⟩

/-- The body of a block comment ends in front of the first closing mark. -/
theorem block_unique {body body' s s' : List Char}
    (h : body ++ '*' :: '/' :: s = body' ++ '*' :: '/' :: s')
    (hbody : ¬['*', '/'] <:+: body ++ ['*']) (hbody' : ¬['*', '/'] <:+: body' ++ ['*']) :
    body = body' ∧ s = s' := by
  have hsame : body = body' := by
    rw [← beforeMark_append_pair hbody s, h, beforeMark_append_pair hbody' s']
  have htail := List.append_cancel_left (hsame ▸ h)
  exact ⟨hsame, (List.cons.inj (List.cons.inj htail).2).2⟩

/-! ## Pieces of a code -/

/-- The pieces of a code make it up. -/
theorem Reads.eq_source {s : List Char} {ps : List Piece} (h : Reads s ps) :
    s = ps.flatMap Piece.source := by
  induction h with
  | done => rfl
  | code _ _ ih => rw [List.flatMap_cons, ← ih, Piece.source, List.singleton_append]
  | line _ _ _ ih => rw [List.flatMap_cons, ← ih, Piece.source, List.cons_append, List.cons_append]
  | block _ _ ih =>
      rw [List.flatMap_cons, ← ih, Piece.source]
      simp
  | unclosed _ => rw [List.flatMap_singleton, Piece.source]

/-- Every code has pieces. -/
theorem exists_reads (s : List Char) : ∃ ps, Reads s ps := by
  induction hlen : s.length using Nat.strong_induction_on generalizing s with
  | _ n ih =>
      subst hlen
      cases s with
      | nil => exact ⟨[], .done⟩
      | cons c s =>
          by_cases hopens : Opens (c :: s)
          · rcases hopens with ⟨t, hline⟩ | ⟨t, hblock⟩
            · obtain ⟨body, rest, rfl, hbody, hend⟩ := exists_line t
              obtain ⟨ps, hps⟩ := ih rest.length (by simp [← hline]; omega) rest rfl
              exact ⟨.line body :: ps, hline ▸ .line hbody hend hps⟩
            · by_cases hclosed : ['*', '/'] <:+: t
              · obtain ⟨rest, ht, hbody⟩ := beforeMark_pair hclosed
                generalize beforeMark ['*', '/'] t = body at ht hbody
                subst ht
                obtain ⟨ps, hps⟩ := ih rest.length (by simp [← hblock]; omega) rest rfl
                exact ⟨.block body :: ps, hblock ▸ .block hbody hps⟩
              · exact ⟨[.unclosed t], hblock ▸ .unclosed hclosed⟩
          · obtain ⟨ps, hps⟩ := ih s.length (Nat.lt_succ_self _) s rfl
            exact ⟨.code c :: ps, .code hopens hps⟩

/-- A character that opens no comment is a piece. -/
theorem Reads.of_not_opens {c : Char} {s : List Char} {ps : List Piece} (h : Reads (c :: s) ps)
    (hc : ¬Opens (c :: s)) : ∃ qs, ps = .code c :: qs ∧ Reads s qs := by
  cases h with
  | code _ h => exact ⟨_, rfl, h⟩
  | line => exact absurd (opens_cons_iff.mpr ⟨rfl, Or.inl rfl⟩) hc
  | block => exact absurd (opens_cons_iff.mpr ⟨rfl, Or.inr rfl⟩) hc
  | unclosed => exact absurd (opens_cons_iff.mpr ⟨rfl, Or.inr rfl⟩) hc

/-- Behind the opening mark of a line comment stands its body. -/
theorem Reads.of_line {t : List Char} {ps : List Piece} (h : Reads ('/' :: '/' :: t) ps) :
    ∃ body s qs, t = body ++ s ∧ '\n' ∉ body ∧ (∀ c, s.head? = some c → c = '\n') ∧
      ps = .line body :: qs ∧ Reads s qs := by
  generalize hs : '/' :: '/' :: t = s at h
  cases h with
  | done => cases hs
  | code hc _ => exact absurd (opens_cons_iff.mpr (by cases hs; simp)) hc
  | line hbody hend h =>
      cases hs
      exact ⟨_, _, _, rfl, hbody, hend, rfl, h⟩
  | block => cases hs
  | unclosed => cases hs

/-- Behind the opening mark of a block comment stands its body. -/
theorem Reads.of_block {t : List Char} {ps : List Piece} (h : Reads ('/' :: '*' :: t) ps) :
    (∃ body s qs, t = body ++ '*' :: '/' :: s ∧ ¬['*', '/'] <:+: body ++ ['*'] ∧
      ps = .block body :: qs ∧ Reads s qs) ∨
    (¬['*', '/'] <:+: t ∧ ps = [.unclosed t]) := by
  generalize hs : '/' :: '*' :: t = s at h
  cases h with
  | done => cases hs
  | code hc _ => exact absurd (opens_cons_iff.mpr (by cases hs; simp)) hc
  | line => cases hs
  | block hbody h =>
      cases hs
      exact Or.inl ⟨_, _, _, rfl, hbody, rfl, h⟩
  | unclosed hbody =>
      cases hs
      exact Or.inr ⟨hbody, rfl⟩

/-- A code has its pieces in one way only. -/
theorem Reads.unique {s : List Char} {ps qs : List Piece} (h : Reads s ps) (h' : Reads s qs) :
    qs = ps := by
  induction h generalizing qs with
  | done => cases h'; rfl
  | code hc _ ih =>
      obtain ⟨rs, rfl, hrs⟩ := h'.of_not_opens hc
      rw [ih hrs]
  | line hbody hend _ ih =>
      obtain ⟨body', s', qs, ht, hbody', hend', rfl, h'⟩ := h'.of_line
      obtain ⟨rfl, rfl⟩ := line_unique ht hbody hbody' hend hend'
      rw [ih h']
  | @block body s _ hbody _ ih =>
      rcases h'.of_block with ⟨body', s', qs, ht, hbody', rfl, h'⟩ | ⟨hopen, -⟩
      · obtain ⟨rfl, rfl⟩ := block_unique ht hbody hbody'
        rw [ih h']
      · exact absurd ⟨body, s, by simp⟩ hopen
  | unclosed hbody =>
      rcases h'.of_block with ⟨body', s', qs, ht, -, -, -⟩ | ⟨-, rfl⟩
      · exact absurd ⟨body', s', by simp [ht]⟩ hbody
      · rfl

/-! ## Stripping -/

/-- A character that opens no comment is kept. -/
theorem strip_of_not_opens {c : Char} {s : List Char} (hc : ¬Opens (c :: s)) :
    strip (c :: s) = c :: strip s := by
  rw [opens_cons_iff, and_or_left, not_or] at hc
  rw [strip, stripFrom, if_neg hc.1, if_neg hc.2, ← strip]

/-- Nothing of a line comment is kept. -/
theorem stripFrom_line {body s : List Char} (hbody : '\n' ∉ body)
    (hend : ∀ c, s.head? = some c → c = '\n') : stripFrom .line (body ++ s) = strip s := by
  induction body with
  | nil =>
      cases s with
      | nil => rfl
      | cons c s =>
          obtain rfl := hend c rfl
          rfl
  | cons c body ih =>
      rw [List.mem_cons, not_or] at hbody
      rw [List.cons_append, stripFrom, if_neg (Ne.symm hbody.1), ih hbody.2]

/-- Of a block comment the line feeds are kept, up to a closing mark. -/
theorem stripFrom_block {body s : List Char} (hbody : ¬['*', '/'] <:+: body ++ s.take 1) :
    stripFrom .block (body ++ s) = body.filter (· == '\n') ++ stripFrom .block s := by
  induction body with
  | nil => rfl
  | cons c body ih =>
      rw [List.cons_append, List.infix_cons_iff, pair_prefix_cons_iff, not_or] at hbody
      have hhead : (body ++ s).head? = (body ++ s.take 1).head? := by
        cases body <;> cases s <;> rfl
      rw [List.cons_append, stripFrom, hhead, if_neg hbody.1, ih hbody.2]
      split
      · rename_i hc
        rw [List.filter_cons_of_pos (by simp [hc]), List.cons_append]
      · rename_i hc
        rw [List.filter_cons_of_neg (by simp [hc])]

/-- Stripping keeps the characters outside comments and the line feeds of comments. -/
theorem Reads.strip_eq {s : List Char} {ps : List Piece} (h : Reads s ps) :
    strip s = ps.flatMap Piece.kept := by
  induction h with
  | done => rfl
  | code hc _ ih =>
      rw [strip_of_not_opens hc, ih, List.flatMap_cons, Piece.kept, List.singleton_append]
  | @line body s ps hbody hend _ ih =>
      have hkept : (Piece.line body).kept = [] := by
        simpa [Piece.kept, List.filter_eq_nil_iff] using fun c hc => ne_of_mem_of_not_mem hc hbody
      rw [List.flatMap_cons, hkept, List.nil_append, ← ih]
      exact stripFrom_line hbody hend
  | @block body s ps hbody _ ih =>
      rw [List.flatMap_cons, ← ih, Piece.kept]
      exact stripFrom_block (s := '*' :: '/' :: s) hbody
  | @unclosed body hbody =>
      have hread : stripFrom .block (body ++ []) = body.filter (· == '\n') ++ stripFrom .block [] :=
        stripFrom_block (by simpa using hbody)
      rw [List.append_nil] at hread
      rw [List.flatMap_singleton, Piece.kept]
      exact hread.trans (List.append_nil _)

/-- A code without opening marks is kept as it is. -/
theorem strip_of_not_hasMark {s : List Char} (h : ¬HasMark s) : strip s = s := by
  induction s with
  | nil => rfl
  | cons c s ih =>
      rw [hasMark_cons_iff, not_or] at h
      rw [strip_of_not_opens h.1, ih h.2]

/-- Line feeds in front of a text make no opening mark. -/
theorem hasMark_newlines_append {body s : List Char} :
    HasMark (body.filter (· == '\n') ++ s) ↔ HasMark s := by
  induction body with
  | nil => rfl
  | cons c body ih =>
      by_cases hc : c = '\n'
      · subst hc
        rw [List.filter_cons_of_pos rfl, List.cons_append, hasMark_cons_iff, opens_cons_iff, ih]
        simp
      · rw [List.filter_cons_of_neg (by simpa using hc), ih]

/-- A text that begins with no slash goes on with what it begins with. -/
theorem head?_strip {s : List Char} (h : s.head? ≠ some '/') : (strip s).head? = s.head? := by
  cases s with
  | nil => rfl
  | cons c s =>
      have hc : ¬Opens (c :: s) := fun hopens => h (by rw [(opens_cons_iff.mp hopens).1]; rfl)
      rw [strip_of_not_opens hc]
      rfl

/-- Stripping leaves no opening mark. -/
theorem not_hasMark_strip (s : List Char) : ¬HasMark (strip s) := by
  obtain ⟨ps, h⟩ := exists_reads s
  rw [h.strip_eq]
  induction h with
  | done => exact not_hasMark_nil
  | @code c s ps hc h ih =>
      rw [List.flatMap_cons, Piece.kept, List.singleton_append, hasMark_cons_iff, not_or,
        ← h.strip_eq]
      refine ⟨fun hopens => ?_, h.strip_eq ▸ ih⟩
      -- A slash that is kept has neither a slash nor a star behind it, so no comment either.
      rw [opens_cons_iff] at hopens hc
      have hslash : s.head? ≠ some '/' := fun hhead => hc ⟨hopens.1, Or.inl hhead⟩
      rw [head?_strip hslash] at hopens
      exact hc hopens
  | @line body _ _ _ _ _ ih => rwa [List.flatMap_cons, Piece.kept, hasMark_newlines_append]
  | @block body _ _ _ _ ih => rwa [List.flatMap_cons, Piece.kept, hasMark_newlines_append]
  | @unclosed body _ =>
      rw [List.flatMap_cons, Piece.kept, hasMark_newlines_append]
      exact not_hasMark_nil

/-- Stripping keeps the line feeds of a code. -/
theorem count_strip (s : List Char) : (strip s).count '\n' = s.count '\n' := by
  obtain ⟨ps, h⟩ := exists_reads s
  have hpieces : (ps.flatMap Piece.kept).count '\n' = (ps.flatMap Piece.source).count '\n' := by
    rw [List.count_flatMap, List.count_flatMap]
    exact congrArg List.sum (List.map_congr_left fun p _ => p.count_kept)
  rw [h.strip_eq, hpieces, ← h.eq_source]

/-- A code is made up of characters and comments in one way, and stripping removes its comments
except for their line feeds.  The number of line feeds stays the same and no opening mark
remains; exactly the codes without one stay as they are, stripped codes among them. -/
theorem strip_exact (s : List Char) :
    (∃ ps, (∀ qs, Reads s qs ↔ qs = ps) ∧ s = ps.flatMap Piece.source ∧
      strip s = ps.flatMap Piece.kept) ∧
    (strip s).count '\n' = s.count '\n' ∧
    ¬['/', '/'] <:+: strip s ∧ ¬['/', '*'] <:+: strip s ∧
    (strip s = s ↔ ¬['/', '/'] <:+: s ∧ ¬['/', '*'] <:+: s) ∧
    strip (strip s) = strip s := by
  have hclean : ∀ s, ¬['/', '/'] <:+: strip s ∧ ¬['/', '*'] <:+: strip s := fun s =>
    not_or.mp (not_hasMark_strip s)
  obtain ⟨ps, h⟩ := exists_reads s
  refine ⟨⟨ps, fun qs => ⟨h.unique, fun hqs => hqs ▸ h⟩, h.eq_source, h.strip_eq⟩, count_strip s,
    (hclean s).1, (hclean s).2, ⟨fun hsame => ?_, fun hmark => ?_⟩, ?_⟩
  · rw [← hsame]
    exact hclean s
  · exact strip_of_not_hasMark (not_or.mpr hmark)
  · exact strip_of_not_hasMark (not_hasMark_strip s)

/-- The star of an opening mark does not close the comment, and marks inside comments open none. -/
example : strip "a /*/ // b\n*/ c //* d\n/".toList = "a \n c \n/".toList := by
  decide

end Comments
end ShaderAssets
