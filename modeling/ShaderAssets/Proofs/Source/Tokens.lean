import Mathlib.Tactic.SplitIfs
import ShaderAssets.Source.Token
import ShaderAssets.Proofs.Text.Slashes

/-!
# Tokens that were written

A token is written bare, in quotes or as a colon.  Tokens with white space between
them are read back one by one, provided that a bare word holds nothing that ends a
word and a quoted text holds no quote.  Every token that a line gives is of this
kind, whatever stands next to it on the line.

Main results:

- Theorem {lit}`readWords_render`: a written token is read back in front of a blank.
- Theorem {lit}`readWords_renderLine`: a written line of tokens is read back.
- Theorem {lit}`isWritable_of_mem_ofLine`: the tokens of a line can be written.
- Theorem {lit}`ofLine_rebuilt`: a line rebuilt from its tokens has the same tokens.
-/

namespace ShaderAssets
namespace Source

open Text

/-- Whether a character may stand in a bare word of a line. -/
def isWordly (colons : Bool) (c : Char) : Bool :=
  !isBlank c && c != '"' && !(colons && c == ':')

/-- A text that is read as one bare word. -/
structure IsWord (colons : Bool) (s : List Char) : Prop where
  nonempty : s ≠ []
  wordly : ∀ c ∈ s, isWordly colons c = true
  no_comment : hasComment s = false

instance (colons : Bool) (s : List Char) : Decidable (IsWord colons s) :=
  decidable_of_iff (s ≠ [] ∧ (∀ c ∈ s, isWordly colons c = true) ∧ hasComment s = false)
    ⟨fun h => ⟨h.1, h.2.1, h.2.2⟩, fun h => ⟨h.nonempty, h.wordly, h.no_comment⟩⟩

namespace Token

/-- The text of a token on a line. -/
def render : Token → List Char
  | .word s => s.toList
  | .quoted s => '"' :: (s.toList ++ ['"'])
  | .colon => [':']

/-- Tokens with one blank between them. -/
def renderLine (ts : List Token) : List Char :=
  [' '].intercalate (ts.map render)

/-- A token whose text is read as this token. -/
def IsWritable (colons : Bool) : Token → Prop
  | .word s => IsWord colons s.toList
  | .quoted s => '"' ∉ s.toList
  | .colon => colons = true

/-! ## One token -/

/-- The text after a token begins with white space, if there is any. -/
def StartsBlank (rest : List Char) : Prop :=
  ∀ c, rest.head? = some c → isBlank c = true

theorem startsBlank_nil : StartsBlank [] := by
  intro c h
  simp at h

theorem startsBlank_cons {c : Char} (h : isBlank c = true) (rest : List Char) :
    StartsBlank (c :: rest) := by
  intro d hd
  rw [List.head?_cons, Option.some.injEq] at hd
  rw [← hd]
  exact h

/-- A slash is not white space. -/
theorem StartsBlank.head_ne_slash {rest : List Char} (h : StartsBlank rest) :
    rest.head? ≠ some '/' := by
  intro hhead
  exact absurd (h '/' hhead) (by decide)

/-- White space ends a pending word and is skipped. -/
theorem readWords_blank (colons : Bool) (pending : String) {c : Char}
    (h : isBlank c = true) (rest : List Char) :
    readWords colons pending (c :: rest) =
      ofPending pending ++ readWords colons "" rest := by
  have hslash : c ≠ '/' := by
    rintro rfl
    exact absurd h (by decide)
  have hquote : c ≠ '"' := by
    rintro rfl
    exact absurd h (by decide)
  have hcolon : c ≠ ':' := by
    rintro rfl
    exact absurd h (by decide)
  rw [readWords, if_neg (by simp [hslash]), if_neg hquote, if_neg (by simp [hcolon]), if_pos h]

/-- Leading blanks are skipped. -/
theorem readWords_spaces (colons : Bool) (k : Nat) (rest : List Char) :
    readWords colons "" (List.replicate k ' ' ++ rest) = readWords colons "" rest := by
  induction k with
  | zero => rfl
  | succ k ih =>
      rw [List.replicate_succ, List.cons_append, readWords_blank colons "" (by decide), ih]
      rfl

/-- White space at the end of a pending word completes it. -/
theorem readWords_startsBlank (colons : Bool) (pending : String) {rest : List Char}
    (h : StartsBlank rest) :
    readWords colons pending rest = ofPending pending ++ readWords colons "" rest := by
  cases rest with
  | nil => simp [readWords, ofPending]
  | cons c rest =>
      have hc : isBlank c = true := h c rfl
      rw [readWords_blank colons pending hc, readWords_blank colons "" hc]
      rfl

/-- The characters of a word are collected. -/
theorem readWords_wordly {colons : Bool} {s rest : List Char} (pending : String)
    (hs : ∀ c ∈ s, isWordly colons c = true) (hno : hasComment s = false)
    (hrest : rest.head? ≠ some '/') :
    readWords colons pending (s ++ rest) =
      readWords colons (pending ++ String.ofList s) rest := by
  induction s generalizing pending with
  | nil => simp
  | cons c s ih =>
      have hc : isWordly colons c = true := hs c (by simp)
      simp only [isWordly, Bool.and_eq_true, Bool.not_eq_true', bne_iff_ne, ne_eq] at hc
      obtain ⟨⟨hblank, hquote⟩, hcolon⟩ := hc
      have hmark : ¬(c = '/' ∧ (s ++ rest).head? = some '/') := by
        rintro ⟨rfl, hhead⟩
        cases s with
        | nil => exact hrest (by simpa using hhead)
        | cons d s =>
            obtain rfl : d = '/' := by simpa using hhead
            simp [hasComment_cons_cons] at hno
      have hcolon' : ¬(c = ':' ∧ colons = true) := by
        rintro ⟨rfl, rfl⟩
        simp at hcolon
      have hpush : pending ++ String.ofList (c :: s) = pending.push c ++ String.ofList s := by
        rw [← String.toList_inj]
        simp
      rw [List.cons_append, readWords, if_neg hmark, if_neg hquote, if_neg hcolon',
        if_neg (by simp [hblank]), ih _ (fun d hd => hs d (List.mem_cons_of_mem c hd))
          (hasComment_tail hno), hpush]

/-- The characters of a quoted text are collected up to the quote. -/
theorem readQuoted_append {s : List Char} (colons : Bool) (pending : String)
    (hs : '"' ∉ s) (rest : List Char) :
    readQuoted colons pending (s ++ '"' :: rest) =
      .quoted (pending ++ String.ofList s) :: readWords colons "" rest := by
  induction s generalizing pending with
  | nil => simp [readQuoted]
  | cons c s ih =>
      have hc : c ≠ '"' := fun hc => hs (by simp [hc])
      have hpush : pending ++ String.ofList (c :: s) = pending.push c ++ String.ofList s := by
        rw [← String.toList_inj]
        simp
      rw [List.cons_append, readQuoted, if_neg hc,
        ih _ (fun hmem => hs (List.mem_cons_of_mem c hmem)), hpush]

/-- A written token is read back in front of white space. -/
theorem readWords_render {colons : Bool} {t : Token} (ht : t.IsWritable colons)
    {rest : List Char} (hrest : StartsBlank rest) :
    readWords colons "" (t.render ++ rest) = t :: readWords colons "" rest := by
  cases t with
  | word s =>
      have hs : IsWord colons s.toList := ht
      have hne : s ≠ "" := by
        rintro rfl
        exact hs.nonempty rfl
      rw [render, readWords_wordly "" hs.wordly hs.no_comment hrest.head_ne_slash,
        String.empty_append, String.ofList_toList, readWords_startsBlank colons s hrest,
        ofPending, if_neg hne]
      rfl
  | quoted s =>
      have hs : '"' ∉ s.toList := ht
      have hopen : render (.quoted s) ++ rest = '"' :: (s.toList ++ '"' :: rest) := by
        simp [render]
      rw [hopen, readWords, if_neg (by simp), if_pos rfl, readQuoted_append colons "" hs]
      simp [ofPending]
  | colon =>
      have hcolons : colons = true := ht
      have hopen : render .colon ++ rest = ':' :: rest := rfl
      rw [hopen, readWords, if_neg (by simp), if_neg (by decide), if_pos ⟨rfl, hcolons⟩]
      rfl

/-! ## A line of tokens -/

/-- Tokens that follow others: each has a blank in front of it. -/
def renderTail (ts : List Token) : List Char :=
  ts.flatMap fun t => ' ' :: t.render

@[simp]
theorem renderTail_nil : renderTail [] = [] :=
  rfl

@[simp]
theorem renderTail_cons (t : Token) (ts : List Token) :
    renderTail (t :: ts) = ' ' :: t.render ++ renderTail ts :=
  List.flatMap_cons

@[simp]
theorem renderTail_append (ts us : List Token) :
    renderTail (ts ++ us) = renderTail ts ++ renderTail us :=
  List.flatMap_append

/-- Tokens that follow others begin with a blank. -/
theorem startsBlank_renderTail (ts : List Token) {rest : List Char} (h : StartsBlank rest) :
    StartsBlank (renderTail ts ++ rest) := by
  cases ts with
  | nil => exact h
  | cons t ts => exact startsBlank_cons (by decide) _

@[simp]
theorem renderLine_nil : renderLine [] = [] :=
  rfl

@[simp]
theorem renderLine_singleton (t : Token) : renderLine [t] = t.render := by
  simp [renderLine]

/-- After its first token a line is blanks and tokens. -/
theorem renderLine_cons (t : Token) (ts : List Token) :
    renderLine (t :: ts) = t.render ++ renderTail ts := by
  induction ts generalizing t with
  | nil => simp
  | cons u ts ih =>
      have hcons : renderLine (t :: u :: ts) = t.render ++ ' ' :: renderLine (u :: ts) := by
        simp [renderLine, List.intercalate_cons_cons]
      rw [hcons, ih u]
      simp

/-- Tokens behind a blank are the tail of a line. -/
theorem cons_renderLine {ts : List Token} (h : ts ≠ []) : ' ' :: renderLine ts = renderTail ts := by
  obtain ⟨t, ts, rfl⟩ := List.exists_cons_of_ne_nil h
  rw [renderLine_cons, renderTail_cons, List.cons_append]

/-- A character of a line is a blank or belongs to a token. -/
theorem mem_renderLine {c : Char} {ts : List Token} (h : c ∈ renderLine ts) :
    c = ' ' ∨ ∃ t ∈ ts, c ∈ t.render := by
  cases ts with
  | nil => simp at h
  | cons t ts =>
      rw [renderLine_cons, renderTail, List.mem_append, List.mem_flatMap] at h
      rcases h with h | ⟨u, hu, h⟩
      · exact Or.inr ⟨t, by simp, h⟩
      · rcases List.mem_cons.mp h with rfl | h
        · exact Or.inl rfl
        · exact Or.inr ⟨u, List.mem_cons_of_mem t hu, h⟩

/-- Tokens that follow others are read back in front of white space. -/
theorem readWords_renderTail {colons : Bool} {ts : List Token}
    (hts : ∀ t ∈ ts, t.IsWritable colons) {rest : List Char} (hrest : StartsBlank rest) :
    readWords colons "" (renderTail ts ++ rest) = ts ++ readWords colons "" rest := by
  induction ts with
  | nil => rfl
  | cons t ts ih =>
      have ht : t.IsWritable colons := hts t (by simp)
      have hmore : ∀ u ∈ ts, u.IsWritable colons := fun u hu => hts u (by simp [hu])
      rw [renderTail_cons, List.cons_append, List.cons_append, List.append_assoc,
        readWords_blank colons "" (by decide),
        readWords_render ht (startsBlank_renderTail ts hrest), ih hmore]
      rfl

/-- A written line of tokens is read back in front of white space. -/
theorem readWords_renderLine {colons : Bool} {ts : List Token}
    (hts : ∀ t ∈ ts, t.IsWritable colons) {rest : List Char} (hrest : StartsBlank rest) :
    readWords colons "" (renderLine ts ++ rest) = ts ++ readWords colons "" rest := by
  cases ts with
  | nil => rfl
  | cons t ts =>
      have ht : t.IsWritable colons := hts t (by simp)
      have hmore : ∀ u ∈ ts, u.IsWritable colons := fun u hu => hts u (by simp [hu])
      rw [renderLine_cons, List.append_assoc,
        readWords_render ht (startsBlank_renderTail ts hrest), readWords_renderTail hmore hrest]
      rfl

/-! ## The tokens of any line -/

/-- Characters collected for a word in front of the rest of a line: they may stand in
a word, and no comment mark begins among them. -/
structure IsPending (colons : Bool) (pending : String) (rest : List Char) : Prop where
  wordly : ∀ c ∈ pending.toList, isWordly colons c = true
  no_comment : hasComment pending.toList = false
  apart : pending.toList.getLast? = some '/' → rest.head? ≠ some '/'

/-- At first nothing is collected. -/
theorem isPending_empty (colons : Bool) (rest : List Char) : IsPending colons "" rest :=
  ⟨by simp, rfl, by simp⟩

/-- One more character is collected, unless it begins a comment. -/
theorem IsPending.push {colons : Bool} {pending : String} {c : Char} {rest : List Char}
    (h : IsPending colons pending (c :: rest)) (hc : isWordly colons c = true)
    (hmark : ¬(c = '/' ∧ rest.head? = some '/')) : IsPending colons (pending.push c) rest where
  wordly := by
    intro d hd
    rw [String.toList_push, List.mem_append, List.mem_singleton] at hd
    rcases hd with hd | rfl
    · exact h.wordly d hd
    · exact hc
  no_comment := by
    have hjoined : ¬(pending.toList.getLast? = some '/' ∧ c = '/') := fun hslash =>
      h.apart hslash.1 (by rw [hslash.2, List.head?_cons])
    rw [String.toList_push, hasComment_concat, h.no_comment]
    simpa using hjoined
  apart := by
    intro hlast hhead
    rw [String.toList_push, List.getLast?_concat, Option.some.injEq] at hlast
    exact hmark ⟨hlast, hhead⟩

/-- Where a word ends, what was collected for it can be written. -/
theorem IsPending.isWritable {colons : Bool} {pending : String} {rest : List Char}
    (h : IsPending colons pending rest) {t : Token} (ht : t ∈ ofPending pending) :
    t.IsWritable colons := by
  unfold ofPending at ht
  split at ht
  · cases ht
  · rename_i hne
    obtain rfl := List.mem_singleton.mp ht
    exact ⟨by simpa using hne, h.wordly, h.no_comment⟩

/-- The tokens of the rest of a line can be written, inside and outside quotes. -/
theorem isWritable_of_mem_read {colons : Bool} (line : List Char) (pending : String) :
    (IsPending colons pending line →
        ∀ t ∈ readWords colons pending line, t.IsWritable colons) ∧
      ('"' ∉ pending.toList → ∀ t ∈ readQuoted colons pending line, t.IsWritable colons) := by
  induction line generalizing pending with
  | nil =>
      refine ⟨fun h t ht => h.isWritable ht, fun h t ht => ?_⟩
      obtain rfl := List.mem_singleton.mp ht
      exact h
  | cons c rest ih =>
      have hwords : ∀ t ∈ readWords colons "" rest, t.IsWritable colons :=
        (ih "").1 (isPending_empty colons rest)
      have hquoted : ∀ t ∈ readQuoted colons "" rest, t.IsWritable colons := (ih "").2 (by simp)
      constructor
      · intro h t ht
        rw [readWords] at ht
        split_ifs at ht with hmark hquote hcolon hblank
        · exact h.isWritable ht
        · exact (List.mem_append.mp ht).elim h.isWritable (hquoted t)
        · rcases List.mem_append.mp ht with ht | ht
          · exact h.isWritable ht
          · rcases List.mem_cons.mp ht with rfl | ht
            · exact hcolon.2
            · exact hwords t ht
        · exact (List.mem_append.mp ht).elim h.isWritable (hwords t)
        · have hc : isWordly colons c = true := by
            have hcolon' : colons = false ∨ c ≠ ':' := by
              cases colons with
              | false => exact Or.inl rfl
              | true => exact Or.inr fun hc => hcolon ⟨hc, rfl⟩
            simpa [isWordly, hblank, hquote] using hcolon'
          exact (ih (pending.push c)).1 (h.push hc hmark) t ht
      · intro h t ht
        rw [readQuoted] at ht
        split_ifs at ht with hquote
        · rcases List.mem_cons.mp ht with rfl | ht
          · exact h
          · exact hwords t ht
        · refine (ih (pending.push c)).2 ?_ t ht
          rw [String.toList_push, List.mem_append, List.mem_singleton]
          rintro (hmem | hmem)
          · exact h hmem
          · exact hquote hmem.symm

/-- The tokens of a line can be written. -/
theorem isWritable_of_mem_ofLine {line : List Char} {colons : Bool} {t : Token}
    (ht : t ∈ ofLine line colons) : t.IsWritable colons :=
  (isWritable_of_mem_read line "").1 (isPending_empty colons line) t ht

/-- A line of written tokens has these tokens. -/
theorem ofLine_renderLine {colons : Bool} {ts : List Token} (h : ∀ t ∈ ts, t.IsWritable colons) :
    ofLine (renderLine ts) colons = ts := by
  have hread := readWords_renderLine h startsBlank_nil
  rw [List.append_nil] at hread
  rw [ofLine, hread]
  simp [readWords, ofPending]

/-- A word of a line is a text without white space, quotes and comment marks, and without
colons where these count; a quoted text has no quotes.  A line rebuilt from the tokens, with
one blank between them, has the same tokens. -/
theorem ofLine_rebuilt (line : List Char) (colons : Bool) :
    (∀ s, .word s ∈ ofLine line colons →
      s ≠ "" ∧ (∀ c ∈ s.toList, isBlank c = false ∧ c ≠ '"' ∧ (colons = true → c ≠ ':')) ∧
        ¬['/', '/'] <:+: s.toList) ∧
    (∀ s, .quoted s ∈ ofLine line colons → '"' ∉ s.toList) ∧
    (.colon ∈ ofLine line colons → colons = true) ∧
    ofLine (renderLine (ofLine line colons)) colons = ofLine line colons := by
  refine ⟨fun s hs => ?_, fun s hs => isWritable_of_mem_ofLine hs,
    fun h => isWritable_of_mem_ofLine h, ofLine_renderLine fun t ht => isWritable_of_mem_ofLine ht⟩
  have hword : IsWord colons s.toList := isWritable_of_mem_ofLine hs
  refine ⟨by simpa using hword.nonempty, fun c hc => ?_, fun hmark => ?_⟩
  · have hwordly := hword.wordly c hc
    simp only [isWordly, Bool.and_eq_true, Bool.not_eq_true', bne_iff_ne, ne_eq,
      Bool.and_eq_false_iff, beq_eq_false_iff_ne] at hwordly
    refine ⟨hwordly.1.1, hwordly.1.2, fun hcolons => ?_⟩
    exact hwordly.2.resolve_left (by simp [hcolons])
  · exact Bool.false_ne_true (hword.no_comment.symm.trans (hasComment_iff.mpr hmark))

end Token
end Source
end ShaderAssets
