import ShaderAssets.Source.Reader
import ShaderAssets.Proofs.Source.WellFormed
import ShaderAssets.Proofs.Text.Parts

/-!
# Reading raw sections

A raw section is read character by character with a count of open braces.  A text
that its braces enclose is kept as it stands, comments included, and the brace
after it ends the section.

Main results:

- Theorem {lit}`bracesAfter?_of_opened_first`: a text that closes only what it opened
  has a count of open braces after it.
- Theorem {lit}`feedText_inside_line`: what one line of a section does.
- Theorem {lit}`feedText_section`: an enclosed text and its closing brace put the text
  into the pass.
-/

namespace ShaderAssets
namespace Source

open Text

/-! ## Open braces -/

/-- The number of open braces after a character, unless it closes none that is
open. -/
def braceStep? (d : Nat) (c : Char) : Option Nat :=
  if c = '{' then some (d + 1)
  else if c = '}' then if d = 0 then none else some (d - 1)
  else some d

/-- A character opens a brace, closes one or is none. -/
theorem braceStep?_eq_some {d e : Nat} {c : Char} (h : braceStep? d c = some e) :
    (c = '{' ∧ e = d + 1) ∨ (c = '}' ∧ d = e + 1) ∨ (c ≠ '{' ∧ c ≠ '}' ∧ e = d) := by
  unfold braceStep? at h
  split at h
  · rename_i hopen
    exact Or.inl ⟨hopen, (Option.some.inj h).symm⟩
  · rename_i hopen
    split at h
    · rename_i hclose
      split at h
      · cases h
      · have he : d - 1 = e := Option.some.inj h
        exact Or.inr (Or.inl ⟨hclose, by omega⟩)
    · rename_i hclose
      exact Or.inr (Or.inr ⟨hopen, hclose, (Option.some.inj h).symm⟩)

/-- The number of open braces after a text, unless it closes a brace that is not
open. -/
def bracesAfter? (d : Nat) (s : List Char) : Option Nat :=
  s.foldlM braceStep? d

@[simp]
theorem bracesAfter?_nil (d : Nat) : bracesAfter? d [] = some d :=
  rfl

@[simp]
theorem bracesAfter?_cons (d : Nat) (c : Char) (s : List Char) :
    bracesAfter? d (c :: s) = (braceStep? d c).bind fun e => bracesAfter? e s :=
  List.foldlM_cons

/-- The open braces after two texts are counted one after the other. -/
theorem bracesAfter?_append (d : Nat) (s t : List Char) :
    bracesAfter? d (s ++ t) = (bracesAfter? d s).bind fun e => bracesAfter? e t :=
  List.foldlM_append

/-- A text without braces leaves the count as it is. -/
theorem bracesAfter?_of_not_isBrace {s : List Char} (h : ∀ c ∈ s, isBrace c = false)
    (d : Nat) : bracesAfter? d s = some d := by
  induction s with
  | nil => rfl
  | cons c s ih =>
      have hc : isBrace c = false := h c (by simp)
      simp only [isBrace, Bool.or_eq_false_iff, beq_eq_false_iff_ne] at hc
      rw [bracesAfter?_cons, braceStep?, if_neg hc.1, if_neg hc.2, Option.bind_some]
      exact ih fun d hd => h d (List.mem_cons_of_mem c hd)

/-- A text that closes only open braces has a count after it. -/
theorem bracesAfter?_of_opened_first {s : List Char} {d : Nat}
    (h : ∀ n ≤ s.length, (s.take n).count '}' ≤ d + (s.take n).count '{') :
    bracesAfter? d s = some (d + s.count '{' - s.count '}') := by
  induction s generalizing d with
  | nil => rfl
  | cons c s ih =>
      have hmore : ∀ n ≤ s.length, (c :: s.take n).count '}' ≤ d + (c :: s.take n).count '{' := by
        intro n hn
        exact h (n + 1) (by simpa using hn)
      rw [bracesAfter?_cons]
      by_cases hopen : c = '{'
      · subst hopen
        have hstep : braceStep? d '{' = some (d + 1) := rfl
        rw [hstep, Option.bind_some, ih]
        · simp only [List.count_cons_self, List.count_cons_of_ne (by decide : '{' ≠ '}')]
          congr 1
          omega
        · intro n hn
          have hn' := hmore n hn
          simp only [List.count_cons_self, List.count_cons_of_ne (by decide : '{' ≠ '}')] at hn'
          omega
      · by_cases hclose : c = '}'
        · subst hclose
          have hfirst := hmore 0 (Nat.zero_le _)
          simp only [List.take_zero, List.count_cons_self, List.count_nil,
            List.count_cons_of_ne hopen] at hfirst
          have hstep : braceStep? d '}' = some (d - 1) := by
            rw [braceStep?, if_neg hopen, if_pos rfl, if_neg (by omega)]
          rw [hstep, Option.bind_some, ih]
          · simp only [List.count_cons_self, List.count_cons_of_ne hopen]
            congr 1
            omega
          · intro n hn
            have hn' := hmore n hn
            simp only [List.count_cons_self, List.count_cons_of_ne hopen] at hn'
            omega
        · have hstep : braceStep? d c = some d := by
            rw [braceStep?, if_neg hopen, if_neg hclose]
          rw [hstep, Option.bind_some, ih]
          · simp only [List.count_cons_of_ne hopen, List.count_cons_of_ne hclose]
          · intro n hn
            have hn' := hmore n hn
            simpa only [List.count_cons_of_ne hopen, List.count_cons_of_ne hclose] using hn'

/-- An enclosed text leaves no brace open. -/
theorem IsEnclosed.bracesAfter?_codeOf {text : List Char} (h : IsEnclosed text) :
    bracesAfter? 0 (codeOf text) = some 0 := by
  rw [bracesAfter?_of_opened_first (by simpa using h.opened_first), h.all_closed]
  simp

/-- The code of a text is part of it. -/
theorem mem_of_mem_codeOf {text : List Char} {c : Char} (h : c ∈ codeOf text) : c ∈ text := by
  obtain ⟨line, hline, hc⟩ := List.mem_flatMap.mp h
  exact mem_of_mem_splitOnP hline (mem_of_mem_beforeMark hc)

/-- A text without braces is enclosed unless its last line has a comment. -/
theorem IsEnclosed.of_not_isBrace {text : List Char} (h : ∀ c ∈ text, isBrace c = false)
    (hlast : hasComment ((text.splitOn '\n').getLastD []) = false) : IsEnclosed text where
  opened_first n _ := by
    have hclose : '}' ∉ (codeOf text).take n := fun hmem =>
      absurd (h '}' (mem_of_mem_codeOf (List.mem_of_mem_take hmem))) (by decide)
    rw [List.count_eq_zero_of_not_mem hclose]
    exact Nat.zero_le _
  all_closed := by
    have hopen : '{' ∉ codeOf text := fun hmem =>
      absurd (h '{' (mem_of_mem_codeOf hmem)) (by decide)
    have hclose : '}' ∉ codeOf text := fun hmem =>
      absurd (h '}' (mem_of_mem_codeOf hmem)) (by decide)
    rw [List.count_eq_zero_of_not_mem hopen, List.count_eq_zero_of_not_mem hclose]
  comment_ended := hlast

namespace Reader

/-! ## Collected characters -/

/-- The last character fed is remembered. -/
theorem last_feedText_concat (r : Reader) (t : List Char) (c : Char) :
    (r.feedText (t ++ [c])).last = some c := by
  rw [feedText_append]
  rfl

/-- A character and a text after it are collected like both together. -/
theorem push_append_ofList (text : String) (c : Char) (t : List Char) :
    text.push c ++ String.ofList t = text ++ String.ofList (c :: t) := by
  rw [← String.toList_inj]
  simp

/-- Characters that are collected one by one are collected together. -/
theorem feedText_collect (collecting : String → Option Char → Reader) {t : List Char}
    (h : ∀ c ∈ t, ∀ text last,
      (collecting text last).feed c = collecting (text.push c) (some c))
    (text : String) (last : Option Char) :
    ∃ last', (collecting text last).feedText t =
      collecting (text ++ String.ofList t) last' := by
  induction t generalizing text last with
  | nil => exact ⟨last, by simp [feedText]⟩
  | cons c t ih =>
      have hstep := h c (by simp) text last
      obtain ⟨last', hmore⟩ := ih (fun d hd => h d (List.mem_cons_of_mem c hd))
        (text.push c) (some c)
      refine ⟨last', ?_⟩
      rw [← push_append_ofList, ← hmore, ← hstep]
      rfl

/-- Characters that are collected unless they complete a comment mark are collected
together if the text has no comment.  A count of open braces may go along. -/
theorem feedText_collect_code (collecting : Nat → String → Option Char → Reader)
    {t : List Char}
    (h : ∀ c ∈ t, ∀ d e text last, braceStep? d c = some e → ¬(c = '/' ∧ last = some '/') →
      (collecting d text last).feed c = collecting e (text.push c) (some c))
    {d e : Nat} (hno : hasComment t = false) (hbraces : bracesAfter? d t = some e)
    (text : String) {last : Option Char} (hlast : t.head? = some '/' → last ≠ some '/') :
    ∃ last', (collecting d text last).feedText t =
      collecting e (text ++ String.ofList t) last' := by
  induction t generalizing d text last with
  | nil =>
      obtain rfl : d = e := by simpa using hbraces
      exact ⟨last, by simp [feedText]⟩
  | cons c t ih =>
      rw [bracesAfter?_cons, Option.bind_eq_some_iff] at hbraces
      obtain ⟨d', hstep, hmore⟩ := hbraces
      have hmark : ¬(c = '/' ∧ last = some '/') := by
        rintro ⟨rfl, hl⟩
        exact hlast rfl hl
      have hnext : t.head? = some '/' → some c ≠ some '/' := by
        intro hhead hc
        rw [hasComment_cons, hhead, Option.some.inj hc] at hno
        simp at hno
      have hfirst := h c (by simp) d d' text last hstep hmark
      obtain ⟨last', hrest⟩ := ih (fun a ha => h a (List.mem_cons_of_mem c ha))
        (hasComment_tail hno) hmore (text.push c) hnext
      refine ⟨last', ?_⟩
      rw [← push_append_ofList, ← hrest, ← hfirst]
      rfl

/-! ## Characters of a section -/

/-- A reader inside a raw section, with the text that the section holds so far. -/
def inside (s : Reader) (sec : Section) (depth : Nat) (comment : Bool) (text : String)
    (last : Option Char) : Reader :=
  { s with mode := .inSection sec depth comment, buffer := text, last := last }

variable (s : Reader) (sec : Section)

/-- A comment ends with its line. -/
theorem feed_inside_comment (depth : Nat) (text : String) (last : Option Char) (c : Char) :
    (s.inside sec depth true text last).feed c =
      s.inside sec depth (c != '\n') (text.push c) (some c) := by
  simp [inside, feed, step, feedSection]

/-- Two slashes start a comment. -/
theorem feed_inside_mark (depth : Nat) (text : String) :
    (s.inside sec depth false text (some '/')).feed '/' =
      s.inside sec depth true (text.push '/') (some '/') := by
  simp [inside, feed, step, feedSection]

/-- A character that starts no comment and ends no section moves the count of open
braces. -/
theorem feed_inside_code {d e : Nat} {c : Char} {last : Option Char} (text : String)
    (hstep : braceStep? d c = some e) (hmark : ¬(c = '/' ∧ last = some '/')) :
    (s.inside sec (d + 1) false text last).feed c =
      s.inside sec (e + 1) false (text.push c) (some c) := by
  rcases braceStep?_eq_some hstep with ⟨rfl, rfl⟩ | ⟨rfl, rfl⟩ | ⟨hopen, hclose, rfl⟩
  · simp [inside, feed, step, feedSection]
  · simp [inside, feed, step, feedSection]
  · simp [inside, feed, step, feedSection, hopen, hclose, hmark]

/-- The brace that closes a section puts its text into the pass. -/
theorem feed_inside_end (text : String) (last : Option Char) :
    (s.inside sec 1 false text last).feed '}' =
      { s with mode := .topLevel, pass := s.pass.set text sec, buffer := "",
               last := some '}' } := by
  simp [inside, feed, step, feedSection]

/-! ## Lines of a section -/

/-- A comment is kept up to the end of its line. -/
theorem feedText_inside_comment (depth : Nat) (text : String) (last : Option Char)
    {t : List Char} (h : '\n' ∉ t) :
    ∃ last', (s.inside sec depth true text last).feedText t =
      s.inside sec depth true (text ++ String.ofList t) last' := by
  refine feedText_collect _ (fun c hc text last => ?_) text last
  have hbreak : (c != '\n') = true := by
    simp only [bne_iff_ne, ne_eq]
    rintro rfl
    exact h hc
  rw [feed_inside_comment, hbreak]

/-- Code without comments moves the count of open braces. -/
theorem feedText_inside_code {d e : Nat} (text : String) {last : Option Char}
    {t : List Char} (hno : hasComment t = false) (hbraces : bracesAfter? d t = some e)
    (hlast : t.head? = some '/' → last ≠ some '/') :
    ∃ last', (s.inside sec (d + 1) false text last).feedText t =
      s.inside sec (e + 1) false (text ++ String.ofList t) last' := by
  exact feedText_collect_code
    (fun d text last => s.inside sec (d + 1) false text last)
    (fun c _ d e text last hstep hmark => feed_inside_code s sec text hstep hmark)
    hno hbraces text hlast

/-- What a line of a section does: the braces of its code are counted, and a comment
in it is still running at its end. -/
theorem feedText_inside_line {d e : Nat} (text : String) {last : Option Char}
    {line : List Char} (hline : '\n' ∉ line)
    (hbraces : bracesAfter? d (beforeMark ['/', '/'] line) = some e)
    (hlast : last ≠ some '/') :
    ∃ last', (s.inside sec (d + 1) false text last).feedText line =
      s.inside sec (e + 1) (hasComment line) (text ++ String.ofList line) last' := by
  cases hcomment : hasComment line with
  | false =>
      rw [beforeMark_of_not_hasComment hcomment] at hbraces
      exact feedText_inside_code s sec text hcomment hbraces fun _ => hlast
  | true =>
      obtain ⟨rest, heq, hno⟩ := beforeMark_spec hcomment
      generalize beforeMark ['/', '/'] line = front at hbraces heq hno
      subst heq
      have hfront : bracesAfter? d (front ++ ['/']) = some e := by
        rw [bracesAfter?_append, hbraces]
        rfl
      obtain ⟨last₁, hfeed₁⟩ := feedText_inside_code s sec text hno hfront fun _ => hlast
      obtain rfl : last₁ = some '/' := by
        have hslash := congrArg Reader.last hfeed₁
        rw [last_feedText_concat] at hslash
        exact hslash.symm
      have hrest : '\n' ∉ rest := by
        intro hmem
        apply hline
        simp [hmem]
      obtain ⟨last', hfeed'⟩ := feedText_inside_comment s sec (e + 1)
        ((text ++ String.ofList (front ++ ['/'])).push '/') (some '/') hrest
      have hsplit : front ++ '/' :: '/' :: rest = (front ++ ['/']) ++ '/' :: rest := by
        simp
      have htext : text ++ String.ofList (front ++ '/' :: '/' :: rest) =
          (text ++ String.ofList (front ++ ['/'])).push '/' ++ String.ofList rest := by
        rw [← String.toList_inj]
        simp
      refine ⟨last', ?_⟩
      rw [htext, ← hfeed', ← feed_inside_mark, ← hfeed₁, hsplit, feedText_append]
      rfl

/-- What the lines of a section do. -/
theorem feedText_inside_lines {d e : Nat} (text : String) (last : Option Char)
    {lines : List (List Char)} (hne : lines ≠ []) (hlines : ∀ line ∈ lines, '\n' ∉ line)
    (hbraces : bracesAfter? d (lines.flatMap (beforeMark ['/', '/'])) = some e)
    (hlast : last ≠ some '/') :
    ∃ last', (s.inside sec (d + 1) false text last).feedText (['\n'].intercalate lines) =
      s.inside sec (e + 1) (hasComment (lines.getLastD []))
        (text ++ String.ofList (['\n'].intercalate lines)) last' := by
  induction lines generalizing d text last with
  | nil => exact absurd rfl hne
  | cons line lines ih =>
      rw [List.flatMap_cons, bracesAfter?_append, Option.bind_eq_some_iff] at hbraces
      obtain ⟨d', hfirst, hmore⟩ := hbraces
      obtain ⟨last₁, hfeed₁⟩ := feedText_inside_line s sec text (hlines line (by simp)) hfirst hlast
      by_cases hnil : lines = []
      · subst hnil
        obtain rfl : d' = e := by simpa using hmore
        exact ⟨last₁, by simpa using hfeed₁⟩
      · have hbreak : (s.inside sec (d' + 1) (hasComment line) (text ++ String.ofList line)
            last₁).feed '\n' =
              s.inside sec (d' + 1) false ((text ++ String.ofList line).push '\n')
                (some '\n') := by
          cases hasComment line with
          | true => exact feed_inside_comment s sec _ _ _ _
          | false => exact feed_inside_code s sec _ (by rfl) (by simp)
        obtain ⟨last', hfeed'⟩ := ih ((text ++ String.ofList line).push '\n') (some '\n')
          hnil (fun l hl => hlines l (List.mem_cons_of_mem line hl)) hmore (by decide)
        obtain ⟨next, more, rfl⟩ := List.exists_cons_of_ne_nil hnil
        have hsplit : ['\n'].intercalate (line :: next :: more) =
            line ++ '\n' :: ['\n'].intercalate (next :: more) := by
          simp [List.intercalate_cons_cons]
        have htext : text ++ String.ofList (['\n'].intercalate (line :: next :: more)) =
            (text ++ String.ofList line).push '\n' ++
              String.ofList (['\n'].intercalate (next :: more)) := by
          rw [hsplit, ← String.toList_inj]
          simp
        refine ⟨last', ?_⟩
        rw [htext, List.getLastD_cons, List.getLastD_cons, ← List.getLastD_cons (a := []),
          ← hfeed', hsplit, feedText_append, hfeed₁, ← hbreak]
        rfl

/-- An enclosed text and its closing brace put the text into the pass. -/
theorem feedText_section {text : String} (h : IsEnclosed text.toList) (last : Option Char)
    (hlast : last ≠ some '/') :
    (s.inside sec 1 false "" last).feedText (text.toList ++ ['}']) =
      { s with mode := .topLevel, pass := s.pass.set text sec, buffer := "",
               last := some '}' } := by
  obtain ⟨last', hfeed⟩ := feedText_inside_lines s sec "" last
    (List.splitOn_ne_nil '\n' text.toList)
    (fun line hline => not_mem_of_mem_splitOn hline) h.bracesAfter?_codeOf hlast
  rw [List.intercalate_splitOn, h.comment_ended, String.empty_append,
    String.ofList_toList] at hfeed
  rw [feedText_append, hfeed]
  exact feed_inside_end s sec text last'

end Reader
end Source
end ShaderAssets
