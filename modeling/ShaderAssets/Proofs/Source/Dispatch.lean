import Mathlib.Data.Nat.PSub
import ShaderAssets.Proofs.Source.FileBlocks

/-!
# The modes of the reader

Between two characters the mode of the reader, the pass depth, the depth of an open
section and the letters of an unfinished word fit together, whatever was read.

A mode has a handler.  It uses a character up, or hands it on: the character that ends
a keyword goes to the handler of the mode that the keyword starts, and what stands
between a keyword and its brace, but should not, goes back to the top level.  Here the
handlers are written one by one, and closing a brace that was never opened is a way to
fail.  No handler fails, and what they do together is the step of the reader.

Main results:

- Structure {lit}`Reader.Regular`: what holds of the reader between two characters.
- Relation {lit}`Reader.Handled`: the handlers that see a character, and what comes of it.
- Theorem {lit}`Reader.Regular.handled`: a character is handled by one step, which enters
  the top level again at most once.
- Theorem {lit}`Reader.Regular.feed`: one character keeps the reader regular.
- Theorem {lit}`Reader.regular_handled`: all this holds after every text.
-/

namespace ShaderAssets
namespace Source
namespace Reader

/-! ## The invariant -/

/-- The pass depth, and the depth of the section, that a mode demands. -/
def Placed (r : Reader) : Prop :=
  match r.mode with
  | .topLevel | .comment => True
  | .nameLine | .modeLine | .paramsOpen | .params _ => r.depth = 0
  | .sectionOpen _ => r.depth = 1
  | .inSection _ depth _ => r.depth = 1 ∧ 1 ≤ depth

/-- What holds of the reader between two characters. -/
structure Regular (r : Reader) : Prop where
  placed : r.Placed
  /-- Only at top level a word may go on. -/
  word_mode : r.word ≠ "" → r.mode = .topLevel
  word_chars : ∀ c ∈ r.word.toList, isWordChar c = true

variable {r : Reader} {c : Char}

/-- Without a word the depths are all that counts. -/
theorem Regular.of_placed (hplaced : r.Placed) (hword : r.word = "") : r.Regular where
  placed := hplaced
  word_mode h := absurd hword h
  word_chars := by simp [hword]

/-- Outside the top level there is no word. -/
theorem Regular.word_eq (h : r.Regular) (hmode : r.mode ≠ .topLevel) : r.word = "" := by
  by_contra hword
  exact hmode (h.word_mode hword)

/-- The character fed last does not count. -/
theorem Regular.setLast (h : r.Regular) (last : Option Char) : { r with last := last }.Regular :=
  ⟨h.placed, h.word_mode, h.word_chars⟩

/-- The reader is regular at the start of a file. -/
theorem regular_initial : initial.Regular :=
  .of_placed trivial rfl

/-- The words that start a mode, with the depth at which they do. -/
theorem keywordMode?_eq_some {depth : Nat} {word : String} {mode : ReadMode}
    (h : keywordMode? depth word = some mode) :
    depth = 0 ∧ (word = "name" ∧ mode = .nameLine ∨ word = "render_mode" ∧ mode = .modeLine ∨
      word = "params" ∧ mode = .paramsOpen) ∨
    depth = 1 ∧ ∃ sec : Section, word = sec.keyword ∧ mode = .sectionOpen sec := by
  unfold keywordMode? at h
  split at h
  · refine Or.inl ⟨rfl, ?_⟩
    split at h
    · exact Or.inl ⟨‹_›, (Option.some.inj h).symm⟩
    split at h
    · exact Or.inr (Or.inl ⟨‹_›, (Option.some.inj h).symm⟩)
    split at h
    · exact Or.inr (Or.inr ⟨‹_›, (Option.some.inj h).symm⟩)
    · cases h
  · obtain ⟨sec, hsec, rfl⟩ := Option.map_eq_some_iff.mp h
    refine Or.inr ⟨rfl, sec, ?_, rfl⟩
    unfold Section.ofKeyword? at hsec
    split at hsec
    all_goals cases hsec
    all_goals rfl
  · cases h

/-! ## Handlers -/

/-- What a handler does with a character. -/
inductive Reaction where
  /-- The character is used up. -/
  | done (r : Reader)
  /-- The character is handed on to the handler of the reader's mode. -/
  | again (r : Reader)
  /-- A count of open braces would fall below zero. -/
  | underflow

/-- A character at top level that no word is waiting for. -/
def reactPlain (r : Reader) (c : Char) : Reaction :=
  if c = '}' ∧ 0 < r.depth then
    match r.depth.ppred with
    | none => .underflow
    | some 0 => .done { r with mode := .topLevel, depth := 0 }.storePass
    | some (d + 1) => .done { r with mode := .topLevel, depth := d + 1 }
  else .done (r.feedPlain c)

/-- A character at top level. -/
def reactTop (r : Reader) (c : Char) : Reaction :=
  if isWordChar c then .done { r with word := r.word.push c }
  else
    let r' := { r with word := "" }
    match keywordMode? r.depth r.word with
    | some .nameLine => .again { r' with mode := .nameLine, buffer := "" }
    | some .modeLine => .again { r' with mode := .modeLine, buffer := "" }
    | some mode => .again { r' with mode := mode }
    | none => r'.reactPlain c

/-- A character between a keyword and the brace that opens its block. -/
def reactOpen (r : Reader) (inside : Reader) (c : Char) : Reaction :=
  if c = '{' then .done inside
  else if Text.isBlank c then .done r
  else .again { r with mode := .topLevel }

/-- A character of a raw section. -/
def reactSection (r : Reader) (sec : Section) (depth : Nat) (comment : Bool) (c : Char) :
    Reaction :=
  if comment = false ∧ c = '}' then
    match depth.ppred with
    | none => .underflow
    | some 0 => .done { r with mode := .topLevel, pass := r.pass.set r.buffer sec, buffer := "" }
    | some (d + 1) =>
        .done { r with mode := .inSection sec (d + 1) false, buffer := r.buffer.push c }
  else .done (r.feedSection sec depth comment c)

/-- What the handler of the reader's mode does with a character. -/
def react (r : Reader) (c : Char) : Reaction :=
  match r.mode with
  | .topLevel => r.reactTop c
  | .nameLine => .done (r.feedName c)
  | .modeLine => .done (r.feedMode c)
  | .paramsOpen => r.reactOpen { r with mode := .params .plain } c
  | .params place => .done (r.feedParams place c)
  | .sectionOpen sec => r.reactOpen { r with mode := .inSection sec 1 false, buffer := "" } c
  | .inSection sec depth comment => r.reactSection sec depth comment c
  | .comment => .done { r with mode := if c = '\n' then .topLevel else .comment }

/-- The readers whose handlers see a character, one after the other, and the reader once
it is used up. -/
inductive Handled (c : Char) : Reader → List Reader → Reader → Prop where
  | done {r r' : Reader} (h : r.react c = .done r') : Handled c r [r] r'
  | again {r r₁ r' : Reader} {rs : List Reader} (h : r.react c = .again r₁)
      (hrest : Handled c r₁ rs r') : Handled c r (r :: rs) r'

/-- How often a character that was handed on comes to the top level. -/
def reentries (rs : List Reader) : Nat :=
  rs.tail.countP fun r => r.mode == .topLevel

/-- What a handler that hands a character on has recognised. -/
def Recognises (r r₁ : Reader) : Prop :=
  match r₁.mode with
  | .nameLine => r.mode = .topLevel ∧ r.depth = 0 ∧ r.word = "name"
  | .modeLine => r.mode = .topLevel ∧ r.depth = 0 ∧ r.word = "render_mode"
  | .paramsOpen => r.mode = .topLevel ∧ r.depth = 0 ∧ r.word = "params"
  | .sectionOpen sec => r.mode = .topLevel ∧ r.depth = 1 ∧ r.word = sec.keyword
  | .topLevel => r.mode ≠ .topLevel ∧ r.word = ""
  | _ => False

/-- A character is handled in one way. -/
theorem Handled.unique {rs rs' : List Reader} {r' r'' : Reader} (h : Handled c r rs r')
    (h' : Handled c r rs' r'') : rs' = rs ∧ r'' = r' := by
  induction h generalizing rs' with
  | done hdone =>
      cases h' with
      | done hdone' =>
          cases hdone.symm.trans hdone'
          exact ⟨rfl, rfl⟩
      | again hagain => cases hdone.symm.trans hagain
  | again hagain _ ih =>
      cases h' with
      | done hdone => cases hagain.symm.trans hdone
      | again hagain' hrest =>
          cases hagain.symm.trans hagain'
          obtain ⟨rfl, rfl⟩ := ih hrest
          exact ⟨rfl, rfl⟩

/-! ## What handlers leave behind -/

/-- Taking a mode line finishes no word. -/
theorem word_takeMode (r : Reader) : r.takeMode.word = r.word := by
  unfold takeMode
  dsimp only
  split <;> rfl

/-- A character with no word before it leaves the reader at top level or in a comment. -/
theorem regular_feedPlain (hword : r.word = "") (c : Char) : (r.feedPlain c).Regular := by
  unfold feedPlain
  split
  · rename_i hc
    exact ⟨trivial, fun _ => rfl, by simpa [hword] using hc⟩
  split
  · exact .of_placed trivial hword
  split
  · exact .of_placed trivial hword
  split
  · split
    · exact .of_placed trivial hword
    · exact .of_placed trivial hword
    · exact .of_placed trivial hword
  · exact .of_placed trivial hword

/-- The handler without a word does what the reader does without one. -/
theorem reactPlain_eq (r : Reader) (c : Char) : r.reactPlain c = .done (r.feedPlain c) := by
  unfold reactPlain
  split
  · rename_i hclose
    obtain ⟨rfl, hdepth⟩ := hclose
    obtain ⟨d, hd⟩ : ∃ d, r.depth = d + 1 := ⟨r.depth - 1, by omega⟩
    have hplain : isWordChar '}' = false := by decide
    unfold feedPlain
    rw [hplain, hd]
    cases d <;> rfl
  · rfl

/-- A section with an open brace may lose one. -/
theorem reactSection_eq (r : Reader) (sec : Section) {depth : Nat} (hdepth : 1 ≤ depth)
    (comment : Bool) (c : Char) :
    r.reactSection sec depth comment c = .done (r.feedSection sec depth comment c) := by
  unfold reactSection
  split
  · rename_i hclose
    obtain ⟨rfl, rfl⟩ := hclose
    obtain ⟨d, rfl⟩ : ∃ d, depth = d + 1 := ⟨depth - 1, by omega⟩
    cases d <;> rfl
  · rfl

/-- A character of a section with an open brace keeps the section open or closes it. -/
theorem regular_feedSection {sec : Section} {depth : Nat} (hdepth : r.depth = 1)
    (hsection : 1 ≤ depth) (hword : r.word = "") (comment : Bool) (c : Char) :
    (r.feedSection sec depth comment c).Regular := by
  unfold feedSection
  dsimp only
  split
  · exact .of_placed ⟨hdepth, hsection⟩ hword
  split
  · exact .of_placed ⟨hdepth, hsection⟩ hword
  split
  · exact .of_placed ⟨hdepth, Nat.le_add_left 1 depth⟩ hword
  split
  · split
    · exact .of_placed trivial hword
    · rename_i hopen
      have hless : 1 ≤ depth - 1 := by omega
      exact .of_placed ⟨hdepth, hless⟩ hword
  · exact .of_placed ⟨hdepth, hsection⟩ hword

/-- A character that is used up leaves a regular reader. -/
theorem Regular.done (h : r.Regular) {r' : Reader} (hdone : r.react c = .done r') :
    r'.Regular := by
  have hplaced := h.placed
  unfold Placed at hplaced
  unfold react at hdone
  cases hmode : r.mode with
  | topLevel =>
      simp only [hmode, reactTop] at hdone
      split at hdone
      · rename_i hc
        cases hdone
        refine ⟨trivial, fun _ => rfl, fun d hd => ?_⟩
        rw [String.toList_push, List.mem_append, List.mem_singleton] at hd
        rcases hd with hd | rfl
        · exact h.word_chars d hd
        · exact hc
      · split at hdone
        · cases hdone
        · cases hdone
        · cases hdone
        · rw [reactPlain_eq] at hdone
          cases hdone
          exact regular_feedPlain rfl c
  | nameLine =>
      have hword := h.word_eq (by simp [hmode])
      simp only [hmode] at hdone hplaced
      cases hdone
      unfold feedName
      split
      · exact .of_placed trivial hword
      · exact .of_placed hplaced hword
  | modeLine =>
      have hword := h.word_eq (by simp [hmode])
      simp only [hmode] at hdone hplaced
      cases hdone
      have htake := (word_takeMode r).trans hword
      unfold feedMode
      split
      · generalize r.takeMode = r' at htake ⊢
        exact .of_placed trivial htake
      · exact .of_placed hplaced hword
  | paramsOpen =>
      have hword := h.word_eq (by simp [hmode])
      simp only [hmode, reactOpen] at hdone hplaced
      split at hdone
      · cases hdone
        exact .of_placed hplaced hword
      split at hdone
      · cases hdone
        exact h
      · cases hdone
  | params place =>
      have hword := h.word_eq (by simp [hmode])
      simp only [hmode] at hdone hplaced
      cases hdone
      unfold feedParams
      cases place with
      | comment => exact .of_placed hplaced hword
      | quote => exact .of_placed hplaced hword
      | plain =>
          dsimp only
          split
          · exact .of_placed hplaced hword
          split
          · exact .of_placed hplaced hword
          split
          · exact .of_placed trivial hword
          split
          · exact .of_placed hplaced hword
          · exact .of_placed hplaced hword
  | sectionOpen sec =>
      have hword := h.word_eq (by simp [hmode])
      simp only [hmode, reactOpen] at hdone hplaced
      split at hdone
      · cases hdone
        exact .of_placed ⟨hplaced, Nat.le_refl 1⟩ hword
      split at hdone
      · cases hdone
        exact h
      · cases hdone
  | inSection sec depth comment =>
      have hword := h.word_eq (by simp [hmode])
      simp only [hmode] at hdone hplaced
      rw [reactSection_eq r sec hplaced.2] at hdone
      cases hdone
      exact regular_feedSection hplaced.1 hplaced.2 hword comment c
  | comment =>
      have hword := h.word_eq (by simp [hmode])
      simp only [hmode] at hdone
      cases hdone
      refine .of_placed ?_ hword
      by_cases hc : c = '\n' <;> simp [Placed, hc]

/-- A character that is handed on leaves a regular reader, in a mode that its word or the
lack of a brace demands. -/
theorem Regular.again (h : r.Regular) {r₁ : Reader} (hagain : r.react c = .again r₁) :
    r₁.Regular ∧ r.Recognises r₁ := by
  have hopen : ∀ inside : Reader, r.mode ≠ .topLevel → r.reactOpen inside c = .again r₁ →
      r₁.Regular ∧ r.Recognises r₁ := by
    intro inside hmode hagain
    have hword := h.word_eq hmode
    unfold reactOpen at hagain
    split at hagain
    · cases hagain
    split at hagain
    · cases hagain
    · cases hagain
      exact ⟨.of_placed trivial hword, hmode, hword⟩
  unfold react at hagain
  cases hmode : r.mode with
  | topLevel =>
      simp only [hmode, reactTop] at hagain
      split at hagain
      · cases hagain
      cases hkeyword : keywordMode? r.depth r.word with
      | none =>
          simp only [hkeyword, reactPlain_eq] at hagain
          cases hagain
      | some mode =>
          rcases keywordMode?_eq_some hkeyword with
            ⟨hdepth, ⟨hword, rfl⟩ | ⟨hword, rfl⟩ | ⟨hword, rfl⟩⟩ | ⟨hdepth, sec, hword, rfl⟩
          all_goals
            simp only [hkeyword] at hagain
            cases hagain
            exact ⟨.of_placed hdepth rfl, hmode, hdepth, hword⟩
  | nameLine => simp [hmode] at hagain
  | modeLine => simp [hmode] at hagain
  | paramsOpen =>
      simp only [hmode] at hagain
      exact hopen _ (by simp [hmode]) hagain
  | params place => simp [hmode] at hagain
  | sectionOpen sec =>
      simp only [hmode] at hagain
      exact hopen _ (by simp [hmode]) hagain
  | inSection sec depth comment =>
      have hplaced := h.placed
      simp only [Placed, hmode] at hagain hplaced
      rw [reactSection_eq r sec hplaced.2] at hagain
      cases hagain
  | comment => simp [hmode] at hagain

/-- Every handler that sees a character finds a regular reader and does not fail. -/
theorem Handled.regular {rs : List Reader} {r' : Reader} (h : Handled c r rs r')
    (hregular : r.Regular) : r'.Regular ∧ ∀ x ∈ rs, x.Regular ∧ x.react c ≠ .underflow := by
  induction h with
  | done hdone =>
      refine ⟨hregular.done hdone, fun x hx => ?_⟩
      obtain rfl := List.mem_singleton.mp hx
      exact ⟨hregular, by simp [hdone]⟩
  | again hagain _ ih =>
      obtain ⟨hdone, hrest⟩ := ih (hregular.again hagain).1
      refine ⟨hdone, fun x hx => ?_⟩
      rcases List.mem_cons.mp hx with rfl | hx
      · exact ⟨hregular, by simp [hagain]⟩
      · exact hrest x hx

/-! ## The step of the reader -/

/-- At top level a character with no word before it is used up. -/
theorem react_plain (hmode : r.mode = .topLevel) (hword : r.word = "") (c : Char) :
    r.react c = .done (r.feedPlain c) := by
  obtain ⟨mode, last, word, buffer, depth, pass, name, renderMode, parameterText, passes,
    warnings⟩ := r
  obtain rfl : mode = .topLevel := hmode
  obtain rfl : word = "" := hword
  simp only [react, reactTop, keywordMode?_empty, reactPlain_eq]
  split
  · rename_i hc
    simp [feedPlain, hc]
  · rfl

/-- A character with no word before it is read alike in every mode. -/
theorem feedPlain_mode (r : Reader) (mode : ReadMode) (c : Char) :
    { r with mode := mode }.feedPlain c = r.feedPlain c :=
  rfl

/-- So is one of a render mode line. -/
theorem feedMode_mode (r : Reader) (mode : ReadMode) (c : Char) :
    { r with mode := mode }.feedMode c = r.feedMode c := by
  simp only [feedMode, takeMode]
  cases RenderMode.ofKeyword? (String.ofList (Text.trim r.buffer.toList)) <;> rfl

/-- So is one before the brace of the parameter block. -/
theorem feedParamsOpen_mode (r : Reader) (mode : ReadMode) (c : Char) :
    { r with mode := mode }.feedParamsOpen c = r.feedParamsOpen c := by
  simp only [feedParamsOpen, feedPlain_mode]

/-- So is one before the brace of a section. -/
theorem feedSectionOpen_mode (r : Reader) (mode : ReadMode) (sec : Section) (c : Char) :
    { r with mode := mode }.feedSectionOpen sec c = r.feedSectionOpen sec c := by
  simp only [feedSectionOpen, feedPlain_mode]

/-- Between a keyword and its brace a character is handed back to the top level at most
once. -/
theorem handled_open (hword : r.word = "") (inside : Reader)
    (hreact : r.react c = r.reactOpen inside c) :
    ∃ rs, Handled c r (r :: rs) (if c = '{' then inside else if Text.isBlank c then r
        else r.feedPlain c) ∧ (rs.countP fun x => x.mode == .topLevel) ≤ 1 := by
  unfold reactOpen at hreact
  split
  · rename_i hc
    exact ⟨[], .done (by rw [hreact, if_pos hc]), Nat.zero_le 1⟩
  rename_i hc
  rw [if_neg hc] at hreact
  split
  · rename_i hblank
    exact ⟨[], .done (by rw [hreact, if_pos hblank]), Nat.zero_le 1⟩
  · rename_i hblank
    rw [if_neg hblank] at hreact
    have hplain := react_plain (r := { r with mode := .topLevel }) rfl hword c
    rw [feedPlain_mode] at hplain
    exact ⟨[_], .again hreact (.done hplain), by simp⟩

/-- Before the brace of the parameter block. -/
theorem handled_paramsOpen (hmode : r.mode = .paramsOpen) (hword : r.word = "") (c : Char) :
    ∃ rs, Handled c r (r :: rs) (r.feedParamsOpen c) ∧
      (rs.countP fun x => x.mode == .topLevel) ≤ 1 := by
  have hself : { r with mode := .paramsOpen } = r := by rw [← hmode]
  rw [feedParamsOpen, hself]
  exact handled_open hword _ (by simp only [react, hmode])

/-- Before the brace of a section. -/
theorem handled_sectionOpen {sec : Section} (hmode : r.mode = .sectionOpen sec)
    (hword : r.word = "") (c : Char) :
    ∃ rs, Handled c r (r :: rs) (r.feedSectionOpen sec c) ∧
      (rs.countP fun x => x.mode == .topLevel) ≤ 1 := by
  have hself : { r with mode := .sectionOpen sec } = r := by rw [← hmode]
  rw [feedSectionOpen, hself]
  exact handled_open hword _ (by simp only [react, hmode])

/-- At top level a character that is no letter of a word goes to the mode that the word
starts. -/
theorem handled_top (hmode : r.mode = .topLevel) (c : Char) :
    ∃ rs, Handled c r (r :: rs) (r.feedTop c) ∧
      (rs.countP fun x => x.mode == .topLevel) ≤ 1 := by
  unfold feedTop
  have hreact : r.react c = r.reactTop c := by simp only [react, hmode]
  unfold reactTop at hreact
  split
  · rename_i hc
    exact ⟨[], .done (by rw [hreact, if_pos hc]), Nat.zero_le 1⟩
  rename_i hc
  rw [if_neg hc] at hreact
  dsimp only at hreact ⊢
  cases hkeyword : keywordMode? r.depth r.word with
  | none =>
      simp only [hkeyword, reactPlain_eq] at hreact
      exact ⟨[], .done hreact, Nat.zero_le 1⟩
  | some mode =>
      rcases keywordMode?_eq_some hkeyword with
        ⟨-, ⟨-, rfl⟩ | ⟨-, rfl⟩ | ⟨-, rfl⟩⟩ | ⟨-, sec, -, rfl⟩
      · simp only [hkeyword] at hreact
        exact ⟨[_], .again hreact (.done rfl), by simp⟩
      · simp only [hkeyword] at hreact
        rw [← feedMode_mode _ .modeLine c]
        exact ⟨[_], .again hreact (.done rfl), by simp⟩
      · simp only [hkeyword] at hreact
        obtain ⟨rs, hhandled, hcount⟩ :=
          handled_paramsOpen (r := { r with word := "", mode := .paramsOpen }) rfl rfl c
        rw [feedParamsOpen_mode { r with word := "" }] at hhandled
        exact ⟨_ :: rs, .again hreact hhandled, by simpa using hcount⟩
      · simp only [hkeyword] at hreact
        obtain ⟨rs, hhandled, hcount⟩ :=
          handled_sectionOpen (r := { r with word := "", mode := .sectionOpen sec }) rfl rfl c
        rw [feedSectionOpen_mode { r with word := "" }] at hhandled
        exact ⟨_ :: rs, .again hreact hhandled, by simpa using hcount⟩

/-- What the handlers do together is one step of the reader, which enters the top level
again at most once. -/
theorem Regular.handled (h : r.Regular) (c : Char) :
    ∃ rs, Handled c r rs (r.step c) ∧ reentries rs ≤ 1 := by
  have hplaced := h.placed
  unfold Placed at hplaced
  unfold step
  cases hmode : r.mode with
  | topLevel =>
      obtain ⟨rs, hhandled, hcount⟩ := handled_top hmode c
      exact ⟨r :: rs, hhandled, hcount⟩
  | nameLine => exact ⟨[r], .done (by simp only [react, hmode]), Nat.zero_le 1⟩
  | modeLine => exact ⟨[r], .done (by simp only [react, hmode]), Nat.zero_le 1⟩
  | paramsOpen =>
      obtain ⟨rs, hhandled, hcount⟩ :=
        handled_paramsOpen hmode (h.word_eq (by simp [hmode])) c
      exact ⟨r :: rs, hhandled, hcount⟩
  | params place => exact ⟨[r], .done (by simp only [react, hmode]), Nat.zero_le 1⟩
  | sectionOpen sec =>
      obtain ⟨rs, hhandled, hcount⟩ :=
        handled_sectionOpen hmode (h.word_eq (by simp [hmode])) c
      exact ⟨r :: rs, hhandled, hcount⟩
  | inSection sec depth comment =>
      rw [hmode] at hplaced
      refine ⟨[r], .done ?_, Nat.zero_le 1⟩
      simp only [react, hmode]
      exact reactSection_eq r sec hplaced.2 comment c
  | comment => exact ⟨[r], .done (by simp only [react, hmode]), Nat.zero_le 1⟩

/-- One character keeps the reader regular. -/
theorem Regular.feed (h : r.Regular) (c : Char) : (r.feed c).Regular := by
  obtain ⟨rs, hhandled, -⟩ := h.handled c
  exact (hhandled.regular h).1.setLast (some c)

/-- Every text keeps the reader regular. -/
theorem Regular.feedText (h : r.Regular) (text : List Char) : (r.feedText text).Regular := by
  induction text generalizing r with
  | nil => exact h
  | cons c text ih => exact ih (h.feed c)

/-- So does the end of a file, which may complete a last keyword. -/
theorem Regular.endWord (h : r.Regular) : r.endWord.Regular := by
  unfold Reader.endWord
  split
  · exact h
  dsimp only
  cases hkeyword : keywordMode? r.depth r.word with
  | none => exact .of_placed trivial rfl
  | some mode =>
      rcases keywordMode?_eq_some hkeyword with
        ⟨hdepth, ⟨-, rfl⟩ | ⟨-, rfl⟩ | ⟨-, rfl⟩⟩ | ⟨hdepth, sec, -, rfl⟩
      all_goals exact .of_placed hdepth rfl

/-- After every text the reader is regular, also once the end of the file has completed a
last keyword.  The next character is handled in one way, which is the step of the reader:
the handlers that see it end after at most one return to the top level, none of them
lowers a count of braces below zero, and what they recognise stands at its depth. -/
theorem regular_handled (text : List Char) :
    (initial.feedText text).Regular ∧ (initial.feedText text).endWord.Regular ∧
    ∀ c, ∃ rs, Handled c (initial.feedText text) rs ((initial.feedText text).step c) ∧
      (∀ rs' r', Handled c (initial.feedText text) rs' r' →
        rs' = rs ∧ r' = (initial.feedText text).step c) ∧
      reentries rs ≤ 1 ∧
      ∀ x ∈ rs, x.Regular ∧ x.react c ≠ .underflow ∧
        ∀ y, x.react c = .again y → x.Recognises y := by
  have h : (initial.feedText text).Regular := regular_initial.feedText text
  refine ⟨h, h.endWord, fun c => ?_⟩
  obtain ⟨rs, hhandled, hcount⟩ := h.handled c
  refine ⟨rs, hhandled, fun rs' r' h' => hhandled.unique h', hcount, fun x hx => ?_⟩
  obtain ⟨hregular, hreact⟩ := (hhandled.regular h).2 x hx
  exact ⟨hregular, hreact, fun y hagain => (hregular.again hagain).2⟩

end Reader
end Source
end ShaderAssets
