import ShaderAssets.Source.Canonical
import ShaderAssets.Source.Params
import ShaderAssets.Proofs.Number.Display
import ShaderAssets.Proofs.Source.BlockLine
import ShaderAssets.Proofs.Text.Parts

/-!
# Lines that declare uniforms

The line of a uniform declaration consists of tokens: the qualifiers, the type, the
bind name, the quoted display name, the components of the default literal and, after
colons, the bounds and the special binding.  Reading these tokens gives the
declaration back.

Main results:

- Theorem {lit}`line_eq_renderLine`: the line of a declaration is its tokens.
- Theorem {lit}`fits_of_mem_tokens`: the tokens of a well-formed declaration fit
  on a line.
- Theorem {lit}`ParamsLine.read_line`: the line of a well-formed declaration
  declares it again.
-/

namespace ShaderAssets
namespace Source

open Text Number

/-! ## Words that consist of few characters -/

/-- Letters, digits, points and minus signs stand in bare words. -/
theorem isWordly_of_numeric {c : Char}
    (h : c.isAlphanum = true ∨ c = '.' ∨ c = '-') (colons : Bool) :
    isWordly colons c = true ∧ isBrace c = false ∧ c ≠ '/' := by
  rcases h with h | rfl | rfl
  · have hblank : isBlank c = false := by
      rw [← Bool.not_eq_true]
      intro hb
      have hletters : (decide (c.val ≥ 65 ∧ c.val ≤ 90) || (c.val ≥ 97 && c.val ≤ 122) ||
          (c.val ≥ 48 && c.val ≤ 57)) = true := h
      simp only [Bool.or_eq_true, Bool.and_eq_true, decide_eq_true_eq] at hletters
      simp only [isBlank, Bool.or_eq_true, Bool.and_eq_true, decide_eq_true_eq,
        beq_iff_eq] at hb
      have h' : (65 ≤ c.toNat ∧ c.toNat ≤ 90) ∨ (97 ≤ c.toNat ∧ c.toNat ≤ 122) ∨
          (48 ≤ c.toNat ∧ c.toNat ≤ 57) := by
        rcases hletters with (⟨h₁, h₂⟩ | ⟨h₁, h₂⟩) | ⟨h₁, h₂⟩
        · exact Or.inl ⟨h₁, h₂⟩
        · exact Or.inr (Or.inl ⟨h₁, h₂⟩)
        · exact Or.inr (Or.inr ⟨h₁, h₂⟩)
      omega
    have hne : ∀ d : Char, d.isAlphanum = false → c ≠ d := by
      rintro d hd rfl
      rw [h] at hd
      exact Bool.noConfusion hd
    have hquote := hne '"' (by decide)
    have hcolon := hne ':' (by decide)
    have hopen := hne '{' (by decide)
    have hclose := hne '}' (by decide)
    exact ⟨by simp [isWordly, hblank, hquote, hcolon], by simp [isBrace, hopen, hclose],
      hne '/' (by decide)⟩
  · cases colons <;> decide
  · cases colons <;> decide

/-- The text of a number can be written bare. -/
theorem isBare_of_numeric {s : List Char} (hne : s ≠ [])
    (h : ∀ c ∈ s, c.isAlphanum = true ∨ c = '.' ∨ c = '-') (colons : Bool) :
    IsBare colons s where
  nonempty := hne
  wordly c hc := (isWordly_of_numeric (h c hc) colons).1
  no_comment := hasComment_of_not_mem fun hmem =>
    (isWordly_of_numeric (h '/' hmem) colons).2.2 rfl
  no_brace c hc := (isWordly_of_numeric (h c hc) colons).2.1

/-- A displayed number can be written bare. -/
theorem isBare_display (x : Single) (colons : Bool) : IsBare colons x.display :=
  isBare_of_numeric x.display_chars.1 x.display_chars.2 colons

/-! ## Tokens of a declaration -/

namespace UniformDeclaration

/-- The token of a number. -/
def numberToken (x : Single) : Token :=
  .word (String.ofList x.display)

/-- The bounds as the tokens after a colon; `-` stands for a missing lower bound. -/
def boundSuffixes (u : UniformDeclaration) : List (List Token) :=
  match u.lower, u.upper with
  | none, none => []
  | some low, none => [[numberToken low]]
  | some low, some high => [[numberToken low, numberToken high]]
  | none, some high => [[.word "-", numberToken high]]

/-- The special binding as the tokens after a colon. -/
def imageSuffixes (u : UniformDeclaration) : List (List Token) :=
  match u.backBuffer with
  | none => []
  | some image => [[.word image.keyword]]

/-- What follows the default literal, without the colons. -/
def suffixes (u : UniformDeclaration) : List (List Token) :=
  u.boundSuffixes ++ u.imageSuffixes

/-- The bind name, the display name and the default literal. -/
def headTokens (u : UniformDeclaration) : List Token :=
  .word u.bindName :: .quoted u.displayName ::
    u.components.map fun part => .word (String.ofList part)

/-- What follows the type. -/
def bodyTokens (u : UniformDeclaration) : List Token :=
  u.headTokens ++ u.suffixes.flatMap fun suffix => .colon :: suffix

/-- The qualifiers of a declaration. -/
def qualifierTokens (u : UniformDeclaration) : List Token :=
  (if u.isDefine then [.word "define"] else []) ++
    if u.isHidden then [.word "hidden"] else []

/-- The tokens of a declaration's line. -/
def tokens (u : UniformDeclaration) : List Token :=
  u.qualifierTokens ++ .word u.type.keyword :: u.bodyTokens

end UniformDeclaration

namespace UniformDeclaration

/-- The bounds are written as their tokens. -/
theorem toList_boundsText (u : UniformDeclaration) :
    u.boundsText.toList =
      Token.renderTail (u.boundSuffixes.flatMap fun suffix => .colon :: suffix) := by
  unfold boundsText boundSuffixes
  cases u.lower <;> cases u.upper <;>
    simp [numberToken, Token.render, String.toList_append, String.toList_ofList]

/-- The components are written as their tokens. -/
theorem toList_componentsText (parts : List (List Char)) :
    (String.join (parts.map fun part => " " ++ String.ofList part)).toList =
      Token.renderTail (parts.map fun part => .word (String.ofList part)) := by
  rw [String.toList_join]
  induction parts with
  | nil => rfl
  | cons part parts ih => simp_all [Token.render]

/-- The special binding is written as its tokens. -/
theorem toList_imageText (u : UniformDeclaration) :
    u.imageText.toList =
      Token.renderTail (u.imageSuffixes.flatMap fun suffix => .colon :: suffix) := by
  unfold imageText imageSuffixes
  cases u.backBuffer <;> simp [Token.render]

/-- The line of a declaration is its tokens. -/
theorem line_eq_renderLine (u : UniformDeclaration) :
    u.line.toList = Token.renderLine u.tokens := by
  have hbody : Token.renderTail u.bodyTokens =
      ' ' :: u.bindName.toList ++ ' ' :: '"' :: u.displayName.toList ++ ['"'] ++
        (String.join (u.components.map fun part => " " ++ String.ofList part)).toList ++
        u.boundsText.toList ++ u.imageText.toList := by
    rw [toList_componentsText, toList_boundsText, toList_imageText]
    simp [bodyTokens, headTokens, suffixes, Token.render]
  unfold line tokens qualifierTokens
  cases u.isDefine <;> cases u.isHidden <;>
    simp [hbody, Token.renderLine_cons, Token.render, components]

/-! ## Reading the tokens -/

/-- The tokens of a number fit on a line. -/
theorem fits_numberToken (x : Single) : (numberToken x).Fits true := by
  simpa [numberToken, Token.Fits] using isBare_display x true

/-- The tokens of a well-formed declaration fit on a line. -/
theorem fits_of_mem_tokens {u : UniformDeclaration} (h : u.WellFormed) :
    ∀ t ∈ u.tokens, t.Fits true := by
  have hquals : ∀ t ∈ u.qualifierTokens, t.Fits true := by
    intro t ht
    simp only [qualifierTokens, List.mem_append, List.mem_ite_nil_right, List.mem_singleton] at ht
    rcases ht with ⟨-, rfl⟩ | ⟨-, rfl⟩
    · exact (by decide : IsBare true "define".toList)
    · exact (by decide : IsBare true "hidden".toList)
  have htype : IsBare true u.type.keyword.toList := by
    cases u.type <;> decide
  have hhead : ∀ t ∈ u.headTokens, t.Fits true := by
    intro t ht
    unfold headTokens at ht
    simp only [List.mem_cons, List.mem_map] at ht
    rcases ht with rfl | rfl | ⟨part, hpart, rfl⟩
    · exact h.bind_bare
    · exact ⟨h.display_no_quote, h.display_no_newline⟩
    · simpa [Token.Fits] using h.components_bare part hpart
  have hbounds : ∀ suffix ∈ u.boundSuffixes, ∀ t ∈ suffix, t.Fits true := by
    have hmissing : IsBare true "-".toList := by decide
    unfold boundSuffixes
    cases u.lower <;> cases u.upper <;> simp [fits_numberToken]
    exact hmissing
  have himage : ∀ suffix ∈ u.imageSuffixes, ∀ t ∈ suffix, t.Fits true := by
    have hkeyword : ∀ image : BackBuffer, IsBare true image.keyword.toList := by
      intro image
      cases image <;> decide
    unfold imageSuffixes
    cases u.backBuffer <;> simp [Token.Fits, hkeyword]
  intro t ht
  simp only [tokens, bodyTokens, suffixes, List.mem_append, List.mem_cons,
    List.mem_flatMap] at ht
  rcases ht with ht | rfl | ht | ⟨suffix, hsuffix, rfl | ht⟩
  · exact hquals t ht
  · exact htype
  · exact hhead t ht
  · rfl
  · rcases hsuffix with hsuffix | hsuffix
    · exact hbounds suffix hsuffix t ht
    · exact himage suffix hsuffix t ht

/-- The qualifiers are read back. -/
theorem read_qualifiers (u : UniformDeclaration) :
    Qualifiers.none.read u.tokens =
      (⟨u.isDefine, u.isHidden⟩, .word u.type.keyword :: u.bodyTokens) := by
  unfold tokens qualifierTokens
  cases u.isDefine <;> cases u.isHidden <;> cases u.type <;>
    simp [Qualifiers.read, Qualifiers.none, UniformType.keyword]

/-- Cutting at the colons finds the suffixes. -/
theorem splitOnP_suffixes {front : List Token} (hfront : Token.colon ∉ front)
    {suffixes : List (List Token)} (h : ∀ suffix ∈ suffixes, Token.colon ∉ suffix) :
    (front ++ suffixes.flatMap fun suffix => Token.colon :: suffix).splitOnP (· == .colon) =
      front :: suffixes := by
  have hno : ∀ ts : List Token, Token.colon ∉ ts → ∀ t ∈ ts, (t == Token.colon) = false := by
    intro ts hts t ht
    rw [beq_eq_false_iff_ne]
    rintro rfl
    exact hts ht
  induction suffixes generalizing front with
  | nil =>
      rw [List.flatMap_nil, List.append_nil, List.splitOnP_eq_singleton (hno front hfront)]
  | cons suffix suffixes ih =>
      rw [List.flatMap_cons, List.cons_append,
        List.splitOnP_append_cons_of_forall_mem (hno front hfront) _ (by simp),
        ih (h suffix (by simp)) fun s hs => h s (List.mem_cons_of_mem suffix hs)]

/-- The head of a declaration has no colons of its own. -/
theorem colon_not_mem_headTokens (u : UniformDeclaration) : Token.colon ∉ u.headTokens := by
  simp [headTokens]

/-- No suffix has colons of its own. -/
theorem colon_not_mem_suffix (u : UniformDeclaration) :
    ∀ suffix ∈ u.suffixes, Token.colon ∉ suffix := by
  intro suffix hsuffix
  rw [suffixes, List.mem_append] at hsuffix
  rcases hsuffix with hsuffix | hsuffix
  · unfold boundSuffixes at hsuffix
    cases hl : u.lower <;> cases hu : u.upper <;> simp_all [numberToken]
  · unfold imageSuffixes at hsuffix
    cases hb : u.backBuffer <;> simp_all

/-- The components of a default literal are read back. -/
theorem readComponents_words {parts : List (List Char)} {arity : Nat}
    (hne : ∀ part ∈ parts, part ≠ []) (hcomma : ∀ part ∈ parts, ',' ∉ part)
    (hlen : parts.length ≤ arity) :
    readComponents arity (parts.map fun part => .word (String.ofList part)) =
      parts.map String.ofList := by
  have hcut : (parts.map fun part => Token.word (String.ofList part)).flatMap
      (fun t => t.text.toList.splitOn ',') = parts := by
    clear hlen hne
    induction parts with
    | nil => rfl
    | cons part parts ih =>
        have hpart : part.splitOn ',' = [part] :=
          List.splitOn_eq_singleton (hcomma part (by simp))
        rw [List.map_cons, List.flatMap_cons,
          ih fun p hp => hcomma p (List.mem_cons_of_mem part hp)]
        simp [Token.text, hpart]
  have hfilter : parts.filter (fun part => !part.isEmpty) = parts := by
    rw [List.filter_eq_self]
    intro part hpart
    simp [hne part hpart]
  rw [readComponents, hcut, hfilter, List.take_of_length_le hlen]

/-- Commas join the components of the default literal. -/
theorem intercalate_components (u : UniformDeclaration) :
    ",".intercalate (u.components.map String.ofList) = u.defaultValue := by
  rw [← String.toList_inj, String.toList_intercalate, List.map_map]
  have hid : u.components.map (String.toList ∘ String.ofList) = u.components := by
    simp [Function.comp_def]
  rw [hid, components]
  exact List.intercalate_splitOn ','

/-! ## Suffixes -/

/-- Only its own keyword asks for an image. -/
theorem eq_keyword_of_ofKeyword? {s : String} {b : BackBuffer}
    (h : BackBuffer.ofKeyword? s = some b) : s = b.keyword := by
  unfold BackBuffer.ofKeyword? at h
  split at h
  · cases h
    rfl
  · cases h
    rfl
  · cases h

/-- A number asks for no image. -/
theorem ofKeyword?_display {x : Single} (h : x.isNaN = false) :
    BackBuffer.ofKeyword? (String.ofList x.display) = none := by
  cases hb : BackBuffer.ofKeyword? (String.ofList x.display) with
  | none => rfl
  | some b =>
      have htext : x.display = b.keyword.toList := by
        rw [← eq_keyword_of_ofKeyword? hb, String.toList_ofList]
      have hread : Single.read? b.keyword.toList = some x := by
        rw [← htext, Single.read?_display h]
      have hnone : Single.read? b.keyword.toList = none := by
        cases b <;> decide
      rw [hnone] at hread
      cases hread

/-- A displayed bound is read back. -/
theorem readBound?_numberToken {x : Single} (h : x.isNaN = false) :
    readBound? (some (numberToken x)) = some x := by
  simp [readBound?, numberToken, Token.text, Single.read?_display h]

/-- The mark of a missing bound is no number. -/
theorem readBound?_missing : readBound? (some (.word "-")) = none := by
  decide

/-- A number and what follows it set the bounds. -/
theorem addSuffix_number {v : UniformDeclaration} {x : Single} (hx : x.isNaN = false)
    (hv : v.type.isRanged = true) (rest : List Token) :
    v.addSuffix (numberToken x :: rest) =
      { v with lower := some x, upper := readBound? rest.head? } := by
  have hkeyword : BackBuffer.ofKeyword? (numberToken x).text = none := ofKeyword?_display hx
  simp [addSuffix, hkeyword, hv, readBound?_numberToken hx]

/-- The bounds of a declaration are read back. -/
theorem foldl_boundSuffixes {u v : UniformDeclaration} (h : u.WellFormed)
    (htype : v.type = u.type) (hlower : v.lower = none) (hupper : v.upper = none) :
    u.boundSuffixes.foldl addSuffix v = { v with lower := u.lower, upper := u.upper } := by
  have hranged : u.lower.isSome = true ∨ u.upper.isSome = true → v.type.isRanged = true := by
    rw [htype]
    exact h.ranged
  unfold boundSuffixes
  cases hl : u.lower with
  | none =>
      cases hu : u.upper with
      | none =>
          cases v
          simp_all
      | some high =>
          have hv : v.type.isRanged = true := hranged (by simp [hu])
          have hhigh : high.isNaN = false := h.upper_number high (by simp [hu])
          have hkeyword : BackBuffer.ofKeyword? (Token.word "-").text = none := by decide
          simp [addSuffix, hkeyword, hv, readBound?_missing, readBound?_numberToken hhigh]
  | some low =>
      have hv : v.type.isRanged = true := hranged (by simp [hl])
      have hlow : low.isNaN = false := h.lower_number low (by simp [hl])
      cases hu : u.upper with
      | none => simp [addSuffix_number hlow hv, readBound?]
      | some high =>
          have hhigh : high.isNaN = false := h.upper_number high (by simp [hu])
          simp [addSuffix_number hlow hv, readBound?_numberToken hhigh]

/-- The special binding of a declaration is read back. -/
theorem foldl_imageSuffixes {u v : UniformDeclaration} (hv : v.backBuffer = none) :
    u.imageSuffixes.foldl addSuffix v = { v with backBuffer := u.backBuffer } := by
  unfold imageSuffixes
  cases hb : u.backBuffer with
  | none =>
      cases v
      simp_all
  | some image => simp [addSuffix, Token.text]

/-- What follows the type is read back as the declaration without its qualifiers. -/
theorem read?_bodyTokens {u : UniformDeclaration} (h : u.WellFormed) :
    read? u.type u.bodyTokens = some { u with isDefine := false, isHidden := false } := by
  have hbind : u.bindName ≠ "" := by
    intro hempty
    exact h.bind_bare.nonempty (by simp [hempty])
  have hcomponents : readComponents u.type.arity
      (u.components.map fun part => .word (String.ofList part)) =
        u.components.map String.ofList :=
    readComponents_words (fun part hpart => (h.components_bare part hpart).nonempty)
      (fun part hpart => not_mem_of_mem_splitOn hpart) h.components_length
  have hsome : (u.components.map String.ofList).isEmpty = false := by
    have hne : u.components ≠ [] := List.splitOn_ne_nil _ _
    simpa using hne
  have hsplit := splitOnP_suffixes u.colon_not_mem_headTokens u.colon_not_mem_suffix
  rw [read?, bodyTokens, hsplit, headTokens]
  simp only [Token.text, if_neg hbind, List.head?_cons, Option.map_some, Option.getD_some,
    List.drop_one, List.tail_cons, hcomponents, hsome, intercalate_components, suffixes,
    List.foldl_append]
  rw [foldl_boundSuffixes h (by rfl) (by rfl) (by rfl), foldl_imageSuffixes (by rfl)]
  rfl

end UniformDeclaration

/-- The line of a well-formed declaration declares it again. -/
theorem ParamsLine.read_line {u : UniformDeclaration} (h : u.WellFormed) (n k : Nat) :
    ParamsLine.read n (List.replicate k ' ' ++ u.line.toList) = .declaration u := by
  have htokens : Token.ofLine (List.replicate k ' ' ++ u.line.toList) true = u.tokens := by
    rw [u.line_eq_renderLine]
    exact Token.ofLine_indented
      (fun t ht => (UniformDeclaration.fits_of_mem_tokens h t ht).stands) k
  have hne : u.tokens.isEmpty = false := by
    simp [UniformDeclaration.tokens]
  have hqualify : ({ u with isDefine := false, isHidden := false } : UniformDeclaration).qualify
      ⟨u.isDefine, u.isHidden⟩ = u := by
    simp [UniformDeclaration.qualify]
  have htype : UniformType.ofKeyword? (Token.word u.type.keyword).text = some u.type :=
    UniformType.ofKeyword?_keyword u.type
  simp [ParamsLine.read, htokens, hne, u.read_qualifiers, htype,
    UniformDeclaration.read?_bodyTokens h, hqualify]

end Source
end ShaderAssets
