import ShaderAssets.Proofs.Text.Digits
import ShaderAssets.Proofs.Text.Parts
import ShaderAssets.Proofs.Text.Trim
import ShaderAssets.Stage.Reflection

/-!
# What a statement declares

A uniform is declared by the word {lit}`uniform`, a precision or none, a type and a list of
declarators, each of which is a name with or without the length of an array; a sampler is
declared by a macro with its name as the first argument.  A statement is read as a declaration
if it declares one name only, and with a length that is a number.

Main results:

- Structure {lit}`Declaration`: what a declaration says of a uniform.
- Relation {lit}`Declares`: a statement declares a uniform, as one of so many.
- Theorem {lit}`ofStatement?_eq_some_iff`: the statements that are read as a declaration of a
  given name.
-/

namespace ShaderAssets

/-- What a declaration says of a uniform.  There is no count if the length of an array is not
a number of sixteen bits. -/
structure Declaration where
  name : String
  type : String
  count : Option Nat
deriving DecidableEq, Repr

/-- The declaration that a uniform comes from. -/
def StageUniform.declaration (u : StageUniform) : Declaration :=
  ⟨u.name, u.type, some u.count.toNat⟩

/-- A uniform is known from its declaration. -/
theorem StageUniform.declaration_injective : Function.Injective StageUniform.declaration := by
  rintro ⟨name, type, count⟩ ⟨name', type', count'⟩ h
  obtain ⟨hname, htype, hcount⟩ := Declaration.mk.inj h
  exact StageUniform.mk.injEq .. ▸ ⟨hname, htype, UInt16.toNat_inj.mp (Option.some.inj hcount)⟩

namespace Reflection

open Text

/-! ## Grammar -/

/-- An identifier: letters, digits and underscores, at least one. -/
def IsIdentifier (s : List Char) : Prop :=
  s ≠ [] ∧ ∀ c ∈ s, isWordChar c = true

/-- A text behind an opening bracket is the length of an array: a decimal number of sixteen
bits, up to closing brackets. -/
def IsLength (text : List Char) (n : Nat) : Prop :=
  n < UInt16.size ∧ ∃ digits closing, text = digits ++ closing ∧ (∀ c ∈ closing, c = ']') ∧
    DenotesUnsigned 10 digits n

/-- A declarator declares a name, alone or as an array. -/
inductive IsDeclarator (name : List Char) : List Char → Option Nat → Prop
  | single : IsDeclarator name name (some 1)
  | array {text : List Char} {n : Nat} (hlength : IsLength text n) :
      IsDeclarator name (name ++ '[' :: text) (some n)
  | unknown {text : List Char} (hlength : ∀ n, ¬IsLength text n) :
      IsDeclarator name (name ++ '[' :: text) none

/-- The words that may stand in front of a type. -/
def IsPrecision (word : List Char) : Prop :=
  word = "lowp".toList ∨ word = "mediump".toList ∨ word = "highp".toList

/-- A statement declares uniforms of a type in a list, in which white space does not count. -/
inductive IsUniform (s : List Char) : List Char → List Char → Prop
  | plain {type : List Char} {list : List (List Char)}
      (hwords : words s = "uniform".toList :: type :: list) (htype : ¬IsPrecision type) :
      IsUniform s type list.flatten
  | precise {precision type : List Char} {list : List (List Char)}
      (hwords : words s = "uniform".toList :: precision :: type :: list)
      (hprecision : IsPrecision precision) :
      IsUniform s type list.flatten

/-- The arguments of a macro, with the parenthesis in front of them, have a name as the first
one. -/
def IsArguments (text name : List Char) : Prop :=
  ∃ gap front back tail, text = gap ++ '(' :: (front ++ (name ++ (back ++ tail))) ∧
    (∀ c ∈ gap, isBlank c = true) ∧ (∀ c ∈ front, isBlank c = true) ∧
    (∀ c ∈ back, isBlank c = true) ∧ ∀ c, tail.head? = some c → c = ','

/-- A statement declares a uniform, as number `k` of `n` that it declares. -/
inductive Declares (s : List Char) : Nat → Nat → Declaration → Prop
  | uniform {type list declarator name : List Char} {k : Nat} {count : Option Nat}
      (hs : IsUniform s type list) (hk : (list.splitOn ',')[k]? = some declarator)
      (hname : IsIdentifier name) (hdeclarator : IsDeclarator name declarator count) :
      Declares s k (list.splitOn ',').length ⟨String.ofList name, String.ofList type, count⟩
  | sampler {keyword type : String} {arguments name : List Char}
      (hkind : (keyword, type) ∈ samplerMacros) (hs : s = keyword.toList ++ arguments)
      (hname : IsIdentifier name) (harguments : IsArguments arguments name) :
      Declares s 0 1 ⟨String.ofList name, type, some 1⟩

/-- What is declared has an identifier as its name. -/
theorem Declares.isIdentifier {s : List Char} {k n : Nat} {d : Declaration}
    (h : Declares s k n d) : IsIdentifier d.name.toList := by
  cases h with
  | uniform _ _ hname _ => rwa [String.toList_ofList]
  | sampler _ _ hname _ => rwa [String.toList_ofList]

/-- A declaration with a count is that of a uniform. -/
theorem Declares.exists_declaration_eq {s : List Char} {k n : Nat} {d : Declaration}
    (h : Declares s k n d) (hcount : d.count ≠ none) : ∃ u : StageUniform, u.declaration = d := by
  have hsize : ∀ m ∈ d.count, m < UInt16.size := by
    intro m hm
    cases h with
    | uniform _ _ _ hdeclarator =>
        cases hdeclarator with
        | single => cases hm; decide
        | array hlength => cases hm; exact hlength.1
        | unknown => cases hm
    | sampler => cases hm; decide
  obtain ⟨m, hm⟩ := Option.ne_none_iff_exists'.mp hcount
  have htoNat : m.toUInt16.toNat = m := UInt16.toNat_ofNat_of_lt (hsize m hm)
  exact ⟨⟨d.name, d.type, m.toUInt16⟩, by rw [StageUniform.declaration, htoNat, ← hm]⟩

/-! ## Identifiers -/

/-- The characters of an identifier are not blank. -/
theorem isBlank_of_isWordChar {c : Char} (h : isWordChar c = true) : isBlank c = false := by
  rw [isWordChar, Bool.or_eq_true, beq_iff_eq] at h
  rcases h with h | rfl
  · exact isBlank_of_isAlphanum h
  · decide

/-- A character that no identifier has is not in one. -/
theorem IsIdentifier.not_mem {name : List Char} (h : IsIdentifier name) {c : Char}
    (hc : isWordChar c = false) : c ∉ name :=
  fun hmem => by simp [h.2 c hmem] at hc

/-- An identifier has no white space. -/
theorem IsIdentifier.isBlank_eq_false {name : List Char} (h : IsIdentifier name) :
    ∀ c ∈ name, isBlank c = false :=
  fun c hc => isBlank_of_isWordChar (h.2 c hc)

/-! ## Declarators -/

/-- What is left of a text without the brackets at its end. -/
theorem exists_eq_append_brackets (text : List Char) :
    ∃ closing, text = (text.reverse.dropWhile (· == ']')).reverse ++ closing ∧
      ∀ c ∈ closing, c = ']' := by
  refine ⟨(text.reverse.takeWhile (· == ']')).reverse, ?_, fun c hc => ?_⟩
  · rw [← List.reverse_append, List.takeWhile_append_dropWhile, List.reverse_reverse]
  · simpa using List.mem_takeWhile_imp (List.mem_reverse.mp hc)

/-- The brackets behind a number can be taken off. -/
theorem dropWhile_bracket_append {digits closing : List Char} {n : Nat}
    (hclosing : ∀ c ∈ closing, c = ']') (hdigits : DenotesUnsigned 10 digits n) :
    ((digits ++ closing).reverse.dropWhile (· == ']')).reverse = digits := by
  have hlast : ∀ c, digits.reverse.head? = some c → (c == ']') = false := by
    intro c hc
    have hdigit := hdigits.toNat_of_mem c (List.mem_reverse.mp (List.mem_of_head? hc))
    rw [beq_eq_false_iff_ne]
    rintro rfl
    revert hdigit
    decide
  rw [List.reverse_append,
    List.dropWhile_append_of_pos fun c hc => by simp [hclosing c (List.mem_reverse.mp hc)],
    dropWhile_eq_self hlast, List.reverse_reverse]

/-- The length of an array without white space is read as the number that it is. -/
theorem readLength?_eq_some_iff {text : List Char} (h : ∀ c ∈ text, isBlank c = false)
    {n : UInt16} : readLength? text = some n ↔ IsLength text n.toNat := by
  have htrim : trim (text.reverse.dropWhile (· == ']')).reverse =
      (text.reverse.dropWhile (· == ']')).reverse := by
    refine (IsTrimmed.of_forall fun c hc => h c ?_).trim_eq
    exact List.mem_reverse.mp ((List.dropWhile_suffix _).subset (List.mem_reverse.mp hc))
  rw [readLength?, htrim, Option.map_eq_some_iff]
  simp only [readUnsigned?_eq_some_iff (show 10 ≤ 16 by omega)]
  constructor
  · rintro ⟨m, ⟨hdigits, hm⟩, rfl⟩
    obtain ⟨closing, heq, hclosing⟩ := exists_eq_append_brackets text
    have htoNat : m.toUInt16.toNat = m := UInt16.toNat_ofNat_of_lt hm
    rw [htoNat]
    exact ⟨hm, _, closing, heq, hclosing, hdigits⟩
  · rintro ⟨hn, digits, closing, rfl, hclosing, hdigits⟩
    rw [dropWhile_bracket_append hclosing hdigits]
    exact ⟨n.toNat, ⟨hdigits, hn⟩, by simp⟩

/-- A declarator with a count is a name or a name and a length. -/
theorem isDeclarator_some_iff {name declarator : List Char} {n : Nat} :
    IsDeclarator name declarator (some n) ↔
      declarator = name ∧ n = 1 ∨ ∃ text, declarator = name ++ '[' :: text ∧ IsLength text n := by
  constructor
  · intro h
    generalize hcount : some n = count at h
    cases h with
    | single => exact .inl ⟨rfl, Option.some.inj hcount⟩
    | array hlength =>
        cases hcount
        exact .inr ⟨_, rfl, hlength⟩
    | unknown => cases hcount
  · rintro (⟨rfl, rfl⟩ | ⟨text, rfl, hlength⟩)
    · exact .single
    · exact .array hlength

/-- A declarator without white space is read as the name that it declares, with its count. -/
theorem readDeclarator?_eq_some_iff {type declarator name : List Char} {utype : String}
    {count : UInt16} (h : ∀ c ∈ declarator, isBlank c = false) (hname : IsIdentifier name) :
    readDeclarator? type declarator = some ⟨String.ofList name, utype, count⟩ ↔
      String.ofList type = utype ∧ IsDeclarator name declarator (some count.toNat) := by
  have hbracket : '[' ∉ name := hname.not_mem (by decide)
  have hread : ∀ (front : List Char) (n : UInt16),
      (if front.isEmpty then none else some (⟨String.ofList front, String.ofList type, n⟩ :
        StageUniform)) = some ⟨String.ofList name, utype, count⟩ ↔
      String.ofList type = utype ∧ front = name ∧ n = count := by
    intro front n
    cases front with
    | nil => simpa using fun _ h => absurd h hname.1
    | cons c front =>
        rw [if_neg (by simp), Option.some.injEq, StageUniform.mk.injEq, String.ofList_inj,
          and_left_comm]
  rw [isDeclarator_some_iff, readDeclarator?]
  cases hcut : splitOnce '[' declarator with
  | none =>
      have hnot := not_mem_of_splitOnce hcut
      refine (hread declarator 1).trans (and_congr_right fun _ => ?_)
      constructor
      · rintro ⟨rfl, rfl⟩
        exact .inl ⟨rfl, rfl⟩
      · rintro (⟨rfl, hcount⟩ | ⟨text, rfl, -⟩)
        · exact ⟨rfl, UInt16.toNat_inj.mp hcount.symm⟩
        · exact absurd (by simp) hnot
  | some parts =>
      obtain ⟨front, text⟩ := parts
      obtain ⟨rfl, hfront⟩ := eq_append_of_splitOnce hcut
      have htext : ∀ c ∈ text, isBlank c = false := fun c hc => h c (by simp [hc])
      have hiff : ((readLength? text).map fun n => (front, n)).bind (fun read =>
          if read.1.isEmpty then none
          else some (⟨String.ofList read.1, String.ofList type, read.2⟩ : StageUniform)) =
            some ⟨String.ofList name, utype, count⟩ ↔
          ∃ n, readLength? text = some n ∧ String.ofList type = utype ∧ front = name ∧
            n = count := by
        rw [Option.bind_map, Option.bind_eq_some_iff]
        exact exists_congr fun n => and_congr_right fun _ => hread front n
      refine hiff.trans ?_
      constructor
      · rintro ⟨n, hlength, htype, rfl, rfl⟩
        exact ⟨htype, .inr ⟨text, rfl, (readLength?_eq_some_iff htext).mp hlength⟩⟩
      · rintro ⟨htype, ⟨heq, -⟩ | ⟨text', heq, hlength⟩⟩
        · exact absurd (heq ▸ by simp) hbracket
        · have hparts := congrArg (splitOnce '[') heq
          rw [splitOnce_append hfront, splitOnce_append hbracket] at hparts
          cases hparts
          exact ⟨count, (readLength?_eq_some_iff htext).mpr hlength, htype, rfl, rfl⟩

/-- A declarator with a count is one declarator. -/
theorem IsDeclarator.comma_not_mem {name declarator : List Char} {n : Nat}
    (hname : IsIdentifier name) (h : IsDeclarator name declarator (some n)) :
    ',' ∉ declarator := by
  have hcomma : ',' ∉ name := hname.not_mem (by decide)
  rcases isDeclarator_some_iff.mp h with ⟨rfl, -⟩ | ⟨text, rfl, -, digits, closing, rfl, hclosing,
    hdigits⟩
  · exact hcomma
  · intro hmem
    rcases List.mem_append.mp hmem with hmem | hmem
    · exact hcomma hmem
    · rcases List.mem_append.mp ((List.mem_cons.mp hmem).resolve_left (by decide)) with hmem | hmem
      · exact absurd (hdigits.toNat_of_mem _ hmem) (by decide)
      · exact absurd (hclosing _ hmem) (by decide)

/-! ## Statements of either kind -/

/-- The precisions are told by their words. -/
theorem isPrecision_iff {word : List Char} : isPrecision word = true ↔ IsPrecision word := by
  have heq : ∀ w : String, String.ofList word = w ↔ word = w.toList := by
    intro w
    rw [← String.toList_inj, String.toList_ofList]
  simp only [isPrecision, Bool.or_eq_true, decide_eq_true_eq, heq, or_assoc, IsPrecision]

/-- The words behind `uniform` give the type and the list, behind a precision or none. -/
theorem isUniform_iff {s type list : List Char} {more : List (List Char)}
    (h : words s = "uniform".toList :: more) :
    IsUniform s type list ↔ ∃ parts : List (List Char), list = parts.flatten ∧
      (more = type :: parts ∧ ¬IsPrecision type ∨
        ∃ precision, more = precision :: type :: parts ∧ IsPrecision precision) := by
  constructor
  · rintro (⟨hwords, htype⟩ | ⟨hwords, hprecision⟩)
    · exact ⟨_, rfl, .inl ⟨(List.cons.inj (h.symm.trans hwords)).2, htype⟩⟩
    · exact ⟨_, rfl, .inr ⟨_, (List.cons.inj (h.symm.trans hwords)).2, hprecision⟩⟩
  · rintro ⟨parts, rfl, ⟨rfl, htype⟩ | ⟨precision, rfl, hprecision⟩⟩
    · exact .plain h htype
    · exact .precise h hprecision

/-- What follows the word `uniform` is read by the type and the list that it gives. -/
theorem readPlain?_eq_some_iff {rest : List Char} {u : StageUniform} :
    readPlain? rest = some u ↔ (∃ c, rest.head? = some c ∧ isBlank c = true) ∧
      ∃ type list, IsUniform ("uniform".toList ++ rest) type list ∧
        readDeclarator? type list = some u := by
  cases rest with
  | nil => simp [readPlain?]
  | cons c rest =>
      rw [readPlain?]
      split
      · rename_i hc
        have hwords : words ("uniform".toList ++ c :: rest) =
            "uniform".toList :: words (c :: rest) :=
          words_append (by decide) (by decide) (by simpa using hc)
        simp only [isUniform_iff hwords, List.head?_cons, Option.some.injEq, exists_eq_left', hc,
          true_and]
        split
        · rename_i hnone
          simp [hnone]
        · rename_i first more hsome
          rw [hsome]
          split
          · rename_i hfirst
            have hprecision := isPrecision_iff.mp hfirst
            constructor
            · intro hread
              split at hread
              · cases hread
              · rename_i type more
                exact ⟨type, _, ⟨more, rfl, .inr ⟨first, rfl, hprecision⟩⟩, hread⟩
            · rintro ⟨type, list, ⟨parts, rfl, ⟨heq, htype⟩ | ⟨precision, heq, -⟩⟩, hread⟩
              · cases heq
                exact absurd hprecision htype
              · cases heq
                exact hread
          · rename_i hfirst
            have hprecision : ¬IsPrecision first := mt isPrecision_iff.mpr hfirst
            constructor
            · intro hread
              exact ⟨first, _, ⟨more, rfl, .inl ⟨rfl, hprecision⟩⟩, hread⟩
            · rintro ⟨type, list, ⟨parts, rfl, ⟨heq, -⟩ | ⟨precision, heq, h⟩⟩, hread⟩
              · cases heq
                exact hread
              · cases heq
                exact absurd h hprecision
      · rename_i hc
        simp [hc]

/-- White space behind the arguments of a macro is not read. -/
theorem readSampler?_append_blank {type : String} {back : List Char}
    (h : ∀ c ∈ back, isBlank c = true) (arguments : List Char) :
    readSampler? type (arguments ++ back) = readSampler? type arguments := by
  rw [readSampler?, ← trim_trimEnd, trimEnd_append_of_blank h, trim_trimEnd, readSampler?]

/-- Arguments are read behind their parenthesis and up to a comma. -/
theorem readSampler?_eq_some_iff_exists {type utype : String} {arguments name : List Char}
    {count : UInt16} :
    readSampler? type arguments = some ⟨String.ofList name, utype, count⟩ ↔
      type = utype ∧ count = 1 ∧
        ∃ inner, trim arguments = '(' :: inner ∧ trim (inner.takeWhile (· != ',')) = name := by
  unfold readSampler?
  split
  · rename_i inner hinner
    simp only [Option.some.injEq, StageUniform.mk.injEq, String.ofList_inj, hinner,
      List.cons.injEq, true_and, exists_eq_left']
    constructor
    · rintro ⟨hname, htype, hcount⟩
      exact ⟨htype, hcount.symm, hname⟩
    · rintro ⟨htype, rfl, hname⟩
      exact ⟨hname, htype, rfl⟩
  · rename_i hother
    refine iff_of_false (by simp) ?_
    rintro ⟨-, -, inner, hinner, -⟩
    exact hother inner hinner

/-- What is read up to a comma is the first argument. -/
theorem isArguments_of_trim {arguments inner name : List Char}
    (hinner : trim arguments = '(' :: inner) (hname : trim (inner.takeWhile (· != ',')) = name) :
    IsArguments arguments name := by
  obtain ⟨gap, behind, heq, hgap, hbehind⟩ := exists_eq_append_trim_append arguments
  obtain ⟨front, back, hargument, hfront, hback⟩ :=
    exists_eq_append_trim_append (inner.takeWhile (· != ','))
  rw [hname] at hargument
  have hcut : inner.takeWhile (· != ',') ++ inner.dropWhile (· != ',') = inner :=
    List.takeWhile_append_dropWhile
  cases htail : inner.dropWhile (· != ',') with
  | nil =>
      rw [htail, hargument, List.append_nil] at hcut
      refine ⟨gap, front, back ++ behind, [], ?_, hgap, hfront, ?_, by simp⟩
      · rw [heq, hinner, ← hcut]
        simp
      · exact fun c hc => (List.mem_append.mp hc).elim (hback c) (hbehind c)
  | cons c tail =>
      rw [htail, hargument] at hcut
      refine ⟨gap, front, back, c :: (tail ++ behind), ?_, hgap, hfront, hback, fun d hd => ?_⟩
      · rw [heq, hinner, ← hcut]
        simp
      · obtain rfl : c = d := by simpa using hd
        simpa using head?_dropWhile (p := (· != ',')) (s := inner) (by rw [htail]; rfl)

/-- The first argument, without the white space around it, is what is read up to a comma. -/
theorem IsArguments.exists_trim {arguments name : List Char} (h : IsArguments arguments name)
    (hname : IsIdentifier name) :
    ∃ inner, trim arguments = '(' :: inner ∧ trim (inner.takeWhile (· != ',')) = name := by
  obtain ⟨gap, front, back, tail, rfl, hgap, hfront, hback, htail⟩ := h
  refine ⟨trimEnd (front ++ (name ++ back) ++ tail), ?_, ?_⟩
  · rw [trim_append_cons (by decide), trimStart, dropWhile_eq_nil_iff.mpr hgap, List.nil_append,
      List.append_assoc front, List.append_assoc name]
  have htrim : trim (front ++ (name ++ back)) = name :=
    (IsTrimmed.of_forall hname.isBlank_eq_false).trim_append hfront hback
  have hcomma : ',' ∉ front ++ (name ++ back) := by
    have hblank : ∀ gap : List Char, (∀ c ∈ gap, isBlank c = true) → ',' ∉ gap :=
      fun gap hgap hmem => absurd (hgap _ hmem) (by decide)
    simp [hblank front hfront, hblank back hback, hname.not_mem (c := ',') (by decide)]
  cases tail with
  | nil =>
      obtain ⟨behind, hbehind, -⟩ := exists_eq_trimEnd_append (front ++ (name ++ back))
      have hnot : ',' ∉ trimEnd (front ++ (name ++ back)) := fun hmem =>
        hcomma (hbehind ▸ List.mem_append_left behind hmem)
      have hall : (trimEnd (front ++ (name ++ back))).takeWhile (· != ',') =
          trimEnd (front ++ (name ++ back)) :=
        List.takeWhile_eq_self_iff.mpr fun d hd => bne_iff_ne.mpr (ne_of_mem_of_not_mem hd hnot)
      rw [List.append_nil, hall, trim_trimEnd, htrim]
  | cons c tail =>
      obtain rfl : c = ',' := htail c rfl
      rw [trimEnd_append_cons (by decide), takeWhile_ne_append hcomma (by simp), htrim]

/-- The arguments of a macro are read as the name that is the first one. -/
theorem readSampler?_eq_some_iff {type utype : String} {arguments name : List Char}
    {count : UInt16} (hname : IsIdentifier name) :
    readSampler? type arguments = some ⟨String.ofList name, utype, count⟩ ↔
      type = utype ∧ count = 1 ∧ IsArguments arguments name := by
  rw [readSampler?_eq_some_iff_exists]
  refine and_congr_right fun _ => and_congr_right fun _ => ⟨?_, fun h => h.exists_trim hname⟩
  rintro ⟨inner, hinner, hfirst⟩
  exact isArguments_of_trim hinner hfirst

/-- A statement that is read begins with a macro or with the word `uniform`. -/
theorem exists_of_ofStatement? {s : List Char} {u : StageUniform} (h : ofStatement? s = some u) :
    (∃ keyword type arguments, (keyword, type) ∈ samplerMacros ∧
      s = keyword.toList ++ arguments ∧ readSampler? type arguments = some u) ∨
    ∃ rest, s = "uniform".toList ++ rest ∧ readPlain? rest = some u := by
  unfold ofStatement? at h
  split at h
  · rename_i arguments type hfind
    obtain ⟨⟨keyword, type'⟩, hmem, hdrop⟩ := List.exists_of_findSome?_eq_some hfind
    obtain ⟨rest, hrest, heq⟩ := Option.map_eq_some_iff.mp hdrop
    cases heq
    exact .inl ⟨keyword, _, _, hmem, dropPrefix?_eq_some_iff.mp hrest, h⟩
  · obtain ⟨rest, hdrop, hread⟩ := Option.bind_eq_some_iff.mp h
    exact .inr ⟨rest, dropPrefix?_eq_some_iff.mp hdrop, hread⟩

/-- A statement that begins with a macro is read by its arguments. -/
theorem ofStatement?_macro {keyword type : String} (h : (keyword, type) ∈ samplerMacros)
    (arguments : List Char) :
    ofStatement? (keyword.toList ++ arguments) = readSampler? type arguments := by
  simp only [samplerMacros, List.mem_cons, Prod.mk.injEq, List.not_mem_nil, or_false] at h
  rcases h with ⟨rfl, rfl⟩ | ⟨rfl, rfl⟩ | ⟨rfl, rfl⟩ <;> rfl

/-- A statement that begins with the word `uniform` is read by what follows. -/
theorem ofStatement?_uniform (rest : List Char) :
    ofStatement? ("uniform".toList ++ rest) = readPlain? rest :=
  rfl

/-- The keywords of macros have no white space. -/
theorem isBlank_of_mem_keyword {keyword type : String} (h : (keyword, type) ∈ samplerMacros) :
    keyword.toList ≠ [] ∧ ∀ c ∈ keyword.toList, isBlank c = false := by
  simp only [samplerMacros, List.mem_cons, Prod.mk.injEq, List.not_mem_nil, or_false] at h
  rcases h with ⟨rfl, -⟩ | ⟨rfl, -⟩ | ⟨rfl, -⟩ <;> decide

/-- A statement that declares one uniform declares it in a list without commas or by a macro. -/
theorem declares_one_iff {s name : List Char} {type : String} {count : Option Nat} :
    Declares s 0 1 ⟨String.ofList name, type, count⟩ ↔ IsIdentifier name ∧
      ((∃ word list, IsUniform s word list ∧ String.ofList word = type ∧
          IsDeclarator name list count ∧ ',' ∉ list) ∨
        ∃ keyword arguments, (keyword, type) ∈ samplerMacros ∧ s = keyword.toList ++ arguments ∧
          IsArguments arguments name ∧ count = some 1) := by
  constructor
  · intro h
    generalize hd : Declaration.mk (String.ofList name) type count = d at h
    generalize hn : 1 = n at h
    generalize hk : 0 = k at h
    cases h with
    | uniform hs hdeclarator hname hcount =>
        obtain ⟨hname', rfl, rfl⟩ := Declaration.mk.inj hd
        obtain rfl := String.ofList_inj.mp hname'
        subst hk
        have hcomma := length_splitOn_eq_one_iff.mp hn.symm
        rw [List.splitOn_eq_singleton hcomma, List.getElem?_cons_zero,
          Option.some.injEq] at hdeclarator
        subst hdeclarator
        exact ⟨hname, .inl ⟨_, _, hs, rfl, hcount, hcomma⟩⟩
    | sampler hkind hs hname harguments =>
        obtain ⟨hname', rfl, rfl⟩ := Declaration.mk.inj hd
        obtain rfl := String.ofList_inj.mp hname'
        exact ⟨hname, .inr ⟨_, _, hkind, hs, harguments, rfl⟩⟩
  · rintro ⟨hname, ⟨word, list, hs, rfl, hcount, hcomma⟩ | ⟨keyword, arguments, hkind, hs,
      harguments, rfl⟩⟩
    · have hsplit := List.splitOn_eq_singleton hcomma
      have hdeclares := Declares.uniform hs (k := 0) (by rw [hsplit]; rfl) hname hcount
      rwa [hsplit] at hdeclares
    · exact .sampler hkind hs hname harguments

/-- The list of a statement is read from its words. -/
theorem IsUniform.of_words_eq {s t type list : List Char} (h : IsUniform s type list)
    (hwords : words s = words t) : IsUniform t type list := by
  cases h with
  | plain h htype => exact .plain (hwords ▸ h) htype
  | precise h hprecision => exact .precise (hwords ▸ h) hprecision

/-- The characters of the list of a statement are characters of its words. -/
theorem IsUniform.exists_word {s type list : List Char} (h : IsUniform s type list) {c : Char}
    (hc : c ∈ list) : ∃ word ∈ words s, c ∈ word := by
  cases h with
  | plain heq _ =>
      obtain ⟨word, hword, hc⟩ := List.mem_flatten.mp hc
      exact ⟨word, by simp [heq, hword], hc⟩
  | precise heq _ =>
      obtain ⟨word, hword, hc⟩ := List.mem_flatten.mp hc
      exact ⟨word, by simp [heq, hword], hc⟩

/-- The list of a statement has no white space. -/
theorem IsUniform.isBlank_eq_false {s type list : List Char} (h : IsUniform s type list) :
    ∀ c ∈ list, isBlank c = false := by
  intro c hc
  obtain ⟨word, hword, hc⟩ := h.exists_word hc
  exact isBlank_of_mem_words hword hc

/-- The word `uniform` stands in front of the words that a statement of its kind has. -/
theorem IsUniform.words_eq_cons {s type list : List Char} (h : IsUniform s type list) :
    ∃ word more, words s = "uniform".toList :: word :: more := by
  cases h with
  | plain hwords _ => exact ⟨_, _, hwords⟩
  | precise hwords _ => exact ⟨_, _, hwords⟩

/-- A statement that begins with another character than white space is read as a uniform with
an identifier as its name if this is the only one that it declares, with a number as its
count. -/
theorem ofStatement?_eq_some_iff {s : List Char}
    (hs : ∀ c, s.head? = some c → isBlank c = false) {u : StageUniform}
    (hname : IsIdentifier u.name.toList) :
    ofStatement? (trim s) = some u ↔ Declares s 0 1 u.declaration := by
  obtain ⟨name, utype, count⟩ := u
  obtain ⟨name, rfl⟩ : ∃ s, name = String.ofList s := ⟨name.toList, String.ofList_toList.symm⟩
  rw [String.toList_ofList] at hname
  rw [StageUniform.declaration, declares_one_iff, and_iff_right hname]
  constructor
  · intro h
    rcases exists_of_ofStatement? h with ⟨keyword, type, arguments, hkind, htrim, hread⟩ |
      ⟨rest, htrim, hread⟩
    · right
      obtain ⟨back, heq, hback⟩ := exists_eq_trimEnd_append s
      have hstart : trim s = trimEnd s := by rw [trim, trimStart, dropWhile_eq_self hs]
      rw [← hstart, htrim, List.append_assoc] at heq
      rw [← readSampler?_append_blank hback, readSampler?_eq_some_iff hname] at hread
      obtain ⟨rfl, rfl, harguments⟩ := hread
      exact ⟨keyword, _, hkind, heq, harguments, rfl⟩
    · left
      obtain ⟨-, word, list, huniform, hread⟩ := readPlain?_eq_some_iff.mp hread
      rw [← htrim] at huniform
      obtain ⟨htype, hcount⟩ :=
        (readDeclarator?_eq_some_iff huniform.isBlank_eq_false hname).mp hread
      exact ⟨word, list, huniform.of_words_eq (words_trim s), htype, hcount,
        hcount.comma_not_mem hname⟩
  · rintro (⟨word, list, huniform, htype, hcount, -⟩ | ⟨keyword, arguments, hkind, rfl,
      harguments, hone⟩)
    · have htrimmed := huniform.of_words_eq (words_trim s).symm
      obtain ⟨first, more, hwords⟩ := htrimmed.words_eq_cons
      obtain ⟨rest, heq, hblank, hrest⟩ := exists_of_words_eq_cons (isTrimmed_trim s).head hwords
      rw [heq, ofStatement?_uniform, readPlain?_eq_some_iff, ← heq]
      refine ⟨?_, word, list, htrimmed,
        (readDeclarator?_eq_some_iff huniform.isBlank_eq_false hname).mpr ⟨htype, hcount⟩⟩
      cases rest with
      | nil => simp [words] at hrest
      | cons c rest => exact ⟨c, rfl, hblank c rfl⟩
    · obtain ⟨hne, hkeyword⟩ := isBlank_of_mem_keyword hkind
      obtain ⟨back, hback, hbehind⟩ := exists_eq_trimEnd_append arguments
      rw [trim_append_of_not_blank hne hkeyword, ofStatement?_macro hkind,
        ← readSampler?_append_blank hbehind, ← hback, readSampler?_eq_some_iff hname]
      exact ⟨rfl, UInt16.toNat_inj.mp (Option.some.inj hone), harguments⟩

/-! ## Signs of a declaration -/

/-- A statement that declares a uniform begins with the word `uniform` or with a macro. -/
theorem Declares.exists_prefix {s : List Char} {k n : Nat} {d : Declaration}
    (h : Declares s k n d) (hs : ∀ c, s.head? = some c → isBlank c = false) :
    ∃ keyword ∈ "uniform" :: samplerMacros.map Prod.fst, keyword.toList <+: s := by
  cases h with
  | uniform huniform _ _ _ =>
      obtain ⟨word, more, hwords⟩ := huniform.words_eq_cons
      obtain ⟨rest, rfl, -, -⟩ := exists_of_words_eq_cons hs hwords
      exact ⟨"uniform", List.mem_cons_self, List.prefix_append _ _⟩
  | sampler hkind heq _ _ =>
      subst heq
      exact ⟨_, List.mem_cons_of_mem _ (List.mem_map_of_mem hkind), List.prefix_append _ _⟩

/-- The characters of the list of a statement are characters of the statement. -/
theorem IsUniform.mem_of_mem {s type list : List Char} (h : IsUniform s type list) {c : Char}
    (hc : c ∈ list) : c ∈ s := by
  obtain ⟨word, hword, hc⟩ := h.exists_word hc
  exact mem_of_mem_splitOnP (List.mem_of_mem_filter hword) hc

/-- A statement without commas declares one uniform, and one without brackets no array. -/
theorem Declares.eq_one {s : List Char} {k n : Nat} {d : Declaration} (h : Declares s k n d)
    (hcomma : ',' ∉ s) (hbracket : '[' ∉ s) : n = 1 ∧ d.count = some 1 := by
  cases h with
  | uniform huniform hk _ hdeclarator =>
      have hnot := mt huniform.mem_of_mem hcomma
      refine ⟨length_splitOn_eq_one_iff.mpr hnot, ?_⟩
      have hmem := List.mem_of_getElem? hk
      rw [List.splitOn_eq_singleton hnot, List.mem_singleton] at hmem
      subst hmem
      cases hdeclarator with
      | single => rfl
      | array => exact absurd (huniform.mem_of_mem (by simp)) hbracket
      | unknown => exact absurd (huniform.mem_of_mem (by simp)) hbracket
  | sampler => exact ⟨rfl, rfl⟩

end Reflection
end ShaderAssets
