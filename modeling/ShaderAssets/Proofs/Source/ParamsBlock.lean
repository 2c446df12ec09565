import Mathlib.Data.List.Basic
import Mathlib.Data.List.TakeWhile
import ShaderAssets.Source.Params

/-!
# The declarations of a parameter block

A parameter block is read line by line, but it is no plain list of declarations: a line
of qualifiers alone tags the declaration above it, across blank lines, comments and
lines that say nothing.  Here every line is sorted by itself, without its number and its
neighbours, and a block declares what its lines declare, each with the qualifiers that
follow it.

Main results:

- Definition {lit}`ParamsLine.declared?`: the declaration that a line makes by itself.
- Definition {lit}`Params.following`: the qualifiers in front of the next declaration.
- Theorem {lit}`ParamsLine.sorted_read`: a line is of one of four kinds.
- Theorem {lit}`Params.foldl_addLine_read`: what lines add to the declarations above them.
- Theorem {lit}`Params.uniforms_by_line`: the uniforms and the warnings of a block.
-/

namespace ShaderAssets
namespace Source

open Text

/-! ## Qualifiers -/

/-- A word that tags a declaration. -/
def Token.isQualifier (t : Token) : Bool :=
  t == .word "define" || t == .word "hidden"

namespace Qualifiers

/-- The qualifiers among some tokens. -/
def among (ts : List Token) : Qualifiers where
  isDefine := ts.contains (.word "define")
  isHidden := ts.contains (.word "hidden")

/-- The qualifiers of two places together. -/
def join (p q : Qualifiers) : Qualifiers where
  isDefine := p.isDefine || q.isDefine
  isHidden := p.isHidden || q.isHidden

@[simp]
theorem none_join (q : Qualifiers) : none.join q = q := by
  simp [join, none]

/-- The tokens of two places have the qualifiers of both. -/
theorem among_append (ts us : List Token) : among (ts ++ us) = (among ts).join (among us) := by
  simp [among, join]

/-- Reading takes the qualifiers off the front and adds them. -/
theorem read_eq (q : Qualifiers) (ts : List Token) :
    q.read ts =
      (q.join (among (ts.takeWhile Token.isQualifier)), ts.dropWhile Token.isQualifier) := by
  induction q, ts using Qualifiers.read.induct with
  | case1 q rest ih =>
      rw [read, ih]
      simp [Token.isQualifier, among, join]
  | case2 q rest ih =>
      rw [read, ih]
      simp [Token.isQualifier, among, join]
  | case3 q ts hdefine hhidden =>
      rw [read.eq_3 q ts hdefine hhidden]
      cases ts with
      | nil => simp [among, join]
      | cons t rest =>
          have hplain : t.isQualifier = false := by
            rw [Token.isQualifier, Bool.or_eq_false_iff, beq_eq_false_iff_ne, beq_eq_false_iff_ne]
            exact ⟨fun h => hdefine rest (by rw [h]), fun h => hhidden rest (by rw [h])⟩
          simp [hplain, among, join]

end Qualifiers

namespace UniformDeclaration

@[simp]
theorem qualify_none (u : UniformDeclaration) : u.qualify .none = u := by
  simp [qualify, Qualifiers.none]

/-- Qualifiers may be added one after the other or together. -/
theorem qualify_qualify (u : UniformDeclaration) (p q : Qualifiers) :
    (u.qualify p).qualify q = u.qualify (p.join q) := by
  simp [qualify, Qualifiers.join, Bool.or_assoc]

end UniformDeclaration

/-! ## Lines -/

namespace ParamsLine

/-- The declaration that a line makes by itself: a type behind the leading qualifiers, and
what follows the type. -/
def declared? (line : List Char) : Option UniformDeclaration :=
  let tokens := Token.ofLine line true
  match tokens.dropWhile Token.isQualifier with
  | [] => none
  | keyword :: rest => do
      let type ← UniformType.ofKeyword? keyword.text
      let u ← UniformDeclaration.read? type rest
      some (u.qualify (Qualifiers.among (tokens.takeWhile Token.isQualifier)))

/-- A line of qualifiers alone. -/
def qualifiesOnly (line : List Char) : Bool :=
  let tokens := Token.ofLine line true
  !tokens.isEmpty && tokens.all Token.isQualifier

/-- A line that says something, but neither holds qualifiers alone nor declares anything. -/
def isFaulty (line : List Char) : Bool :=
  !(Token.ofLine line true).isEmpty && !qualifiesOnly line && (declared? line).isNone

/-- The problem of a faulty line with a given number: behind the qualifiers stands no type,
or what follows the type is no declaration. -/
def fault (number : Nat) (line : List Char) : Warning :=
  let tokens := Token.ofLine line true
  let keyword := ((tokens.dropWhile Token.isQualifier).head?.map Token.text).getD ""
  if (UniformType.ofKeyword? keyword).isNone then .unknownUniformType number keyword
  else .malformedUniform number (String.ofList (Text.trim line))

/-- The four kinds of lines, with what is read from them. -/
inductive Sorted (number : Nat) (line : List Char) : ParamsLine → Prop where
  | empty (h : Token.ofLine line true = []) : Sorted number line .empty
  | qualifiers (h : qualifiesOnly line = true) :
      Sorted number line (.qualifiers (Qualifiers.among (Token.ofLine line true)))
  | declaration {u : UniformDeclaration} (h : declared? line = some u) :
      Sorted number line (.declaration u)
  | faulty (h : isFaulty line = true) : Sorted number line (.faulty (fault number line))

variable {line : List Char}

/-- A line without tokens declares nothing. -/
theorem declared?_of_empty (h : Token.ofLine line true = []) : declared? line = none := by
  simp [declared?, h]

/-- A line without tokens holds no qualifiers. -/
theorem qualifiesOnly_of_empty (h : Token.ofLine line true = []) : qualifiesOnly line = false := by
  simp [qualifiesOnly, h]

/-- A line of qualifiers alone declares nothing. -/
theorem declared?_of_qualifiesOnly (h : qualifiesOnly line = true) : declared? line = none := by
  have hall : ∀ t ∈ Token.ofLine line true, t.isQualifier = true := by
    simp only [qualifiesOnly, Bool.and_eq_true, List.all_eq_true] at h
    exact h.2
  have hrest : (Token.ofLine line true).dropWhile Token.isQualifier = [] :=
    List.dropWhile_eq_nil_iff.mpr hall
  simp [declared?, hrest]

/-- What makes a line faulty. -/
theorem isFaulty_iff : isFaulty line = true ↔
    Token.ofLine line true ≠ [] ∧ qualifiesOnly line = false ∧ declared? line = none := by
  simp [isFaulty, and_assoc]

/-- Every line is of one of the four kinds. -/
theorem sorted_read (number : Nat) (line : List Char) :
    Sorted number line (read number line) := by
  unfold read
  simp only [List.isEmpty_iff]
  split
  · rename_i htokens
    exact .empty htokens
  rename_i htokens
  rw [Qualifiers.read_eq, Qualifiers.none_join]
  cases hrest : (Token.ofLine line true).dropWhile Token.isQualifier with
  | nil =>
      have hall : ∀ t ∈ Token.ofLine line true, t.isQualifier = true :=
        List.dropWhile_eq_nil_iff.mp hrest
      have honly : qualifiesOnly line = true := by
        simpa [qualifiesOnly, htokens] using hall
      rw [List.takeWhile_eq_self_iff.mpr hall]
      exact .qualifiers honly
  | cons keyword rest =>
      have honly : qualifiesOnly line = false := by
        rw [← Bool.not_eq_true]
        intro honly
        simp only [qualifiesOnly, Bool.and_eq_true, List.all_eq_true] at honly
        rw [List.dropWhile_eq_nil_iff.mpr honly.2] at hrest
        cases hrest
      have hfaulty : declared? line = none → isFaulty line = true :=
        fun hnone => isFaulty_iff.mpr ⟨htokens, honly, hnone⟩
      dsimp only
      cases htype : UniformType.ofKeyword? keyword.text with
      | none =>
          have hnone : declared? line = none := by simp [declared?, hrest, htype]
          have hfault : fault number line = .unknownUniformType number keyword.text := by
            simp [fault, hrest, htype]
          rw [← hfault]
          exact .faulty (hfaulty hnone)
      | some type =>
          dsimp only
          cases hread : UniformDeclaration.read? type rest with
          | none =>
              have hnone : declared? line = none := by simp [declared?, hrest, htype, hread]
              have hfault : fault number line =
                  .malformedUniform number (String.ofList (Text.trim line)) := by
                simp [fault, hrest, htype]
              rw [← hfault]
              exact .faulty (hfaulty hnone)
          | some u => exact .declaration (by simp [declared?, hrest, htype, hread])

end ParamsLine

/-! ## Blocks -/

namespace Params

open ParamsLine

/-- The qualifiers of the lines of qualifiers alone in front of the next declaration. -/
def following (below : List (List Char)) : Qualifiers :=
  let near := below.takeWhile fun line => (declared? line).isNone
  Qualifiers.among ((near.filter qualifiesOnly).flatMap fun line => Token.ofLine line true)

/-- What lines declare, in order: each declaration with the qualifiers that follow it. -/
def declarations : List (List Char) → List UniformDeclaration
  | [] => []
  | line :: below =>
      match declared? line with
      | some u => u.qualify (following below) :: declarations below
      | none => declarations below

@[simp]
theorem following_nil : following [] = .none :=
  rfl

/-- A declaration ends the reach of the one above it. -/
theorem following_of_declared {line : List Char} {u : UniformDeclaration}
    (h : declared? line = some u) (below : List (List Char)) :
    following (line :: below) = .none := by
  simp [following, h]
  rfl

/-- A line of qualifiers alone adds them. -/
theorem following_of_qualifiesOnly {line : List Char} (h : qualifiesOnly line = true)
    (below : List (List Char)) :
    following (line :: below) =
      (Qualifiers.among (Token.ofLine line true)).join (following below) := by
  simp [following, declared?_of_qualifiesOnly h, h, Qualifiers.among_append]

/-- Any other line is passed over. -/
theorem following_of_other {line : List Char} (hnone : declared? line = none)
    (honly : qualifiesOnly line = false) (below : List (List Char)) :
    following (line :: below) = following below := by
  simp [following, hnone, honly]

theorem declarations_of_declared {line : List Char} {u : UniformDeclaration}
    (h : declared? line = some u) (below : List (List Char)) :
    declarations (line :: below) = u.qualify (following below) :: declarations below := by
  simp [declarations, h]

theorem declarations_of_none {line : List Char} (h : declared? line = none)
    (below : List (List Char)) : declarations (line :: below) = declarations below := by
  simp [declarations, h]

/-! ## Reading a block -/

@[simp]
theorem qualifyLast_nil (q : Qualifiers) : qualifyLast q [] = [] := by
  simp [qualifyLast]

@[simp]
theorem qualifyLast_concat (q : Qualifiers) (us : List UniformDeclaration)
    (u : UniformDeclaration) : qualifyLast q (us ++ [u]) = us ++ [u.qualify q] := by
  have hlast : (us ++ [u]).modify us.length (·.qualify q) = us ++ [u.qualify q] := by
    induction us with
    | nil => rfl
    | cons v us ih => simpa using ih
  simpa [qualifyLast] using hlast

@[simp]
theorem qualifyLast_none (us : List UniformDeclaration) : qualifyLast .none us = us := by
  rcases us.eq_nil_or_concat with rfl | ⟨us, u, rfl⟩ <;> simp

/-- Qualifiers of the last declaration may be added one after the other or together. -/
theorem qualifyLast_qualifyLast (p q : Qualifiers) (us : List UniformDeclaration) :
    qualifyLast q (qualifyLast p us) = qualifyLast (p.join q) us := by
  rcases us.eq_nil_or_concat with rfl | ⟨us, u, rfl⟩ <;>
    simp [UniformDeclaration.qualify_qualify]

/-- Lines add the qualifiers in front of the first declaration to the last declaration
above them, and then what they declare. -/
theorem foldl_addLine_read (numbered : List (List Char × Nat)) (us : List UniformDeclaration) :
    (numbered.map fun (line, number) => ParamsLine.read number line).foldl addLine us =
      qualifyLast (following (numbered.map Prod.fst)) us ++
        declarations (numbered.map Prod.fst) := by
  induction numbered generalizing us with
  | nil => simp [declarations]
  | cons entry numbered ih =>
      obtain ⟨line, number⟩ := entry
      simp only [List.map_cons, List.foldl_cons, ih]
      have hsorted := sorted_read number line
      generalize ParamsLine.read number line = said at hsorted ⊢
      cases hsorted with
      | empty h =>
          rw [addLine, following_of_other (declared?_of_empty h) (qualifiesOnly_of_empty h),
            declarations_of_none (declared?_of_empty h)]
      | qualifiers h =>
          rw [addLine, qualifyLast_qualifyLast, following_of_qualifiesOnly h,
            declarations_of_none (declared?_of_qualifiesOnly h)]
      | declaration h =>
          rw [addLine, qualifyLast_concat, following_of_declared h, declarations_of_declared h]
          simp
      | faulty h =>
          obtain ⟨-, honly, hnone⟩ := isFaulty_iff.mp h
          rw [addLine, following_of_other hnone honly, declarations_of_none hnone]

/-- A block declares what its lines declare. -/
theorem uniforms_eq (text : String) : uniforms text = declarations (linesOf text) := by
  rw [uniforms, readLines, foldl_addLine_read]
  simp

/-- A block has one warning for each faulty line. -/
theorem warnings_eq (text : String) :
    warnings text = ((linesOf text).zipIdx.filter fun (line, _) => isFaulty line).map
      fun (line, number) => fault number line := by
  rw [warnings, readLines, List.filterMap_map, ← List.filterMap_eq_map, List.filterMap_filter]
  refine List.filterMap_congr ?_
  rintro ⟨line, number⟩ -
  have hsorted := sorted_read number line
  simp only [Function.comp_apply]
  generalize ParamsLine.read number line = said at hsorted ⊢
  cases hsorted with
  | empty h => simp [isFaulty, h]
  | qualifiers h => simp [isFaulty, h]
  | declaration h => simp [isFaulty, h]
  | faulty h => simp [h]

/-! ## Lines without effect -/

/-- Faulty lines tag nothing. -/
theorem following_filter (ls : List (List Char)) :
    following (ls.filter fun line => !isFaulty line) = following ls := by
  induction ls with
  | nil => rfl
  | cons line ls ih =>
      by_cases hfaulty : isFaulty line = true
      · obtain ⟨-, honly, hnone⟩ := isFaulty_iff.mp hfaulty
        rw [List.filter_cons_of_neg (by simp [hfaulty]), following_of_other hnone honly, ih]
      · rw [List.filter_cons_of_pos (by simp [hfaulty])]
        cases hdeclared : declared? line with
        | some u => rw [following_of_declared hdeclared, following_of_declared hdeclared]
        | none =>
            cases honly : qualifiesOnly line with
            | true => rw [following_of_qualifiesOnly honly, following_of_qualifiesOnly honly, ih]
            | false =>
                rw [following_of_other hdeclared honly, following_of_other hdeclared honly, ih]

/-- Faulty lines declare nothing. -/
theorem declarations_filter (ls : List (List Char)) :
    declarations (ls.filter fun line => !isFaulty line) = declarations ls := by
  induction ls with
  | nil => rfl
  | cons line ls ih =>
      by_cases hfaulty : isFaulty line = true
      · obtain ⟨-, -, hnone⟩ := isFaulty_iff.mp hfaulty
        rw [List.filter_cons_of_neg (by simp [hfaulty]), declarations_of_none hnone, ih]
      · rw [List.filter_cons_of_pos (by simp [hfaulty])]
        cases hdeclared : declared? line with
        | some u =>
            rw [declarations_of_declared hdeclared, declarations_of_declared hdeclared,
              following_filter, ih]
        | none => rw [declarations_of_none hdeclared, declarations_of_none hdeclared, ih]

/-- Lines in front of the first declaration have no effect. -/
theorem declarations_append {front : List (List Char)}
    (h : ∀ line ∈ front, declared? line = none) (back : List (List Char)) :
    declarations (front ++ back) = declarations back := by
  induction front with
  | nil => rfl
  | cons line front ih =>
      rw [List.cons_append, declarations_of_none (h line (by simp)),
        ih fun l hl => h l (List.mem_cons_of_mem line hl)]

/-- A block declares, in order, what its lines declare by themselves, each declaration with
the qualifiers of the lines of qualifiers alone in front of the next one.  Every faulty
line has one warning with its number, and there are no others.  Two blocks that differ in
faulty lines, or in what stands in front of the first declaration, declare the same. -/
theorem uniforms_by_line (text : String) :
    uniforms text = declarations (linesOf text) ∧
    (warnings text = ((linesOf text).zipIdx.filter fun (line, _) => isFaulty line).map
      fun (line, number) => fault number line) ∧
    (∀ other : String, ((linesOf other).filter fun line => !isFaulty line) =
        ((linesOf text).filter fun line => !isFaulty line) →
      uniforms other = uniforms text) ∧
    ∀ (other : String) (front front' back : List (List Char)),
      linesOf text = front ++ back → linesOf other = front' ++ back →
      (∀ line ∈ front ++ front', declared? line = none) → uniforms other = uniforms text := by
  refine ⟨uniforms_eq text, warnings_eq text, fun other hlines => ?_,
    fun other front front' back htext hother hnone => ?_⟩
  · rw [uniforms_eq, uniforms_eq, ← declarations_filter, hlines, declarations_filter]
  · rw [uniforms_eq, uniforms_eq, htext, hother,
      declarations_append fun line hline => hnone line (List.mem_append_right front hline),
      declarations_append fun line hline => hnone line (List.mem_append_left front' hline)]

/-- A block with qualifiers in front of the first declaration, and others that reach back
across a faulty line. -/
def sampleBlock : String := "hidden\nfloat a // tint\nmat4 b\n\ndefine // c\nint d\nhidden"

/-- The faulty line and the first line of the sample block may go. -/
theorem uniforms_by_line_sample :
    uniforms "hidden\nfloat a // tint\n\ndefine // c\nint d\nhidden" = uniforms sampleBlock ∧
      uniforms "float a // tint\nmat4 b\n\ndefine // c\nint d\nhidden" = uniforms sampleBlock ∧
      uniforms sampleBlock =
        [{ UniformDeclaration.plain .float "a" "a" with isDefine := true },
          { UniformDeclaration.plain .int "d" "d" with isHidden := true }] ∧
      warnings sampleBlock = [.unknownUniformType 2 "mat4"] := by
  obtain ⟨-, -, hfaulty, hfront⟩ := uniforms_by_line sampleBlock
  refine ⟨hfaulty _ (by decide +kernel), ?_, by decide +kernel, by decide +kernel⟩
  exact hfront _ ["hidden".toList] []
    ((linesOf sampleBlock).drop 1) (by decide +kernel) (by decide +kernel) (by decide +kernel)

end Params

end Source
end ShaderAssets
