import ShaderAssets.Preprocess.Condition
import ShaderAssets.Proofs.Number.Display
import ShaderAssets.Proofs.Text.Trim

/-!
# Names in conditions

A name that stands alone in a condition has the value of its definition: a whole number
of sixty-four bits is read as that number.  The word {lit}`defined` is an operator and
no name.

Main results:

- Definition {lit}`value?`: the number that a condition evaluates to.
- Theorem {lit}`value?_name`: a name evaluates to the value of its definition.
- Theorem {lit}`readInt64?_intText`: a whole number that was written reads back.
- Theorem {lit}`nameValue_intText`: so it is the value of a name defined as it.
-/

namespace ShaderAssets
namespace Condition

open Text

/-- The number that a condition evaluates to; nothing if it is malformed. -/
def value? (macros : String → Option String) (text : List Char) : Option Int := do
  let tokens ← lex text
  let e ← Expr.read? tokens
  return e.eval macros

/-- A condition holds if it evaluates to another number than zero. -/
theorem holds?_eq (macros : String → Option String) (text : List Char) :
    holds? macros text = (value? macros text).map (· != 0) := by
  unfold holds? value?
  cases lex text with
  | none => rfl
  | some tokens => cases h : Expr.read? tokens <;> simp [h]

/-! ## Reading names -/

/-- A name in the sense of the language: a letter or underscore, then letters, digits
and underscores. -/
structure IsName (s : List Char) : Prop where
  first : ∃ c rest, s = c :: rest ∧ isNameStart c = true
  rest : ∀ c ∈ s, isNameRest c = true

/-- A letter or underscore is no digit. -/
theorem isDigit_of_isNameStart {c : Char} (h : isNameStart c = true) : c.isDigit = false := by
  rw [← Bool.not_eq_true]
  intro hdigit
  delta isNameStart Char.isAlpha Char.isUpper Char.isLower at h
  simp only [Bool.or_eq_true, Bool.and_eq_true, decide_eq_true_eq, beq_iff_eq, ge_iff_le,
    UInt32.le_iff_toNat_le] at h
  simp only [Char.isDigit, Bool.and_eq_true, decide_eq_true_eq, ge_iff_le,
    UInt32.le_iff_toNat_le] at hdigit
  change 48 ≤ c.toNat ∧ c.toNat ≤ 57 at hdigit
  change ((65 ≤ c.toNat ∧ c.toNat ≤ 90) ∨ (97 ≤ c.toNat ∧ c.toNat ≤ 122)) ∨ c = '_' at h
  rcases h with h | rfl
  · omega
  · exact absurd hdigit (by decide)

/-- Characters of names are not blank. -/
theorem isBlank_of_isNameRest {c : Char} (h : isNameRest c = true) : isBlank c = false := by
  simp only [isNameRest, Bool.or_eq_true, beq_iff_eq] at h
  rcases h with h | rfl
  · exact isBlank_of_isAlphanum h
  · decide

/-- A character that names cannot hold is not in a name. -/
theorem IsName.not_mem {s : List Char} (h : IsName s) {c : Char} (hc : isNameRest c = false) :
    c ∉ s := by
  intro hmem
  rw [h.rest c hmem] at hc
  cases hc

/-- A name is not empty. -/
theorem IsName.ne_nil {s : List Char} (h : IsName s) : s ≠ [] := by
  obtain ⟨c, rest, rfl, -⟩ := h.first
  exact List.cons_ne_nil c rest

/-- A name has no white space. -/
theorem IsName.isTrimmed {s : List Char} (h : IsName s) : IsTrimmed s :=
  .of_forall fun c hc => isBlank_of_isNameRest (h.rest c hc)

/-- The characters of a name all go on the lexeme that its first one begins. -/
theorem lexemesFrom_name {pending rest : List Char} {first : Char}
    (hfirst : isNameStart first = true) (hhead : pending.head? = some first)
    (hrest : ∀ c ∈ rest, isNameRest c = true) :
    lexemesFrom pending rest = [pending ++ rest] := by
  induction rest generalizing pending with
  | nil =>
      cases pending with
      | nil => cases hhead
      | cons c pending => simp [lexemesFrom]
  | cons c rest ih =>
      obtain ⟨more, rfl⟩ : ∃ more, pending = first :: more := by
        cases pending with
        | nil => cases hhead
        | cons d more => exact ⟨more, by simpa using hhead⟩
      have hgoes : goesOn (first :: more) c = true := by
        rw [goesOn, isDigit_of_isNameStart hfirst, if_neg Bool.false_ne_true, if_pos hfirst]
        exact hrest c (by simp)
      rw [lexemesFrom, if_pos hgoes, ih rfl fun d hd => hrest d (List.mem_cons_of_mem c hd)]
      simp

/-- A name is one lexeme. -/
theorem lexemes_name {s : List Char} (h : IsName s) : lexemes s = [s] := by
  obtain ⟨⟨c, rest, rfl, hfirst⟩, hrest⟩ := h
  have hgap : isGap c = false := by
    rw [isGap, isBlank_of_isNameRest (hrest c (by simp)), Bool.false_and]
  rw [lexemes, lexemesFrom, goesOn, if_neg Bool.false_ne_true, hgap]
  exact lexemesFrom_name hfirst rfl fun d hd => hrest d (List.mem_cons_of_mem c hd)

/-- A name is one token. -/
theorem lex_name {name : String} (h : IsName name.toList) : lex name.toList = some [.name name] := by
  obtain ⟨c, rest, hname, hfirst⟩ := h.first
  have htoken : token? name.toList = some (.name name) := by
    simp only [hname, token?]
    rw [isDigit_of_isNameStart hfirst, if_neg Bool.false_ne_true, if_pos hfirst, ← hname,
      String.ofList_toList]
  rw [lex, lexemes_name h]
  simp [htoken]

/-- A name evaluates to the value of its definition. -/
theorem value?_name {name : String} (h : IsName name.toList) (hne : name ≠ "defined")
    (macros : String → Option String) :
    value? macros name.toList = some (Expr.nameValue (macros name)) := by
  have hread : Expr.read? [.name name] = some (.name name) := by
    simp [Expr.read?, Expr.readLevel, Expr.readChain, Level.next, hne]
  rw [value?, lex_name h]
  simp [hread, Expr.eval]

/-- A name stands for the value of its definition, as a part of a condition and, apart
from the operator, as a whole condition. -/
theorem eval_name {name : String} (h : IsName name.toList) {macros : String → Option String}
    {n : Int} (hvalue : Expr.nameValue (macros name) = n) :
    (Expr.name name).eval macros = n ∧
      (name ≠ "defined" → value? macros name.toList = some n) :=
  ⟨hvalue, fun hne => by rw [value?_name h hne, hvalue]⟩

/-- The word {lit}`defined` alone is malformed. -/
theorem value?_defined (macros : String → Option String) : value? macros "defined".toList = none := by
  have hread : Expr.read? [.name "defined"] = none := by decide
  have hname : IsName "defined".toList :=
    ⟨⟨'d', _, rfl, by decide⟩, by decide⟩
  rw [value?, lex_name hname]
  simp [hread]

/-! ## Written numbers -/

/-- A whole number of sixty-four bits that was written reads back. -/
theorem readInt64?_intText {n : Int} (h : -0x8000000000000000 ≤ n) (h' : n ≤ 0x7fffffffffffffff) :
    readInt64? (Number.intText n) = some n := by
  have hdigits : readDigits? 10 (Number.natText n.natAbs) = some n.natAbs :=
    readDigits?_toDigits n.natAbs
  by_cases hn : n < 0
  · rw [Number.intText, if_pos hn, readInt64?, readSigned?]
    simp only [hdigits, Option.pure_def, Option.map_some, Option.bind_eq_bind, Option.bind_some]
    rw [if_pos (by omega), Int.ofNat_natAbs_of_nonpos (by omega), Int.neg_neg]
  · have hno_sign : ∀ rest, Number.natText n.natAbs ≠ '+' :: rest ∧
        Number.natText n.natAbs ≠ '-' :: rest := by
      intro rest
      constructor
      · intro heq
        exact absurd (Number.isDigit_of_mem_natText (heq ▸ List.mem_cons_self)) (by decide)
      · intro heq
        exact absurd (Number.isDigit_of_mem_natText (heq ▸ List.mem_cons_self)) (by decide)
    rw [Number.intText, if_neg hn, readInt64?, readSigned?]
    · simp only [hdigits, Option.map_some, Option.bind_eq_bind, Option.bind_some, Int.ofNat_eq_natCast]
      rw [Int.natAbs_of_nonneg (by omega), if_pos ⟨h, h'⟩]
    · exact fun rest heq => (hno_sign rest).1 heq
    · exact fun rest heq => (hno_sign rest).2 heq

/-- A name that is defined as a whole number of thirty-two bits stands for it. -/
theorem nameValue_intText (n : Int32) :
    Expr.nameValue (some (String.ofList (Number.intText n.toInt))) = n.toInt := by
  have hlow := n.le_toInt
  have hhigh := n.toInt_lt
  have hread : readInt64? (Number.intText n.toInt) = some n.toInt :=
    readInt64?_intText (by omega) (by omega)
  have hne : String.ofList (Number.intText n.toInt) ≠ "" := by
    intro hempty
    rw [String.ofList_eq_empty_iff.mp hempty] at hread
    cases hread
  rw [Expr.nameValue, if_neg hne, String.toList_ofList, hread]
  rfl

end Condition
end ShaderAssets
