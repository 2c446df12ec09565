import Mathlib.Data.List.Induction
import ShaderAssets.Stage.Balance

/-!
# Matched brackets

The brackets of a code match if they are nested pairs of one kind each.  The check reads
the code once with a stack of open brackets.  Behind a front of the code the stack holds
what this front leaves open: brackets with nothing but matched brackets before, between and
behind them.

Main results:

- Relation {lit}`Matched`: the nested words of three kinds of brackets.
- Relation {lit}`LeavesOpen`: what a word of brackets leaves open.
- Theorem {lit}`openAfter?_eq_some_iff`: the stack holds what the code leaves open.
- Theorem {lit}`check_eq_ok_iff`: a whole code passes if its brackets match.
- Theorem {lit}`check_outcome`: which bracket is reported, and on which line, if they do not.
-/

namespace ShaderAssets
namespace Balance

/-! ## Brackets -/

/-- Whether a character is a bracket. -/
def isBracket (c : Char) : Bool :=
  isOpening c || (opener? c).isSome

/-- The brackets of a code, in order. -/
def brackets (code : List Char) : List Char :=
  code.filter isBracket

/-- Brackets match: they are pairs of one kind, side by side or nested. -/
inductive Matched : List Char → Prop where
  | nil : Matched []
  | pair {opening closing : Char} {inner rest : List Char}
      (h : opener? closing = some opening) (hinner : Matched inner) (hrest : Matched rest) :
      Matched (opening :: (inner ++ closing :: rest))

/-- The brackets that a word leaves open, the innermost first: all others match. -/
inductive LeavesOpen : List Char → List Char → Prop where
  | matched {word : List Char} (h : Matched word) : LeavesOpen word []
  | opening {word inner stack : List Char} {c : Char} (h : LeavesOpen word stack)
      (hc : isOpening c = true) (hinner : Matched inner) :
      LeavesOpen (word ++ c :: inner) (c :: stack)

/-- The opening brackets of the three kinds. -/
theorem isOpening_iff {c : Char} : isOpening c = true ↔ c ∈ ['(', '[', '{'] := by
  simp only [isOpening, Bool.or_eq_true, beq_iff_eq, List.mem_cons, List.not_mem_nil, or_false]
  tauto

/-- The pairs of the three kinds. -/
theorem opener?_eq_some_iff {opening closing : Char} : opener? closing = some opening ↔
    (opening, closing) ∈ [('(', ')'), ('[', ']'), ('{', '}')] := by
  simp only [List.mem_cons, List.not_mem_nil, or_false, Prod.mk.injEq]
  constructor
  · intro h
    unfold opener? at h
    split_ifs at h with hcurly hround hsquare <;> cases h
    · exact Or.inr (Or.inr ⟨rfl, hcurly⟩)
    · exact Or.inl ⟨rfl, hround⟩
    · exact Or.inr (Or.inl ⟨rfl, hsquare⟩)
  · rintro (⟨rfl, rfl⟩ | ⟨rfl, rfl⟩ | ⟨rfl, rfl⟩) <;> rfl

/-- The bracket that a closing bracket closes is an opening one. -/
theorem isOpening_of_opener? {opening closing : Char} (h : opener? closing = some opening) :
    isOpening opening = true := by
  rw [opener?_eq_some_iff] at h
  exact isOpening_iff.mpr (List.mem_map_of_mem h (f := Prod.fst))

/-- An opening bracket closes nothing. -/
theorem opener?_of_isOpening {c : Char} (h : isOpening c = true) : opener? c = none := by
  simp only [isOpening_iff, List.mem_cons, List.not_mem_nil, or_false] at h
  rcases h with rfl | rfl | rfl <;> rfl

/-- Matched brackets side by side match. -/
theorem Matched.append {word more : List Char} (h : Matched word) (hmore : Matched more) :
    Matched (word ++ more) := by
  induction h with
  | nil => exact hmore
  | @pair opening closing inner rest h hinner _ _ ih =>
      rw [List.cons_append, List.append_assoc, List.cons_append]
      exact .pair h hinner ih

/-- Matched brackets behind a word leave open what the word does. -/
theorem LeavesOpen.append_matched {word more stack : List Char} (h : LeavesOpen word stack)
    (hmore : Matched more) : LeavesOpen (word ++ more) stack := by
  cases h with
  | matched h => exact .matched (h.append hmore)
  | opening h hc hinner =>
      rw [List.append_assoc, List.cons_append]
      exact .opening h hc (hinner.append hmore)

/-- Nothing is left open exactly by matched brackets. -/
theorem leavesOpen_nil_iff {word : List Char} : LeavesOpen word [] ↔ Matched word :=
  ⟨fun h => by cases h; assumption, .matched⟩

/-! ## The stack -/

/-- The open brackets behind one character; nothing if it closes another bracket than the
innermost open one. -/
def turn? (stack : List Char) (c : Char) : Option (List Char) :=
  if isOpening c then some (c :: stack)
  else
    match opener? c with
    | none => some stack
    | some opening => if stack.head? = some opening then some stack.tail else none

/-- The open brackets behind a code, given those in front of it. -/
def openAfter? (stack code : List Char) : Option (List Char) :=
  code.foldlM turn? stack

/-- An opening bracket is open then. -/
theorem turn?_opening {stack : List Char} {c : Char} (hc : isOpening c = true) :
    turn? stack c = some (c :: stack) := by
  rw [turn?, if_pos hc]

/-- A closing bracket closes its opening one. -/
theorem turn?_closing {stack : List Char} {c opening : Char} (hc : opener? c = some opening) :
    turn? (opening :: stack) c = some stack := by
  have hnot : ¬isOpening c = true := fun h => by
    rw [opener?_of_isOpening h] at hc
    cases hc
  rw [turn?, if_neg hnot, hc]
  exact if_pos rfl

/-- Other characters change nothing. -/
theorem turn?_of_not_isBracket {stack : List Char} {c : Char} (hc : isBracket c = false) :
    turn? stack c = some stack := by
  rw [isBracket, Bool.or_eq_false_iff, Option.isSome_eq_false_iff, Option.isNone_iff_eq_none] at hc
  rw [turn?, if_neg (by simp [hc.1]), hc.2]

/-- The check stops at a closing bracket that does not match the innermost open one. -/
theorem turn?_eq_none_iff {stack : List Char} {c : Char} :
    turn? stack c = none ↔ ∃ opening, opener? c = some opening ∧ stack.head? ≠ some opening := by
  cases hc : isOpening c with
  | true => simp [turn?_opening hc, opener?_of_isOpening hc]
  | false => cases hopener : opener? c <;> simp [turn?, hc, hopener]

/-- A character that is passed leaves open what the stack holds then. -/
theorem LeavesOpen.turn {word stack stack' : List Char} {c : Char} (h : LeavesOpen word stack)
    (hturn : turn? stack c = some stack') : LeavesOpen (word ++ brackets [c]) stack' := by
  cases hbracket : isBracket c with
  | false =>
      rw [turn?_of_not_isBracket hbracket, Option.some.injEq] at hturn
      rw [brackets, List.filter_cons_of_neg (by simp [hbracket]), List.filter_nil, List.append_nil,
        ← hturn]
      exact h
  | true =>
      rw [brackets, List.filter_cons_of_pos hbracket, List.filter_nil]
      cases hc : isOpening c with
      | true =>
          rw [turn?_opening hc, Option.some.injEq] at hturn
          rw [← hturn]
          exact .opening h hc .nil
      | false =>
          obtain ⟨opening, hopener⟩ : ∃ opening, opener? c = some opening := by
            rwa [isBracket, hc, Bool.false_or, Option.isSome_iff_exists] at hbracket
          have hhead : stack.head? = some opening := by
            by_contra hne
            rw [turn?_eq_none_iff.mpr ⟨opening, hopener, hne⟩] at hturn
            cases hturn
          cases h with
          | matched h => cases hhead
          | @opening word inner stack outer h _ hinner =>
              -- The bracket makes a matched pair with the innermost open one.
              obtain rfl : outer = opening := by simpa using hhead
              rw [turn?_closing hopener, Option.some.injEq] at hturn
              rw [← hturn, List.append_assoc, List.cons_append]
              exact h.append_matched (.pair hopener hinner .nil)

/-- Matched brackets leave the stack as it was. -/
theorem Matched.openAfter?_eq {word : List Char} (h : Matched word) (stack : List Char) :
    openAfter? stack word = some stack := by
  induction h generalizing stack with
  | nil => rfl
  | @pair opening closing inner rest h _ _ ihinner ihrest =>
      have hclose : openAfter? (opening :: stack) (closing :: rest) = some stack := by
        rw [openAfter?, List.foldlM_cons, turn?_closing h]
        exact ihrest stack
      rw [openAfter?, List.foldlM_cons, turn?_opening (isOpening_of_opener? h)]
      change (inner ++ closing :: rest).foldlM turn? (opening :: stack) = some stack
      rw [List.foldlM_append, ← openAfter?, ihinner (opening :: stack)]
      exact hclose

/-- What a word leaves open is on the stack behind it. -/
theorem LeavesOpen.openAfter?_eq {word stack : List Char} (h : LeavesOpen word stack) :
    openAfter? [] word = some stack := by
  induction h with
  | matched h => exact h.openAfter?_eq []
  | @opening word inner stack c _ hc hinner ih =>
      rw [openAfter?, List.foldlM_append, ← openAfter?, ih]
      change (c :: inner).foldlM turn? stack = some (c :: stack)
      rw [List.foldlM_cons, turn?_opening hc]
      exact hinner.openAfter?_eq (c :: stack)

/-- Only the brackets of a code count. -/
theorem openAfter?_brackets (stack code : List Char) :
    openAfter? stack (brackets code) = openAfter? stack code := by
  induction code generalizing stack with
  | nil => rfl
  | cons c code ih =>
      cases hc : isBracket c with
      | true =>
          rw [brackets, List.filter_cons_of_pos hc, openAfter?, openAfter?, List.foldlM_cons,
            List.foldlM_cons]
          exact congrArg _ (funext ih)
      | false =>
          rw [brackets, List.filter_cons_of_neg (by simp [hc]), ← brackets, ih, openAfter?,
            openAfter?, List.foldlM_cons, turn?_of_not_isBracket hc]
          rfl

/-- The stack behind a code holds what the brackets of the code leave open. -/
theorem openAfter?_eq_some_iff {code stack : List Char} :
    openAfter? [] code = some stack ↔ LeavesOpen (brackets code) stack := by
  constructor
  · intro h
    induction code using List.reverseRecOn generalizing stack with
    | nil =>
        cases h
        exact .matched .nil
    | append_singleton code c ih =>
        rw [openAfter?, List.foldlM_append, Option.bind_eq_bind, Option.bind_eq_some_iff] at h
        obtain ⟨before, hbefore, hturn⟩ := h
        rw [brackets, List.filter_append]
        exact (ih hbefore).turn (by simpa using hturn)
  · intro h
    rw [← openAfter?_brackets]
    exact h.openAfter?_eq

/-- Where no stack is left behind a code, some bracket of the code does not match the
innermost open one. -/
theorem exists_of_openAfter?_eq_none {stack code : List Char} (h : openAfter? stack code = none) :
    ∃ before c after innermost, code = before ++ c :: after ∧
      openAfter? stack before = some innermost ∧ turn? innermost c = none := by
  induction code generalizing stack with
  | nil => cases h
  | cons c code ih =>
      cases hturn : turn? stack c with
      | none => exact ⟨[], c, code, stack, rfl, rfl, hturn⟩
      | some next =>
          rw [openAfter?, List.foldlM_cons, hturn] at h
          obtain ⟨before, d, after, innermost, rfl, hbefore, hstop⟩ := ih h
          refine ⟨c :: before, d, after, innermost, rfl, ?_, hstop⟩
          rw [openAfter?, List.foldlM_cons, hturn]
          exact hbefore

/-! ## Codes -/

/-- The check goes on behind a character that is passed, on the next line behind a line feed. -/
theorem checkFrom_of_turn {line : Nat} {stack stack' rest : List Char} {c : Char}
    (h : turn? stack c = some stack') :
    checkFrom line stack (c :: rest) = checkFrom (line + [c].count '\n') stack' rest := by
  by_cases hline : c = '\n'
  · subst hline
    have hsame : stack = stack' := by
      cases h
      rfl
    rw [checkFrom, if_pos rfl, hsame, List.count_singleton_self]
  · have hcount : [c].count '\n' = 0 := List.count_eq_zero_of_not_mem (by simpa using Ne.symm hline)
    rw [checkFrom, if_neg hline, hcount, Nat.add_zero]
    by_cases hopening : isOpening c = true
    · rw [turn?_opening hopening, Option.some.injEq] at h
      rw [if_pos hopening, h]
    · rw [turn?, if_neg hopening] at h
      rw [if_neg hopening]
      generalize opener? c = opener at h ⊢
      cases opener with
      | none =>
          cases h
          rfl
      | some opening =>
          by_cases hhead : stack.head? = some opening
          · have hsame : some stack.tail = some stack' := (if_pos hhead).symm.trans h
            rw [Option.some.injEq] at hsame
            rw [← hsame]
            exact if_pos hhead
          · have hnone : none = some stack' := (if_neg hhead).symm.trans h
            cases hnone

/-- The check stops at a bracket that does not match. -/
theorem checkFrom_of_stop {line : Nat} {stack rest : List Char} {c : Char}
    (h : turn? stack c = none) :
    checkFrom line stack (c :: rest) = .error (.unexpected c line) := by
  obtain ⟨opening, hopener, hhead⟩ := turn?_eq_none_iff.mp h
  have hline : c ≠ '\n' := by
    rintro rfl
    cases hopener
  have hopening : ¬isOpening c = true := fun hc => by
    rw [opener?_of_isOpening hc] at hopener
    cases hopener
  rw [checkFrom, if_neg hline, if_neg hopening, hopener]
  exact if_neg hhead

/-- The check goes on behind a front whose brackets are passed, on the line that ends it. -/
theorem checkFrom_append {line : Nat} {stack stack' before : List Char}
    (h : openAfter? stack before = some stack') (rest : List Char) :
    checkFrom line stack (before ++ rest) =
      checkFrom (line + before.count '\n') stack' rest := by
  induction before generalizing line stack with
  | nil =>
      cases h
      rfl
  | cons c before ih =>
      rw [openAfter?, List.foldlM_cons, Option.bind_eq_bind, Option.bind_eq_some_iff] at h
      obtain ⟨next, hturn, hnext⟩ := h
      rw [List.cons_append, checkFrom_of_turn hturn, ih hnext, Nat.add_assoc, ← List.count_append,
        List.singleton_append]

/-- On a line of a code a closing bracket does not match the innermost open one, and in front
of it every closing bracket does. -/
def IsFault (code : List Char) (c : Char) (line : Nat) : Prop :=
  ∃ before after stack, code = before ++ c :: after ∧ LeavesOpen (brackets before) stack ∧
    (∃ opening, opener? c = some opening ∧ stack.head? ≠ some opening) ∧
    line = 1 + before.count '\n'

/-- At a fault the check ends. -/
theorem IsFault.check_eq {code : List Char} {c : Char} {line : Nat} (h : IsFault code c line) :
    check code = .error (.unexpected c line) := by
  obtain ⟨before, after, stack, rfl, hopen, hstop, rfl⟩ := h
  rw [check, checkFrom_append (openAfter?_eq_some_iff.mpr hopen),
    checkFrom_of_stop (turn?_eq_none_iff.mpr hstop)]

/-- Without a fault the check ends with what is left open. -/
theorem LeavesOpen.check_eq {code stack : List Char} (h : LeavesOpen (brackets code) stack) :
    check code = checkFrom (1 + code.count '\n') stack [] := by
  have hend : checkFrom 1 [] (code ++ []) = checkFrom (1 + code.count '\n') stack [] :=
    checkFrom_append (openAfter?_eq_some_iff.mpr h) []
  rwa [List.append_nil] at hend

/-- A code has a fault, or its brackets leave some open. -/
theorem isFault_or_leavesOpen (code : List Char) :
    (∃ c line, IsFault code c line) ∨ ∃ stack, LeavesOpen (brackets code) stack := by
  cases h : openAfter? [] code with
  | none =>
      obtain ⟨before, c, after, stack, hcode, hbefore, hstop⟩ := exists_of_openAfter?_eq_none h
      exact Or.inl ⟨c, 1 + before.count '\n', before, after, stack, hcode,
        openAfter?_eq_some_iff.mp hbefore, turn?_eq_none_iff.mp hstop, rfl⟩
  | some stack => exact Or.inr ⟨stack, openAfter?_eq_some_iff.mp h⟩

/-- The three outcomes of the check. -/
theorem check_cases (code : List Char) :
    (check code = .ok () ∧ LeavesOpen (brackets code) []) ∨
    (∃ c line, check code = .error (.unexpected c line) ∧ IsFault code c line) ∨
    ∃ c stack, check code = .error (.unclosed c) ∧ LeavesOpen (brackets code) (c :: stack) := by
  rcases isFault_or_leavesOpen code with ⟨c, line, hfault⟩ | ⟨stack, hopen⟩
  · exact Or.inr (Or.inl ⟨c, line, hfault.check_eq, hfault⟩)
  · cases stack with
    | nil => exact Or.inl ⟨hopen.check_eq, hopen⟩
    | cons c stack => exact Or.inr (Or.inr ⟨c, stack, hopen.check_eq, hopen⟩)

/-- A code passes exactly if its brackets match. -/
theorem check_eq_ok_iff {code : List Char} :
    check code = .ok () ↔ Matched (brackets code) := by
  rw [← leavesOpen_nil_iff]
  refine ⟨fun h => ?_, fun h => h.check_eq⟩
  rcases check_cases code with ⟨-, hopen⟩ | ⟨c, line, herror, -⟩ | ⟨c, stack, herror, -⟩
  · exact hopen
  · cases herror.symm.trans h
  · cases herror.symm.trans h

/-- Brackets are round, square and curly, and each closes one of its kind.  A code passes exactly
if its brackets match.  Otherwise the first closing bracket that does not match the innermost open
one is reported with its line, and where every closing bracket matches, the innermost bracket left
open. -/
theorem check_outcome (code : List Char) :
    (∀ c, isOpening c = true ↔ c ∈ ['(', '[', '{']) ∧
    (∀ opening closing, opener? closing = some opening ↔
      (opening, closing) ∈ [('(', ')'), ('[', ']'), ('{', '}')]) ∧
    (check code = .ok () ↔ Matched (brackets code)) ∧
    (∀ c line, check code = .error (.unexpected c line) ↔ IsFault code c line) ∧
    ∀ c, check code = .error (.unclosed c) ↔
      ∃ stack, LeavesOpen (brackets code) (c :: stack) := by
  refine ⟨fun _ => isOpening_iff, fun _ _ => opener?_eq_some_iff, check_eq_ok_iff,
    fun c line => ⟨fun h => ?_, IsFault.check_eq⟩,
    fun c => ⟨fun h => ?_, fun ⟨_, hopen⟩ => hopen.check_eq⟩⟩
  · rcases check_cases code with ⟨hok, -⟩ | ⟨d, number, herror, hfault⟩ | ⟨d, stack, herror, -⟩
    · cases hok.symm.trans h
    · cases herror.symm.trans h
      exact hfault
    · cases herror.symm.trans h
  · rcases check_cases code with ⟨hok, -⟩ | ⟨d, line, herror, -⟩ | ⟨d, stack, herror, hopen⟩
    · cases hok.symm.trans h
    · cases herror.symm.trans h
    · cases herror.symm.trans h
      exact ⟨stack, hopen⟩

end Balance
end ShaderAssets
