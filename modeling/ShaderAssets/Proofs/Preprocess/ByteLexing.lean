import ShaderAssets.Proofs.Preprocess.Grammar
import ShaderAssets.Proofs.Preprocess.Lexemes
import ShaderAssets.Proofs.Preprocess.Refinement
import ShaderAssets.Proofs.Text.Bytes

/-!
# Conditions byte by byte

The tokens of a condition can be found by a walk over its bytes.  Each turn of the walk takes
the byte where it stands for a character, and takes the text of a number, a name or an operator
out of the condition by byte positions.  Bytes inside a character may look like white space, and
a part of a text that begins or ends there does not exist.  The walk never comes to such a
place: it moves on over ASCII characters only, and in front of any other it gives up.

Main results:

- Relation {lit}`Walks`: a walk over the bytes of a text, to its end or to a fault.
- Theorem {lit}`turn_lexeme`: one turn in front of a lexeme.
- Theorem {lit}`walks_iff`: a walk ends with the tokens of the text, and without a fault.
- Theorem {lit}`walks_lex`: the walk over any text, and what becomes of texts that are not ASCII.
-/

namespace ShaderAssets
namespace Condition

open Text

/-! ## The walk -/

/-- How a walk ends. -/
inductive Outcome where
  /-- With the tokens of the text. -/
  | tokens (ts : List Token)
  /-- In front of something that is no token. -/
  | refused
  /-- Asking for a part of the text that does not begin and end at boundaries. -/
  | fault
deriving DecidableEq, Repr, Inhabited

/-- What one turn of a walk does. -/
inductive Turn where
  /-- It finds tokens and goes on at a position. -/
  | onwards (found : List Token) (next : Nat)
  /-- It finds the end of the text. -/
  | finished
  | refused
  | fault
deriving DecidableEq, Repr, Inhabited

/-- A turn that goes on behind a token, if there is one. -/
def Turn.ofToken? (token : Option Token) (next : Nat) : Turn :=
  match token with
  | some token => .onwards [token] next
  | none => .refused

/-- The operators, each with its token.  Longer ones come first. -/
def operators : List (String × Token) :=
  [("&&", .binary .and), ("||", .binary .or), ("==", .binary .equal), ("!=", .binary .notEqual),
    ("<=", .binary .lessOrEqual), (">=", .binary .greaterOrEqual), ("<", .binary .less),
    (">", .binary .greater), ("!", .not), ("-", .minus)]

/-- The position behind the bytes from a position on that look like certain characters. -/
def runEnd (p : Char → Bool) (s : String) (i : Nat) : Nat :=
  i + (((bytes s).drop i).takeWhile fun b => p (Char.ofUInt8 b)).length

/-- A turn in front of a number. -/
def numberTurn (s : String) (i : Nat) : Turn :=
  let stop := runEnd Char.isAlphanum s i
  match slice? s i stop with
  | none => .fault
  | some text =>
      .ofToken? ((readInt64? (text.toList.reverse.dropWhile isNumberSuffix).reverse).map .number)
        stop

/-- A turn in front of a name. -/
def nameTurn (s : String) (i : Nat) : Turn :=
  let stop := runEnd isNameRest s i
  match slice? s i stop with
  | none => .fault
  | some text => .onwards [.name text] stop

/-- A turn in front of anything else: an operator, if the rest of the text begins with one. -/
def operatorTurn (s : String) (i : Nat) : Turn :=
  match slice? s i (bytes s).length with
  | none => .fault
  | some rest =>
      match operators.find? fun e => e.1.toList.isPrefixOf rest.toList with
      | some (text, token) => .onwards [token] (i + (bytes text).length)
      | none => .refused

/-- A turn at a byte position. -/
def turn (s : String) (i : Nat) : Turn :=
  match (bytes s)[i]? with
  | none => .finished
  | some b =>
      let c := Char.ofUInt8 b
      if isBlank c then .onwards [] (i + 1)
      else if c = '(' then .onwards [.opening] (i + 1)
      else if c = ')' then .onwards [.closing] (i + 1)
      else if c.isDigit then numberTurn s i
      else if isNameStart c then nameTurn s i
      else operatorTurn s i

/-- A walk over the bytes of a text from a position on, with the tokens found before. -/
inductive Walks (s : String) : Nat → List Token → Outcome → Prop where
  | onwards {i next : Nat} {ts found : List Token} {o : Outcome}
      (h : turn s i = .onwards found next) (hrest : Walks s next (ts ++ found) o) : Walks s i ts o
  | finished {i : Nat} {ts : List Token} (h : turn s i = .finished) : Walks s i ts (.tokens ts)
  | refused {i : Nat} {ts : List Token} (h : turn s i = .refused) : Walks s i ts .refused
  | fault {i : Nat} {ts : List Token} (h : turn s i = .fault) : Walks s i ts .fault

/-- The outcome of a walk that finds the tokens of a text, or refuses it. -/
def Outcome.ofTokens? : Option (List Token) → Outcome
  | some ts => .tokens ts
  | none => .refused

/-- A walk ends in one way only. -/
theorem Walks.unique {s : String} {i : Nat} {ts : List Token} {o o' : Outcome}
    (h : Walks s i ts o) (h' : Walks s i ts o') : o' = o := by
  induction h with
  | onwards h _ ih =>
      cases h' with
      | onwards h' hrest' =>
          cases h.symm.trans h'
          exact ih hrest'
      | finished h' | refused h' | fault h' => cases h.symm.trans h'
  | finished h | refused h | fault h =>
      cases h' with
      | onwards h' _ | finished h' | refused h' | fault h' => cases h.symm.trans h' <;> rfl

/-! ## Bytes that look like characters -/

/-- The characters of names are ASCII. -/
theorem toNat_of_isNameRest {c : Char} (h : isNameRest c = true) : c.toNat < 128 := by
  simp only [isNameRest, Bool.or_eq_true, beq_iff_eq] at h
  rcases h with h | rfl
  · have hrange := toNat_of_isAlphanum h
    omega
  · decide

/-- Letters and digits are characters of names. -/
theorem isNameRest_of_isAlphanum {c : Char} (h : c.isAlphanum = true) : isNameRest c = true := by
  rw [isNameRest, h, Bool.true_or]

/-- Digits are characters of names. -/
theorem isNameRest_of_isDigit {c : Char} (h : c.isDigit = true) : isNameRest c = true :=
  isNameRest_of_isAlphanum (by rw [Char.isAlphanum, h, Bool.or_true])

/-- A byte in front of which a turn does the same as in front of a character. -/
structure LooksLike (d c : Char) : Prop where
  blank : isBlank d = isGap c
  opening : d = '(' ↔ c = '('
  closing : d = ')' ↔ c = ')'
  digit : d.isDigit = c.isDigit
  nameStart : isNameStart d = isNameStart c

/-- An ASCII character looks like itself. -/
theorem LooksLike.of_ascii {c : Char} (hc : c.toNat < 128) : LooksLike c c :=
  ⟨by rw [isGap, decide_eq_true hc, Bool.and_true], Iff.rfl, Iff.rfl, rfl, rfl⟩

/-- Other characters begin no number and no name and are no parentheses. -/
theorem plain_of_not_ascii {c : Char} (hc : 128 ≤ c.toNat) :
    c.isDigit = false ∧ isNameStart c = false ∧ c ≠ '(' ∧ c ≠ ')' := by
  refine ⟨?_, ?_, ?_, ?_⟩
  · rw [← Bool.not_eq_true]
    exact fun h => absurd (toNat_of_isNameRest (isNameRest_of_isDigit h)) (Nat.not_lt.mpr hc)
  · rw [← Bool.not_eq_true]
    exact fun h => absurd (toNat_of_isNameRest (isNameRest_of_isNameStart h)) (Nat.not_lt.mpr hc)
  · rintro rfl
    exact absurd hc (by decide)
  · rintro rfl
    exact absurd hc (by decide)

/-- Other characters look alike unless one of them is blank. -/
theorem LooksLike.of_not_ascii {d c : Char} (hd : 128 ≤ d.toNat) (hblank : isBlank d = false)
    (hc : 128 ≤ c.toNat) : LooksLike d c := by
  obtain ⟨hdigit, hstart, hopening, hclosing⟩ := plain_of_not_ascii hd
  obtain ⟨hdigit', hstart', hopening', hclosing'⟩ := plain_of_not_ascii hc
  refine ⟨?_, iff_of_false hopening hopening', iff_of_false hclosing hclosing', ?_, ?_⟩
  · rw [hblank, isGap, decide_eq_false (Nat.not_lt.mpr hc), Bool.and_false]
  · rw [hdigit, hdigit']
  · rw [hstart, hstart']

/-- The first byte of a character looks like it. -/
theorem exists_firstByte (front : String) (c : Char) (l : List Char) :
    ∃ b, (bytes (front ++ String.ofList (c :: l)))[(bytes front).length]? = some b ∧
      LooksLike (Char.ofUInt8 b) c := by
  have hbyte : ∀ b more, String.utf8EncodeChar c = b :: more →
      (bytes (front ++ String.ofList (c :: l)))[(bytes front).length]? = some b := by
    intro b more hb
    rw [bytes_append, bytes_ofList, List.flatMap_cons, hb, List.getElem?_append_right (le_refl _),
      Nat.sub_self]
    rfl
  by_cases hc : c.toNat < 128
  · obtain ⟨b, hb, hsame⟩ := utf8EncodeChar_of_ascii hc
    exact ⟨b, hbyte b [] hb, by rw [hsame]; exact .of_ascii hc⟩
  · obtain ⟨b, more, hb, hlead⟩ := utf8EncodeChar_of_not_ascii (Nat.le_of_not_lt hc)
    have hsize := b.toNat_lt
    rw [← toNat_ofUInt8] at hlead hsize
    -- The bytes that look like white space are continuations.
    have hblank : isBlank (Char.ofUInt8 b) = false := by
      rw [← Bool.not_eq_true]
      intro h
      simp only [isBlank, Bool.or_eq_true, Bool.and_eq_true, decide_eq_true_eq, beq_iff_eq] at h
      omega
    exact ⟨b, hbyte b more hb, .of_not_ascii (by omega) hblank (Nat.le_of_not_lt hc)⟩

/-! ## One turn -/

section Turns

variable (front : String) {c : Char} {lexeme rest : List Char}

/-- At the end of a text a turn finds it. -/
theorem turn_end : turn front (bytes front).length = .finished := by
  rw [turn, List.getElem?_eq_none (le_refl _)]

/-- In front of a character a turn does what the character asks for. -/
theorem turn_cons (c : Char) (rest : List Char) :
    turn (front ++ String.ofList (c :: rest)) (bytes front).length =
      if isGap c then .onwards [] ((bytes front).length + 1)
      else if c = '(' then .onwards [.opening] ((bytes front).length + 1)
      else if c = ')' then .onwards [.closing] ((bytes front).length + 1)
      else if c.isDigit then numberTurn (front ++ String.ofList (c :: rest)) (bytes front).length
      else if isNameStart c then nameTurn (front ++ String.ofList (c :: rest)) (bytes front).length
      else operatorTurn (front ++ String.ofList (c :: rest)) (bytes front).length := by
  obtain ⟨b, hb, hlike⟩ := exists_firstByte front c rest
  simp only [turn, hb, hlike.blank, hlike.opening, hlike.closing, hlike.digit, hlike.nameStart]

/-- An ASCII character takes one byte. -/
theorem length_bytes_ascii (hc : c.toNat < 128) :
    (bytes (front ++ String.ofList [c])).length = (bytes front).length + 1 := by
  obtain ⟨b, hb, -⟩ := utf8EncodeChar_of_ascii hc
  rw [bytes_append, bytes_ofList, List.flatMap_singleton, hb, List.length_append,
    List.length_singleton]

/-- A run of certain ASCII characters ends where another character follows. -/
theorem runEnd_eq {p : Char → Bool} (hp : ∀ c, p c = true → c.toNat < 128)
    (hlexeme : ∀ c ∈ lexeme, p c = true) (hend : ∀ c, rest.head? = some c → p c = false) :
    runEnd p (front ++ String.ofList (lexeme ++ rest)) (bytes front).length =
      (bytes (front ++ String.ofList lexeme)).length := by
  rw [runEnd, bytes_append, List.drop_left, takeWhile_bytes hp, takeWhile_append hlexeme hend,
    bytes_append, List.length_append]

/-- The text of a lexeme is taken out of the text. -/
theorem slice?_lexeme (lexeme rest : List Char) :
    slice? (front ++ String.ofList (lexeme ++ rest)) (bytes front).length
      (bytes (front ++ String.ofList lexeme)).length = some (String.ofList lexeme) := by
  rw [String.ofList_append]
  exact slice?_append front (String.ofList lexeme) (String.ofList rest)

/-- In front of a number a turn reads it. -/
theorem numberTurn_eq (hlexeme : ∀ c ∈ lexeme, c.isAlphanum = true)
    (hend : ∀ c, rest.head? = some c → c.isAlphanum = false) :
    numberTurn (front ++ String.ofList (lexeme ++ rest)) (bytes front).length =
      .ofToken? ((readInt64? (lexeme.reverse.dropWhile isNumberSuffix).reverse).map .number)
        (bytes (front ++ String.ofList lexeme)).length := by
  have hstop := runEnd_eq front (fun c hc => toNat_of_isNameRest (isNameRest_of_isAlphanum hc))
    hlexeme hend
  simp only [numberTurn, hstop, slice?_lexeme, String.toList_ofList]

/-- In front of a name a turn takes it. -/
theorem nameTurn_eq (hlexeme : ∀ c ∈ lexeme, isNameRest c = true)
    (hend : ∀ c, rest.head? = some c → isNameRest c = false) :
    nameTurn (front ++ String.ofList (lexeme ++ rest)) (bytes front).length =
      .onwards [.name (String.ofList lexeme)] (bytes (front ++ String.ofList lexeme)).length := by
  have hstop := runEnd_eq front (fun c hc => toNat_of_isNameRest hc) hlexeme hend
  simp only [nameTurn, hstop, slice?_lexeme]

/-- A character that makes no operator with the next one is an operator alone, or none. -/
theorem find?_operators_single (hopening : c ≠ '(') (hclosing : c ≠ ')')
    (hend : ∀ d, rest.head? = some d → isPair c d = false) :
    (operators.find? fun e => e.1.toList.isPrefixOf (c :: rest)) =
      (symbol? [c]).map fun token => (String.ofList [c], token) := by
  by_cases hc : c ∈ ['&', '|', '=', '!', '<', '>', '-']
  · simp only [List.mem_cons, List.not_mem_nil, or_false] at hc
    cases rest with
    | nil => rcases hc with rfl | rfl | rfl | rfl | rfl | rfl | rfl <;> rfl
    | cons d rest =>
        have hnext := hend d rfl
        have hflip : ∀ e : Char, (e == d) = (d == e) := fun e => BEq.comm
        rcases hc with rfl | rfl | rfl | rfl | rfl | rfl | rfl <;>
          simp_all [isPair, operators, List.isPrefixOf, symbol?]
  · simp only [List.mem_cons, List.not_mem_nil, or_false, not_or] at hc
    have hflip : ∀ e : Char, (e == c) = (c == e) := fun e => BEq.comm
    have hsymbol : symbol? [c] = none := by
      unfold symbol?
      split <;> simp_all
    rw [hsymbol]
    simp [operators, List.isPrefixOf, hflip, hc]

/-- Two characters that make one operator are found together. -/
theorem find?_operators_pair {d : Char} (hpair : isPair c d = true) :
    (operators.find? fun e => e.1.toList.isPrefixOf (c :: d :: rest)) =
      (symbol? [c, d]).map fun token => (String.ofList [c, d], token) := by
  simp only [isPair, Bool.or_eq_true, Bool.and_eq_true, beq_iff_eq] at hpair
  rcases hpair with (⟨rfl, rfl⟩ | ⟨rfl, rfl⟩) | ⟨rfl, ((rfl | rfl) | rfl) | rfl⟩ <;> rfl

/-- In front of anything else a turn takes the operator that stands there. -/
theorem operatorTurn_eq (h : (operators.find? fun e => e.1.toList.isPrefixOf (lexeme ++ rest)) =
      (symbol? lexeme).map fun token => (String.ofList lexeme, token)) :
    operatorTurn (front ++ String.ofList (lexeme ++ rest)) (bytes front).length =
      .ofToken? (symbol? lexeme) (bytes (front ++ String.ofList lexeme)).length := by
  have hslice := slice?_lexeme front (lexeme ++ rest) []
  rw [List.append_nil] at hslice
  simp only [operatorTurn, hslice, String.toList_ofList, h]
  cases symbol? lexeme with
  | none => rfl
  | some token => rw [bytes_append, List.length_append]; rfl

/-- In front of one character that is a lexeme a turn takes it. -/
theorem turn_single (hgap : isGap c = false) (hdigit : c.isDigit = false)
    (hstart : isNameStart c = false) (hend : ∀ d, rest.head? = some d → isPair c d = false) :
    turn (front ++ String.ofList ([c] ++ rest)) (bytes front).length =
      .ofToken? (symbol? [c]) (bytes (front ++ String.ofList [c])).length := by
  rw [List.singleton_append, turn_cons, if_neg (by simp [hgap])]
  by_cases hopening : c = '('
  · rw [if_pos hopening, hopening, length_bytes_ascii front (by decide)]
    rfl
  by_cases hclosing : c = ')'
  · rw [if_neg hopening, if_pos hclosing, hclosing, length_bytes_ascii front (by decide)]
    rfl
  rw [if_neg hopening, if_neg hclosing, if_neg (by simp [hdigit]), if_neg (by simp [hstart]),
    ← List.singleton_append]
  exact operatorTurn_eq front (find?_operators_single hopening hclosing hend)

/-- In front of two characters that make one operator a turn takes both. -/
theorem turn_pair {d : Char} (hgap : isGap c = false) (hdigit : c.isDigit = false)
    (hstart : isNameStart c = false) (hpair : isPair c d = true) :
    turn (front ++ String.ofList ([c, d] ++ rest)) (bytes front).length =
      .ofToken? (symbol? [c, d]) (bytes (front ++ String.ofList [c, d])).length := by
  have hparentheses : c ≠ '(' ∧ c ≠ ')' := by
    constructor <;> rintro rfl <;> simp [isPair] at hpair
  rw [List.cons_append, turn_cons, if_neg (by simp [hgap]), if_neg hparentheses.1,
    if_neg hparentheses.2, if_neg (by simp [hdigit]), if_neg (by simp [hstart]),
    ← List.cons_append]
  exact operatorTurn_eq front (find?_operators_pair hpair)

/-- In front of a lexeme a turn goes on behind it with its token. -/
theorem turn_lexeme (h : IsLexeme lexeme)
    (hend : ∀ c, rest.head? = some c → goesOn lexeme c = false) :
    turn (front ++ String.ofList (lexeme ++ rest)) (bytes front).length =
      .ofToken? (token? lexeme) (bytes (front ++ String.ofList lexeme)).length := by
  obtain ⟨c, more, rfl⟩ := List.exists_cons_of_ne_nil h.ne_nil
  have hgap : isGap c = false := h.isGap_first
  have hparenthesis : isNameRest c = true → c ≠ '(' ∧ c ≠ ')' := by
    intro hc
    constructor <;> rintro rfl <;> exact absurd hc (by decide)
  cases hdigit : c.isDigit with
  | true =>
      have hnumber : BeginsWith Char.isDigit (c :: more) := ⟨c, more, rfl, hdigit⟩
      have hc := hparenthesis (isNameRest_of_isDigit hdigit)
      rw [List.cons_append, turn_cons, if_neg (by simp [hgap]), if_neg hc.1, if_neg hc.2,
        if_pos hdigit, ← List.cons_append, token?, if_pos hdigit]
      exact numberTurn_eq front (h.isAlphanum_of_number hnumber) fun d hd =>
        (goesOn_number hnumber d).symm.trans (hend d hd)
  | false =>
  cases hstart : isNameStart c with
  | true =>
      have hname : BeginsWith isNameStart (c :: more) := ⟨c, more, rfl, hstart⟩
      have hc := hparenthesis (isNameRest_of_isNameStart hstart)
      rw [List.cons_append, turn_cons, if_neg (by simp [hgap]), if_neg hc.1, if_neg hc.2,
        if_neg (by simp [hdigit]), if_pos hstart, ← List.cons_append, token?,
        if_neg (by simp [hdigit]), if_pos hstart]
      exact nameTurn_eq front (h.isNameRest_of_name hname) fun d hd =>
        (goesOn_name hname d).symm.trans (hend d hd)
  | false =>
      rw [token?, if_neg (by simp [hdigit]), if_neg (by simp [hstart])]
      rcases h.symbol (by simpa [BeginsWith] using hstart) (by simpa [BeginsWith] using hdigit) with
        ⟨d, hd⟩ | ⟨d, e, hd, hpair⟩
      · obtain ⟨rfl, rfl⟩ := List.cons.inj hd
        refine turn_single front hgap hdigit hstart fun d hd => ?_
        have hgoes := hend d hd
        rwa [goesOn, if_neg (by simp [hdigit]), if_neg (by simp [hstart]), List.isEmpty_nil,
          Bool.true_and] at hgoes
      · obtain ⟨rfl, rfl⟩ := List.cons.inj hd
        exact turn_pair front hgap hdigit hstart hpair

end Turns

/-! ## The whole walk -/

/-- A walk over a text that is cut into lexemes finds their tokens. -/
theorem Cuts.walks {s : List Char} {parts : List (List Char)} (h : Cuts s parts) (front : String)
    (ts : List Token) : Walks (front ++ String.ofList s) (bytes front).length ts
      (.ofTokens? ((parts.mapM token?).map (ts ++ ·))) := by
  induction h generalizing front ts with
  | done =>
      have hend := turn_end front
      rw [List.mapM_nil]
      simpa [Outcome.ofTokens?] using Walks.finished hend
  | @gap c s parts hc _ ih =>
      have hascii : c.toNat < 128 := by
        rw [isGap, Bool.and_eq_true, decide_eq_true_eq] at hc
        exact hc.2
      have hturn := turn_cons front c s
      rw [if_pos hc, ← length_bytes_ascii front hascii] at hturn
      have hrest := ih (front ++ String.ofList [c]) (ts ++ [])
      rw [List.append_nil, String.append_assoc, ← String.ofList_append] at hrest
      exact .onwards hturn (by simpa using hrest)
  | @lexeme lexeme s parts hlexeme hend _ ih =>
      have hturn := turn_lexeme front hlexeme hend
      rw [List.mapM_cons]
      cases htoken : token? lexeme with
      | none =>
          rw [htoken] at hturn
          exact .refused hturn
      | some token =>
          rw [htoken] at hturn
          have hrest := ih (front ++ String.ofList lexeme) (ts ++ [token])
          rw [String.append_assoc, ← String.ofList_append] at hrest
          refine .onwards hturn ?_
          cases hparts : parts.mapM token? <;> simpa [hparts] using hrest

/-- A walk over a text ends with its tokens, or refuses it if it has none. -/
theorem walks_iff (s : String) (o : Outcome) :
    Walks s 0 [] o ↔ o = .ofTokens? (lex s.toList) := by
  have hwalk := (cuts_lexemes s.toList).walks "" []
  simp only [String.ofList_toList, String.empty_append, List.nil_append, Option.map_id'] at hwalk
  exact ⟨hwalk.unique, fun h => h ▸ hwalk⟩

/-! ## Other characters than ASCII -/

/-- The characters of operators and parentheses are ASCII. -/
theorem toNat_of_symbol? {lexeme : List Char} {token : Token} (h : symbol? lexeme = some token) :
    ∀ c ∈ lexeme, c.toNat < 128 := by
  unfold symbol? at h
  split at h
  all_goals first | decide | cases h

/-- A lexeme with another character than ASCII is no token. -/
theorem IsLexeme.token?_eq_none {lexeme : List Char} (h : IsLexeme lexeme) {c : Char}
    (hc : c ∈ lexeme) (hascii : 128 ≤ c.toNat) : token? lexeme = none := by
  obtain ⟨first, more, rfl⟩ := List.exists_cons_of_ne_nil h.ne_nil
  have hnot : isNameRest c = true → False := fun hrest => by
    have hlt := toNat_of_isNameRest hrest
    omega
  have hdigit : ¬first.isDigit = true := fun hdigit =>
    hnot (isNameRest_of_isAlphanum (h.isAlphanum_of_number ⟨first, more, rfl, hdigit⟩ c hc))
  have hstart : ¬isNameStart first = true := fun hstart =>
    hnot (h.isNameRest_of_name ⟨first, more, rfl, hstart⟩ c hc)
  rw [token?, if_neg hdigit, if_neg hstart]
  cases hsymbol : symbol? (first :: more) with
  | none => rfl
  | some token => exact absurd (toNat_of_symbol? hsymbol c hc) (Nat.not_lt.mpr hascii)

/-- A text with another character than ASCII has no tokens. -/
theorem lex_eq_none {s : List Char} {c : Char} (hc : c ∈ s) (hascii : 128 ≤ c.toNat) :
    lex s = none := by
  rcases (cuts_lexemes s).isGap_or_mem hc with hgap | ⟨lexeme, hmem, hc⟩
  · rw [isGap, Bool.and_eq_true, decide_eq_true_eq] at hgap
    omega
  · have htoken := ((cuts_lexemes s).isLexeme lexeme hmem).token?_eq_none hc hascii
    cases hlex : lex s with
    | none => rfl
    | some tokens =>
        obtain ⟨token, hsome⟩ := exists_of_mapM_of_mem hlex hmem
        cases htoken.symm.trans hsome

end Condition

namespace PreprocessState

open Condition

/-- A line makes the preprocessor evaluate a condition: it opens a group where lines are
emitted, or turns to another branch of a group there, none of whose branches was taken. -/
def Evaluates (s : PreprocessState) (line : List Char) (text : String) : Prop :=
  (Directive.ofLine line = .condition text ∧ s.active = true) ∨
    (Directive.ofLine line = .otherwiseIf text ∧ ∃ frame outer, s.stack = frame :: outer ∧
      frame.outerActive = true ∧ frame.taken = false)

/-- A condition without tokens is a bad expression. -/
theorem evaluate_of_lex_eq_none {text : String} (h : lex text.toList = none)
    (s : PreprocessState) (number : Nat) :
    s.evaluate number text = .error (.badExpression number text) := by
  rw [evaluate, holds?, h]
  rfl

/-- The error of a condition that is evaluated is the error of the line. -/
theorem Evaluates.onLine_eq {s : PreprocessState} {line : List Char} {text : String}
    (h : s.Evaluates line text) {number : Nat} {e : PreprocessError}
    (herror : s.evaluate number text = .error e)
    (enter : String → PreprocessState → PreprocessResult) :
    Preprocess.onLine enter number line s = .error e := by
  rcases h with ⟨hline, hactive⟩ | ⟨hline, frame, outer, hstack, houter, htaken⟩
  · simp only [Preprocess.onLine, hline, obey, hactive, herror, if_true]
    rfl
  · simp only [Preprocess.onLine, hline, obey, hstack, houter, htaken, herror]
    rfl

end PreprocessState

namespace Condition

/-- The walk over the bytes of any text ends, never asks for a part of the text that does not
begin and end at boundaries of characters, and finds the tokens of the text.  A text with another
character than ASCII has none: as a condition it is a bad expression, wherever it is evaluated,
and preprocessing ends there with this error. -/
theorem walks_lex (s : String) :
    (∀ o, Walks s 0 [] o ↔ o = .ofTokens? (lex s.toList)) ∧
    ((∃ c ∈ s.toList, 128 ≤ c.toNat) →
      lex s.toList = none ∧
      (∀ (state : PreprocessState) number,
        state.evaluate number s = .error (.badExpression number s)) ∧
      ∀ enter number before line after (state state' : PreprocessState) emitted,
        Preprocess.onLines enter number before state = .ok (emitted, state') →
        state'.Evaluates line s →
        Preprocess.onLines enter number (before ++ line :: after) state =
          .error (.badExpression (number + before.length) s)) := by
  refine ⟨walks_iff s, fun ⟨c, hc, hascii⟩ => ?_⟩
  have hlex := lex_eq_none hc hascii
  have hbad := PreprocessState.evaluate_of_lex_eq_none hlex
  refine ⟨hlex, hbad, fun enter number before line after state state' emitted hbefore hline => ?_⟩
  exact Preprocess.onLines_append_cons_error hbefore (hline.onLine_eq (hbad state' _) enter)

/-- A blank that is not ASCII does not separate the lexemes of a condition. -/
theorem walks_lex_sample :
    lex "1\u00a0< 2".toList = none ∧
    Preprocess.onLines (fun _ s => .ok ([], s)) 1 ["x".toList, "#if 1\u00a0< 2".toList, "y".toList]
        default =
      .error (.badExpression 2 "1\u00a0< 2") := by
  obtain ⟨hlex, -, hlines⟩ := (walks_lex "1\u00a0< 2").2 ⟨'\u00a0', by decide, by decide⟩
  refine ⟨hlex, hlines _ 1 ["x".toList] _ ["y".toList] default default ["x".toList] rfl ?_⟩
  exact Or.inl ⟨by decide +kernel, rfl⟩

end Condition
end ShaderAssets
