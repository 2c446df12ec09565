import ShaderAssets.Preprocess.Run

/-!
# The grammar of conditions

A condition is a chain of operands with operators of its level between them, from the
loosest level to the tightest, and a chain is evaluated from the left.  The grammar says
which token lists are conditions of a level and what they are worth as signed numbers of
sixty-four bits, without a reading order and without trees.

Reading accepts exactly what the grammar derives.  In one direction every list that was
read is derived, with the value of the tree that was built.  In the other a derived list
is read in front of everything that does not go on with a tighter operator; the chain of
its own level is left open, so that the induction may follow the derivation from the
left.

Main results:

- Relation {lit}`Derives`: the grammar.
- Theorem {lit}`derives_of_readLevel`: what is read is derived.
- Theorem {lit}`Derives.reads`: what is derived is read.
- Theorem {lit}`Derives.value_unique`: a token list has one value.
- Theorem {lit}`evaluate_iff_derives`: evaluating a condition follows the grammar, and every
  text outside it is a bad expression.
-/

namespace ShaderAssets
namespace Condition

open Text

/-! ## Values -/

/-- One for a true proposition and zero for a false one. -/
def truth (p : Prop) [Decidable p] : Int64 :=
  if p then 1 else 0

/-- What an operator asks of its operands. -/
def BinaryOp.Holds (op : BinaryOp) (x y : Int64) : Prop :=
  match op with
  | .or => x ≠ 0 ∨ y ≠ 0
  | .and => x ≠ 0 ∧ y ≠ 0
  | .equal => x = y
  | .notEqual => x ≠ y
  | .less => x < y
  | .greater => y < x
  | .lessOrEqual => x ≤ y
  | .greaterOrEqual => y ≤ x

instance (op : BinaryOp) (x y : Int64) : Decidable (op.Holds x y) := by
  cases op <;> unfold BinaryOp.Holds <;> infer_instance

/-- The worth of a name with a given definition: zero without one, one if it is empty,
else the number it spells, or zero if it spells none. -/
def worth : Option String → Int64
  | none => 0
  | some value => if value = "" then 1 else Int64.ofInt ((readInt64? value.toList).getD 0)

/-- The tokens are a condition of a level with a value. -/
inductive Derives (macros : String → Option String) : Level → List Token → Int64 → Prop where
  | number (v : Int64) : Derives macros .unary [.number v.toInt] v
  | group {tokens : List Token} {v : Int64} (h : Derives macros .or tokens v) :
      Derives macros .unary (.opening :: (tokens ++ [.closing])) v
  | isDefined (target : String) :
      Derives macros .unary [.name "defined", .name target] (truth (macros target).isSome)
  | isDefinedGroup (target : String) :
      Derives macros .unary [.name "defined", .opening, .name target, .closing]
        (truth (macros target).isSome)
  | name {text : String} (h : text ≠ "defined") :
      Derives macros .unary [.name text] (worth (macros text))
  | not {tokens : List Token} {v : Int64} (h : Derives macros .unary tokens v) :
      Derives macros .unary (.not :: tokens) (truth (v = 0))
  | negate {tokens : List Token} {v : Int64} (h : Derives macros .unary tokens v) :
      Derives macros .unary (.minus :: tokens) (-v)
  | operand {level : Level} {tokens : List Token} {v : Int64} (hlevel : level ≠ .unary)
      (h : Derives macros level.next tokens v) : Derives macros level tokens v
  | binary {op : BinaryOp} {left right : List Token} {x y : Int64}
      (hleft : Derives macros op.level left x) (hright : Derives macros op.level.next right y) :
      Derives macros op.level (left ++ .binary op :: right) (truth (op.Holds x y))

variable {macros : String → Option String}

/-! ## Evaluation -/

/-- Truth values are the same numbers. -/
theorem toInt_truth (p : Prop) [Decidable p] : (truth p).toInt = Expr.ofBool (decide p) := by
  unfold truth Expr.ofBool
  by_cases h : p <;> simp [h]

/-- A number is zero in sixty-four bits if it is zero. -/
theorem toInt_eq_zero {v : Int64} : v.toInt = 0 ↔ v = 0 := by
  rw [← Int64.toInt_zero, Int64.toInt_inj]

/-- A comparison with zero asks the same of a number of sixty-four bits. -/
theorem toInt_beq_zero (v : Int64) : (v.toInt == 0) = decide (v = 0) := by
  rw [Bool.eq_iff_iff, beq_iff_eq, decide_eq_true_iff, toInt_eq_zero]

/-- Operators ask the same of numbers of sixty-four bits. -/
theorem apply_toInt (op : BinaryOp) (x y : Int64) :
    Expr.apply x.toInt y.toInt op = (truth (op.Holds x y)).toInt := by
  rw [toInt_truth]
  cases op <;>
    simp [Expr.apply, BinaryOp.Holds, ← Int64.toInt_inj, Int64.lt_iff_toInt_lt,
      Int64.le_iff_toInt_le, bne, Bool.beq_eq_decide_eq]

/-- Negation wraps. -/
theorem wrap_neg_toInt (v : Int64) : Expr.wrap (-v.toInt) = (-v).toInt :=
  (Int64.toInt_neg v).symm

/-- A number that is read lies in its range. -/
theorem mem_range_of_readSigned? {base : Nat} {low high n : Int} {s : List Char}
    (h : readSigned? base low high s = some n) : low ≤ n ∧ n ≤ high := by
  have hrange : ∀ digits : Option Int,
      (digits.bind fun m => if low ≤ m ∧ m ≤ high then some m else none) = some n →
      low ≤ n ∧ n ≤ high := by
    intro digits hdigits
    obtain ⟨m, -, hm⟩ := Option.bind_eq_some_iff.mp hdigits
    split at hm
    · cases hm
      assumption
    · cases hm
  unfold readSigned? at h
  dsimp only at h
  split at h
  · exact hrange _ h
  · exact hrange _ h
  · exact hrange _ h

/-- A number that is read fits sixty-four bits. -/
theorem toInt_ofInt_of_readInt64? {s : List Char} {n : Int} (h : readInt64? s = some n) :
    (Int64.ofInt n).toInt = n := by
  obtain ⟨hlow, hhigh⟩ := mem_range_of_readSigned? h
  refine Int64.toInt_ofInt_of_le ?_ ?_ <;> omega

/-- A name is worth the same number of sixty-four bits. -/
theorem toInt_worth (value : Option String) : (worth value).toInt = Expr.nameValue value := by
  cases value with
  | none => rfl
  | some value =>
      simp only [worth, Expr.nameValue]
      split
      · rfl
      · cases h : readInt64? value.toList with
        | none => rfl
        | some n => exact toInt_ofInt_of_readInt64? h

/-- Asking for a name gives a truth value. -/
theorem eval_isDefined (target : String) :
    (Expr.isDefined target).eval macros = (truth (macros target).isSome).toInt := by
  rw [toInt_truth, Bool.decide_eq_true]
  rfl

/-- Negating a value gives a truth value. -/
theorem eval_not {e : Expr} {v : Int64} (h : e.eval macros = v.toInt) :
    (Expr.not e).eval macros = (truth (v = 0)).toInt := by
  rw [Expr.eval, h, toInt_truth, toInt_beq_zero]

/-! ## What is read is derived -/

/-- The numbers of a token list fit sixty-four bits. -/
def Fits (tokens : List Token) : Prop :=
  ∀ n, .number n ∈ tokens → ∃ v : Int64, v.toInt = n

/-- The tokens after the first fit. -/
theorem Fits.of_cons {token : Token} {tokens : List Token} (h : Fits (token :: tokens)) :
    Fits tokens :=
  fun n hn => h n (List.mem_cons_of_mem token hn)

/-- The tokens at the end fit. -/
theorem Fits.of_append {before after : List Token} (h : Fits (before ++ after)) : Fits after :=
  fun n hn => h n (List.mem_append_right before hn)

section Partial

variable {α β : Type} {f : α → Option β} {a : α} {as : List α} {b : β} {bs : List β}

/-- What a partial function gives for a list, it gives for the first member and the others. -/
theorem mapM_cons_eq_some (h : (a :: as).mapM f = some bs) :
    ∃ b more, f a = some b ∧ as.mapM f = some more ∧ bs = b :: more := by
  rw [List.mapM_cons, Option.bind_eq_bind, Option.bind_eq_some_iff] at h
  obtain ⟨b, hb, h⟩ := h
  rw [Option.bind_eq_bind, Option.bind_eq_some_iff] at h
  obtain ⟨more, hmore, h⟩ := h
  cases h
  exact ⟨b, more, hb, hmore, rfl⟩

/-- What a partial function gives for a list it gives for its members. -/
theorem exists_of_mem_mapM (h : as.mapM f = some bs) (hb : b ∈ bs) : ∃ a ∈ as, f a = some b := by
  induction as generalizing bs with
  | nil =>
      cases h
      cases hb
  | cons a as ih =>
      obtain ⟨b', more, hb', hmore, rfl⟩ := mapM_cons_eq_some h
      rcases List.mem_cons.mp hb with rfl | hb
      · exact ⟨a, List.mem_cons_self, hb'⟩
      · obtain ⟨a', ha', hf⟩ := ih hmore hb
        exact ⟨a', List.mem_cons_of_mem a ha', hf⟩

/-- A partial function that gives something for a list gives something for its members. -/
theorem exists_of_mapM_of_mem (h : as.mapM f = some bs) (ha : a ∈ as) : ∃ b, f a = some b := by
  induction as generalizing bs with
  | nil => cases ha
  | cons a' as ih =>
      obtain ⟨b', more, hb', hmore, -⟩ := mapM_cons_eq_some h
      rcases List.mem_cons.mp ha with rfl | ha
      · exact ⟨b', hb'⟩
      · exact ih hmore ha

end Partial

/-- The tokens of a text fit. -/
theorem fits_of_lex {text : List Char} {tokens : List Token} (h : lex text = some tokens) :
    Fits tokens := by
  intro n hn
  obtain ⟨lexeme, -, htoken⟩ := exists_of_mem_mapM h hn
  unfold token? at htoken
  split at htoken
  · cases htoken
  split at htoken
  · obtain ⟨m, hm, heq⟩ := Option.map_eq_some_iff.mp htoken
    cases heq
    exact ⟨_, toInt_ofInt_of_readInt64? hm⟩
  split at htoken
  · cases htoken
  · unfold symbol? at htoken
    split at htoken <;> cases htoken

/-- The beginning of a token list is a condition of a level with the value of a tree. -/
def Explains (macros : String → Option String) (level : Level) (tokens : List Token) (e : Expr)
    (rest : List Token) : Prop :=
  ∃ used v, tokens = used ++ rest ∧ Derives macros level used v ∧ e.eval macros = v.toInt

/-- A level of operators is read as an operand and what follows it. -/
theorem readLevel_succ {level : Level} (hlevel : level ≠ .unary) (n : Nat)
    (tokens : List Token) :
    Expr.readLevel (n + 1) level tokens =
      match Expr.readLevel n level.next tokens with
      | some (left, rest) => Expr.readChain n level left rest
      | none => none := by
  cases level with
  | unary => exact absurd rfl hlevel
  | or | and | equality | relation => rfl

/-- Reading a level is explained if reading its parts is. -/
theorem explains_of_readLevel_unary {n : Nat}
    (ih : ∀ level tokens e rest, Fits tokens → Expr.readLevel n level tokens = some (e, rest) →
      Explains macros level tokens e rest)
    {tokens : List Token} {e : Expr} {rest : List Token} (hfits : Fits tokens)
    (h : Expr.readLevel (n + 1) .unary tokens = some (e, rest)) :
    Explains macros .unary tokens e rest := by
  simp only [Expr.readLevel] at h
  split at h
  · rename_i more
    obtain ⟨⟨operand, rest'⟩, hoperand, heq⟩ := Option.map_eq_some_iff.mp h
    cases heq
    obtain ⟨used, v, rfl, hused, hv⟩ := ih _ _ _ _ hfits.of_cons hoperand
    exact ⟨.not :: used, _, rfl, hused.not, eval_not hv⟩
  · rename_i more
    obtain ⟨⟨operand, rest'⟩, hoperand, heq⟩ := Option.map_eq_some_iff.mp h
    cases heq
    obtain ⟨used, v, rfl, hused, hv⟩ := ih _ _ _ _ hfits.of_cons hoperand
    refine ⟨.minus :: used, _, rfl, hused.negate, ?_⟩
    rw [Expr.eval, hv, wrap_neg_toInt]
  · cases h
    obtain ⟨v, rfl⟩ := hfits _ List.mem_cons_self
    exact ⟨[_], v, rfl, .number v, rfl⟩
  · split at h
    · rename_i inner rest' hinner
      cases h
      obtain ⟨used, v, rfl, hused, hv⟩ := ih _ _ _ _ hfits.of_cons hinner
      exact ⟨.opening :: (used ++ [.closing]), v, by simp, hused.group, hv⟩
    · cases h
  · split at h
    · rename_i htext
      subst htext
      split at h
      · cases h
        exact ⟨[_, _], _, rfl, .isDefined _, eval_isDefined _⟩
      · cases h
        exact ⟨[_, _, _, _], _, rfl, .isDefinedGroup _, eval_isDefined _⟩
      · cases h
    · rename_i htext
      cases h
      exact ⟨[_], _, rfl, .name htext, (toInt_worth _).symm⟩
  · cases h

/-- A reading of a level with a given bound, and one of a chain behind a left operand, are
explained by the grammar. -/
theorem explains_of_read (n : Nat) :
    (∀ level tokens e rest, Fits tokens → Expr.readLevel n level tokens = some (e, rest) →
      Explains macros level tokens e rest) ∧
    ∀ level left before x tokens e rest, Fits tokens → Derives macros level before x →
      left.eval macros = x.toInt → Expr.readChain n level left tokens = some (e, rest) →
      Explains macros level (before ++ tokens) e rest := by
  induction n with
  | zero =>
      constructor
      · intro level tokens e rest _ h
        cases h
      · intro level left before x tokens e rest _ _ _ h
        cases h
  | succ n ih =>
      obtain ⟨ihlevel, ihchain⟩ := ih
      constructor
      · intro level tokens e rest hfits h
        by_cases hlevel : level = .unary
        · subst hlevel
          exact explains_of_readLevel_unary ihlevel hfits h
        rw [readLevel_succ hlevel] at h
        split at h
        · rename_i left more hleft
          obtain ⟨used, x, rfl, hused, hx⟩ := ihlevel level.next tokens left more hfits hleft
          exact ihchain level left used x more e rest hfits.of_append (.operand hlevel hused) hx h
        · cases h
      · intro level left before x tokens e rest hfits hbefore hleft h
        unfold Expr.readChain at h
        split at h
        · rename_i op more
          split at h
          · rename_i hop
            subst hop
            split at h
            · rename_i right more' hright
              obtain ⟨used, y, rfl, hused, hy⟩ :=
                ihlevel op.level.next more right more' hfits.of_cons hright
              have hboth : (Expr.binary op left right).eval macros =
                  (truth (op.Holds x y)).toInt := by
                rw [Expr.eval, hleft, hy, apply_toInt]
              have hexplains := ihchain op.level (.binary op left right) _ _ more' e rest
                hfits.of_cons.of_append (hbefore.binary hused) hboth h
              rw [List.append_assoc] at hexplains
              exact hexplains
            · cases h
          · cases h
            exact ⟨before, x, rfl, hbefore, hleft⟩
        · cases h
          exact ⟨before, x, rfl, hbefore, hleft⟩

/-- What is read is derived, with the value of the tree that is built. -/
theorem derives_of_readLevel {n : Nat} {level : Level} {tokens : List Token} {e : Expr}
    {rest : List Token} (hfits : Fits tokens)
    (h : Expr.readLevel n level tokens = some (e, rest)) :
    Explains macros level tokens e rest :=
  (explains_of_read n).1 level tokens e rest hfits h

/-! ## What is derived is read -/

/-- How tight a level is. -/
def Level.rank : Level → Nat
  | .or => 0
  | .and => 1
  | .equality => 2
  | .relation => 3
  | .unary => 4

/-- The next level is tighter by one. -/
theorem Level.rank_next {level : Level} (h : level ≠ .unary) :
    level.next.rank = level.rank + 1 := by
  cases level with
  | unary => exact absurd rfl h
  | or | and | equality | relation => rfl

/-- No level is tighter than that of an operand. -/
theorem Level.rank_le (level : Level) : level.rank ≤ 4 := by
  cases level <;> decide

/-- An operator is less tight. -/
theorem BinaryOp.rank_level_lt (op : BinaryOp) : op.level.rank < 4 := by
  cases op <;> decide

/-- An operator is no operand. -/
theorem BinaryOp.level_ne_unary (op : BinaryOp) : op.level ≠ .unary := by
  cases op <;> decide

/-- The tokens do not go on with an operator tighter than a level. -/
def Follows (level : Level) (rest : List Token) : Prop :=
  ∀ op more, rest = .binary op :: more → op.level.rank ≤ level.rank

/-- A chain ends in front of an operator of another level, and of anything else. -/
theorem readChain_of_ne {level : Level} {rest : List Token}
    (h : ∀ op more, rest = .binary op :: more → op.level ≠ level) {m : Nat} (hm : 0 < m)
    (e : Expr) : Expr.readChain m level e rest = some (e, rest) := by
  obtain ⟨m, rfl⟩ := Nat.exists_eq_add_of_lt hm
  unfold Expr.readChain
  split
  · rw [if_neg (h _ _ rfl)]
  · rfl

/-- A condition has tokens. -/
theorem Derives.length_pos {level : Level} {tokens : List Token} {v : Int64}
    (h : Derives macros level tokens v) : 0 < tokens.length := by
  induction h with
  | operand _ _ ih => exact ih
  | binary => rw [List.length_append, List.length_cons]; omega
  | _ => exact Nat.succ_pos _

/-- Reading a level in front of a rest takes the given tokens as its first operands and
goes on with the chain.  The bound of the chain is smaller by no more than the number of
the tokens. -/
def Reads (macros : String → Option String) (level : Level) (used : List Token) (v : Int64) :
    Prop :=
  ∀ rest n, Follows level rest → 8 * used.length + 4 ≤ n + level.rank →
    ∃ e m, n ≤ m + used.length ∧ e.eval macros = v.toInt ∧
      Expr.readLevel n level (used ++ rest) = Expr.readChain m level e rest

/-- A level that is read takes the tokens and leaves the rest, if the rest cannot go on
with the level. -/
theorem Reads.readLevel_eq_some {level : Level} {used : List Token} {v : Int64}
    (h : Reads macros level used v) (hused : 0 < used.length) (rest : List Token)
    (hrest : ∀ op more, rest = .binary op :: more → op.level.rank < level.rank) {n : Nat}
    (hn : 8 * used.length + 4 ≤ n + level.rank) :
    ∃ e, e.eval macros = v.toInt ∧
      Expr.readLevel n level (used ++ rest) = some (e, rest) := by
  obtain ⟨e, m, hm, he, heq⟩ := h rest n (fun op more hop => Nat.le_of_lt (hrest op more hop)) hn
  have hrank := level.rank_le
  refine ⟨e, he, heq.trans (readChain_of_ne (fun op more hop hlevel => ?_) (by omega) e)⟩
  have hlt := hrest op more hop
  rw [hlevel] at hlt
  exact absurd hlt (Nat.lt_irrefl _)

/-- An operand is read if it is read alone. -/
theorem reads_unary {used : List Token} {v : Int64} (hused : 0 < used.length)
    (h : ∀ rest n, 8 * used.length ≤ n + 1 → ∃ e, e.eval macros = v.toInt ∧
      Expr.readLevel (n + 1) .unary (used ++ rest) = some (e, rest)) :
    Reads macros .unary used v := by
  intro rest n _ hn
  have hpos : 8 * used.length ≤ n := by simpa [Level.rank] using hn
  obtain ⟨n, rfl⟩ := Nat.exists_eq_add_one_of_ne_zero (n := n) (by omega)
  obtain ⟨e, he, heq⟩ := h rest n hpos
  refine ⟨e, n + 1, Nat.le_add_right _ _, he, heq.trans (Eq.symm ?_)⟩
  exact readChain_of_ne (fun op _ _ => op.level_ne_unary) n.succ_pos e

/-- A level is read if its next level is. -/
theorem Reads.operand {level : Level} {used : List Token} {v : Int64} (hlevel : level ≠ .unary)
    (hused : 0 < used.length) (h : Reads macros level.next used v) :
    Reads macros level used v := by
  intro rest n hrest hn
  have hrank := Level.rank_next hlevel
  have hbound := level.rank_le
  obtain ⟨n, rfl⟩ := Nat.exists_eq_add_one_of_ne_zero (n := n) (by omega)
  obtain ⟨e, he, heq⟩ := h.readLevel_eq_some hused rest
    (fun op more hop => hrank ▸ Nat.lt_succ_of_le (hrest op more hop)) (n := n) (by omega)
  refine ⟨e, n, by omega, he, ?_⟩
  rw [readLevel_succ hlevel, heq]

/-- An application is read if its operands are. -/
theorem Reads.binary {op : BinaryOp} {left right : List Token} {x y : Int64}
    (hleft : Reads macros op.level left x) (hright : Reads macros op.level.next right y)
    (hused : 0 < right.length) :
    Reads macros op.level (left ++ .binary op :: right) (truth (op.Holds x y)) := by
  intro rest n hrest hn
  have hrank := Level.rank_next op.level_ne_unary
  have hbound := op.rank_level_lt
  rw [List.length_append, List.length_cons] at hn ⊢
  obtain ⟨e, m, hm, he, heq⟩ := hleft (.binary op :: (right ++ rest)) n
    (fun op' more hop => by cases hop; exact Nat.le_refl _) (by omega)
  obtain ⟨m, rfl⟩ := Nat.exists_eq_add_one_of_ne_zero (n := m) (by omega)
  obtain ⟨e', he', heq'⟩ := hright.readLevel_eq_some hused rest
    (fun op more hop => hrank ▸ Nat.lt_succ_of_le (hrest op more hop)) (n := m) (by omega)
  refine ⟨.binary op e e', m, by omega, by rw [Expr.eval, he, he', apply_toInt], ?_⟩
  rw [List.append_assoc, List.cons_append, heq, Expr.readChain, if_pos rfl, heq']

/-- What is derived is read. -/
theorem Derives.reads {level : Level} {used : List Token} {v : Int64}
    (h : Derives macros level used v) : Reads macros level used v := by
  induction h with
  | number v => exact reads_unary Nat.one_pos fun rest n _ => ⟨.number v.toInt, rfl, rfl⟩
  | @group tokens v h ih =>
      refine reads_unary (Nat.succ_pos _) fun rest n hn => ?_
      rw [List.length_cons, List.length_append, List.length_singleton] at hn
      obtain ⟨e, he, heq⟩ := ih.readLevel_eq_some h.length_pos (.closing :: rest)
        (fun op more hop => nomatch hop) (n := n) (by simp only [Level.rank]; omega)
      refine ⟨e, he, ?_⟩
      rw [List.cons_append, List.append_assoc, List.singleton_append, Expr.readLevel, heq]
  | isDefined target =>
      exact reads_unary Nat.two_pos fun rest n _ => ⟨.isDefined target, eval_isDefined target, rfl⟩
  | isDefinedGroup target =>
      exact reads_unary (Nat.succ_pos _) fun rest n _ =>
        ⟨.isDefined target, eval_isDefined target, rfl⟩
  | @name text h =>
      refine reads_unary Nat.one_pos fun rest n _ => ⟨.name text, (toInt_worth _).symm, ?_⟩
      simp only [List.singleton_append, Expr.readLevel, if_neg h]
  | not h ih =>
      refine reads_unary (Nat.succ_pos _) fun rest n hn => ?_
      rw [List.length_cons] at hn
      obtain ⟨e, he, heq⟩ := ih.readLevel_eq_some h.length_pos rest
        (fun op _ _ => op.rank_level_lt) (n := n) (by simp only [Level.rank]; omega)
      refine ⟨.not e, eval_not he, ?_⟩
      rw [List.cons_append, Expr.readLevel, heq]
      rfl
  | negate h ih =>
      refine reads_unary (Nat.succ_pos _) fun rest n hn => ?_
      rw [List.length_cons] at hn
      obtain ⟨e, he, heq⟩ := ih.readLevel_eq_some h.length_pos rest
        (fun op _ _ => op.rank_level_lt) (n := n) (by simp only [Level.rank]; omega)
      refine ⟨.negate e, by rw [Expr.eval, he, wrap_neg_toInt], ?_⟩
      rw [List.cons_append, Expr.readLevel, heq]
      rfl
  | operand hlevel h ih => exact ih.operand hlevel h.length_pos
  | binary hleft hright ihleft ihright => exact ihleft.binary ihright hright.length_pos

/-! ## Whole conditions -/

/-- A token list that is read is derived, if its numbers fit. -/
theorem derives_of_read? {tokens : List Token} (hfits : Fits tokens) {e : Expr}
    (h : Expr.read? tokens = some e) :
    ∃ v, Derives macros .or tokens v ∧ e.eval macros = v.toInt := by
  unfold Expr.read? at h
  split at h
  · rename_i e' hread
    cases h
    obtain ⟨used, v, rfl, hderives, hv⟩ : Explains macros .or tokens e [] :=
      derives_of_readLevel hfits hread
    exact ⟨v, by rwa [List.append_nil], hv⟩
  · cases h

/-- A token list that is derived is read. -/
theorem Derives.read?_eq_some {tokens : List Token} {v : Int64}
    (h : Derives macros .or tokens v) :
    ∃ e, Expr.read? tokens = some e ∧ e.eval macros = v.toInt := by
  obtain ⟨e, he, heq⟩ := h.reads.readLevel_eq_some h.length_pos []
    (fun _ _ hop => nomatch hop) (n := 8 * tokens.length + 8) (by omega)
  rw [List.append_nil] at heq
  exact ⟨e, by rw [Expr.read?, heq], he⟩

/-- A condition has one value. -/
theorem Derives.value_unique {tokens : List Token} {v v' : Int64}
    (h : Derives macros .or tokens v) (h' : Derives macros .or tokens v') : v = v' := by
  obtain ⟨e, hread, he⟩ := h.read?_eq_some
  obtain ⟨e', hread', he'⟩ := h'.read?_eq_some
  cases hread.symm.trans hread'
  exact Int64.toInt_inj.mp (he.symm.trans he')

/-- A text is a condition with a value. -/
def Means (macros : String → Option String) (text : List Char) (v : Int64) : Prop :=
  ∃ tokens, lex text = some tokens ∧ Derives macros .or tokens v

/-- A condition of a value holds if the value is not zero. -/
theorem Means.holds?_eq {text : List Char} {v : Int64} (h : Means macros text v) :
    holds? macros text = some (decide (v ≠ 0)) := by
  obtain ⟨tokens, hlex, hderives⟩ := h
  obtain ⟨e, hread, he⟩ := hderives.read?_eq_some
  simp [holds?, hlex, hread, he, bne, toInt_beq_zero]

-- Comparisons associate to the left, and a comparison binds more tightly than an equality.
example : holds? (fun _ => none) "3 > 2 > 1".toList = some false := by decide +kernel
example : holds? (fun _ => none) "1 == 2 > 1".toList = some true := by decide +kernel

/-- What holds or not is a condition. -/
theorem means_of_holds? {text : List Char} {b : Bool} (h : holds? macros text = some b) :
    ∃ v, Means macros text v := by
  obtain ⟨tokens, hlex, h⟩ := Option.bind_eq_some_iff.mp h
  obtain ⟨e, hread, -⟩ := Option.bind_eq_some_iff.mp h
  obtain ⟨v, hderives, -⟩ := derives_of_read? (fits_of_lex hlex) hread
  exact ⟨v, tokens, hlex, hderives⟩

end Condition

namespace PreprocessState

open Condition

/-- A condition is evaluated to whether it holds. -/
theorem evaluate_of_means {s : PreprocessState} {text : String} {v : Int64}
    (h : Means s.macros.find? text.toList v) (number : Nat) :
    s.evaluate number text = .ok (decide (v ≠ 0)) := by
  rw [evaluate, h.holds?_eq]

/-- What is no condition is a bad expression. -/
theorem evaluate_of_not_means {s : PreprocessState} {text : String}
    (h : ¬∃ v, Means s.macros.find? text.toList v) (number : Nat) :
    s.evaluate number text = .error (.badExpression number text) := by
  unfold evaluate
  split
  · rename_i b hb
    exact absurd (means_of_holds? hb) h
  · rfl

/-- What is evaluated is a condition. -/
theorem evaluate_eq_ok_iff {s : PreprocessState} {number : Nat} {text : String} {b : Bool} :
    s.evaluate number text = .ok b ↔
      ∃ v, Means s.macros.find? text.toList v ∧ b = decide (v ≠ 0) := by
  constructor
  · intro h
    by_cases hmeans : ∃ v, Means s.macros.find? text.toList v
    · obtain ⟨v, hv⟩ := hmeans
      rw [evaluate_of_means hv number] at h
      exact ⟨v, hv, (Except.ok.inj h).symm⟩
    · rw [evaluate_of_not_means hmeans number] at h
      cases h
  · rintro ⟨v, hv, rfl⟩
    exact evaluate_of_means hv number

/-- What is not evaluated is a bad expression. -/
theorem evaluate_eq_error_iff {s : PreprocessState} {number : Nat} {text : String}
    {e : PreprocessError} :
    s.evaluate number text = .error e ↔
      (¬∃ v, Means s.macros.find? text.toList v) ∧ e = .badExpression number text := by
  constructor
  · intro h
    by_cases hmeans : ∃ v, Means s.macros.find? text.toList v
    · obtain ⟨v, hv⟩ := hmeans
      rw [evaluate_of_means hv number] at h
      cases h
    · rw [evaluate_of_not_means hmeans number] at h
      exact ⟨hmeans, (Except.error.inj h).symm⟩
  · rintro ⟨hmeans, rfl⟩
    exact evaluate_of_not_means hmeans number

/-- A condition is evaluated to whether its value in the grammar, which is the only one, is
another number than zero, and every text outside the grammar is a bad expression. -/
theorem evaluate_iff_derives (s : PreprocessState) (number : Nat) (text : String) :
    (∀ b, s.evaluate number text = .ok b ↔
      ∃ tokens v, lex text.toList = some tokens ∧ Derives s.macros.find? .or tokens v ∧
        b = decide (v ≠ 0)) ∧
    (∀ e, s.evaluate number text = .error e ↔
      (¬∃ tokens v, lex text.toList = some tokens ∧ Derives s.macros.find? .or tokens v) ∧
        e = .badExpression number text) ∧
    ∀ tokens v v', Derives s.macros.find? .or tokens v →
      Derives s.macros.find? .or tokens v' → v = v' := by
  have hmeans : (∃ v, Means s.macros.find? text.toList v) ↔
      ∃ tokens v, lex text.toList = some tokens ∧ Derives s.macros.find? .or tokens v :=
    exists_comm
  refine ⟨fun b => ?_, fun e => ?_, fun tokens v v' h h' => h.value_unique h'⟩
  · rw [evaluate_eq_ok_iff]
    constructor
    · rintro ⟨v, ⟨tokens, hlex, hderives⟩, hb⟩
      exact ⟨tokens, v, hlex, hderives, hb⟩
    · rintro ⟨tokens, v, hlex, hderives, hb⟩
      exact ⟨v, ⟨tokens, hlex, hderives⟩, hb⟩
  · rw [evaluate_eq_error_iff, hmeans]

end PreprocessState
end ShaderAssets
