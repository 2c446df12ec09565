import Mathlib.Data.List.Forall2
import Mathlib.Data.Nat.Digits.Defs
import ShaderAssets.Text.Blank
import ShaderAssets.Text.Integer

/-!
# Numbers that digits denote

A run of at least one digit denotes the number with these digits, the first one being the most
significant; letters are digits in either case.  Reading digits from left to right finds this
number, whatever its size, so comparing it with a bound afterwards refuses exactly the texts
of numbers that are too large.

Main results:

- Definition {lit}`Denotes`: a text of digits denotes a number in a base.
- Theorem {lit}`digitValue?_eq_some_iff`: the characters that stand for a digit.
- Theorem {lit}`readDigitsFrom_eq_some_iff`: what reading the remaining digits gives.
- Theorem {lit}`readUnsigned?_eq_some_iff`: the numbers that are read below a bound.
-/

namespace ShaderAssets
namespace Text

/-- A character stands for a digit: it is the digit's figure or letter, in either case. -/
def IsDigit (d : Nat) (c : Char) : Prop :=
  c = d.digitChar ∨ c = d.digitChar.toUpper

/-- A text of at least one digit denotes a number. -/
def Denotes (base : Nat) (s : List Char) (n : Nat) : Prop :=
  ∃ ds : List Nat, ds ≠ [] ∧ (∀ d ∈ ds, d < base) ∧ List.Forall₂ IsDigit ds s ∧
    n = Nat.ofDigits base ds.reverse

/-- A text of digits, with or without a plus sign in front of them, denotes a number. -/
def DenotesUnsigned (base : Nat) (s : List Char) (n : Nat) : Prop :=
  Denotes base s n ∨ ∃ digits, s = '+' :: digits ∧ Denotes base digits n

/-! ## One digit -/

/-- The value of a character by its code. -/
theorem digitValue?_eq (base : Nat) (c : Char) :
    digitValue? base c =
      if 48 ≤ c.toNat ∧ c.toNat ≤ 57 then
        if c.toNat - 48 < base then some (c.toNat - 48) else none
      else if 97 ≤ c.toNat ∧ c.toNat ≤ 102 then
        if c.toNat - 87 < base then some (c.toNat - 87) else none
      else if 65 ≤ c.toNat ∧ c.toNat ≤ 70 then
        if c.toNat - 55 < base then some (c.toNat - 55) else none
      else none := by
  have hle : ∀ a b : Char, a ≤ b ↔ a.toNat ≤ b.toNat := fun a b => Iff.rfl
  unfold digitValue?
  simp only [hle, Char.reduceToNat]
  split
  · rfl
  · split
    · rfl
    · split
      · rfl
      · simp

/-- The characters that stand for a digit, by their codes. -/
theorem isDigit_iff_toNat {d : Nat} (hd : d < 16) (c : Char) :
    IsDigit d c ↔
      if d < 10 then c.toNat = d + 48 else c.toNat = d + 87 ∨ c.toNat = d + 55 := by
  have hcodes : ∀ d < 16, if d < 10 then
        d.digitChar.toNat = d + 48 ∧ d.digitChar.toUpper.toNat = d + 48
      else d.digitChar.toNat = d + 87 ∧ d.digitChar.toUpper.toNat = d + 55 := by
    decide
  rw [IsDigit, ← Char.toNat_inj, ← Char.toNat_inj]
  have hcode := hcodes d hd
  split at hcode
  · rename_i hsmall
    rw [if_pos hsmall, hcode.1, hcode.2, or_self]
  · rename_i hlarge
    rw [if_neg hlarge, hcode.1, hcode.2]

/-- A character has a value in a base of at most sixteen exactly if it stands for this digit
and the base has it. -/
theorem digitValue?_eq_some_iff {base : Nat} (hbase : base ≤ 16) {c : Char} {d : Nat} :
    digitValue? base c = some d ↔ d < base ∧ IsDigit d c := by
  rw [digitValue?_eq]
  constructor
  · intro h
    have hlt : d < base := by grind
    rw [isDigit_iff_toNat (by omega)]
    exact ⟨hlt, by grind⟩
  · rintro ⟨hlt, hdigit⟩
    rw [isDigit_iff_toNat (by omega)] at hdigit
    grind

/-! ## Runs of digits -/

/-- Reading the remaining digits gives the number with the digits of the value so far, as one
digit, in front of them. -/
theorem readDigitsFrom_eq_some_iff {base : Nat} (hbase : base ≤ 16) {s : List Char}
    {value n : Nat} :
    readDigitsFrom base value s = some n ↔
      ∃ ds : List Nat, (∀ d ∈ ds, d < base) ∧ List.Forall₂ IsDigit ds s ∧
        n = Nat.ofDigits base (ds.reverse ++ [value]) := by
  induction s generalizing value with
  | nil => simp [readDigitsFrom, eq_comm]
  | cons c s ih =>
      -- The digit that is read next and the value before it are the two most significant ones.
      have hcarry : ∀ (ds : List Nat) (d : Nat),
          Nat.ofDigits base ((d :: ds).reverse ++ [value]) =
            Nat.ofDigits base (ds.reverse ++ [base * value + d]) := by
        intro ds d
        rw [List.reverse_cons, List.append_assoc, List.singleton_append, Nat.ofDigits_append,
          Nat.ofDigits_append, Nat.ofDigits_cons, Nat.ofDigits_singleton, Nat.ofDigits_singleton,
          Nat.add_comm d]
      rw [readDigitsFrom, Option.bind_eq_bind, Option.bind_eq_some_iff]
      constructor
      · rintro ⟨d, hd, hrest⟩
        obtain ⟨hlt, hdigit⟩ := (digitValue?_eq_some_iff hbase).mp hd
        obtain ⟨ds, hds, hdigits, rfl⟩ := ih.mp hrest
        exact ⟨d :: ds, List.forall_mem_cons.mpr ⟨hlt, hds⟩, .cons hdigit hdigits,
          (hcarry ds d).symm⟩
      · rintro ⟨ds, hds, hdigits, rfl⟩
        cases hdigits with
        | cons hdigit hdigits =>
            rename_i d ds
            obtain ⟨hlt, hds⟩ := List.forall_mem_cons.mp hds
            exact ⟨d, (digitValue?_eq_some_iff hbase).mpr ⟨hlt, hdigit⟩,
              ih.mpr ⟨ds, hds, hdigits, hcarry ds d⟩⟩

/-- The digits of a text are read as the number that they denote. -/
theorem readDigits?_eq_some_iff {base : Nat} (hbase : base ≤ 16) {s : List Char} {n : Nat} :
    readDigits? base s = some n ↔ Denotes base s n := by
  have hzero : ∀ ds : List Nat, Nat.ofDigits base (ds.reverse ++ [0]) =
      Nat.ofDigits base ds.reverse := by
    intro ds
    simp [Nat.ofDigits_append]
  cases s with
  | nil =>
      constructor
      · intro h
        cases h
      · rintro ⟨ds, hne, -, hdigits, -⟩
        cases hdigits
        exact absurd rfl hne
  | cons c s =>
      rw [readDigits?, readDigitsFrom_eq_some_iff hbase]
      · constructor
        · rintro ⟨ds, hds, hdigits, rfl⟩
          refine ⟨ds, ?_, hds, hdigits, hzero ds⟩
          rintro rfl
          cases hdigits
        · rintro ⟨ds, -, hds, hdigits, rfl⟩
          exact ⟨ds, hds, hdigits, (hzero ds).symm⟩
      · exact List.cons_ne_nil c s

/-- A text of digits holds nothing else. -/
theorem Denotes.exists_isDigit {base : Nat} {s : List Char} {n : Nat} (h : Denotes base s n) :
    ∀ c ∈ s, ∃ d < base, IsDigit d c := by
  obtain ⟨ds, -, hds, hdigits, -⟩ := h
  intro c hc
  induction hdigits with
  | nil => cases hc
  | cons hdigit hrest ih =>
      obtain ⟨hd, hds⟩ := List.forall_mem_cons.mp hds
      rcases List.mem_cons.mp hc with rfl | hc
      · exact ⟨_, hd, hdigit⟩
      · exact ih hds hc

/-- Digits are not blank. -/
theorem Denotes.isBlank_eq_false {base : Nat} (hbase : base ≤ 16) {s : List Char} {n : Nat}
    (h : Denotes base s n) : ∀ c ∈ s, isBlank c = false := by
  have hall : ∀ d < 16, isBlank d.digitChar = false ∧ isBlank d.digitChar.toUpper = false := by
    decide
  intro c hc
  obtain ⟨d, hd, hdigit⟩ := h.exists_isDigit c hc
  obtain ⟨hlower, hupper⟩ := hall d (Nat.lt_of_lt_of_le hd hbase)
  rcases hdigit with rfl | rfl
  · exact hlower
  · exact hupper

/-- A text of digits does not begin with a sign. -/
theorem Denotes.ne_plus {base : Nat} (hbase : base ≤ 16) {s : List Char} {n : Nat}
    (h : Denotes base s n) (rest : List Char) : s ≠ '+' :: rest := by
  rintro rfl
  obtain ⟨d, hd, hdigit⟩ := h.exists_isDigit '+' List.mem_cons_self
  rw [isDigit_iff_toNat (Nat.lt_of_lt_of_le hd hbase)] at hdigit
  split at hdigit
  · simp at hdigit
  · simp at hdigit

/-- A number below a bound stays. -/
theorem bind_lt_eq_some_iff {m : Option Nat} {bound n : Nat} :
    (m.bind fun k => if k < bound then some k else none) = some n ↔ m = some n ∧ n < bound := by
  cases m with
  | none => simp
  | some k =>
      rw [Option.bind_some]
      split
      · grind
      · grind

/-- A number is read below a bound exactly if digits denote it, with or without a plus sign,
and it is below the bound. -/
theorem readUnsigned?_eq_some_iff {base bound : Nat} (hbase : base ≤ 16) {s : List Char}
    {n : Nat} :
    readUnsigned? base bound s = some n ↔ DenotesUnsigned base s n ∧ n < bound := by
  unfold readUnsigned?
  dsimp only [Option.bind_eq_bind]
  split
  · rename_i digits
    rw [bind_lt_eq_some_iff, readDigits?_eq_some_iff hbase]
    refine and_congr_left fun _ => ⟨fun h => Or.inr ⟨digits, rfl, h⟩, ?_⟩
    rintro (h | ⟨digits', heq, h⟩)
    · exact absurd rfl (h.ne_plus hbase digits)
    · cases heq
      exact h
  · rename_i hplain
    rw [bind_lt_eq_some_iff, readDigits?_eq_some_iff hbase]
    refine and_congr_left fun _ => ⟨Or.inl, ?_⟩
    rintro (h | ⟨digits, heq, -⟩)
    · exact h
    · exact absurd heq (hplain digits)

/-- A text of digits with or without a sign denotes one number. -/
theorem DenotesUnsigned.unique {base : Nat} (hbase : base ≤ 16) {s : List Char} {m n : Nat}
    (h : DenotesUnsigned base s m) (h' : DenotesUnsigned base s n) : m = n := by
  have hm : readUnsigned? base (m + n + 1) s = some m :=
    (readUnsigned?_eq_some_iff hbase).mpr ⟨h, by omega⟩
  have hn : readUnsigned? base (m + n + 1) s = some n :=
    (readUnsigned?_eq_some_iff hbase).mpr ⟨h', by omega⟩
  exact Option.some.inj (hm.symm.trans hn)

/-- The text of a decimal number has digits and a sign only. -/
theorem DenotesUnsigned.toNat_of_mem {s : List Char} {n : Nat} (h : DenotesUnsigned 10 s n) :
    ∀ c ∈ s, c = '+' ∨ 48 ≤ c.toNat ∧ c.toNat ≤ 57 := by
  have hdigits : ∀ {s : List Char}, Denotes 10 s n → ∀ c ∈ s, 48 ≤ c.toNat ∧ c.toNat ≤ 57 := by
    intro s hs c hc
    obtain ⟨d, hd, hdigit⟩ := hs.exists_isDigit c hc
    rw [isDigit_iff_toNat (by omega), if_pos hd] at hdigit
    omega
  rcases h with h | ⟨digits, rfl, h⟩
  · exact fun c hc => .inr (hdigits h c hc)
  · exact List.forall_mem_cons.mpr ⟨.inl rfl, fun c hc => .inr (hdigits h c hc)⟩

/-- A text of digits with or without a sign has no white space. -/
theorem DenotesUnsigned.isBlank_eq_false {base : Nat} (hbase : base ≤ 16) {s : List Char}
    {n : Nat} (h : DenotesUnsigned base s n) : ∀ c ∈ s, isBlank c = false := by
  rcases h with h | ⟨digits, rfl, h⟩
  · exact h.isBlank_eq_false hbase
  · exact List.forall_mem_cons.mpr ⟨by decide, h.isBlank_eq_false hbase⟩

end Text
end ShaderAssets
