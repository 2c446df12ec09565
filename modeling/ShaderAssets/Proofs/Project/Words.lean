import ShaderAssets.Project.Config
import ShaderAssets.Proofs.Text.Digits
import ShaderAssets.Proofs.Text.Trim

/-!
# Baseline words

The words of a baseline render state are written as texts.  A text spells a number if, up to
white space around it, it consists of decimal digits, or of `0x` and hexadecimal digits with
underscores anywhere among them.  The words of the state are exactly the numbers that their
texts spell, and a number that does not fit its word is refused.

Main results:

- Definition {lit}`Spells`: a text spells a number.
- Theorem {lit}`Spells.unique`: it spells one number at most.
- Theorem {lit}`readWord?_eq_some_iff`: a text is read as the word with the number it spells.
- Theorem {lit}`baseline_eq_ok_iff`: the words of a baseline state.
- Theorem {lit}`baseline_words`: the words that are read, and the texts that are refused.
-/

namespace ShaderAssets
namespace ProjectConfig

open Render (StateWords)
open Text (DenotesUnsigned IsTrimmed)

/-! ## Spellings -/

/-- A text without white space around it spells a number.  A plus sign may stand in front of
the digits. -/
inductive SpellsWord : List Char → Nat → Prop where
  | hexadecimal {digits : List Char} {n : Nat}
      (h : DenotesUnsigned 16 (digits.filter (· != '_')) n) : SpellsWord ('0' :: 'x' :: digits) n
  | decimal {digits : List Char} {n : Nat} (h : DenotesUnsigned 10 digits n) :
      SpellsWord digits n

/-- A text spells a number, up to white space around it. -/
def Spells (text : String) (n : Nat) : Prop :=
  ∃ front word back, text.toList = front ++ (word ++ back) ∧
    (∀ c ∈ front, Text.isBlank c = true) ∧ (∀ c ∈ back, Text.isBlank c = true) ∧
    SpellsWord word n

/-- A mark of hexadecimal digits is no decimal number. -/
theorem not_denotesUnsigned_mark (digits : List Char) (n : Nat) :
    ¬DenotesUnsigned 10 ('0' :: 'x' :: digits) n := by
  have hx : ∀ d < 10, ¬Text.IsDigit d 'x' := by
    unfold Text.IsDigit
    decide
  rintro (h | ⟨rest, heq, -⟩)
  · obtain ⟨d, hd, hdigit⟩ := h.exists_isDigit 'x' (by simp)
    exact hx d hd hdigit
  · cases heq

/-- What a text spells depends on whether it begins with the mark of hexadecimal digits. -/
theorem spellsWord_iff {word : List Char} {n : Nat} :
    SpellsWord word n ↔
      match Text.dropPrefix? ['0', 'x'] word with
      | some digits => DenotesUnsigned 16 (digits.filter (· != '_')) n
      | none => DenotesUnsigned 10 word n := by
  split
  · rename_i digits hmark
    obtain rfl := Text.dropPrefix?_eq_some_iff.mp hmark
    constructor
    · rintro (h | h)
      · exact h
      · exact absurd h (not_denotesUnsigned_mark digits n)
    · exact .hexadecimal
  · rename_i hplain
    constructor
    · rintro (h | h)
      · exact absurd ⟨_, rfl⟩ (Text.dropPrefix?_eq_none_iff.mp hplain)
      · exact h
    · exact .decimal

/-- A text without white space around it spells one number at most. -/
theorem SpellsWord.unique {word : List Char} {m n : Nat} (h : SpellsWord word m)
    (h' : SpellsWord word n) : m = n := by
  rw [spellsWord_iff] at h h'
  cases hmark : Text.dropPrefix? ['0', 'x'] word with
  | some digits =>
      rw [hmark] at h h'
      exact h.unique (by decide) h'
  | none =>
      rw [hmark] at h h'
      exact h.unique (by decide) h'

/-- A text that spells a number without white space around it has none within. -/
theorem SpellsWord.isTrimmed {word : List Char} {n : Nat} (h : SpellsWord word n) :
    IsTrimmed word := by
  apply IsTrimmed.of_forall
  cases h with
  | hexadecimal h =>
      refine List.forall_mem_cons.mpr ⟨by decide, List.forall_mem_cons.mpr ⟨by decide, ?_⟩⟩
      intro c hc
      by_cases hline : c = '_'
      · rw [hline]
        decide
      · exact h.isBlank_eq_false (by decide) c (List.mem_filter.mpr ⟨hc, by simpa using hline⟩)
  | decimal h => exact h.isBlank_eq_false (by decide)

/-- A text spells what is left of it without the white space around it. -/
theorem spells_iff {text : String} {n : Nat} :
    Spells text n ↔ SpellsWord (Text.trim text.toList) n := by
  constructor
  · rintro ⟨front, word, back, heq, hfront, hback, hword⟩
    rw [heq, hword.isTrimmed.trim_append hfront hback]
    exact hword
  · intro h
    obtain ⟨front, back, heq, hfront, hback⟩ := Text.exists_eq_append_trim_append text.toList
    exact ⟨front, Text.trim text.toList, back, heq, hfront, hback, h⟩

/-- A text spells one number at most. -/
theorem Spells.unique {text : String} {m n : Nat} (h : Spells text m) (h' : Spells text n) :
    m = n :=
  (spells_iff.mp h).unique (spells_iff.mp h')

/-! ## Words -/

/-- A text is read as the word whose number it spells. -/
theorem readWord?_eq_some_iff {text : String} {w : UInt64} :
    readWord? text = some w ↔ Spells text w.toNat := by
  -- The number is bounded before it becomes a word, so the word has exactly this value.
  have hword : ∀ m : Option Nat, (∀ n, m = some n → n < UInt64.size) →
      (m.map Nat.toUInt64 = some w ↔ m = some w.toNat) := by
    intro m hm
    cases m with
    | none => simp
    | some n =>
        have hexact : n.toUInt64.toNat = n := UInt64.toNat_ofNat_of_lt' (hm n rfl)
        rw [Option.map_some, Option.some.injEq, Option.some.injEq, ← UInt64.toNat_inj, hexact]
  have hread : ∀ base ≤ 16, ∀ digits : List Char,
      (Text.readUnsigned? base UInt64.size digits).map Nat.toUInt64 = some w ↔
        DenotesUnsigned base digits w.toNat := by
    intro base hbase digits
    rw [hword _ fun n hn => ((Text.readUnsigned?_eq_some_iff hbase).mp hn).2,
      Text.readUnsigned?_eq_some_iff hbase]
    exact and_iff_left w.toNat_lt_size
  rw [spells_iff, spellsWord_iff, readWord?]
  cases hmark : Text.dropPrefix? ['0', 'x'] (Text.trim text.toList) with
  | some digits => exact hread 16 (by decide) _
  | none => exact hread 10 (by decide) _

/-- A text is refused exactly if it spells no number that a word has. -/
theorem readWord?_eq_none_iff {text : String} :
    readWord? text = none ↔ ∀ n, Spells text n → UInt64.size ≤ n := by
  constructor
  · intro hnone n hn
    by_contra hlt
    have hexact : (UInt64.ofNat n).toNat = n :=
      UInt64.toNat_ofNat_of_lt' (Nat.lt_of_not_le hlt)
    rw [readWord?_eq_some_iff.mpr (hexact.symm ▸ hn)] at hnone
    cases hnone
  · intro hlarge
    cases hread : readWord? text with
    | none => rfl
    | some w =>
        have hsize := hlarge _ (readWord?_eq_some_iff.mp hread)
        exact absurd w.toNat_lt_size (Nat.not_lt.mpr hsize)

/-- The state word is the number that its text spells. -/
theorem readState_eq_ok_iff {text : String} {w : UInt64} :
    readState text = .ok w ↔ Spells text w.toNat := by
  rw [← readWord?_eq_some_iff, readState]
  cases readWord? text <;> simp

/-- A text without such a number is refused by name. -/
theorem readState_eq_error {text : String} (h : ∀ n, Spells text n → UInt64.size ≤ n) :
    readState text = .error (.invalidWord text) := by
  rw [readState, readWord?_eq_none_iff.mpr h]

/-- The stencil word is the number that its text spells. -/
theorem readStencil_eq_ok_iff {text : String} {w : UInt32} :
    readStencil text = .ok w ↔ Spells text w.toNat := by
  rw [readStencil]
  cases hread : readWord? text with
  | none =>
      have hlarge := readWord?_eq_none_iff.mp hread
      refine iff_of_false (by simp) fun hspells => ?_
      have hsize := hlarge _ hspells
      have hlt := w.toNat_lt_size
      simp only [UInt32.size, UInt64.size] at hsize hlt
      omega
  | some v =>
      have hv := readWord?_eq_some_iff.mp hread
      dsimp only
      split
      · rename_i hlt
        have hexact : v.toUInt32.toNat = v.toNat :=
          (UInt64.toNat_toUInt32 v).trans (Nat.mod_eq_of_lt hlt)
        rw [Except.ok.injEq, ← UInt32.toNat_inj, hexact]
        exact ⟨fun heq => heq ▸ hv, fun hspells => hv.unique hspells⟩
      · rename_i hlarge
        refine iff_of_false (by simp) fun hspells => ?_
        exact hlarge (hv.unique hspells ▸ w.toNat_lt_size)

/-- A text without a number that the stencil word has is refused by name. -/
theorem readStencil_eq_error {text : String} (h : ∀ n, Spells text n → UInt32.size ≤ n) :
    readStencil text = .error (.invalidWord text) := by
  cases hread : readStencil text with
  | ok w =>
      have hsize := h _ (readStencil_eq_ok_iff.mp hread)
      exact absurd w.toNat_lt_size (Nat.not_lt.mpr hsize)
  | error e =>
      unfold readStencil at hread
      grind

/-! ## The baseline state -/

/-- What a stencil word spells: zero if it is left out. -/
def SpellsStencil (stencil : Option String) (n : Nat) : Prop :=
  match stencil with
  | some text => Spells text n
  | none => n = 0

section Baseline

variable {c : ProjectConfig} {b : BaselineText}

/-- The words of a baseline state are the numbers that their texts spell. -/
theorem baseline_eq_ok_iff (h : c.baselineText = some b) {words : StateWords} :
    c.baseline = .ok words ↔
      Spells b.state words.state.toNat ∧ SpellsStencil b.stencil words.stencil.toNat := by
  obtain ⟨state, stencil⟩ := words
  rw [← readState_eq_ok_iff, baseline, h]
  unfold SpellsStencil
  cases hstate : readState b.state with
  | error e => simp [hstate, bind, Except.bind]
  | ok w =>
      cases hstencil : b.stencil with
      | none =>
          have hzero : stencil.toNat = 0 ↔ 0 = stencil := by
            rw [eq_comm, ← UInt32.toNat_inj]
            rfl
          simp [hstate, hstencil, hzero, bind, Except.bind, pure, Except.pure]
      | some text =>
          dsimp only
          rw [← readStencil_eq_ok_iff]
          cases hread : readStencil text <;>
            simp [hstate, hstencil, hread, bind, Except.bind, pure, Except.pure]

/-- A state word that is refused is reported. -/
theorem baseline_of_readState_error (h : c.baselineText = some b) {e : ConfigError}
    (hstate : readState b.state = .error e) : c.baseline = .error e := by
  rw [baseline, h]
  simp [hstate, bind, Except.bind]

/-- The state word is the number that its text spells if this number has sixty-four bits, and
the stencil word the number that its text spells, or zero, if it has thirty-two; otherwise the
text is refused.  No other number is ever read. -/
theorem baseline_words (h : c.baselineText = some b) :
    (∀ n k, Spells b.state n → n < UInt64.size → SpellsStencil b.stencil k →
      k < UInt32.size →
      ∃ words, c.baseline = .ok words ∧ words.state.toNat = n ∧ words.stencil.toNat = k) ∧
    (∀ n, Spells b.state n → UInt64.size ≤ n →
      c.baseline = .error (.invalidWord b.state)) ∧
    (∀ n text k, Spells b.state n → n < UInt64.size → b.stencil = some text → Spells text k →
      UInt32.size ≤ k → c.baseline = .error (.invalidWord text)) ∧
    ((∀ n, ¬Spells b.state n) → c.baseline = .error (.invalidWord b.state)) ∧
    ∀ words, c.baseline = .ok words →
      Spells b.state words.state.toNat ∧ SpellsStencil b.stencil words.stencil.toNat := by
  refine ⟨?exact, ?largeState, ?largeStencil, ?noNumber, ?never⟩
  case exact =>
    intro n k hn hlt hk hltk
    have hstate : (UInt64.ofNat n).toNat = n := UInt64.toNat_ofNat_of_lt' hlt
    have hstencil : (UInt32.ofNat k).toNat = k := UInt32.toNat_ofNat_of_lt' hltk
    refine ⟨⟨UInt64.ofNat n, UInt32.ofNat k⟩, (baseline_eq_ok_iff h).mpr ⟨?_, ?_⟩, hstate,
      hstencil⟩
    · exact hstate.symm ▸ hn
    · exact hstencil.symm ▸ hk
  case largeState =>
    intro n hn hsize
    refine baseline_of_readState_error h (readState_eq_error fun m hm => ?_)
    rwa [hm.unique hn]
  case largeStencil =>
    intro n text k hn hlt htext hk hsize
    have hexact : (UInt64.ofNat n).toNat = n := UInt64.toNat_ofNat_of_lt' hlt
    have hstate : readState b.state = .ok (UInt64.ofNat n) :=
      readState_eq_ok_iff.mpr (hexact.symm ▸ hn)
    have hstencil : readStencil text = .error (.invalidWord text) :=
      readStencil_eq_error fun m hm => by rwa [hm.unique hk]
    rw [baseline, h]
    simp [hstate, htext, hstencil, bind, Except.bind]
  case noNumber =>
    intro hnone
    exact baseline_of_readState_error h (readState_eq_error fun m hm => absurd hm (hnone m))
  case never => exact fun words hwords => (baseline_eq_ok_iff h).mp hwords

end Baseline

/-- A project whose state word is the largest there is, in hexadecimal digits of either case
with leading zeros and underscores. -/
def largestWords (stencil : String) : ProjectConfig where
  name := "demo"
  version := "0.1.0"
  assetsRoot := "assets"
  includeDirectories := []
  renderer := .empty
  baselineText := some ⟨" 0x_0000_0000_ffff_FFFF_ffff_ffFF_\n", some stencil⟩

/-- The largest stencil word goes with it; the number behind that is refused. -/
theorem baseline_words_sample :
    (∃ words, (largestWords "0004294967295").baseline = .ok words ∧
      words.state.toNat = 0xffffffffffffffff ∧ words.stencil.toNat = 0xffffffff) ∧
    (largestWords "4294967296").baseline = .error (.invalidWord "4294967296") := by
  have hstate : Spells " 0x_0000_0000_ffff_FFFF_ffff_ffFF_\n" 0xffffffffffffffff :=
    (readWord?_eq_some_iff (w := 0xffffffffffffffff)).mp (by decide +kernel)
  have hfits : Spells "0004294967295" 0xffffffff :=
    (readWord?_eq_some_iff (w := 0xffffffff)).mp (by decide +kernel)
  have hlarge : Spells "4294967296" 0x100000000 :=
    (readWord?_eq_some_iff (w := 0x100000000)).mp (by decide +kernel)
  constructor
  · obtain ⟨hexact, -⟩ := baseline_words (c := largestWords "0004294967295") rfl
    exact hexact _ _ hstate (by decide) hfits (by decide)
  · obtain ⟨-, -, hrefused, -⟩ := baseline_words (c := largestWords "4294967296") rfl
    exact hrefused _ _ _ hstate (by decide) rfl hlarge (by decide)

end ProjectConfig
end ShaderAssets
