import ShaderAssets.Proofs.Source.WellFormed
import ShaderAssets.Proofs.Text.Lines

/-!
# Lines inside blocks

The blocks of a file consist of indented lines of tokens.  A token can stand on a
line when nothing in it ends the line or the token early, and it fits on a line of a
block when its bare braces do not end the block either.

Main results:

- Theorem {lit}`ofLine_indented`: an indented line of tokens is read back.
- Theorem {lit}`isLine_renderLine`: it loses nothing to the line break after it.
-/

namespace ShaderAssets
namespace Source
namespace Token

open Text

/-- A token that is read back from a line of its own text. -/
def Stands (colons : Bool) : Token → Prop
  | .word s => IsWord colons s.toList
  | .quoted s => '"' ∉ s.toList ∧ '\n' ∉ s.toList
  | .colon => colons = true

/-- A token that can stand on a line inside a block whose bare braces count. -/
def Fits (colons : Bool) : Token → Prop
  | .word s => IsBare colons s.toList
  | .quoted s => '"' ∉ s.toList ∧ '\n' ∉ s.toList
  | .colon => colons = true

/-- Fitting tokens can stand on a line. -/
theorem Fits.stands {colons : Bool} {t : Token} (h : t.Fits colons) : t.Stands colons := by
  cases t with
  | word s => exact IsBare.toIsWord h
  | quoted s => exact h
  | colon => exact h

/-- Tokens of a line are read back. -/
theorem Stands.isWritable {colons : Bool} {t : Token} (h : t.Stands colons) :
    t.IsWritable colons := by
  cases t with
  | word s => exact h
  | quoted s => exact h.1
  | colon => exact h

/-- Line breaks and carriage returns do not stand in bare words. -/
theorem ne_break_of_isWordly {colons : Bool} {c : Char} (h : isWordly colons c = true) :
    c ≠ '\n' ∧ c ≠ '\r' := by
  constructor
  · rintro rfl
    exact absurd h (by cases colons <;> decide)
  · rintro rfl
    exact absurd h (by cases colons <;> decide)

/-- No token breaks the line, and none ends in a carriage return. -/
theorem Stands.isLine_render {colons : Bool} {t : Token} (h : t.Stands colons) :
    IsLine t.render := by
  cases t with
  | word s =>
      have hs : IsWord colons s.toList := h
      refine IsLine.of_not_mem (fun hmem => ?_) fun hmem => ?_
      · exact (ne_break_of_isWordly (hs.wordly '\n' hmem)).1 rfl
      · exact (ne_break_of_isWordly (hs.wordly '\r' hmem)).2 rfl
  | quoted s =>
      refine ⟨?_, ?_⟩
      · simpa [render] using h.2
      · rw [render, ← List.cons_append, List.getLast?_concat]
        simp
  | colon => exact IsLine.of_not_mem (by decide) (by decide)

/-- Tokens behind a line's first token leave it a line. -/
theorem isLine_append_renderTail {colons : Bool} {s : List Char} (hs : IsLine s)
    {ts : List Token} (h : ∀ t ∈ ts, t.Stands colons) : IsLine (s ++ renderTail ts) := by
  induction ts generalizing s with
  | nil => simpa using hs
  | cons t ts ih =>
      have ht : IsLine t.render := (h t (by simp)).isLine_render
      have hmore := ih (ht.append_blank hs.no_newline) fun u hu =>
        h u (List.mem_cons_of_mem t hu)
      simpa using hmore

/-- Tokens make a line. -/
theorem isLine_renderLine {colons : Bool} {ts : List Token} (h : ∀ t ∈ ts, t.Stands colons) :
    IsLine (renderLine ts) := by
  cases ts with
  | nil => exact IsLine.of_not_mem (by simp) (by simp)
  | cons t ts =>
      rw [renderLine_cons]
      exact isLine_append_renderTail (h t (by simp)).isLine_render fun u hu =>
        h u (List.mem_cons_of_mem t hu)

/-- An indented line of tokens is read back. -/
theorem ofLine_indented {colons : Bool} {ts : List Token} (h : ∀ t ∈ ts, t.Stands colons)
    (k : Nat) : ofLine (List.replicate k ' ' ++ renderLine ts) colons = ts := by
  rw [ofLine, readWords_spaces, ← ofLine, ofLine_renderLine fun t ht => (h t ht).isWritable]

end Token
end Source
end ShaderAssets
