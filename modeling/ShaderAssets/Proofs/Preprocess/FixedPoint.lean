import ShaderAssets.Proofs.Preprocess.Inclusion

/-!
# Preprocessed text

What a run emits are ordinary lines: no inclusion, no definition and no conditional is left,
and every line stands as it stood in its file.  A run on such lines does nothing, whatever is
defined and whatever files there are, so preprocessed text is a fixed point.

This needs texts without carriage returns.  A line that ends in one would lose it to the line
feed that is written behind it.

Main results:

- Theorem {lit}`emitted_of_obey`: what one line emits.
- Theorem {lit}`Expands.sublist`: the emitted lines are ordinary ones among the flat lines.
- Theorem {lit}`onLines_ordinary`: ordinary lines are emitted as they are.
- Theorem {lit}`run_fixed`: a run on what a run gave gives it again.
-/

namespace ShaderAssets
namespace Preprocess

/-! ## What is emitted -/

/-- A line emits itself if it is ordinary and active, and nothing else. -/
theorem emitted_of_obey {s s' : PreprocessState} {number : Nat} {line : List Char}
    {directive : Directive} {emitted : List (List Char)}
    (h : s.obey number line directive = .ok (emitted, s')) :
    emitted = [] ∨ (directive = .text ∧ emitted = [line]) := by
  cases directive with
  | text =>
      cases h
      unfold PreprocessState.emit
      split
      · exact Or.inr ⟨rfl, rfl⟩
      · exact Or.inl rfl
  | condition text =>
      simp only [PreprocessState.obey] at h
      split at h
      · cases hholds : s.evaluate number text with
        | error e =>
            rw [hholds] at h
            cases h
        | ok holds =>
            rw [hholds] at h
            cases h
            exact Or.inl rfl
      · cases h
        exact Or.inl rfl
  | otherwiseIf text =>
      simp only [PreprocessState.obey] at h
      split at h
      · cases h
      · split at h
        · cases hholds : s.evaluate number text with
          | error e =>
              rw [hholds] at h
              cases h
          | ok holds =>
              rw [hholds] at h
              cases h
              exact Or.inl rfl
        · cases h
          exact Or.inl rfl
  | inclusion path =>
      cases h
      exact Or.inl rfl
  | ifDefined name expected =>
      cases h
      exact Or.inl rfl
  | malformedInclusion argument =>
      simp only [PreprocessState.obey] at h
      split at h <;> cases h
      exact Or.inl rfl
  | _ =>
      simp only [PreprocessState.obey] at h
      split at h <;> cases h <;> exact Or.inl rfl

/-- Lines without inclusions emit some of the ordinary ones, in order. -/
theorem onLines_sublist {enter : String → PreprocessState → PreprocessResult} {number : Nat}
    {lines emitted : List (List Char)} {s s' : PreprocessState}
    (hlines : ∀ line ∈ lines, (Directive.ofLine line).includes = false)
    (h : onLines enter number lines s = .ok (emitted, s')) :
    emitted.Sublist (lines.filter fun line => Directive.ofLine line = .text) := by
  induction lines generalizing number s emitted with
  | nil =>
      cases h
      exact List.Sublist.refl []
  | cons line rest ih =>
      obtain ⟨first, s₁, more, hfirst, hrest, rfl⟩ := onLines_cons_eq_ok.mp h
      rw [List.forall_mem_cons] at hlines
      rw [onLine_of_not_includes hlines.1] at hfirst
      have hmore := ih hlines.2 hrest
      rcases emitted_of_obey hfirst with rfl | ⟨htext, rfl⟩
      · exact hmore.trans ((List.sublist_cons_self line rest).filter _)
      · rw [List.filter_cons_of_pos (by simpa using htext)]
        exact hmore.cons_cons line

/-- Lines that expand emit ordinary lines, which stand among the flat ones in their order. -/
theorem Expands.sublist {files : String → Option String} {s s' : PreprocessState}
    {lines emitted : List (List Char)} (h : Expands files s lines emitted s') :
    (∀ line ∈ emitted, Directive.ofLine line = .text) ∧
      ∃ flat, Flattens files s lines flat s' ∧ emitted.Sublist flat := by
  obtain ⟨flat, hflat, hemits⟩ := h
  have hsublist := onLines_sublist hflat.not_includes (hemits (enter files 0) 1 s.included)
  refine ⟨fun line hline => ?_, flat, hflat, hsublist.trans List.filter_sublist⟩
  simpa using (List.mem_filter.mp (hsublist.subset hline)).2

/-! ## Ordinary lines -/

/-- Ordinary lines are emitted as they are where lines are active. -/
theorem onLines_ordinary {lines : List (List Char)}
    (h : ∀ line ∈ lines, Directive.ofLine line = .text)
    (enter : String → PreprocessState → PreprocessResult) (number : Nat)
    {s : PreprocessState} (hactive : s.active = true) :
    onLines enter number lines s = .ok (lines, s) := by
  induction lines generalizing number with
  | nil => rfl
  | cons line rest ih =>
      rw [List.forall_mem_cons] at h
      have hline : onLine enter number line s = .ok ([line], s) := by
        rw [onLine_of_not_includes (by rw [h.1]; rfl), h.1, PreprocessState.obey,
          PreprocessState.emit, if_pos hactive]
      exact onLines_cons_eq_ok.mpr ⟨[line], s, rest, hline, ih h.2 (number + 1), rfl⟩

/-! ## Runs -/

/-- Preprocessed text is a fixed point: if the texts have no carriage returns, a run on what
a run gave gives it again, whatever is defined and whatever files there are.  Its lines are
ordinary; they are lines of the source with its inclusions replaced, in their order, so each
is a line of the source or of a file. -/
theorem run_fixed {files : String → Option String} {macros : Macros} {source out : String}
    (hsource : '\r' ∉ source.toList)
    (hfiles : ∀ path text, files path = some text → '\r' ∉ text.toList)
    (h : run files macros source = .ok out) :
    (∀ files' macros', run files' macros' out = .ok out) ∧
    (∀ line ∈ Text.linesOf out, Directive.ofLine line = .text ∧
      (line ∈ Text.linesOf source ∨
        ∃ path text, files path = some text ∧ line ∈ Text.linesOf text)) ∧
    ∃ flat final, Flattens files ⟨macros, [], []⟩ (Text.linesOf source) flat final ∧
      (Text.linesOf out).Sublist flat := by
  obtain ⟨emitted, final, hlines, -, rfl⟩ := run_eq_ok.mp h
  obtain ⟨hordinary, flat, hflat, hsublist⟩ := (onLines_expands hlines).sublist
  have hcut : Text.linesOf (String.ofList (Text.unlines emitted)) = emitted := by
    rw [Text.linesOf, String.toList_ofList, Text.lines_unlines]
    exact fun line hline => hflat.isLine hsource hfiles line (hsublist.subset hline)
  rw [hcut]
  refine ⟨fun files' macros' => ?_, fun line hline => ⟨hordinary line hline, ?_⟩, flat, final,
    hflat, hsublist⟩
  · refine run_eq_ok.mpr ⟨emitted, ⟨macros', [], []⟩, ?_, rfl, rfl⟩
    rw [hcut]
    exact onLines_ordinary hordinary _ 1 rfl
  · exact hflat.mem_lines line (hsublist.subset hline)

/-- A file with directives that are passed through and groups of both kinds. -/
def lightFiles (path : String) : Option String :=
  if path = "light.h" then
    some "#version 330\n#ifndef OFF\n  # pragma light\n#define N 2\n#endif\n# if N == 2\nlit\n"
  else none

/-- The included file leaves a group open, which the source closes. -/
def lightSource : String :=
  "#include <light.h>\n//#endif\n#else\ndark\n # endif // N\n#endifx\n#undef N\nmain"

/-- Running the preprocessor on its output gives the output again, without the file and with
{lit}`OFF` defined. -/
theorem run_fixed_sample :
    run lightFiles [] lightSource =
        .ok "#version 330\n  # pragma light\nlit\n//#endif\n#endifx\nmain\n" ∧
      run (fun _ => none) [("OFF", "1")]
          "#version 330\n  # pragma light\nlit\n//#endif\n#endifx\nmain\n" =
        .ok "#version 330\n  # pragma light\nlit\n//#endif\n#endifx\nmain\n" := by
  have hrun : run lightFiles [] lightSource =
      .ok "#version 330\n  # pragma light\nlit\n//#endif\n#endifx\nmain\n" := by rfl
  have hfiles : ∀ path text, lightFiles path = some text → '\r' ∉ text.toList := by
    intro path text hfile
    unfold lightFiles at hfile
    split at hfile
    · cases hfile
      decide
    · cases hfile
  obtain ⟨hagain, -⟩ := run_fixed (by decide) hfiles hrun
  exact ⟨hrun, hagain _ _⟩

end Preprocess
end ShaderAssets
