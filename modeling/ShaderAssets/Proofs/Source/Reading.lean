import ShaderAssets.Proofs.Source.Shape

/-!
# Every source that is read is shaped

After each character of a file the passes completed so far, the name and the raw
texts of the open pass have the shape of things that were read, and what is being
collected is on the way there.  So has the source at the end of every file.

Main results:

- Structure {lit}`Reader.Completed`: what holds of the completed parts.
- Definition {lit}`Reader.Pending`: what holds of the line or section being read.
- Theorem {lit}`Reader.Sound.feed`: one character keeps both.
- Theorem {lit}`ShaderSource.shaped_parse`: the source of every file is shaped.
- Theorem {lit}`ShaderSource.hasCode_of_parse`: without a warning every pass has code.
-/

namespace ShaderAssets
namespace Source

open Text

/-- A pass that says something about its vertices or fragments. -/
def PassSource.HasCode (p : PassSource) : Prop :=
  (isBlankText p.vertex && isBlankText p.fragment) = false

namespace Reader

/-- The completed parts of what was read. -/
structure Completed (r : Reader) : Prop where
  name_quotable : IsQuotable r.name
  varying_enclosed : IsEnclosed r.pass.varying.toList
  vertex_enclosed : IsEnclosed r.pass.vertex.toList
  fragment_enclosed : IsEnclosed r.pass.fragment.toList
  passes_shaped : ∀ p ∈ r.passes, p.Shaped
  passes_coded : r.warnings = [] → ∀ p ∈ r.passes, p.HasCode

/-- The line or the section that is being read. -/
def Pending (r : Reader) : Prop :=
  match r.mode with
  | .nameLine => '\n' ∉ r.buffer.toList
  | .inSection _ depth comment => IsCollected r.buffer.toList depth comment r.last
  | _ => True

/-- What holds of the reader between two characters. -/
structure Sound (r : Reader) : Prop where
  completed : r.Completed
  pending : r.Pending

variable {r : Reader}

/-! ## Completed parts -/

/-- Nothing but the name, the open pass, the passes and the warnings counts. -/
theorem Completed.congr (h : r.Completed) {r' : Reader} (hname : r'.name = r.name)
    (hpass : r'.pass = r.pass) (hpasses : r'.passes = r.passes)
    (hwarnings : r'.warnings = r.warnings) : r'.Completed where
  name_quotable := hname ▸ h.name_quotable
  varying_enclosed := hpass ▸ h.varying_enclosed
  vertex_enclosed := hpass ▸ h.vertex_enclosed
  fragment_enclosed := hpass ▸ h.fragment_enclosed
  passes_shaped := hpasses ▸ h.passes_shaped
  passes_coded := hpasses ▸ hwarnings ▸ h.passes_coded

/-- A line without a break gives a name. -/
theorem Completed.takeName (h : r.Completed) (hline : '\n' ∉ r.buffer.toList) :
    r.takeName.Completed :=
  { h with name_quotable := isQuotable_nameOfLine hline }

/-- A line gives a render mode, perhaps with a warning. -/
theorem Completed.takeMode (h : r.Completed) : r.takeMode.Completed := by
  unfold Reader.takeMode
  simp only
  split
  · exact h.congr rfl rfl rfl rfl
  · exact { h with passes_coded := fun hnil => absurd hnil (by simp) }

/-- A closing brace stores the open pass, with a warning if it has no code. -/
theorem Completed.storePass (h : r.Completed) : r.storePass.Completed where
  name_quotable := h.name_quotable
  varying_enclosed := isEnclosed_nil
  vertex_enclosed := isEnclosed_nil
  fragment_enclosed := isEnclosed_nil
  passes_shaped p hp := by
    rcases List.mem_append.mp hp with hp | hp
    · exact h.passes_shaped p hp
    · obtain rfl := List.mem_singleton.mp hp
      exact ⟨fun tag htag => Tags.shaped_of_mem_tags htag, h.varying_enclosed,
        h.vertex_enclosed, h.fragment_enclosed⟩
  passes_coded hnil p hp := by
    obtain ⟨hbefore, hnone⟩ := List.append_eq_nil_iff.mp hnil
    rcases List.mem_append.mp hp with hp | hp
    · exact h.passes_coded hbefore p hp
    · obtain rfl := List.mem_singleton.mp hp
      have hcode := (List.append_eq_nil_iff.mp hnone).2
      rw [ite_eq_right_iff] at hcode
      rw [PassSource.HasCode, ← Bool.not_eq_true]
      exact fun hblank => absurd (hcode hblank) (by simp)

/-- An enclosed text may be put into the open pass. -/
theorem Completed.setText (h : r.Completed) {text : String} (htext : IsEnclosed text.toList)
    (sec : Section) : { r with pass := r.pass.set text sec }.Completed := by
  cases sec with
  | tags => exact { h with }
  | varying => exact { h with varying_enclosed := htext }
  | vertex => exact { h with vertex_enclosed := htext }
  | fragment => exact { h with fragment_enclosed := htext }

/-! ## One character -/

/-- A character at top level with no word before it. -/
theorem Completed.feedPlain (h : r.Completed) (c : Char) :
    Sound { r.feedPlain c with last := some c } := by
  unfold Reader.feedPlain
  split
  · exact ⟨h.congr rfl rfl rfl rfl, trivial⟩
  split
  · exact ⟨h.congr rfl rfl rfl rfl, trivial⟩
  split
  · exact ⟨h.congr rfl rfl rfl rfl, trivial⟩
  split
  · split
    · exact ⟨h.congr rfl rfl rfl rfl, trivial⟩
    · exact ⟨h.storePass.congr rfl rfl rfl rfl, trivial⟩
    · exact ⟨h.congr rfl rfl rfl rfl, trivial⟩
  · exact ⟨h.congr rfl rfl rfl rfl, trivial⟩

/-- A character of a name line. -/
theorem Completed.feedName (h : r.Completed) (hline : '\n' ∉ r.buffer.toList) (c : Char) :
    Sound { r.feedName c with last := some c } := by
  unfold Reader.feedName
  split
  · exact ⟨(h.takeName hline).congr rfl rfl rfl rfl, trivial⟩
  · rename_i hc
    refine ⟨h.congr rfl rfl rfl rfl, ?_⟩
    have hpush : '\n' ∉ (r.buffer.push c).toList := by simp [hline, Ne.symm hc]
    exact hpush

/-- A character of a render mode line. -/
theorem Completed.feedMode (h : r.Completed) (c : Char) :
    Sound { r.feedMode c with last := some c } := by
  have hmode := h.takeMode
  unfold Reader.feedMode
  split
  · generalize r.takeMode = r' at hmode ⊢
    exact ⟨hmode.congr rfl rfl rfl rfl, trivial⟩
  · exact ⟨h.congr rfl rfl rfl rfl, trivial⟩

/-- A character between {lit}`params` and its brace. -/
theorem Completed.feedParamsOpen (h : r.Completed) (c : Char) :
    Sound { r.feedParamsOpen c with last := some c } := by
  unfold Reader.feedParamsOpen
  split
  · exact ⟨h.congr rfl rfl rfl rfl, trivial⟩
  split
  · exact ⟨h.congr rfl rfl rfl rfl, trivial⟩
  · exact h.feedPlain c

/-- A character between a section keyword and its brace. -/
theorem Completed.feedSectionOpen (h : r.Completed) (sec : Section) (c : Char) :
    Sound { r.feedSectionOpen sec c with last := some c } := by
  unfold Reader.feedSectionOpen
  split
  · rename_i hc
    refine ⟨h.congr rfl rfl rfl rfl, ?_⟩
    have hstart : IsCollected "".toList 1 false (some c) := by
      rw [hc]
      exact IsCollected.start
    exact hstart
  split
  · exact ⟨h.congr rfl rfl rfl rfl, trivial⟩
  · exact h.feedPlain c

/-- A character at top level. -/
theorem Completed.feedTop (h : r.Completed) (hmode : r.mode = .topLevel) (c : Char) :
    Sound { r.feedTop c with last := some c } := by
  have hplain : { r with word := "" }.Completed := h.congr rfl rfl rfl rfl
  have hline : { r with word := "", buffer := "" }.Completed := h.congr rfl rfl rfl rfl
  unfold Reader.feedTop
  split
  · refine ⟨h.congr rfl rfl rfl rfl, ?_⟩
    simp [Pending, hmode]
  simp only
  split
  · exact hline.feedName (by simp) c
  · exact hline.feedMode c
  · exact hplain.feedParamsOpen c
  · exact hplain.feedSectionOpen _ c
  · exact hplain.feedPlain c

/-- A character of a parameter block. -/
theorem Completed.feedParams (h : r.Completed) (place : ParamsPlace) (c : Char) :
    Sound { r.feedParams place c with last := some c } := by
  unfold Reader.feedParams
  cases place with
  | comment => exact ⟨h.congr rfl rfl rfl rfl, trivial⟩
  | quote => exact ⟨h.congr rfl rfl rfl rfl, trivial⟩
  | plain =>
      simp only
      split
      · exact ⟨h.congr rfl rfl rfl rfl, trivial⟩
      split
      · exact ⟨h.congr rfl rfl rfl rfl, trivial⟩
      split
      · exact ⟨h.congr rfl rfl rfl rfl, trivial⟩
      split
      · exact ⟨h.congr rfl rfl rfl rfl, trivial⟩
      · exact ⟨h.congr rfl rfl rfl rfl, trivial⟩

/-- A character of a raw section. -/
theorem Completed.feedSection (h : r.Completed) (sec : Section) {depth : Nat} {comment : Bool}
    (htext : IsCollected r.buffer.toList depth comment r.last) (c : Char) :
    Sound { r.feedSection sec depth comment c with last := some c } := by
  have hkeep : ∀ (depth : Nat) (comment : Bool),
      IsCollected (r.buffer.toList ++ [c]) depth comment (some c) →
      Sound { r with
        mode := .inSection sec depth comment, buffer := r.buffer.push c, last := some c } := by
    intro depth comment hmore
    refine ⟨h.congr rfl rfl rfl rfl, ?_⟩
    rw [← String.toList_push] at hmore
    exact hmore
  unfold Reader.feedSection
  cases comment with
  | true => exact hkeep depth _ (htext.comment c)
  | false =>
      obtain ⟨d, -, rfl⟩ := htext.braces
      simp only [Bool.false_eq_true, if_false]
      split
      · rename_i hmark
        obtain ⟨rfl, hlast⟩ := hmark
        rw [hlast] at htext
        exact hkeep (d + 1) true htext.mark
      rename_i hmark
      split
      · rename_i hc
        exact hkeep (d + 2) false (htext.code (by simp [braceStep?, hc]) hmark)
      rename_i hopen
      split
      · rename_i hc
        split
        · rename_i hdepth
          exact ⟨(h.setText (htext.isEnclosed hdepth) sec).congr rfl rfl rfl rfl, trivial⟩
        · rename_i hdepth
          obtain ⟨e, rfl⟩ : ∃ e, d = e + 1 := ⟨d - 1, by omega⟩
          exact hkeep (e + 1) false (htext.code (by simp [braceStep?, hc]) hmark)
      · rename_i hclose
        exact hkeep (d + 1) false (htext.code (by simp [braceStep?, hopen, hclose]) hmark)

/-- One character keeps what holds of the reader. -/
theorem Sound.feed (h : r.Sound) (c : Char) : (r.feed c).Sound := by
  have hcompleted := h.completed
  have hpending := h.pending
  unfold Pending at hpending
  unfold Reader.feed Reader.step
  cases hmode : r.mode with
  | topLevel => exact hcompleted.feedTop hmode c
  | nameLine =>
      rw [hmode] at hpending
      exact hcompleted.feedName hpending c
  | modeLine => exact hcompleted.feedMode c
  | paramsOpen => exact hcompleted.feedParamsOpen c
  | params place => exact hcompleted.feedParams place c
  | sectionOpen sec => exact hcompleted.feedSectionOpen sec c
  | inSection sec depth comment =>
      rw [hmode] at hpending
      exact hcompleted.feedSection sec hpending c
  | comment =>
      refine ⟨hcompleted.congr rfl rfl rfl rfl, ?_⟩
      by_cases hc : c = '\n'
      · simp [Pending, hc]
      · simp [Pending, hc]

/-! ## Files -/

/-- What holds of the reader holds after a text. -/
theorem Sound.feedText (h : r.Sound) (text : List Char) : (r.feedText text).Sound := by
  induction text generalizing r with
  | nil => exact h
  | cons c text ih => exact ih (h.feed c)

/-- It holds at the start of a file. -/
theorem sound_initial : initial.Sound where
  completed :=
    { name_quotable := isQuotable_empty
      varying_enclosed := isEnclosed_nil
      vertex_enclosed := isEnclosed_nil
      fragment_enclosed := isEnclosed_nil
      passes_shaped := by simp [initial]
      passes_coded := by simp [initial] }
  pending := trivial

/-- The end of the file completes the last word and the last line. -/
theorem Sound.endLine (h : r.Sound) : r.endWord.endLine.Completed := by
  have hword : r.endWord.Completed ∧
      (r.endWord.mode = .nameLine → '\n' ∉ r.endWord.buffer.toList) := by
    unfold Reader.endWord
    split
    · refine ⟨h.completed, fun hmode => ?_⟩
      have hpending := h.pending
      rw [Pending, hmode] at hpending
      exact hpending
    simp only
    split
    · exact ⟨h.completed.congr rfl rfl rfl rfl, fun _ => by simp⟩
    · exact ⟨h.completed.congr rfl rfl rfl rfl, fun hmode => nomatch hmode⟩
    · rename_i mode hname _ _
      exact ⟨h.completed.congr rfl rfl rfl rfl, fun hmode => absurd hmode hname⟩
    · exact ⟨h.completed.congr rfl rfl rfl rfl, fun hmode => nomatch hmode⟩
  obtain ⟨hcompleted, hline⟩ := hword
  unfold Reader.endLine
  split
  · rename_i hmode
    exact hcompleted.takeName (hline hmode)
  · exact hcompleted.takeMode
  · exact hcompleted

/-- An open pass leaves an empty one behind. -/
theorem Completed.endPass (h : r.Completed) : r.endPass.Completed := by
  unfold Reader.endPass
  split
  · exact h
  · refine { h with passes_shaped := fun p hp => ?_, passes_coded := fun hnil => ?_ }
    · rcases List.mem_append.mp hp with hp | hp
      · exact h.passes_shaped p hp
      · obtain rfl := List.mem_singleton.mp hp
        exact PassSource.shaped_empty
    · exact absurd hnil (by simp)

/-- A file is the result of a reader whose completed parts are shaped. -/
theorem exists_completed (text : String) :
    ∃ r : Reader, r.Completed ∧ ShaderSource.parse text = r.result :=
  ⟨_, (sound_initial.feedText text.toList).endLine.endPass, rfl⟩

end Reader

namespace ShaderSource

/-- The source of every file is shaped. -/
theorem shaped_parse (text : String) : (parse text).source.Shaped := by
  obtain ⟨r, hr, htext⟩ := Reader.exists_completed text
  rw [htext]
  exact ⟨hr.name_quotable, fun _ hu => Params.shaped_of_mem_uniforms hu, hr.passes_shaped⟩

/-- A file without warnings has a pass, and every pass has code. -/
theorem hasCode_of_parse {text : String} (h : (parse text).warnings = []) :
    (parse text).source.passes ≠ [] ∧ ∀ p ∈ (parse text).source.passes, p.HasCode := by
  obtain ⟨r, hr, htext⟩ := Reader.exists_completed text
  rw [htext] at h ⊢
  obtain ⟨hwarnings, hpasses⟩ := List.append_eq_nil_iff.mp h
  refine ⟨fun hnil => ?_, hr.passes_coded (List.append_eq_nil_iff.mp hwarnings).1⟩
  have hempty : r.passes = [] := hnil
  rw [hempty] at hpasses
  cases hpasses

end ShaderSource
end Source
end ShaderAssets
