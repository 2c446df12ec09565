import Mathlib.Data.List.Induction
import ShaderAssets.Proofs.Source.ParamsBlock
import ShaderAssets.Proofs.Source.Turns

/-!
# Passes and their braces

A pass is stored when its own brace is closed, and stays stored whatever follows.  What it
says comes from the text between its braces alone: nothing is left over from the text in
front of it.  Only the end of the file makes a pass without a closing brace, an empty one,
and reports it.

Main results:

- Relation {lit}`Reader.Alike`: two readers that differ in finished parts alone; every
  character keeps this.
- Structure {lit}`Encloses`: a pass block, with what stands in front of it and what it says.
- Theorem {lit}`Reader.braced_feedText`: every pass that is stored has its pass block.
- Theorem {lit}`ShaderSource.parse_braces`: damage at the end of a file is contained.
-/

namespace ShaderAssets
namespace Source

/-! ## Warnings -/

/-- The warning about an open pass. -/
def Warning.isUnbalanced : Warning → Bool
  | .unbalanced _ => true
  | _ => false

/-- A tag block never causes this warning. -/
theorem Tags.isUnbalanced_of_mem {text : String} {w : Warning} (h : w ∈ Tags.warnings text) :
    w.isUnbalanced = false := by
  obtain ⟨said, hsaid, hw⟩ := List.mem_filterMap.mp h
  obtain ⟨⟨line, number⟩, -, rfl⟩ := List.mem_map.mp hsaid
  unfold TagLine.read at hw
  dsimp only at hw
  split at hw
  · rename_i hread
    split at hread
    · split at hread
      · cases hread
      · cases hread
        cases hw
        rfl
    · cases hread
    · cases hread
  · cases hw

/-- A parameter block never causes this warning. -/
theorem Params.isUnbalanced_of_mem {text : String} {w : Warning} (h : w ∈ Params.warnings text) :
    w.isUnbalanced = false := by
  rw [Params.warnings_eq] at h
  obtain ⟨⟨line, number⟩, -, rfl⟩ := List.mem_map.mp h
  dsimp only [ParamsLine.fault]
  split <;> rfl

namespace Reader

variable {r r' s : Reader} {c : Char}

/-- A pass that is stored never causes this warning. -/
theorem isUnbalanced_of_mem_passWarnings {text : OpenPass} {index : Nat} {w : Warning}
    (h : w ∈ passWarnings text index) : w.isUnbalanced = false := by
  rcases List.mem_append.mp h with h | h
  · exact Tags.isUnbalanced_of_mem h
  · split at h
    · obtain rfl := List.mem_singleton.mp h
      rfl
    · cases h

/-- No character causes this warning. -/
theorem Turns.balanced (h : Turns r c r') (hr : ∀ w ∈ r.warnings, w.isUnbalanced = false) :
    ∀ w ∈ r'.warnings, w.isUnbalanced = false := by
  cases h with
  | chooses mode hunknown =>
      intro w hw
      rcases List.mem_append.mp hw with hw | hw
      · exact hr w hw
      · obtain ⟨text, rfl⟩ := hunknown w hw
        rfl
  | stores hc hdepth hmode =>
      intro w hw
      rcases List.mem_append.mp hw with hw | hw
      · exact hr w hw
      · exact isUnbalanced_of_mem_passWarnings hw
  | _ => exact hr

/-- The last character of a text is fed last. -/
theorem feedText_concat (r : Reader) (text : List Char) (c : Char) :
    r.feedText (text ++ [c]) = (r.feedText text).feed c :=
  feedText_append r text [c]

/-- No text causes this warning. -/
theorem Regular.balanced (h : r.Regular) (hr : ∀ w ∈ r.warnings, w.isUnbalanced = false)
    (text : List Char) : ∀ w ∈ (r.feedText text).warnings, w.isUnbalanced = false := by
  refine h.feedText_induction (P := fun s => ∀ w ∈ s.warnings, w.isUnbalanced = false) hr ?_ text
  intro s c hs hbefore
  exact (hs.turns c).balanced hbefore

/-! ## Passes are only added -/

/-- A character keeps the passes, or stores one more. -/
theorem Turns.prefix_passes (h : Turns r c r') : r.passes <+: r'.passes := by
  cases h with
  | stores hc hdepth hmode => exact List.prefix_append _ _
  | _ => exact List.prefix_refl _

/-- A text keeps the passes in front of it. -/
theorem Regular.prefix_passes (h : r.Regular) (text : List Char) :
    r.passes <+: (r.feedText text).passes := by
  refine h.feedText_induction (P := fun s => r.passes <+: s.passes) (List.prefix_refl _) ?_ text
  intro s c hs hbefore
  exact hbefore.trans (hs.turns c).prefix_passes

/-! ## Nothing is left over -/

/-- Outside passes the collected texts are empty, and between lines and sections so is the
text being collected. -/
structure Clear (r : Reader) : Prop where
  pass_eq : r.depth = 0 → r.pass = .empty
  buffer_eq : r.mode.collects = false → r.buffer = ""

/-- A character leaves nothing over. -/
theorem Turns.clear (h : Turns r c r') (hregular : r.Regular) (hr : r.Clear) : r'.Clear := by
  cases h with
  | moves hmode hbuffer =>
      refine ⟨hr.pass_eq, fun hcollects => ?_⟩
      rcases hbuffer with hbuffer | ⟨hbefore, rfl⟩
      · exact absurd hcollects (by simp [hbuffer])
      · exact hr.buffer_eq hbefore
  | names name => exact ⟨hr.pass_eq, fun _ => rfl⟩
  | chooses mode hunknown => exact ⟨hr.pass_eq, fun _ => rfl⟩
  | declares hplace hmode => exact ⟨hr.pass_eq, fun _ => hr.buffer_eq (by rw [hplace]; rfl)⟩
  | fills hmode =>
      have hplaced := hregular.placed
      rw [Placed, hmode] at hplaced
      exact ⟨fun hdepth => absurd (hplaced.1.symm.trans hdepth) (by decide), fun _ => rfl⟩
  | opens hc hmode =>
      exact ⟨fun hdepth => absurd hdepth (Nat.succ_ne_zero _), fun _ => hr.buffer_eq hmode⟩
  | closes hc hdepth hmode =>
      exact ⟨fun hdepth => absurd hdepth (Nat.succ_ne_zero _), fun _ => hr.buffer_eq hmode⟩
  | stores hc hdepth hmode => exact ⟨fun _ => rfl, fun _ => hr.buffer_eq hmode⟩

/-- Every text leaves nothing over. -/
theorem clear_feedText (text : List Char) : (initial.feedText text).Clear := by
  have hstart : initial.Clear := ⟨fun _ => rfl, fun _ => rfl⟩
  refine regular_initial.feedText_induction hstart ?_ text
  intro s c hs hbefore
  exact (hs.turns c).clear hs hbefore

/-! ## Readers that differ in finished parts -/

/-- The reader has the passes {lit}`front` in front of those of the other reader, and
differs from it otherwise in the name, the mode, the parameter text and the warnings
alone. -/
def Alike (front : List PassSource) (r s : Reader) : Prop :=
  ∃ (name : String) (mode : RenderMode) (parameterText : String) (warnings : List Warning),
    r = { s with
      name := name, renderMode := mode, parameterText := parameterText
      passes := front ++ s.passes, warnings := warnings }

variable {front : List PassSource}

/-- The passes in front are all that is added to the passes. -/
theorem Alike.passes_eq (h : Alike front r s) : r.passes = front ++ s.passes := by
  obtain ⟨_, _, _, _, rfl⟩ := h
  rfl

theorem Alike.depth_eq (h : Alike front r s) : r.depth = s.depth := by
  obtain ⟨_, _, _, _, rfl⟩ := h
  rfl

theorem Alike.setLast (h : Alike front r s) (last : Option Char) :
    Alike front { r with last := last } { s with last := last } := by
  obtain ⟨name, mode, parameterText, warnings, rfl⟩ := h
  exact ⟨name, mode, parameterText, warnings, rfl⟩

theorem Alike.feedPlain (h : Alike front r s) (c : Char) :
    Alike front (r.feedPlain c) (s.feedPlain c) := by
  obtain ⟨name, mode, parameterText, warnings, rfl⟩ := h
  unfold Reader.feedPlain
  dsimp only
  split
  · exact ⟨_, _, _, _, rfl⟩
  split
  · exact ⟨_, _, _, _, rfl⟩
  split
  · exact ⟨_, _, _, _, rfl⟩
  split
  · split
    · exact ⟨_, _, _, _, rfl⟩
    · refine ⟨name, mode, parameterText,
        warnings ++ passWarnings s.pass (front ++ s.passes).length, ?_⟩
      simp [storePass]
    · exact ⟨_, _, _, _, rfl⟩
  · exact ⟨_, _, _, _, rfl⟩

theorem Alike.feedName (h : Alike front r s) (c : Char) :
    Alike front (r.feedName c) (s.feedName c) := by
  obtain ⟨name, mode, parameterText, warnings, rfl⟩ := h
  unfold Reader.feedName
  split
  · exact ⟨_, _, _, _, rfl⟩
  · exact ⟨_, _, _, _, rfl⟩

theorem Alike.feedMode (h : Alike front r s) (c : Char) :
    Alike front (r.feedMode c) (s.feedMode c) := by
  obtain ⟨name, mode, parameterText, warnings, rfl⟩ := h
  unfold Reader.feedMode takeMode
  dsimp only
  split
  · split
    · exact ⟨_, _, _, _, rfl⟩
    · exact ⟨_, _, _, _, rfl⟩
  · exact ⟨_, _, _, _, rfl⟩

theorem Alike.feedParamsOpen (h : Alike front r s) (c : Char) :
    Alike front (r.feedParamsOpen c) (s.feedParamsOpen c) := by
  have hplain := h.feedPlain c
  obtain ⟨name, mode, parameterText, warnings, rfl⟩ := h
  unfold Reader.feedParamsOpen
  split
  · exact ⟨_, _, _, _, rfl⟩
  split
  · exact ⟨_, _, _, _, rfl⟩
  · exact hplain

theorem Alike.feedSectionOpen (h : Alike front r s) (sec : Section) (c : Char) :
    Alike front (r.feedSectionOpen sec c) (s.feedSectionOpen sec c) := by
  have hplain := h.feedPlain c
  obtain ⟨name, mode, parameterText, warnings, rfl⟩ := h
  unfold Reader.feedSectionOpen
  split
  · exact ⟨_, _, _, _, rfl⟩
  split
  · exact ⟨_, _, _, _, rfl⟩
  · exact hplain

theorem Alike.feedTop (h : Alike front r s) (c : Char) :
    Alike front (r.feedTop c) (s.feedTop c) := by
  obtain ⟨name, mode, parameterText, warnings, rfl⟩ := h
  unfold Reader.feedTop
  dsimp only
  split
  · exact ⟨_, _, _, _, rfl⟩
  have hword : ∀ buffer, Alike front
      { s with
        word := "", buffer := buffer, name := name, renderMode := mode
        parameterText := parameterText, passes := front ++ s.passes, warnings := warnings }
      { s with word := "", buffer := buffer } :=
    fun _ => ⟨_, _, _, _, rfl⟩
  split
  · exact (hword "").feedName c
  · exact (hword "").feedMode c
  · exact (hword s.buffer).feedParamsOpen c
  · exact (hword s.buffer).feedSectionOpen _ c
  · exact (hword s.buffer).feedPlain c

theorem Alike.feedParams (h : Alike front r s) (place : ParamsPlace) (c : Char) :
    Alike front (r.feedParams place c) (s.feedParams place c) := by
  obtain ⟨name, mode, parameterText, warnings, rfl⟩ := h
  unfold Reader.feedParams
  dsimp only
  cases place with
  | comment => exact ⟨_, _, _, _, rfl⟩
  | quote => exact ⟨_, _, _, _, rfl⟩
  | plain =>
      dsimp only
      split
      · exact ⟨_, _, _, _, rfl⟩
      split
      · exact ⟨_, _, _, _, rfl⟩
      split
      · exact ⟨_, _, _, _, rfl⟩
      split
      · exact ⟨_, _, _, _, rfl⟩
      · exact ⟨_, _, _, _, rfl⟩

theorem Alike.feedSection (h : Alike front r s) (sec : Section) (depth : Nat) (comment : Bool)
    (c : Char) : Alike front (r.feedSection sec depth comment c)
      (s.feedSection sec depth comment c) := by
  obtain ⟨name, mode, parameterText, warnings, rfl⟩ := h
  unfold Reader.feedSection
  dsimp only
  split
  · exact ⟨_, _, _, _, rfl⟩
  split
  · exact ⟨_, _, _, _, rfl⟩
  split
  · exact ⟨_, _, _, _, rfl⟩
  split
  · split
    · exact ⟨_, _, _, _, rfl⟩
    · exact ⟨_, _, _, _, rfl⟩
  · exact ⟨_, _, _, _, rfl⟩

/-- A character does the same to both readers. -/
theorem Alike.feed (h : Alike front r s) (c : Char) : Alike front (r.feed c) (s.feed c) := by
  have hmode : r.mode = s.mode := by
    obtain ⟨_, _, _, _, rfl⟩ := h
    rfl
  refine Alike.setLast ?_ (some c)
  unfold step
  rw [hmode]
  cases s.mode with
  | topLevel => exact h.feedTop c
  | nameLine => exact h.feedName c
  | modeLine => exact h.feedMode c
  | paramsOpen => exact h.feedParamsOpen c
  | params place => exact h.feedParams place c
  | sectionOpen sec => exact h.feedSectionOpen sec c
  | inSection sec depth comment => exact h.feedSection sec depth comment c
  | comment =>
      obtain ⟨name, mode, parameterText, warnings, rfl⟩ := h
      exact ⟨_, _, _, _, rfl⟩

/-! ## End of the file -/

/-- The end of the file completes a word and a line, which changes no pass and causes no
warning about one. -/
theorem endLine_kept (r : Reader) :
    r.endWord.endLine.depth = r.depth ∧ r.endWord.endLine.passes = r.passes ∧
      ((∀ w ∈ r.warnings, w.isUnbalanced = false) →
        ∀ w ∈ r.endWord.endLine.warnings, w.isUnbalanced = false) := by
  have hword : r.endWord.depth = r.depth ∧ r.endWord.passes = r.passes ∧
      r.endWord.warnings = r.warnings := by
    unfold endWord
    split
    · exact ⟨rfl, rfl, rfl⟩
    dsimp only
    split
    all_goals exact ⟨rfl, rfl, rfl⟩
  rw [← hword.1, ← hword.2.1, ← hword.2.2]
  unfold endLine
  split
  · exact ⟨rfl, rfl, fun hr => hr⟩
  · unfold takeMode
    dsimp only
    split
    · exact ⟨rfl, rfl, fun hr => hr⟩
    · refine ⟨rfl, rfl, fun hr w hw => ?_⟩
      rcases List.mem_append.mp hw with hw | hw
      · exact hr w hw
      · obtain rfl := List.mem_singleton.mp hw
        rfl
  · exact ⟨rfl, rfl, fun hr => hr⟩

/-- The end of the file stores an empty pass if one is open. -/
theorem passes_finish (r : Reader) :
    r.finish.source.passes = r.passes ++ if r.depth = 0 then [] else [.empty] := by
  obtain ⟨hdepth, hpasses, -⟩ := endLine_kept r
  rw [← hdepth, ← hpasses, finish, result, endPass]
  split <;> simp

/-- The end of the file reports an open pass once. -/
theorem unbalanced_finish (hr : ∀ w ∈ r.warnings, w.isUnbalanced = false) :
    r.finish.warnings.filter Warning.isUnbalanced =
      if r.depth = 0 then [] else [.unbalanced r.passes.length] := by
  obtain ⟨hdepth, hpasses, hwarnings⟩ := endLine_kept r
  have hnone : ∀ ws : List Warning, (∀ w ∈ ws, w.isUnbalanced = false) →
      ws.filter Warning.isUnbalanced = [] := fun ws hws =>
    List.filter_eq_nil_iff.mpr fun w hw => by simp [hws w hw]
  have hlast : ∀ passes : List PassSource,
      (if passes.isEmpty then [Warning.noPasses] else []).filter Warning.isUnbalanced = [] := by
    intro passes
    split <;> rfl
  rw [← hdepth, ← hpasses, finish, result, List.filter_append, List.filter_append, hlast,
    hnone _ fun w hw => Params.isUnbalanced_of_mem hw, List.append_nil, List.append_nil, endPass]
  split
  · exact hnone _ (hwarnings hr)
  · rw [List.filter_append, hnone _ (hwarnings hr)]
    rfl

/-! ## Pass blocks -/

/-- Outside passes only a brace opens a pass.  The reader is then like one that has read
this brace alone. -/
theorem Turns.alike_opened (h : Turns r c r') (hr : r.Clear) (hdepth : r.depth = 0)
    (hopen : r'.depth ≠ 0) : c = '{' ∧ Alike r.passes r' (initial.feed '{') := by
  cases h with
  | opens hc hmode =>
      refine ⟨hc, r.name, r.renderMode, r.parameterText, r.warnings, ?_⟩
      have hbrace : initial.feed '{' = { initial with depth := 1, last := some '{' } := rfl
      rw [hbrace]
      simp [initial, hc, hdepth, hr.pass_eq hdepth, hr.buffer_eq hmode]
  | closes hc hdepth' hmode => omega
  | stores hc hdepth' hmode => exact absurd rfl hopen
  | _ => exact absurd hdepth hopen

/-- A character that leaves a pass open stores none. -/
theorem Turns.passes_of_open (h : Turns r c r') (hopen : r'.depth ≠ 0) :
    r'.passes = r.passes := by
  cases h with
  | stores hc hdepth hmode => exact absurd rfl hopen
  | _ => rfl

/-- A character that stores a pass is the brace that closes it. -/
theorem Turns.stored (h : Turns r c r') : r'.passes = r.passes ∨
    (c = '}' ∧ r.depth = 1 ∧ r'.depth = 0 ∧ r'.passes = r.passes ++ [passOf r.pass]) := by
  cases h with
  | stores hc hdepth hmode => exact Or.inr ⟨hc, hdepth, rfl, rfl⟩
  | _ => exact Or.inl rfl

/-- A pass block: outside passes stands {lit}`front`, behind it a brace, and {lit}`block` up
to the first brace that leaves no brace open.  This brace stores {lit}`p`, which is what
the block says by itself. -/
structure Encloses (front block : List Char) (p : PassSource) : Prop where
  outside : (initial.feedText front).depth = 0
  inside : ∀ part, part <+: block → 1 ≤ (initial.feedText (front ++ '{' :: part)).depth
  closed : (initial.feedText (front ++ '{' :: block ++ ['}'])).depth = 0
  stored : (initial.feedText (front ++ '{' :: block ++ ['}'])).passes =
    (initial.feedText front).passes ++ [p]
  alone : (ShaderSource.parse (String.ofList ('{' :: block ++ ['}']))).source.passes = [p]

/-- A pass block that is still open. -/
structure Opened (front block : List Char) : Prop where
  outside : (initial.feedText front).depth = 0
  inside : ∀ part, part <+: block → 1 ≤ (initial.feedText (front ++ '{' :: part)).depth
  alike : Alike (initial.feedText front).passes (initial.feedText (front ++ '{' :: block))
    (initial.feedText ('{' :: block))
  kept : (initial.feedText (front ++ '{' :: block)).passes = (initial.feedText front).passes

/-- Every pass that is stored has its pass block, and so has a pass that is open. -/
structure Braced (text : List Char) : Prop where
  stored : ∀ i p, (initial.feedText text).passes[i]? = some p →
    ∃ front block back, text = front ++ '{' :: block ++ '}' :: back ∧
      (initial.feedText front).passes.length = i ∧ Encloses front block p
  opened : (initial.feedText text).depth ≠ 0 →
    ∃ front block, text = front ++ '{' :: block ∧ Opened front block

/-- A brace outside passes opens a pass block. -/
theorem opened_nil {text : List Char} (hdepth : (initial.feedText text).depth = 0)
    (hopen : ((initial.feedText text).feed c).depth ≠ 0) : c = '{' ∧ Opened text [] := by
  have hturns := (regular_initial.feedText text).turns c
  obtain ⟨rfl, halike⟩ := hturns.alike_opened (clear_feedText text) hdepth hopen
  have hfeed : initial.feedText (text ++ ['{']) = (initial.feedText text).feed '{' :=
    feedText_concat initial text '{'
  refine ⟨rfl, hdepth, fun part hpart => ?_, by rwa [hfeed], ?_⟩
  · obtain rfl := List.prefix_nil.mp hpart
    rw [hfeed]
    exact Nat.one_le_iff_ne_zero.mpr hopen
  · rw [hfeed]
    exact hturns.passes_of_open hopen

/-- A pass block goes on until it is closed. -/
theorem Opened.concat {front block : List Char} (h : Opened front block)
    (hopen : ((initial.feedText (front ++ '{' :: block)).feed c).depth ≠ 0) :
    Opened front (block ++ [c]) := by
  have hturns := (regular_initial.feedText (front ++ '{' :: block)).turns c
  have hfeed : initial.feedText (front ++ '{' :: (block ++ [c])) =
      (initial.feedText (front ++ '{' :: block)).feed c := by
    rw [← feedText_concat, List.append_assoc, List.cons_append]
  have hblock : initial.feedText ('{' :: (block ++ [c])) =
      (initial.feedText ('{' :: block)).feed c :=
    feedText_concat initial ('{' :: block) c
  refine ⟨h.outside, fun part hpart => ?_, ?_, ?_⟩
  · rcases List.prefix_concat_iff.mp hpart with rfl | hpart
    · rw [hfeed]
      exact Nat.one_le_iff_ne_zero.mpr hopen
    · exact h.inside part hpart
  · rw [hfeed, hblock]
    exact h.alike.feed c
  · rw [hfeed, hturns.passes_of_open hopen, h.kept]

/-- The brace that leaves no brace open stores what the block says by itself. -/
theorem Opened.encloses {front block : List Char} {p : PassSource} (h : Opened front block)
    (hdepth : ((initial.feedText (front ++ '{' :: block)).feed '}').depth = 0)
    (hpasses : ((initial.feedText (front ++ '{' :: block)).feed '}').passes =
      (initial.feedText (front ++ '{' :: block)).passes ++ [p]) : Encloses front block p := by
  have hfeed : initial.feedText (front ++ '{' :: block ++ ['}']) =
      (initial.feedText (front ++ '{' :: block)).feed '}' :=
    feedText_concat initial (front ++ '{' :: block) '}'
  have hblock : initial.feedText ('{' :: block ++ ['}']) =
      (initial.feedText ('{' :: block)).feed '}' :=
    feedText_concat initial ('{' :: block) '}'
  have hstored := hpasses
  rw [h.kept] at hstored
  refine ⟨h.outside, h.inside, by rwa [hfeed], by rwa [hfeed], ?_⟩
  have halike := h.alike.feed '}'
  have hself : ((initial.feedText ('{' :: block)).feed '}').passes = [p] :=
    List.append_cancel_left (halike.passes_eq.symm.trans hstored)
  rw [ShaderSource.parse, String.toList_ofList, hblock, passes_finish,
    if_pos (halike.depth_eq.symm.trans hdepth), hself, List.append_nil]

/-- One more character keeps the pass blocks of stored passes, and may store one more pass. -/
theorem Braced.concat {text : List Char} (h : Braced text) (c : Char) : Braced (text ++ [c]) := by
  have hturns := (regular_initial.feedText text).turns c
  have hback : ∀ i p, (initial.feedText text).passes[i]? = some p →
      ∃ front block back, text ++ [c] = front ++ '{' :: block ++ '}' :: back ∧
        (initial.feedText front).passes.length = i ∧ Encloses front block p := by
    intro i p hp
    obtain ⟨front, block, back, htext, hindex, hencloses⟩ := h.stored i p hp
    exact ⟨front, block, back ++ [c], by rw [htext]; simp, hindex, hencloses⟩
  refine ⟨fun i p hp => ?_, fun hopen => ?_⟩
  · rw [feedText_concat] at hp
    rcases hturns.stored with hkept | ⟨rfl, hdepth, hclosed, hstored⟩
    · exact hback i p (hkept ▸ hp)
    rw [hstored] at hp
    by_cases hi : i < (initial.feedText text).passes.length
    · rw [List.getElem?_append_left hi] at hp
      exact hback i p hp
    · rw [List.getElem?_append_right (Nat.le_of_not_lt hi), List.getElem?_singleton] at hp
      split at hp
      · rename_i hlast
        cases hp
        obtain ⟨front, block, rfl, hopened⟩ := h.opened (by omega)
        refine ⟨front, block, [], rfl, ?_, hopened.encloses hclosed hstored⟩
        rw [← hopened.kept]
        omega
      · cases hp
  · rw [feedText_concat] at hopen
    by_cases hdepth : (initial.feedText text).depth = 0
    · obtain ⟨rfl, hopened⟩ := opened_nil hdepth hopen
      exact ⟨text, [], rfl, hopened⟩
    · obtain ⟨front, block, rfl, hopened⟩ := h.opened hdepth
      exact ⟨front, block ++ [c], by simp, hopened.concat hopen⟩

/-- Every text has its pass blocks. -/
theorem braced_feedText (text : List Char) : Braced text := by
  induction text using List.reverseRecOn with
  | nil =>
      have hnone : (initial.feedText []).passes = [] := rfl
      exact ⟨fun i p hp => by simp [hnone] at hp, fun hopen => absurd rfl hopen⟩
  | append_singleton text c ih => exact ih.concat c

end Reader

/-! ## Files -/

namespace ShaderSource

/-- The passes of a text that ends outside passes are passes of every longer text.  The
passes of a text are those that a brace of their own closes, in order, each saying what its
pass block says by itself.  If a pass is open at the end, and only then, an empty pass
follows, and there is one warning with its number. -/
theorem parse_braces :
    (∀ x y : String, (Reader.initial.feedText x.toList).depth = 0 →
      (parse x).source.passes <+: (parse (x ++ y)).source.passes) ∧
    ∀ text : String, ∃ closed : List PassSource,
      (∀ i p, closed[i]? = some p → ∃ front block back : List Char,
        text.toList = front ++ '{' :: block ++ '}' :: back ∧
          (Reader.initial.feedText front).passes.length = i ∧ Reader.Encloses front block p) ∧
      ((Reader.initial.feedText text.toList).depth = 0 →
        (parse text).source.passes = closed ∧
          (parse text).warnings.filter Warning.isUnbalanced = []) ∧
      (0 < (Reader.initial.feedText text.toList).depth →
        (parse text).source.passes = closed ++ [.empty] ∧
          (parse text).warnings.filter Warning.isUnbalanced = [.unbalanced closed.length]) := by
  refine ⟨fun x y hdepth => ?_, fun text => ?_⟩
  · have hregular := Reader.regular_initial.feedText x.toList
    rw [parse, parse, Reader.passes_finish, Reader.passes_finish, if_pos hdepth, List.append_nil,
      String.toList_append, Reader.feedText_append]
    exact (hregular.prefix_passes y.toList).trans (List.prefix_append _ _)
  · have hbalanced := Reader.regular_initial.balanced (by simp [Reader.initial]) text.toList
    refine ⟨_, (Reader.braced_feedText text.toList).stored, fun hdepth => ?_, fun hdepth => ?_⟩
    · rw [parse, Reader.passes_finish, Reader.unbalanced_finish hbalanced, if_pos hdepth,
        if_pos hdepth, List.append_nil]
      exact ⟨rfl, rfl⟩
    · have hopen := Nat.ne_of_gt hdepth
      rw [parse, Reader.passes_finish, Reader.unbalanced_finish hbalanced, if_neg hopen,
        if_neg hopen]
      exact ⟨rfl, rfl⟩

/-- A whole pass, and one that loses its last braces. -/
theorem parse_braces_sample :
    (Reader.initial.feedText "pass\x7bvertex\x7ba\x7d\x7d".toList).depth = 0 ∧
      (parse "pass\x7bvertex\x7ba\x7d\x7d").source.passes <+:
        (parse
          ("pass\x7bvertex\x7ba\x7d\x7d" ++ "pass\x7btags\x7bb c\n\x7dvertex\x7bd")).source.passes ∧
      (parse "pass\x7bvertex\x7ba\x7d\x7dpass\x7btags\x7bb c\n\x7dvertex\x7bd") =
        ⟨⟨"", .forward, [], [⟨"", "a", "", []⟩, .empty]⟩, [.unbalanced 1]⟩ := by
  have hdepth : (Reader.initial.feedText "pass\x7bvertex\x7ba\x7d\x7d".toList).depth = 0 := by
    decide
  exact ⟨hdepth, parse_braces.1 _ _ hdepth, by decide +kernel⟩

end ShaderSource
end Source
end ShaderAssets
