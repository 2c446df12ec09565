import Mathlib.Data.List.Induction
import ShaderAssets.Proofs.Text.Lines
import ShaderAssets.Proofs.Text.Parts
import ShaderAssets.Proofs.Text.Trim
import ShaderAssets.Stage.Reflection

/-!
# Statements on the lines of a body

A body is searched for declarations line by line and, on a line, from semicolon to semicolon, so
that its statements are the parts between semicolons and line feeds.  Of the statements that
declare one name the first is kept.

Main results:

- Theorem {lit}`mentions_iff`: a code mentions the identifiers that stand in it as words.
- Theorem {lit}`getElem?_statements_iff`: the statements are the parts between semicolons and
  line feeds, with the numbers of their lines.
- Theorem {lit}`keepsFirst_declared`: each name is kept at its first declaration.
-/

namespace ShaderAssets
namespace Reflection

open Text

/-! ## Identifiers -/

/-- No identifier reaches over a character that none can hold. -/
theorem identifiers_append_cons {c : Char} (hc : isWordChar c = false) (before after : List Char) :
    identifiers (before ++ c :: after) = identifiers before ++ identifiers after := by
  rw [identifiers, List.splitOnP_append_cons before after (by simp [hc]), List.filter_append]
  rfl

/-- Nothing has no identifiers. -/
theorem identifiers_nil : identifiers [] = [] := by
  simp [identifiers]

/-- A code mentions the identifiers that stand in it as words. -/
theorem mentions_iff {name code : List Char} :
    mentions name code = true ↔ IsWord (!isWordChar ·) code name := by
  rw [mentions, List.contains_iff_mem, identifiers, mem_filter_splitOnP_iff]

/-- The carriage return of a line break belongs to no identifier. -/
theorem mentions_dropReturn (name line : List Char) :
    mentions name (dropReturn line) = mentions name line := by
  unfold dropReturn
  split
  · rename_i hreturn
    obtain ⟨front, rfl⟩ := List.getLast?_eq_some_iff.mp hreturn
    rw [List.dropLast_concat, mentions, mentions, identifiers_append_cons (by decide) front [],
      identifiers_nil, List.append_nil]
  · rfl

/-! ## Statements -/

/-- Whether a statement ends at a character. -/
def endsStatement (c : Char) : Bool :=
  c == ';' || c == '\n'

/-- The statements of a body with the numbers of their lines, in order. -/
def statements (code : List Char) : List (List Char × Nat) :=
  (code.splitOn '\n').zipIdx.flatMap fun (line, number) =>
    (line.splitOn ';').map fun statement => (statement, number)

/-- A text without ends has neither semicolons nor line feeds. -/
theorem endsStatement_eq_false_iff {s : List Char} :
    (∀ c ∈ s, endsStatement c = false) ↔
      (∀ c ∈ s, (c == ';') = false) ∧ ∀ c ∈ s, (c == '\n') = false := by
  simp only [endsStatement, Bool.or_eq_false_iff, forall_and]

/-- A code without ends is one statement. -/
theorem statements_of_free {code : List Char} (h : ∀ c ∈ code, endsStatement c = false) :
    statements code = [(code, 0)] := by
  obtain ⟨hsemicolon, hbreak⟩ := endsStatement_eq_false_iff.mp h
  rw [statements, List.splitOn_eq_splitOnP, List.splitOnP_eq_singleton hbreak]
  simp [List.splitOn_eq_splitOnP, List.splitOnP_eq_singleton hsemicolon]

/-- Behind the end of the first statement the statements are those of the rest, on later lines
if the line ended. -/
theorem statements_of_cut {first rest : List Char} {c : Char}
    (h : ∀ d ∈ first, endsStatement d = false) (hc : endsStatement c = true) :
    statements (first ++ c :: rest) =
      (first, 0) :: (statements rest).map fun s => (s.1, s.2 + if c = '\n' then 1 else 0) := by
  obtain ⟨hsemicolon, hbreak⟩ := endsStatement_eq_false_iff.mp h
  rw [endsStatement, Bool.or_eq_true, beq_iff_eq, beq_iff_eq] at hc
  simp only [statements, List.splitOn_eq_splitOnP]
  rcases hc with rfl | rfl
  · obtain ⟨line, more, hrest⟩ :=
      List.exists_cons_of_ne_nil (List.splitOnP_ne_nil (· == '\n') rest)
    have hfront : ∀ c ∈ first ++ [';'], (c == '\n') = false := fun c hc =>
      (List.mem_append.mp hc).elim (hbreak c) fun hc => by
        rw [List.mem_singleton.mp hc]
        decide
    have hline := splitOnP_append_of_free hfront hrest
    rw [List.append_assoc, List.singleton_append] at hline
    rw [hline, hrest, List.zipIdx_cons, List.flatMap_cons, List.zipIdx_cons, List.flatMap_cons,
      List.append_assoc, List.singleton_append,
      List.splitOnP_append_cons_of_forall_mem hsemicolon _ (by decide)]
    simp
  · rw [List.splitOnP_append_cons_of_forall_mem hbreak _ (by decide), List.zipIdx_cons,
      List.flatMap_cons, List.splitOnP_eq_singleton hsemicolon, List.zipIdx_succ,
      List.flatMap_map, List.map_flatMap]
    simp [Function.comp_def]

/-- A statement and its end count as one end. -/
theorem countP_ends_append {first : List Char} {c : Char}
    (h : ∀ d ∈ first, endsStatement d = false) (hc : endsStatement c = true) (front : List Char) :
    (first ++ c :: front).countP endsStatement = front.countP endsStatement + 1 := by
  have hzero : first.countP endsStatement = 0 :=
    List.countP_eq_zero.mpr fun d hd => by simp [h d hd]
  rw [List.countP_append, hzero, Nat.zero_add, List.countP_cons_of_pos hc]

/-- A statement and its end have a line feed only if it is the end. -/
theorem count_breaks_append {first : List Char} (h : ∀ d ∈ first, endsStatement d = false)
    (c : Char) (front : List Char) :
    (first ++ c :: front).count '\n' = front.count '\n' + if c = '\n' then 1 else 0 := by
  have hzero : first.count '\n' = 0 := List.count_eq_zero.mpr fun hmem =>
    absurd (h _ hmem) (by decide)
  rw [List.count_append, hzero, Nat.zero_add, List.count_cons]
  simp only [beq_iff_eq]

/-- Statement `i` of a body is the part between two ends with `i` ends in front of it, on the
line with as many line feeds in front of it as its number says. -/
theorem getElem?_statements_iff {code statement : List Char} {i n : Nat} :
    (statements code)[i]? = some (statement, n) ↔
      ∃ before after,
        (code = before ++ statement ++ after ∧ IsPart endsStatement before statement after) ∧
        before.countP endsStatement = i ∧ before.count '\n' = n := by
  induction code using induction_on_parts endsStatement generalizing i n with
  | free code hfree =>
      rw [statements_of_free hfree]
      simp only [isPart_of_free hfree]
      cases i with
      | zero =>
          constructor
          · rintro ⟨rfl, rfl⟩
            exact ⟨[], [], ⟨rfl, rfl, rfl⟩, rfl, rfl⟩
          · rintro ⟨before, after, ⟨rfl, rfl, rfl⟩, -, rfl⟩
            rfl
      | succ i =>
          refine iff_of_false (by simp) ?_
          rintro ⟨before, after, ⟨rfl, -, -⟩, hcount, -⟩
          simp at hcount
  | cut first c rest hfirst hc ih =>
      rw [statements_of_cut hfirst hc]
      simp only [isPart_of_cut hfirst hc]
      cases i with
      | zero =>
          constructor
          · rintro ⟨rfl, rfl⟩
            exact ⟨[], c :: rest, .inl ⟨rfl, rfl, rfl⟩, rfl, rfl⟩
          · rintro ⟨before, after, ⟨rfl, rfl, rfl⟩ | ⟨front, rfl, -⟩, hcount, rfl⟩
            · rfl
            · simp [hc] at hcount
      | succ i =>
          have hrest : ((statements rest).map fun s =>
              (s.1, s.2 + if c = '\n' then 1 else 0))[i]? = some (statement, n) ↔
              ∃ m, (statements rest)[i]? = some (statement, m) ∧
                m + (if c = '\n' then 1 else 0) = n := by
            simp [List.getElem?_map]
          rw [List.getElem?_cons_succ, hrest]
          simp only [ih]
          constructor
          · rintro ⟨m, ⟨front, after, hpart, rfl, rfl⟩, rfl⟩
            exact ⟨first ++ c :: front, after, .inr ⟨front, rfl, hpart⟩,
              countP_ends_append hfirst hc front, count_breaks_append hfirst c front⟩
          · rintro ⟨before, after, ⟨rfl, -, -⟩ | ⟨front, rfl, hpart⟩, hcount, hn⟩
            · simp at hcount
            · rw [countP_ends_append hfirst hc, Nat.succ_inj] at hcount
              rw [count_breaks_append hfirst] at hn
              exact ⟨_, ⟨front, after, hpart, hcount, rfl⟩, hn⟩

/-! ## First declarations -/

/-- The uniform that a statement declares. -/
def declares? (s : List Char × Nat) : Option StageUniform :=
  ofStatement? (trim s.1)

variable {ss : List (List Char × Nat)} {i j : Nat} {u v : StageUniform}

/-- Statement `i` is the first to declare the name of a uniform, and declares it as `u`. -/
structure DeclaresFirst (ss : List (List Char × Nat)) (i : Nat) (u : StageUniform) : Prop where
  declares : ss[i]?.bind declares? = some u
  first : ∀ v ∈ (ss.take i).filterMap declares?, v.name ≠ u.name

/-- A uniform is declared by a statement. -/
theorem DeclaresFirst.lt_length (h : DeclaresFirst ss i u) : i < ss.length := by
  obtain ⟨s, hs, -⟩ := Option.bind_eq_some_iff.mp h.declares
  exact (List.getElem?_eq_some_iff.mp hs).1

/-- A further statement changes no first declaration, and is one if it declares a new name. -/
theorem declaresFirst_concat_iff (s : List Char × Nat) :
    DeclaresFirst (ss ++ [s]) i u ↔ DeclaresFirst ss i u ∨
      i = ss.length ∧ declares? s = some u ∧ ∀ v ∈ ss.filterMap declares?, v.name ≠ u.name := by
  constructor
  · intro h
    obtain hi | hi := Nat.lt_or_ge i ss.length
    · obtain ⟨hdeclares, hfirst⟩ := h
      rw [List.getElem?_append_left hi] at hdeclares
      rw [List.take_append_of_le_length hi.le] at hfirst
      exact .inl ⟨hdeclares, hfirst⟩
    · have hlen := h.lt_length
      rw [List.length_append, List.length_singleton] at hlen
      obtain rfl : i = ss.length := by omega
      refine .inr ⟨rfl, ?_, ?_⟩
      · simpa using h.declares
      · simpa using h.first
  · rintro (h | ⟨rfl, hs, hfirst⟩)
    · have hi := h.lt_length
      constructor
      · rw [List.getElem?_append_left hi]
        exact h.declares
      · rw [List.take_append_of_le_length hi.le]
        exact h.first
    · constructor
      · simpa using hs
      · simpa using hfirst

/-- The first declarations of two statements are of different names. -/
theorem DeclaresFirst.name_ne (hu : DeclaresFirst ss i u) (hv : DeclaresFirst ss j v)
    (hij : i < j) : u.name ≠ v.name := by
  obtain ⟨s, hs, hdeclares⟩ := Option.bind_eq_some_iff.mp hu.declares
  refine hv.first u (List.mem_filterMap.mpr ⟨s, ?_, hdeclares⟩)
  exact List.mem_of_getElem? (i := i) (by rw [List.getElem?_take_of_lt hij, hs])

/-- A name has one first declaration. -/
theorem DeclaresFirst.unique (hu : DeclaresFirst ss i u) (hv : DeclaresFirst ss j v)
    (hname : u.name = v.name) : i = j := by
  obtain hij | rfl | hji := Nat.lt_trichotomy i j
  · exact absurd hname (hu.name_ne hv hij)
  · rfl
  · exact absurd hname.symm (hv.name_ne hu hji)

/-- A uniform that is declared first is declared. -/
theorem DeclaresFirst.mem (h : DeclaresFirst ss i u) : u ∈ ss.filterMap declares? := by
  obtain ⟨s, hs, hdeclares⟩ := Option.bind_eq_some_iff.mp h.declares
  exact List.mem_filterMap.mpr ⟨s, List.mem_of_getElem? hs, hdeclares⟩

/-- One more declaration, which is left out if its name is declared already. -/
def keepFirst (found : List (StageUniform × Nat)) (d : StageUniform × Nat) :
    List (StageUniform × Nat) :=
  if found.any (·.1.name == d.1.name) then found else found ++ [d]

/-- The declarations that are found in statements are the first ones of their names with the
numbers of their lines, in order. -/
structure KeepsFirst (ss : List (List Char × Nat)) (found : List (StageUniform × Nat)) :
    Prop where
  mem_iff : ∀ u n, (u, n) ∈ found ↔ ∃ i, DeclaresFirst ss i u ∧ ss[i]?.map Prod.snd = some n
  ordered : found.Pairwise fun d e =>
    ∃ i j, i < j ∧ DeclaresFirst ss i d.1 ∧ DeclaresFirst ss j e.1
  covers : ∀ v ∈ ss.filterMap declares?, ∃ d ∈ found, d.1.name = v.name

/-- What is found in statements is found in front of a further one. -/
theorem KeepsFirst.ordered_concat {found : List (StageUniform × Nat)} (h : KeepsFirst ss found)
    (s : List Char × Nat) :
    found.Pairwise fun d e =>
      ∃ i j, i < j ∧ DeclaresFirst (ss ++ [s]) i d.1 ∧ DeclaresFirst (ss ++ [s]) j e.1 := by
  refine h.ordered.imp ?_
  rintro d e ⟨i, j, hij, hd, he⟩
  exact ⟨i, j, hij, (declaresFirst_concat_iff s).mpr (.inl hd),
    (declaresFirst_concat_iff s).mpr (.inl he)⟩

/-- A statement that declares no new name leaves what is found. -/
theorem KeepsFirst.skip {found : List (StageUniform × Nat)} (h : KeepsFirst ss found)
    (s : List Char × Nat)
    (hs : ∀ u, declares? s = some u → ∃ d ∈ found, d.1.name = u.name) :
    KeepsFirst (ss ++ [s]) found := by
  have hfirst : ∀ i u, DeclaresFirst (ss ++ [s]) i u ↔ DeclaresFirst ss i u := by
    intro i u
    refine (declaresFirst_concat_iff s).trans (or_iff_left ?_)
    rintro ⟨-, hu, hnew⟩
    obtain ⟨⟨v, n⟩, hd, hname⟩ := hs u hu
    obtain ⟨j, hv, -⟩ := (h.mem_iff v n).mp hd
    exact hnew v hv.mem hname
  refine ⟨fun u n => (h.mem_iff u n).trans (exists_congr fun i => ?_), h.ordered_concat s, ?_⟩
  · rw [hfirst]
    refine and_congr_right fun hu => ?_
    rw [List.getElem?_append_left hu.lt_length]
  · intro v hv
    rw [List.filterMap_append, List.mem_append] at hv
    obtain hv | hv := hv
    · exact h.covers v hv
    · exact hs v (by simpa using hv)

/-- A statement that declares a new name is found behind the others. -/
theorem KeepsFirst.concat {found : List (StageUniform × Nat)} (h : KeepsFirst ss found)
    (s : List Char × Nat) (hs : declares? s = some u) (hnew : ∀ d ∈ found, d.1.name ≠ u.name) :
    KeepsFirst (ss ++ [s]) (found ++ [(u, s.2)]) := by
  have hfirst : DeclaresFirst (ss ++ [s]) ss.length u := by
    refine (declaresFirst_concat_iff s).mpr (.inr ⟨rfl, hs, fun v hv hname => ?_⟩)
    obtain ⟨d, hd, hdname⟩ := h.covers v hv
    exact hnew d hd (hdname.trans hname)
  constructor
  case mem_iff =>
    intro v n
    rw [List.mem_append, h.mem_iff, List.mem_singleton, Prod.mk.injEq]
    constructor
    · rintro (⟨i, hv, hn⟩ | ⟨rfl, rfl⟩)
      · refine ⟨i, (declaresFirst_concat_iff s).mpr (.inl hv), ?_⟩
        rwa [List.getElem?_append_left hv.lt_length]
      · exact ⟨ss.length, hfirst, by simp⟩
    · rintro ⟨i, hv, hn⟩
      obtain hv | ⟨rfl, hv, -⟩ := (declaresFirst_concat_iff s).mp hv
      · rw [List.getElem?_append_left hv.lt_length] at hn
        exact .inl ⟨i, hv, hn⟩
      · refine .inr ⟨Option.some.inj (hv.symm.trans hs), ?_⟩
        simpa using hn.symm
  case ordered =>
    rw [List.pairwise_append]
    refine ⟨h.ordered_concat s, List.pairwise_singleton _ _, ?_⟩
    rintro ⟨v, n⟩ hd e he
    obtain rfl := List.mem_singleton.mp he
    obtain ⟨i, hv, -⟩ := (h.mem_iff v n).mp hd
    exact ⟨i, ss.length, hv.lt_length, (declaresFirst_concat_iff s).mpr (.inl hv), hfirst⟩
  case covers =>
    intro v hv
    rw [List.filterMap_append, List.mem_append] at hv
    obtain hv | hv := hv
    · obtain ⟨d, hd, hname⟩ := h.covers v hv
      exact ⟨d, List.mem_append_left _ hd, hname⟩
    · obtain rfl : v = u := by simpa [hs] using hv
      exact ⟨(v, s.2), by simp, rfl⟩

/-- What is found is what the statements declare first. -/
theorem keepsFirst_foldl (ss : List (List Char × Nat)) :
    KeepsFirst ss
      ((ss.filterMap fun s => (declares? s).map fun u => (u, s.2)).foldl keepFirst []) := by
  induction ss using List.reverseRecOn with
  | nil =>
      refine ⟨fun u n => ⟨nofun, ?_⟩, .nil, nofun⟩
      rintro ⟨i, hfirst, -⟩
      exact absurd hfirst.lt_length (Nat.not_lt_zero i)
  | append_singleton ss s ih =>
      rw [List.filterMap_append, List.foldl_append]
      cases hs : declares? s with
      | none =>
          simpa [hs] using ih.skip s (by simp [hs])
      | some u =>
          have hstep : ([s].filterMap fun s => (declares? s).map fun u => (u, s.2)) =
              [(u, s.2)] := by
            simp [hs]
          rw [hstep, List.foldl_cons, List.foldl_nil, keepFirst]
          split_ifs with hfound
          · refine ih.skip s fun v hv => ?_
            obtain rfl : u = v := Option.some.inj (hs.symm.trans hv)
            simpa using hfound
          · refine ih.concat s hs fun d hd hname => hfound ?_
            exact List.any_eq_true.mpr ⟨d, hd, by simpa using hname⟩

/-- A carriage return at the end of a line declares nothing. -/
theorem ofLine_dropReturn (line : List Char) : ofLine (dropReturn line) = ofLine line := by
  have hconcat : ∀ front : List Char, ofLine (front ++ ['\r']) = ofLine front := by
    intro front
    simp only [ofLine, List.splitOn_eq_splitOnP]
    induction front using induction_on_parts (· == ';') with
    | free front hfree =>
        have htrim : trim (front ++ ['\r']) = trim front := by
          rw [← trim_trimEnd, trimEnd_append_of_blank (by decide), trim_trimEnd]
        have hreturn : ['\r'].splitOnP (· == ';') = [['\r']] := rfl
        rw [splitOnP_append_of_free hfree hreturn, List.splitOnP_eq_singleton hfree,
          List.filterMap_cons, List.filterMap_cons, htrim]
    | cut first c rest hfirst hc ih =>
        rw [List.append_assoc, List.cons_append,
          List.splitOnP_append_cons_of_forall_mem hfirst c hc,
          List.splitOnP_append_cons_of_forall_mem hfirst c hc, List.filterMap_cons,
          List.filterMap_cons, ih]
  unfold dropReturn
  split
  · rename_i hreturn
    obtain ⟨front, rfl⟩ := List.getLast?_eq_some_iff.mp hreturn
    rw [List.dropLast_concat, hconcat]
  · rfl

/-- The declarations of a body are the first ones of its statements. -/
theorem keepsFirst_declared (code : List Char) :
    KeepsFirst (statements code) (declared (lines code).zipIdx) := by
  have hstatements : ((lines code).zipIdx.flatMap fun (line, number) =>
      (ofLine line).map fun u => (u, number)) =
      (statements code).filterMap fun s => (declares? s).map fun u => (u, s.2) := by
    rw [flatMap_zipIdx_lines (fun line n => by simp only [ofLine_dropReturn]) (fun n => rfl),
      statements, List.filterMap_flatMap]
    refine List.flatMap_congr fun line _ => ?_
    simp only [ofLine, List.map_filterMap, List.filterMap_map]
    rfl
  rw [declared, hstatements]
  exact keepsFirst_foldl _

end Reflection
end ShaderAssets
