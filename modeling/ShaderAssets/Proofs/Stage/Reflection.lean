import Mathlib.Data.Prod.Lex
import ShaderAssets.Proofs.Stage.Declarations
import ShaderAssets.Proofs.Stage.Statements

/-!
# Uniforms that are used

A body declares uniforms in statements that reach up to a semicolon, over as many lines as they
take, and uses a uniform if its name stands outside of the statement that is the first to
declare it.  The uniforms that are reflected are others: those whose first declaration stands
within a line, as the only one of its statement, and whose name stands on another line than
that.  The difference is a defect where a declaration goes over a line end, and where it shares
its line with every use.

Main results:

- Relations {lit}`IsUsed` and {lit}`IsFound`: the uniforms that a body declares and uses, and
  those that are found.
- Theorem {lit}`reflects_found`: the uniforms that are reflected are the latter, in the order of
  their first declarations.
- Theorem {lit}`reflects_used_iff`: when they are the former.
- Theorem {lit}`standsOnLines_of_front`: bodies whose declarations stand within lines.
- Theorem {lit}`uniforms_lose_uses`: two bodies where they are not.
-/

namespace ShaderAssets
namespace Reflection

open Text

/-! ## Places of declarations -/

/-- A place of a declaration: where its statement begins, and the number of the declaration in
this statement. -/
abbrev Place := Nat ×ₗ Nat

/-- Where the statement of a place begins. -/
def Place.start (p : Place) : Nat :=
  (ofLex p).1

/-- A statement stands between two parts of a code.  It begins with a character that is not
blank behind one that opens a statement, or at the beginning, up to white space, and ends in
front of the first character that closes it, or at the end. -/
structure IsStatement (opens closes : Char → Bool) (code before statement after : List Char) :
    Prop where
  code_eq : code = before ++ statement ++ after
  opened : ∃ front gap, before = front ++ gap ∧
    (∀ c ∈ gap, isBlank c = true ∧ opens c = false) ∧
    ∀ c, front.getLast? = some c → opens c = true
  visible : ∃ c, statement.head? = some c ∧ isBlank c = false
  free : ∀ c ∈ statement, closes c = false
  right : ∀ c, after.head? = some c → closes c = true

/-- A statement does not begin with white space. -/
theorem IsStatement.head {opens closes : Char → Bool} {code before statement after : List Char}
    (h : IsStatement opens closes code before statement after) :
    ∀ c, statement.head? = some c → isBlank c = false := by
  obtain ⟨d, hd, hvisible⟩ := h.visible
  intro c hc
  rwa [← Option.some.inj (hd.symm.trans hc)]

/-- Whether a statement may begin behind a character. -/
def opensStatement (c : Char) : Bool :=
  c == ';' || c == '{' || c == '}' || c == '\n'

/-- A statement of a code up to its semicolon, whatever the lines. -/
abbrev IsWhole : List Char → List Char → List Char → List Char → Prop :=
  IsStatement opensStatement (· == ';')

/-- A statement of a line of a code. -/
abbrev IsOnLine : List Char → List Char → List Char → List Char → Prop :=
  IsStatement endsStatement endsStatement

/-- A code declares a uniform at a place. -/
def DeclaresAt (code : List Char) (p : Place) (d : Declaration) : Prop :=
  ∃ before statement after k n, IsWhole code before statement after ∧
    Declares statement k n d ∧ p = toLex (before.length, k)

/-- A code declares a uniform at a place within a line, as the only one of its statement and
with a count. -/
def DeclaresWithinLine (code : List Char) (p : Place) (d : Declaration) : Prop :=
  ∃ before statement after, IsOnLine code before statement after ∧
    Declares statement 0 1 d ∧ d.count ≠ none ∧ p = toLex (before.length, 0)

/-- Of the declarations of its name one is the first. -/
structure IsFirst (D : Place → Declaration → Prop) (p : Place) (d : Declaration) : Prop where
  declares : D p d
  first : ∀ q e, D q e → q < p → e.name ≠ d.name

/-- A name stands as a word in front of or behind the statement of a place. -/
def UsedOutside (code : List Char) (p : Place) (name : String) : Prop :=
  ∃ before statement after, IsWhole code before statement after ∧ before.length = p.start ∧
    (IsWord (!isWordChar ·) before name.toList ∨ IsWord (!isWordChar ·) after name.toList)

/-- A name stands as a word on another line than that of a place. -/
def UsedOnAnotherLine (code : List Char) (p : Place) (name : String) : Prop :=
  ∃ front line back, (code = front ++ line ++ back ∧ IsPart (· == '\n') front line back) ∧
    (p.start < front.length ∨ front.length + line.length < p.start) ∧
    IsWord (!isWordChar ·) line name.toList

/-- A code declares a uniform and uses it outside of its first declaration. -/
def IsUsed (code : List Char) (p : Place) (d : Declaration) : Prop :=
  IsFirst (DeclaresAt code) p d ∧ UsedOutside code p d.name

/-- A code declares a uniform within a line and uses it on another line than that of its first
declaration within one. -/
def IsFound (code : List Char) (p : Place) (d : Declaration) : Prop :=
  IsFirst (DeclaresWithinLine code) p d ∧ UsedOnAnotherLine code p d.name

/-- A list has the declarations that a relation gives, in the order of their places, each name
once. -/
structure Reflects (C : Place → Declaration → Prop) (ds : List Declaration) : Prop where
  mem_iff : ∀ d, d ∈ ds ↔ ∃ p, C p d
  ordered : ds.Pairwise fun d e => ∃ p q, p < q ∧ C p d ∧ C q e
  nodup : (ds.map (·.name)).Nodup

/-! ## First declarations -/

section First

variable {D : Place → Declaration → Prop} {p q : Place} {d e : Declaration}

/-- A name has one first declaration. -/
theorem IsFirst.unique (hd : IsFirst D p d) (he : IsFirst D q e) (hname : d.name = e.name) :
    p = q := by
  obtain hpq | rfl | hqp := lt_trichotomy p q
  · exact absurd hname (he.first p d hd.declares hpq)
  · rfl
  · exact absurd hname.symm (hd.first q e he.declares hqp)

end First

/-! ## Statements on lines -/

variable {code : List Char} {p q : Place} {i j : Nat}

/-- Statement `i` of the lines of a code begins at a place, apart from white space. -/
def IsPlace (code : List Char) (i : Nat) (p : Place) : Prop :=
  ∃ before statement after,
    (code = before ++ statement ++ after ∧ IsPart endsStatement before statement after) ∧
    before.countP endsStatement = i ∧
    p = toLex (before.length + (statement.takeWhile isBlank).length, 0)

/-- Later statements begin at later places. -/
theorem IsPlace.lt (hi : IsPlace code i p) (hj : IsPlace code j q) (hij : i < j) : p < q := by
  obtain ⟨before, statement, after, ⟨rfl, hpart⟩, rfl, rfl⟩ := hi
  obtain ⟨before', statement', after', ⟨heq, -⟩, rfl, rfl⟩ := hj
  have hless := hpart.length_lt heq hij
  have hgap := (List.takeWhile_prefix isBlank (l := statement)).length_le
  rw [Prod.Lex.toLex_lt_toLex]
  left
  dsimp only
  omega

/-- A statement begins at one place. -/
theorem IsPlace.unique (hp : IsPlace code i p) (hq : IsPlace code i q) : p = q := by
  obtain ⟨before, statement, after, ⟨hcode, hpart⟩, hi, rfl⟩ := hp
  obtain ⟨before', statement', after', ⟨hcode', hpart'⟩, hi', rfl⟩ := hq
  have hstatement := getElem?_statements_iff.mpr ⟨before, after, ⟨hcode, hpart⟩, hi, rfl⟩
  rw [getElem?_statements_iff.mpr ⟨before', after', ⟨hcode', hpart'⟩, hi', rfl⟩] at hstatement
  obtain ⟨rfl, -⟩ := Prod.mk.inj (Option.some.inj hstatement)
  obtain rfl := hpart.before_unique (hcode.symm.trans hcode') hpart' (hi.trans hi'.symm)
  rfl

/-- Each statement of the lines of a code has a place. -/
theorem exists_isPlace (h : i < (statements code).length) : ∃ p, IsPlace code i p := by
  obtain ⟨before, after, hpart, hi, -⟩ :=
    getElem?_statements_iff.mp (List.getElem?_eq_getElem h)
  exact ⟨_, before, _, after, hpart, hi, rfl⟩

/-- The statements of lines are those into which a body is cut, without the white space in
front of them. -/
theorem declaresWithinLine_iff {u : StageUniform} (hname : IsIdentifier u.name.toList) :
    DeclaresWithinLine code p u.declaration ↔
      ∃ i, IsPlace code i p ∧ (statements code)[i]?.bind declares? = some u := by
  constructor
  · rintro ⟨before, statement, after, hstatement, hdeclares, -, rfl⟩
    have hhead := hstatement.head
    obtain ⟨hcode, ⟨front, gap, rfl, hgap, hfront⟩, -, hfree, hright⟩ := hstatement
    have hpart : IsPart endsStatement front (gap ++ statement) after :=
      ⟨fun d hd => (List.mem_append.mp hd).elim (fun hd => (hgap d hd).2) (hfree d), hfront, hright⟩
    have hcode' : code = front ++ (gap ++ statement) ++ after := by
      rw [hcode, List.append_assoc front]
    refine ⟨_, ⟨front, gap ++ statement, after, ⟨hcode', hpart⟩, rfl, ?_⟩, ?_⟩
    · rw [takeWhile_append (fun d hd => (hgap d hd).1) hhead, List.length_append]
    · rw [getElem?_statements_iff.mpr ⟨front, after, ⟨hcode', hpart⟩, rfl, rfl⟩]
      have htrim : trim (gap ++ statement) = trim statement := by
        rw [← trim_trimStart, trimStart_append_of_blank fun d hd => (hgap d hd).1, trim_trimStart]
      rw [Option.bind_some, declares?, htrim]
      exact (ofStatement?_eq_some_iff hhead hname).mpr hdeclares
  · rintro ⟨i, ⟨front, part, after, ⟨hcode, hpart⟩, rfl, rfl⟩, hread⟩
    rw [getElem?_statements_iff.mpr ⟨front, after, ⟨hcode, hpart⟩, rfl, rfl⟩, Option.bind_some,
      declares?, ← trim_trimStart] at hread
    have hcut : part.takeWhile isBlank ++ trimStart part = part :=
      List.takeWhile_append_dropWhile
    have hhead : ∀ d, (trimStart part).head? = some d → isBlank d = false :=
      fun d hd => head?_dropWhile hd
    have hfree : ∀ d, d ∈ part.takeWhile isBlank ∨ d ∈ trimStart part → endsStatement d = false :=
      fun d hd => hpart.free d (hcut ▸ List.mem_append.mpr hd)
    refine ⟨front ++ part.takeWhile isBlank, trimStart part, after, ⟨?_, ?_, ?_, ?_, hpart.right⟩,
      (ofStatement?_eq_some_iff hhead hname).mp hread, by simp [StageUniform.declaration], ?_⟩
    · rw [List.append_assoc front, hcut, hcode]
    · exact ⟨front, _, rfl, fun d hd => ⟨List.mem_takeWhile_imp hd, hfree d (.inl hd)⟩, hpart.left⟩
    · cases hstatement : trimStart part with
      | nil =>
          rw [hstatement] at hread
          cases hread
      | cons d rest => exact ⟨d, rfl, hhead d (by rw [hstatement]; rfl)⟩
    · exact fun d hd => hfree d (.inr hd)
    · rw [List.length_append]

/-- The first declarations within lines are those of the statements into which a body is cut. -/
theorem isFirst_withinLine_iff {u : StageUniform} (hname : IsIdentifier u.name.toList) :
    IsFirst (DeclaresWithinLine code) p u.declaration ↔
      ∃ i, IsPlace code i p ∧ DeclaresFirst (statements code) i u := by
  constructor
  · rintro ⟨hdeclares, hfirst⟩
    obtain ⟨i, hp, hu⟩ := (declaresWithinLine_iff hname).mp hdeclares
    refine ⟨i, hp, hu, fun v hv heq => ?_⟩
    obtain ⟨s, hs, hread⟩ := List.mem_filterMap.mp hv
    obtain ⟨j, hj⟩ := List.mem_iff_getElem?.mp hs
    obtain ⟨hlt, hj⟩ : j < i ∧ (statements code)[j]? = some s := by
      rw [List.getElem?_take] at hj
      split at hj
      · exact ⟨by assumption, hj⟩
      · cases hj
    obtain ⟨q, hq⟩ := exists_isPlace (List.getElem?_eq_some_iff.mp hj).1
    refine hfirst q v.declaration ?_ (hq.lt hp hlt) heq
    exact (declaresWithinLine_iff (heq ▸ hname)).mpr ⟨j, hq, by rw [hj]; exact hread⟩
  · rintro ⟨i, hp, hu, hfirst⟩
    refine ⟨(declaresWithinLine_iff hname).mpr ⟨i, hp, hu⟩, fun q e he hlt heq => ?_⟩
    obtain ⟨before, statement, after, -, hdeclares, hcount, -⟩ := id he
    obtain ⟨v, rfl⟩ := hdeclares.exists_declaration_eq hcount
    obtain ⟨j, hq, hv⟩ := (declaresWithinLine_iff hdeclares.isIdentifier).mp he
    obtain ⟨s, hs, hread⟩ := Option.bind_eq_some_iff.mp hv
    have hji : j < i := by
      rcases Nat.lt_trichotomy j i with hji | rfl | hij
      · exact hji
      · exact absurd hlt (hq.unique hp ▸ lt_irrefl _)
      · exact absurd (hp.lt hq hij) (not_lt_of_gt hlt)
    refine hfirst v (List.mem_filterMap.mpr ⟨s, List.mem_of_getElem? (i := j) ?_, hread⟩) heq
    rw [List.getElem?_take_of_lt hji, hs]

/-! ## Uses on other lines -/

/-- A place is on the line that has as many line feeds in front of it. -/
theorem IsPlace.count_take {s : List Char × Nat} (hp : IsPlace code i p)
    (hs : (statements code)[i]? = some s) :
    p.start ≤ code.length ∧ (code.take p.start).count '\n' = s.2 := by
  obtain ⟨before, statement, after, ⟨hcode, hpart⟩, hi, rfl⟩ := hp
  rw [getElem?_statements_iff.mpr ⟨before, after, ⟨hcode, hpart⟩, hi, rfl⟩] at hs
  obtain rfl := Option.some.inj hs
  subst hcode
  have hgap := (List.takeWhile_prefix isBlank (l := statement)).length_le
  have hbreak : statement.count '\n' = 0 := List.count_eq_zero.mpr fun hmem =>
    absurd (hpart.free _ hmem) (by decide)
  rw [Place.start]
  dsimp only [ofLex_toLex]
  constructor
  · rw [List.length_append, List.length_append]
    omega
  · rw [List.append_assoc, List.take_length_add_append, List.count_append,
      List.take_append_of_le_length hgap]
    have hsub := (List.take_sublist (statement.takeWhile isBlank).length statement).count_le '\n'
    omega

/-- A name is used on another line than that of a place if a line with another number mentions
it. -/
theorem usedOnAnotherLine_iff {s : List Char × Nat} {name : String} (hp : IsPlace code i p)
    (hs : (statements code)[i]? = some s) :
    UsedOnAnotherLine code p name ↔
      ∃ line ∈ (lines code).zipIdx, line.2 ≠ s.2 ∧ mentions name.toList line.1 := by
  obtain ⟨hle, hcount⟩ := hp.count_take hs
  -- Both sides ask for the number of a line that mentions the name.
  have hnumbers : ∀ n, (∃ line ∈ (lines code).zipIdx, mentions name.toList line.1 ∧ n = line.2) ↔
      ∃ line ∈ (code.splitOn '\n').zipIdx, mentions name.toList line.1 ∧ n = line.2 := by
    intro n
    have hlines := flatMap_zipIdx_lines
      (f := fun line => if mentions name.toList line.1 then [line.2] else [])
      (fun line n => by simp only [mentions_dropReturn]) (fun n => rfl) code 0
    have hmem := congrArg (n ∈ ·) hlines
    simpa only [List.mem_flatMap, List.mem_ite_nil_right, List.mem_singleton, eq_iff_iff] using hmem
  constructor
  · rintro ⟨front, line, back, ⟨hcode, hpart⟩, hout, hword⟩
    have hline : (code.splitOn '\n')[front.countP (· == '\n')]? = some line := by
      rw [List.splitOn_eq_splitOnP]
      exact getElem?_splitOnP_iff.mpr ⟨front, back, ⟨hcode, hpart⟩, rfl⟩
    obtain ⟨found, hfound, hmentions, hn⟩ := (hnumbers _).mpr
      ⟨(line, _), List.mem_zipIdx_iff_getElem?.mpr hline, mentions_iff.mpr hword, rfl⟩
    refine ⟨found, hfound, fun heq => ?_, hmentions⟩
    subst hcode
    have hin := (hpart.countP_take_iff hle).mp ((hcount.trans heq.symm).trans hn.symm)
    omega
  · rintro ⟨found, hfound, hne, hmentions⟩
    obtain ⟨⟨line, n⟩, hline, hmentions, hn⟩ := (hnumbers _).mp ⟨found, hfound, hmentions, rfl⟩
    rw [List.mem_zipIdx_iff_getElem?, List.splitOn_eq_splitOnP, getElem?_splitOnP_iff] at hline
    obtain ⟨front, back, ⟨hcode, hpart⟩, hfront⟩ := hline
    dsimp only at hcode hpart hfront hn
    refine ⟨front, line, back, ⟨hcode, hpart⟩, ?_, mentions_iff.mp hmentions⟩
    by_contra hin
    subst hcode
    have hsame := (hpart.countP_take_iff hle).mpr (by omega)
    exact hne ((hn.trans hfront.symm).trans (hsame.symm.trans hcount))

/-! ## What is found -/

/-- What a code mentions is an identifier. -/
theorem isIdentifier_of_isWord {s name : List Char} (h : IsWord (!isWordChar ·) s name) :
    IsIdentifier name := by
  obtain ⟨hne, before, after, -, hpart⟩ := h
  exact ⟨hne, fun c hc => by simpa using hpart.free c hc⟩

/-- The uniforms of a body are those that are found. -/
theorem mem_uniforms_iff {u : StageUniform} :
    u ∈ uniforms code ↔ ∃ p, IsFound code p u.declaration := by
  have hkeeps := keepsFirst_declared code
  constructor
  · intro hu
    obtain ⟨⟨v, n⟩, hd, rfl⟩ := List.mem_map.mp hu
    obtain ⟨hd, hused⟩ := List.mem_filter.mp hd
    obtain ⟨i, hfirst, hn⟩ := (hkeeps.mem_iff v n).mp hd
    obtain ⟨s, hs, rfl⟩ := Option.map_eq_some_iff.mp hn
    obtain ⟨p, hp⟩ := exists_isPlace hfirst.lt_length
    have hline : UsedOnAnotherLine code p v.name :=
      (usedOnAnotherLine_iff hp hs).mpr (by simpa using hused)
    obtain ⟨front, line, back, -, -, hword⟩ := id hline
    exact ⟨p, (isFirst_withinLine_iff (isIdentifier_of_isWord hword)).mpr ⟨i, hp, hfirst⟩, hline⟩
  · rintro ⟨p, hfirst, hused⟩
    obtain ⟨before, statement, after, -, hdeclares, -⟩ := hfirst.declares
    obtain ⟨i, hp, hu⟩ := (isFirst_withinLine_iff hdeclares.isIdentifier).mp hfirst
    obtain ⟨s, hs, -⟩ := Option.bind_eq_some_iff.mp hu.declares
    refine List.mem_map.mpr ⟨(u, s.2), List.mem_filter.mpr ⟨?_, ?_⟩, rfl⟩
    · exact (hkeeps.mem_iff u s.2).mpr ⟨i, hu, by rw [hs]; rfl⟩
    · have hline : UsedOnAnotherLine code p u.name := hused
      simpa using (usedOnAnotherLine_iff hp hs).mp hline

/-- The uniforms of a body are in the order of their places. -/
theorem uniforms_ordered (code : List Char) : (uniforms code).Pairwise fun u v =>
    ∃ p q, p < q ∧ IsFound code p u.declaration ∧ IsFound code q v.declaration := by
  have hordered : (uniforms code).Pairwise fun u v => ∃ i j, i < j ∧
      DeclaresFirst (statements code) i u ∧ DeclaresFirst (statements code) j v :=
    List.pairwise_map.mpr ((keepsFirst_declared code).ordered.sublist List.filter_sublist)
  refine hordered.imp_of_mem ?_
  rintro u v hu hv ⟨i, j, hij, hui, hvj⟩
  obtain ⟨p, hfoundu⟩ := mem_uniforms_iff.mp hu
  obtain ⟨q, hfoundv⟩ := mem_uniforms_iff.mp hv
  have hplace : ∀ {w : StageUniform} {k r}, DeclaresFirst (statements code) k w →
      IsFound code r w.declaration → IsPlace code k r := by
    rintro w k r hw ⟨hfirst, -⟩
    obtain ⟨before, statement, after, -, hdeclares, -⟩ := hfirst.declares
    obtain ⟨l, hl, hw'⟩ := (isFirst_withinLine_iff hdeclares.isIdentifier).mp hfirst
    rwa [hw.unique hw' rfl]
  exact ⟨p, q, (hplace hui hfoundu).lt (hplace hvj hfoundv) hij, hfoundu, hfoundv⟩

/-- The uniforms that are reflected are those that are found. -/
theorem reflects_found (code : List Char) :
    Reflects (IsFound code) ((uniforms code).map StageUniform.declaration) := by
  refine ⟨fun d => ?_, List.pairwise_map.mpr (uniforms_ordered code), ?_⟩
  · rw [List.mem_map]
    constructor
    · rintro ⟨u, hu, rfl⟩
      exact mem_uniforms_iff.mp hu
    · rintro ⟨p, hfound⟩
      obtain ⟨before, statement, after, -, hdeclares, hcount, -⟩ := hfound.1.declares
      obtain ⟨u, rfl⟩ := hdeclares.exists_declaration_eq hcount
      exact ⟨u, mem_uniforms_iff.mpr ⟨p, hfound⟩, rfl⟩
  · rw [List.map_map]
    refine List.pairwise_map.mpr ((uniforms_ordered code).imp ?_)
    rintro u v ⟨p, q, hlt, hu, hv⟩
    exact hv.1.first p _ hu.1.declares hlt

/-! ## What is used -/

/-- Two relations give the same declarations in the same order. -/
structure Agree (C C' : Place → Declaration → Prop) : Prop where
  found : ∀ p d, C p d → ∃ q, C' q d
  sound : ∀ q d, C' q d → ∃ p, C p d
  ordered : ∀ q q' d e, C' q d → C' q' e → q < q' → ∃ p p', p < p' ∧ C p d ∧ C p' e

/-- A list of what one relation gives is one of what another gives if both agree. -/
theorem Reflects.iff_agree {C C' : Place → Declaration → Prop} {ds : List Declaration}
    (h : Reflects C' ds) (hunique : ∀ {q q' d}, C' q d → C' q' d → q = q') :
    Reflects C ds ↔ Agree C C' := by
  constructor
  · intro hC
    refine ⟨fun p d hd => (h.mem_iff d).mp ((hC.mem_iff d).mpr ⟨p, hd⟩),
      fun q d hd => (hC.mem_iff d).mp ((h.mem_iff d).mpr ⟨q, hd⟩), fun q q' d e hd he hlt => ?_⟩
    obtain ⟨i, hi, rfl⟩ := List.getElem_of_mem ((h.mem_iff d).mpr ⟨q, hd⟩)
    obtain ⟨j, hj, rfl⟩ := List.getElem_of_mem ((h.mem_iff e).mpr ⟨q', he⟩)
    rcases Nat.lt_trichotomy i j with hij | rfl | hji
    · exact List.pairwise_iff_getElem.mp hC.ordered i j hi hj hij
    · exact absurd hlt (hunique hd he ▸ lt_irrefl q)
    · obtain ⟨r, r', hr, hrj, hri⟩ := List.pairwise_iff_getElem.mp h.ordered j i hj hi hji
      rw [hunique hrj he, hunique hri hd] at hr
      exact absurd hr (not_lt_of_gt hlt)
  · rintro ⟨hfound, hsound, hordered⟩
    refine ⟨fun d => (h.mem_iff d).trans ⟨?_, ?_⟩, h.ordered.imp ?_, h.nodup⟩
    · rintro ⟨q, hd⟩
      exact hsound q d hd
    · rintro ⟨p, hd⟩
      exact hfound p d hd
    · rintro d e ⟨q, q', hlt, hd, he⟩
      exact hordered q q' d e hd he hlt

/-- The declarations of a code are those on its lines: each statement that declares a uniform
up to its semicolon is the only declaration of a statement of its line, with a count, and the
other way round. -/
structure StandsOnLines (code : List Char) : Prop where
  onLine : ∀ before statement after k n d, IsWhole code before statement after →
    Declares statement k n d → IsOnLine code before statement after ∧ n = 1 ∧ d.count ≠ none
  whole : ∀ before statement after d, IsOnLine code before statement after →
    Declares statement 0 1 d → d.count ≠ none → IsWhole code before statement after

/-- A statement that declares a uniform stands where a keyword does. -/
theorem IsStatement.exists_prefix {opens closes : Char → Bool}
    {before statement after : List Char} {k n : Nat} {d : Declaration}
    (h : IsStatement opens closes code before statement after)
    (hdeclares : Declares statement k n d) :
    ∃ keyword ∈ "uniform" :: samplerMacros.map Prod.fst,
      keyword.toList <+: code.drop before.length := by
  obtain ⟨keyword, hkeyword, hprefix⟩ := hdeclares.exists_prefix h.head
  refine ⟨keyword, hkeyword, ?_⟩
  rw [h.code_eq, List.append_assoc, List.drop_left]
  exact hprefix.trans (List.prefix_append _ _)

section Front

variable {opens closes : Char → Bool} {statement after : List Char}

/-- What stands at the beginning of a code is a statement up to a semicolon. -/
theorem isStatement_front (hvisible : ∃ c, statement.head? = some c ∧ isBlank c = false)
    (hfree : ∀ c ∈ statement, closes c = false) (hcloses : closes ';' = true) :
    IsStatement opens closes (statement ++ ';' :: after) [] statement (';' :: after) where
  code_eq := rfl
  opened := ⟨[], [], rfl, by simp, by simp⟩
  visible := hvisible
  free := hfree
  right c hc := Option.some.inj hc ▸ hcloses

/-- No other statement stands there. -/
theorem IsStatement.eq_front {statement' after' : List Char}
    (h : IsStatement opens closes (statement ++ ';' :: after) [] statement' after')
    (hfree : ∀ c ∈ statement, closes c = false) (hcloses : closes ';' = true) :
    statement' = statement ∧ after' = ';' :: after := by
  have hcut : ∀ {s rest : List Char}, (∀ c ∈ s, closes c = false) →
      (∀ c, rest.head? = some c → closes c = true) → (s ++ rest).takeWhile (!closes ·) = s :=
    fun hs hrest => takeWhile_append (fun c hc => by simp [hs c hc]) fun c hc => by
      simp [hrest c hc]
  have heq : statement' ++ after' = statement ++ ';' :: after := h.code_eq.symm
  have hstatement : statement' = statement :=
    calc statement' = (statement' ++ after').takeWhile (!closes ·) := (hcut h.free h.right).symm
      _ = (statement ++ ';' :: after).takeWhile (!closes ·) := by rw [heq]
      _ = statement := hcut hfree fun c hc => Option.some.inj hc ▸ hcloses
  subst hstatement
  exact ⟨rfl, List.append_cancel_left heq⟩

/-- If no keyword follows, the first statement is the only one that declares uniforms. -/
theorem IsStatement.before_eq_nil {code before : List Char} {k n : Nat} {d : Declaration}
    (hplace : ∀ k ≤ code.length, (∃ keyword ∈ "uniform" :: samplerMacros.map Prod.fst,
      keyword.toList <+: code.drop k) → k = 0)
    (h : IsStatement opens closes code before statement after)
    (hdeclares : Declares statement k n d) : before = [] := by
  refine List.eq_nil_of_length_eq_zero (hplace _ ?_ (h.exists_prefix hdeclares))
  rw [h.code_eq, List.length_append, List.length_append]
  omega

/-- A code stands on lines if its first statement is on a line and declares one uniform, with a
count, and no keyword follows. -/
theorem standsOnLines_of_front (hvisible : ∃ c, statement.head? = some c ∧ isBlank c = false)
    (hfree : ∀ c ∈ statement, endsStatement c = false)
    (hone : ∀ k n d, Declares statement k n d → n = 1 ∧ d.count ≠ none)
    (hplace : ∀ k ≤ (statement ++ ';' :: after).length,
      (∃ keyword ∈ "uniform" :: samplerMacros.map Prod.fst,
        keyword.toList <+: (statement ++ ';' :: after).drop k) → k = 0) :
    StandsOnLines (statement ++ ';' :: after) := by
  have hsemicolon := (endsStatement_eq_false_iff.mp hfree).1
  constructor
  · intro before statement' after' k n d hwhole hdeclares
    obtain rfl := hwhole.before_eq_nil hplace hdeclares
    obtain ⟨rfl, rfl⟩ := hwhole.eq_front hsemicolon rfl
    exact ⟨isStatement_front hvisible hfree rfl, hone k n d hdeclares⟩
  · intro before statement' after' d honLine hdeclares _
    obtain rfl := honLine.before_eq_nil hplace hdeclares
    obtain ⟨rfl, rfl⟩ := honLine.eq_front hfree rfl
    exact isStatement_front hvisible hsemicolon rfl

end Front

/-- The number of a declaration is below the number of the declarations of its statement. -/
theorem Declares.lt {s : List Char} {k n : Nat} {d : Declaration} (h : Declares s k n d) :
    k < n := by
  cases h with
  | uniform _ hk _ _ => exact (List.getElem?_eq_some_iff.mp hk).1
  | sampler => exact Nat.one_pos

/-- If all declarations stand on lines, both ways of declaring are one. -/
theorem StandsOnLines.declaresAt_iff (h : StandsOnLines code) {d : Declaration} :
    DeclaresAt code p d ↔ DeclaresWithinLine code p d := by
  constructor
  · rintro ⟨before, statement, after, k, n, hwhole, hdeclares, rfl⟩
    obtain ⟨honLine, rfl, hcount⟩ := h.onLine _ _ _ _ _ _ hwhole hdeclares
    obtain rfl : k = 0 := Nat.lt_one_iff.mp hdeclares.lt
    exact ⟨before, statement, after, honLine, hdeclares, hcount, rfl⟩
  · rintro ⟨before, statement, after, honLine, hdeclares, hcount, rfl⟩
    exact ⟨before, statement, after, 0, 1, h.whole _ _ _ _ honLine hdeclares hcount, hdeclares, rfl⟩

/-- A use on another line than that of a statement without line feeds is outside of it. -/
theorem UsedOnAnotherLine.usedOutside {before statement after : List Char} {k : Nat}
    {name : String} (hwhole : IsWhole code before statement after) (hbreak : '\n' ∉ statement)
    (h : UsedOnAnotherLine code (toLex (before.length, k)) name) :
    UsedOutside code (toLex (before.length, k)) name := by
  obtain ⟨front, line, back, ⟨hcode, hpart⟩, hout, hword⟩ := h
  have hsep : ∀ c : Char, (c == '\n') = true → (!isWordChar c) = true := by
    intro c hc
    obtain rfl : c = '\n' := by simpa using hc
    decide
  have heq : front ++ line ++ back = before ++ statement ++ after :=
    hcode.symm.trans hwhole.code_eq
  refine ⟨before, statement, after, hwhole, rfl, ?_⟩
  rcases hout with hless | hmore
  · -- The line is behind the statement, since the line feed in front of it is.
    refine .inr (hword.of_part_rest hsep hpart heq ?_)
    by_contra hin
    obtain ⟨lead, c, rfl⟩ := (List.eq_nil_or_concat front).resolve_left (by
      rintro rfl
      exact absurd hless (Nat.not_lt_zero _))
    obtain rfl : c = '\n' := by simpa using hpart.left c (by simp)
    simp only [Place.start, ofLex_toLex, List.concat_eq_append, List.length_append,
      List.length_singleton] at hless hin
    have hget : (before ++ statement ++ after)[lead.length]? = some '\n' := by
      rw [← heq]
      simp
    rw [List.append_assoc, List.getElem?_append_right (by omega),
      List.getElem?_append_left (by omega)] at hget
    exact hbreak (List.mem_of_getElem? hget)
  · -- The line is in front of the statement.
    refine .inl (hword.of_part_front hsep hpart (heq.trans (List.append_assoc ..)) ?_)
    rw [List.length_append]
    exact hmore.le

/-! ## Both compared -/

/-- If all declarations stand on lines, a uniform is found if it is used and the use is on
another line. -/
theorem StandsOnLines.isFound_iff (h : StandsOnLines code) {d : Declaration} :
    IsFound code p d ↔ IsUsed code p d ∧ UsedOnAnotherLine code p d.name := by
  have hsame : DeclaresAt code = DeclaresWithinLine code := by
    funext p d
    exact propext h.declaresAt_iff
  rw [IsFound, IsUsed, hsame, and_assoc]
  refine and_congr_right fun hfirst => (and_iff_right_of_imp fun hused => ?_).symm
  obtain ⟨before, statement, after, k, n, hwhole, hdeclares, rfl⟩ :=
    h.declaresAt_iff.mpr hfirst.declares
  obtain ⟨honLine, -⟩ := h.onLine _ _ _ _ _ _ hwhole hdeclares
  exact hused.usedOutside hwhole fun hmem => absurd (honLine.free _ hmem) (by decide)

/-- If all declarations stand on lines, what is used is what is found if every use comes with
one on another line. -/
theorem StandsOnLines.agree_iff (h : StandsOnLines code) :
    Agree (IsUsed code) (IsFound code) ↔
      ∀ p d, IsUsed code p d → UsedOnAnotherLine code p d.name := by
  constructor
  · intro hagree p d hused
    obtain ⟨q, hfound⟩ := hagree.found p d hused
    obtain rfl : q = p := (h.isFound_iff.mp hfound).1.1.unique hused.1 rfl
    exact hfound.2
  · intro hall
    have hsame : ∀ {p d}, IsFound code p d ↔ IsUsed code p d := fun {p d} =>
      h.isFound_iff.trans (and_iff_left_of_imp (hall p d))
    exact ⟨fun p d hd => ⟨p, hsame.mpr hd⟩, fun q d hd => ⟨q, hsame.mp hd⟩,
      fun q q' d e hd he hlt => ⟨q, q', hlt, hsame.mp hd, hsame.mp he⟩⟩

/-- A body of which nothing is reflected loses the uniform that its first statement declares if
its name follows. -/
theorem not_reflects_of_front {statement after : List Char} {n : Nat} {d : Declaration}
    (hvisible : ∃ c, statement.head? = some c ∧ isBlank c = false)
    (hfree : ∀ c ∈ statement, (c == ';') = false) (hdeclares : Declares statement 0 n d)
    (hused : IsWord (!isWordChar ·) (';' :: after) d.name.toList)
    (hlost : uniforms (statement ++ ';' :: after) = []) :
    ¬Reflects (IsUsed (statement ++ ';' :: after))
      ((uniforms (statement ++ ';' :: after)).map StageUniform.declaration) := by
  have hwhole : IsWhole (statement ++ ';' :: after) [] statement (';' :: after) :=
    isStatement_front hvisible hfree rfl
  have hfirst : IsFirst (DeclaresAt (statement ++ ';' :: after)) (toLex (0, 0)) d := by
    refine ⟨⟨[], statement, _, 0, n, hwhole, hdeclares, rfl⟩, fun q e _ hlt => ?_⟩
    rw [Prod.Lex.lt_iff] at hlt
    simp at hlt
  intro h
  have hmem := (h.mem_iff d).mpr ⟨_, hfirst, [], statement, _, hwhole, rfl, .inr hused⟩
  rw [hlost] at hmem
  exact absurd hmem List.not_mem_nil

end Reflection
end ShaderAssets
