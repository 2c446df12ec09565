import Mathlib.Data.List.Induction
import Mathlib.Data.List.InsertIdx
import ShaderAssets.Proofs.Shader.Outcome

/-!
# The order of bindings

The bindings of a program with a handle are the reflected names that are declared, each at
its first occurrence.  The declarations that are defines are put among them one after the
other, each at its own index or at the end.  An insertion moves what stands behind it, but
the defines come in the order of their indices, so none of them is moved again.

Main results:

- Theorem {lit}`Binding.map_name_reflected`: the names that are bound, in their order.
- Theorem {lit}`Binding.getElem?_place`: where a define stands in the end.
- Theorem {lit}`Binding.place_of_getElem?`: nothing but a define has no handle.
- Theorem {lit}`Pass.compile_bindings`: the bindings of a pass that compiles.
-/

namespace ShaderAssets

open Source (UniformDeclaration)

/-- A value behind a list without repetitions is new or left out. -/
theorem eraseDups_concat {α : Type} [BEq α] [LawfulBEq α] (l : List α) (a : α) :
    (l ++ [a]).eraseDups = if l.contains a then l.eraseDups else l.eraseDups ++ [a] := by
  rw [List.eraseDups_append]
  split
  · rename_i hold
    have hnone : [a].removeAll l = [] := List.filter_cons_of_neg (by simpa using hold)
    rw [hnone, List.eraseDups_nil, List.append_nil]
  · rename_i hnew
    have hsome : [a].removeAll l = [a] := List.filter_cons_of_pos (by simpa using hnew)
    rw [hsome]
    rfl

/-- What a filter drops may be inserted anywhere. -/
theorem filter_insertIdx_of_neg {α : Type} {p : α → Bool} {a : α} (h : p a = false)
    (l : List α) (i : Nat) : (l.insertIdx i a).filter p = l.filter p := by
  induction l generalizing i with
  | nil => cases i <;> simp [h]
  | cons b l ih => cases i <;> simp [h, ih, List.filter_cons]

namespace Binding

/-! ## Reflected uniforms -/

/-- Whether a name is declared as a uniform that is not a define. -/
def declares (declarations : List UniformDeclaration) (name : String) : Bool :=
  declarations.any fun d => !d.isDefine && d.bindName == name

/-- A name is declared exactly if there is a first declaration of it. -/
theorem declares_eq_isSome (declarations : List UniformDeclaration) (name : String) :
    declares declarations name =
      (declarations.find? fun d => !d.isDefine && d.bindName == name).isSome :=
  List.isSome_find?.symm

/-- The names that are bound are the declared ones, each at its first occurrence. -/
theorem map_name_reflected (declarations : List UniformDeclaration) (us : List ModuleUniform) :
    (reflected declarations us).map name =
      (us.map ModuleUniform.name).eraseDups.filter (declares declarations) := by
  -- Both sides add new names at the end, so uniforms are taken off there.
  induction us using List.reverseRecOn with
  | nil => rfl
  | append_singleton us u ih =>
      have hany : (reflected declarations us).any (·.name == u.name) = true ↔
          u.name ∈ us.map ModuleUniform.name ∧ declares declarations u.name = true := by
        rw [← List.mem_eraseDups, ← List.mem_filter, ← ih, List.any_eq_true]
        simp
      rw [List.map_append, List.map_singleton, eraseDups_concat]
      cases hdeclared : declarations.find? fun d => !d.isDefine && d.bindName == u.name with
      | none =>
          have hdrop : declares declarations u.name = false := by
            rw [declares_eq_isSome, hdeclared]
            rfl
          have hstep : reflected declarations (us ++ [u]) = reflected declarations us := by
            simp only [reflected, List.foldl_append, List.foldl_cons, List.foldl_nil, hdeclared,
              ite_self]
          rw [hstep, ih]
          split
          · rfl
          · simp [hdrop]
      | some d =>
          have hkeep : declares declarations u.name = true := by
            rw [declares_eq_isSome, hdeclared]
            rfl
          have hname : d.bindName = u.name := by
            have hfound := List.find?_some hdeclared
            simp only [Bool.and_eq_true, beq_iff_eq] at hfound
            exact hfound.2
          have hstep : reflected declarations (us ++ [u]) =
              if (reflected declarations us).any (·.name == u.name) then
                reflected declarations us
              else reflected declarations us ++ [⟨d, some u.handle⟩] := by
            simp only [reflected, List.foldl_append, List.foldl_cons, List.foldl_nil, hdeclared]
            rfl
          rw [hstep]
          by_cases hold : u.name ∈ us.map ModuleUniform.name
          · rw [if_pos (hany.mpr ⟨hold, hkeep⟩), if_pos (List.contains_iff_mem.mpr hold), ih]
          · rw [if_neg fun h => hold (hany.mp h).1,
              if_neg fun h => hold (List.contains_iff_mem.mp h)]
            simp [ih, hkeep, Binding.name, hname]

/-- Reflected uniforms have handles. -/
theorem isSome_handle_of_mem_reflected {declarations : List UniformDeclaration}
    {us : List ModuleUniform} {b : Binding} (h : b ∈ reflected declarations us) :
    b.handle.isSome = true := by
  obtain ⟨u, -, -, hhandle, -⟩ := mem_reflected h
  rw [hhandle]
  rfl

/-! ## Defines -/

/-- The declarations that are defines, with their indices. -/
def defineEntries (declarations : List UniformDeclaration) : List (UniformDeclaration × Nat) :=
  declarations.zipIdx.filter (·.1.isDefine)

/-- Puts declarations among bindings, each at its index or at the end. -/
def place (entries : List (UniformDeclaration × Nat)) (bs : List Binding) : List Binding :=
  entries.foldl (fun bs entry => bs.insertIdx (min entry.2 bs.length) ⟨entry.1, none⟩) bs

/-- Inserting the defines is placing their entries. -/
theorem insertDefines_eq (declarations : List UniformDeclaration) (bs : List Binding) :
    insertDefines declarations bs = place (defineEntries declarations) bs := by
  rw [place, defineEntries, List.foldl_filter]
  rfl

/-- The indices of defines increase. -/
theorem pairwise_defineEntries (declarations : List UniformDeclaration) :
    (defineEntries declarations).Pairwise (·.2 < ·.2) := by
  refine List.Pairwise.filter _ (List.pairwise_map.mp ?_)
  rw [List.zipIdx_map_snd]
  exact List.pairwise_lt_range'

/-- The last entry is placed last. -/
theorem place_concat (entries : List (UniformDeclaration × Nat))
    (entry : UniformDeclaration × Nat) (bs : List Binding) :
    place (entries ++ [entry]) bs =
      (place entries bs).insertIdx (min entry.2 (place entries bs).length) ⟨entry.1, none⟩ := by
  rw [place, List.foldl_append]
  rfl

/-- Placing entries adds as many bindings. -/
theorem length_place (entries : List (UniformDeclaration × Nat)) (bs : List Binding) :
    (place entries bs).length = bs.length + entries.length := by
  induction entries using List.reverseRecOn with
  | nil => rfl
  | append_singleton entries entry ih =>
      rw [place_concat, List.length_insertIdx_of_le_length (Nat.min_le_right ..), ih,
        List.length_append, List.length_singleton, Nat.add_assoc]

/-- Without the placed entries the bindings are what they were. -/
theorem filter_place (entries : List (UniformDeclaration × Nat)) (bs : List Binding) :
    (place entries bs).filter (·.handle.isSome) = bs.filter (·.handle.isSome) := by
  induction entries using List.reverseRecOn with
  | nil => rfl
  | append_singleton entries entry ih => rw [place_concat, filter_insertIdx_of_neg rfl, ih]

variable {entries : List (UniformDeclaration × Nat)} {bs : List Binding}

/-- An entry before the last one stands before the place of the last one. -/
theorem min_lt_min_of_concat (bs : List Binding) {entry : UniformDeclaration × Nat}
    (h : (entries ++ [entry]).Pairwise (·.2 < ·.2)) {j : Nat} {d : UniformDeclaration}
    {position : Nat} (hj : entries[j]? = some (d, position)) :
    min position (bs.length + j) < min entry.2 (place entries bs).length := by
  have hlt : position < entry.2 :=
    (List.pairwise_append.mp h).2.2 _ (List.mem_of_getElem? hj) _ (List.mem_singleton_self _)
  have hlength : j < entries.length := (List.getElem?_eq_some_iff.mp hj).1
  rw [length_place]
  omega

/-- An entry stands at its index, or at the end if what was there before is shorter. -/
theorem getElem?_place (h : entries.Pairwise (·.2 < ·.2)) {j : Nat} {d : UniformDeclaration}
    {position : Nat} (hj : entries[j]? = some (d, position)) :
    (place entries bs)[min position (bs.length + j)]? = some ⟨d, none⟩ := by
  induction entries using List.reverseRecOn with
  | nil => cases hj
  | append_singleton entries entry ih =>
      rw [place_concat]
      have hlt : j < entries.length + 1 := by
        simpa using (List.getElem?_eq_some_iff.mp hj).1
      rcases Nat.lt_succ_iff_lt_or_eq.mp hlt with hlt | rfl
      · -- Later insertions are behind the entry.
        rw [List.getElem?_append_left hlt] at hj
        rw [List.getElem?_insertIdx_of_lt (min_lt_min_of_concat bs h hj)]
        exact ih (List.pairwise_append.mp h).1 hj
      · obtain rfl := Option.some.inj (List.getElem?_concat_length.symm.trans hj)
        rw [← length_place, List.getElem?_insertIdx_self, if_pos (Nat.min_le_right ..)]

/-- A binding without a handle is one of the entries, if no other lacks a handle. -/
theorem place_of_getElem? (h : entries.Pairwise (·.2 < ·.2))
    (hbs : ∀ b ∈ bs, b.handle.isSome = true) {i : Nat} {b : Binding}
    (hb : (place entries bs)[i]? = some b) (hnone : b.handle = none) :
    ∃ j d position, entries[j]? = some (d, position) ∧ i = min position (bs.length + j) := by
  induction entries using List.reverseRecOn generalizing i with
  | nil =>
      have hsome := hbs b (List.mem_of_getElem? hb)
      rw [hnone] at hsome
      cases hsome
  | append_singleton entries entry ih =>
      have hpairwise := (List.pairwise_append.mp h).1
      rw [place_concat] at hb
      rcases Nat.lt_trichotomy i (min entry.2 (place entries bs).length) with hlt | heq | hgt
      · rw [List.getElem?_insertIdx_of_lt hlt] at hb
        obtain ⟨j, d, position, hj, hi⟩ := ih hpairwise hb
        exact ⟨j, d, position, Device.getElem?_kept (List.prefix_append ..) hj, hi⟩
      · refine ⟨entries.length, entry.1, entry.2, List.getElem?_concat_length, ?_⟩
        rw [heq, length_place]
      · -- What the last insertion moved has a handle: all earlier entries are before it.
        rw [List.getElem?_insertIdx_of_gt hgt] at hb
        obtain ⟨j, d, position, hj, hi⟩ := ih hpairwise hb
        have hbefore := min_lt_min_of_concat bs h hj
        omega

end Binding

namespace Pass

/-! ## The bindings of a pass -/

/-- The bindings of a pass that compiles.

The names that get a handle are those that the vertex module reflects, then those that the
fragment module reflects, each at its first occurrence and only if it is declared as a
uniform that is not a define.  The defines stand at their own indices among the declarations,
or directly behind what is before them if that is shorter.  Without them the bindings are
the names in their order, each with its first declaration that is not a define and with the
handle that the device has for the name. -/
theorem compile_bindings {p : Pass} {disk : Disk} {path : String} {index : Nat}
    {declarations : List UniformDeclaration} {defines : Defines} {options : CompileOptions}
    {d d' : Device} {v : Variant}
    (h : (p.compile disk path index declarations defines options d).value = (.ok v, d')) :
    ∃ vertex fragment, d'.Links v.program vertex fragment ∧
      let names := ((vertex.uniforms ++ fragment.uniforms).map ModuleUniform.name).eraseDups.filter
        fun name => declarations.any fun x => !x.isDefine && x.bindName == name
      let entries := declarations.zipIdx.filter (·.1.isDefine)
      let bound := v.bindings.filter (·.handle.isSome)
      (∀ j x position, entries[j]? = some (x, position) →
        v.bindings[min position (names.length + j)]? = some ⟨x, none⟩) ∧
      (∀ i b, v.bindings[i]? = some b → b.handle = none →
        ∃ j x position, entries[j]? = some (x, position) ∧
          i = min position (names.length + j)) ∧
      bound.map Binding.name = names ∧
      ∀ b ∈ bound, d'.handle? b.name = b.handle ∧
        declarations.find? (fun x => !x.isDefine && x.bindName == b.name) =
          some b.declaration := by
  obtain ⟨vertex, fragment, hlinks, hbindings, hhandles⟩ := reflected_of_compile h
  refine ⟨vertex, fragment, hlinks, ?_⟩
  intro names entries bound
  let us := vertex.uniforms ++ fragment.uniforms
  have hplaced : v.bindings = Binding.place entries (Binding.reflected declarations us) := by
    rw [hbindings, Binding.ofReflection, Binding.insertDefines_eq]
    rfl
  have hnames : (Binding.reflected declarations us).map Binding.name = names :=
    Binding.map_name_reflected declarations us
  have hlength : (Binding.reflected declarations us).length = names.length := by
    rw [← hnames, List.length_map]
  have hincreasing : entries.Pairwise (·.2 < ·.2) :=
    Binding.pairwise_defineEntries declarations
  have hsome : ∀ b ∈ Binding.reflected declarations us, b.handle.isSome = true :=
    fun b => Binding.isSome_handle_of_mem_reflected
  have hbound : bound = Binding.reflected declarations us := by
    show v.bindings.filter (·.handle.isSome) = _
    rw [hplaced, Binding.filter_place, List.filter_eq_self.mpr hsome]
  rw [hplaced, ← hlength, hbound]
  refine ⟨fun j x position hj => Binding.getElem?_place hincreasing hj,
    fun i b hb hnone => Binding.place_of_getElem? hincreasing hsome hb hnone, hnames,
    fun b hb => ?_⟩
  obtain ⟨u, hu, hname, hhandle, hfind⟩ := Binding.mem_reflected hb
  rw [hname, hhandle]
  exact ⟨hhandles u hu, hfind⟩

/-- A pass whose stages share a uniform. -/
def sharing : Pass where
  source := .empty
  resolved :=
    ⟨"", "uniform vec4 B;\nvoid main() { B; }",
      "uniform vec4 U;\nuniform vec4 B;\nvoid main() { U; B; }"⟩
  variants := []
  failed := []

/-- Declarations of which one is not reflected, and three are defines. -/
def sharingDeclarations : List UniformDeclaration :=
  [{ UniformDeclaration.plain .bool "A" "A" with isDefine := true },
    .plain .vec4 "U" "U", .plain .vec4 "B" "B", .plain .vec4 "E" "E",
    { UniformDeclaration.plain .int "B" "B" with isDefine := true },
    { UniformDeclaration.plain .int "C" "C" with isDefine := true }]

/-- What the pass compiles to on a new device. -/
def compiledSharing : Logged (Except ShaderError Variant × Device) :=
  sharing.compile (.empty []) "a.shader" 0 sharingDeclarations (.parse "") .standard
    (.empty .noop)

/-- The last define stands behind the two names that are bound and the other defines. -/
theorem compile_bindings_sharing : ∃ v, compiledSharing.value.1 = .ok v ∧
    (v.bindings.filter (·.handle.isSome)).map Binding.name = ["B", "U"] ∧
    v.bindings[4]? =
      some ⟨{ UniformDeclaration.plain .int "C" "C" with isDefine := true }, none⟩ ∧
    ∀ b ∈ v.bindings.filter (·.handle.isSome),
      compiledSharing.value.2.handle? b.name = b.handle := by
  have hbound : compiledSharing.value.1.toOption.map
      (fun v => (v.bindings.filter (·.handle.isSome)).map Binding.name) = some ["B", "U"] := by
    decide +kernel
  obtain ⟨v, hv, hnames⟩ := Option.map_eq_some_iff.mp hbound
  have hok : compiledSharing.value.1 = .ok v := by
    cases hcompiled : compiledSharing.value.1 with
    | error e =>
        rw [hcompiled] at hv
        cases hv
    | ok u =>
        rw [hcompiled] at hv
        exact congrArg _ (Option.some.inj hv)
  have hparts : ∀ t : Except ShaderError Variant × Device, t.1 = .ok v → t = (.ok v, t.2) :=
    fun _ h => Prod.ext h rfl
  obtain ⟨vertex, fragment, -, hplaces, -, hsame, hhandles⟩ :=
    compile_bindings (hparts compiledSharing.value hok)
  have hlast := hplaces 2 { UniformDeclaration.plain .int "C" "C" with isDefine := true } 5
    (by decide +kernel)
  rw [← hsame, hnames] at hlast
  exact ⟨v, hok, hnames, hlast, fun b hb => (hhandles b hb).1⟩

end Pass
end ShaderAssets
