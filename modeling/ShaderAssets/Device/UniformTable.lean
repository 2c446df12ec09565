import ShaderAssets.Device.Handle

/-!
# The uniforms of a device

A device numbers the names of uniforms in the order in which it meets them.  It keeps the
names by their numbers and the numbers by their names; the two tables are inverse to each
other.  A new name is put behind the others, so a handle that was given out keeps its name,
and a name its handle.

Main results:

- Structure {lit}`UniformTable`: the two tables.
- Lemma {lit}`handle?_intern`: the handle that is given out is that of the name.
- Lemma {lit}`prefix_intern`: no name loses its place.
- Lemma {lit}`handle?_kept`: a name keeps its handle when names are added.
-/

namespace ShaderAssets

/-- The names of uniforms and their handles. -/
structure UniformTable where
  /-- The names, in the order of their handles. -/
  names : List String
  /-- The handles, by name. -/
  handles : List (String × UniformHandle)
  /-- The handle of a name is the place of the name. -/
  inverse : ∀ (name : String) (u : UniformHandle),
    handles.lookup name = some u ↔ names[u.index]? = some name
deriving DecidableEq, Repr

namespace UniformTable

/-- A table without names. -/
def empty : UniformTable where
  names := []
  handles := []
  inverse := by simp

instance : Inhabited UniformTable :=
  ⟨empty⟩

/-- The name with a handle. -/
def name? (t : UniformTable) (u : UniformHandle) : Option String :=
  t.names[u.index]?

/-- The handle of a name. -/
def handle? (t : UniformTable) (name : String) : Option UniformHandle :=
  t.handles.lookup name

/-- Names and handles correspond to each other. -/
theorem handle?_eq_some_iff (t : UniformTable) {name : String} {u : UniformHandle} :
    t.handle? name = some u ↔ t.name? u = some name :=
  t.inverse name u

/-- The tables stay inverse to each other when a new name gets the next handle. -/
theorem inverse_push {t : UniformTable} {new : String} (hnew : t.handle? new = none)
    (name : String) (u : UniformHandle) :
    (t.handles ++ [(new, UniformHandle.mk t.names.length)]).lookup name = some u ↔
      (t.names ++ [new])[u.index]? = some name := by
  obtain ⟨i⟩ := u
  have hlast : [(new, UniformHandle.mk t.names.length)].lookup name = some ⟨i⟩ ↔
      name = new ∧ i = t.names.length := by
    by_cases hname : name = new
    · simp [hname, eq_comm]
    · simp [hname, List.lookup_cons, beq_eq_false_iff_ne.mpr hname]
  rw [List.lookup_append, Option.or_eq_some_iff, t.inverse, hlast]
  rcases Nat.lt_trichotomy i t.names.length with hold | rfl | hbeyond
  · rw [List.getElem?_append_left hold]
    exact or_iff_left fun hnext => Nat.ne_of_lt hold hnext.2.2
  · rw [List.getElem?_concat_length, List.getElem?_eq_none (Nat.le_refl _), Option.some.injEq]
    constructor
    · rintro (hfound | ⟨-, hname, -⟩)
      · cases hfound
      · exact hname.symm
    · rintro rfl
      exact Or.inr ⟨hnew, rfl, rfl⟩
  · have hbehind : (t.names ++ [new]).length ≤ i := by
      rw [List.length_append]
      exact hbeyond
    rw [List.getElem?_eq_none (Nat.le_of_lt hbeyond), List.getElem?_eq_none hbehind]
    simp [Nat.ne_of_gt hbeyond]

/-- A table with one more name. -/
def push (t : UniformTable) (name : String) (hnew : t.handle? name = none) : UniformTable where
  names := t.names ++ [name]
  handles := t.handles ++ [(name, ⟨t.names.length⟩)]
  inverse := inverse_push hnew

/-- The handle of a name, which is new if the name is. -/
def intern (name : String) (t : UniformTable) : UniformHandle × UniformTable :=
  match hname : t.handle? name with
  | some u => (u, t)
  | none => (⟨t.names.length⟩, t.push name hname)

/-- The handle that is given out is that of the name. -/
theorem handle?_intern (name : String) (t : UniformTable) :
    (t.intern name).2.handle? name = some (t.intern name).1 := by
  unfold intern
  split
  · assumption
  · rename_i hnew
    rw [handle?_eq_some_iff, name?, push, List.getElem?_concat_length]

/-- Giving out a handle adds at most its name, behind the others. -/
theorem prefix_intern (name : String) (t : UniformTable) : t.names <+: (t.intern name).2.names := by
  unfold intern
  split
  · exact List.prefix_refl _
  · exact List.prefix_append t.names [name]

/-- A handle keeps its name when names are added. -/
theorem name?_kept {t t' : UniformTable} (h : t.names <+: t'.names) {name : String}
    {u : UniformHandle} (hu : t.name? u = some name) : t'.name? u = some name := by
  obtain ⟨more, hmore⟩ := h
  rw [name?, ← hmore, List.getElem?_append_left (List.getElem?_eq_some_iff.mp hu).1]
  exact hu

/-- A name keeps its handle when names are added. -/
theorem handle?_kept {t t' : UniformTable} (h : t.names <+: t'.names) {name : String}
    {u : UniformHandle} (hu : t.handle? name = some u) : t'.handle? name = some u :=
  t'.handle?_eq_some_iff.mpr (name?_kept h (t.handle?_eq_some_iff.mp hu))

end UniformTable
end ShaderAssets
