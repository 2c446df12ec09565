import ShaderAssets.Device.Basic

/-!
# Uniform handles

A module that is made gives the uniforms of its stage the handles of their names.  Names are
only added, and nothing else of the device changes.

Main results:

- Theorem {lit}`handlesFor_eq`: handing out handles only adds names.
- Theorem {lit}`handle?_handlesFor`: the uniforms of a stage get the handles of their names.
-/

namespace ShaderAssets
namespace Device

/-- What stands in a place stays there when more is put behind it. -/
theorem getElem?_kept {α : Type} {l l' : List α} (h : l <+: l') {i : Nat} {a : α}
    (ha : l[i]? = some a) : l'[i]? = some a := by
  obtain ⟨more, rfl⟩ := h
  rw [List.getElem?_append_left (List.getElem?_eq_some_iff.mp ha).1]
  exact ha

/-- Names and handles of a device correspond to each other. -/
theorem handle?_eq_some_iff (d : Device) {name : String} {u : UniformHandle} :
    d.handle? name = some u ↔ d.name? u = some name :=
  d.uniforms.handle?_eq_some_iff

/-- The handle that is given out is that of the name. -/
theorem handle?_handleFor (name : String) (d : Device) :
    (d.handleFor name).2.handle? name = some (d.handleFor name).1 :=
  d.uniforms.handle?_intern name

/-- Handing out uniform handles only adds names. -/
theorem handlesFor_eq (us : List StageUniform) (d : Device) :
    ∃ t, d.uniforms.names <+: t.names ∧ (handlesFor us d).2 = { d with uniforms := t } := by
  induction us generalizing d with
  | nil => exact ⟨d.uniforms, List.prefix_refl _, rfl⟩
  | cons u us ih =>
      obtain ⟨t, hprefix, hrest⟩ := ih (d.handleFor u.name).2
      exact ⟨t, (d.uniforms.prefix_intern u.name).trans hprefix, hrest⟩

/-- The uniforms of a module have the names of those of its stage. -/
theorem map_name_handlesFor (us : List StageUniform) (d : Device) :
    (handlesFor us d).1.map ModuleUniform.name = us.map StageUniform.name := by
  induction us generalizing d with
  | nil => rfl
  | cons u us ih => exact congrArg (u.name :: ·) (ih _)

/-- The uniforms of a module have the handles of their names. -/
theorem handle?_handlesFor (us : List StageUniform) (d : Device) :
    ∀ u ∈ (handlesFor us d).1, (handlesFor us d).2.handle? u.name = some u.handle := by
  induction us generalizing d with
  | nil => exact fun u hu => absurd hu List.not_mem_nil
  | cons u us ih =>
      intro x hx
      have hcons : handlesFor (u :: us) d =
          (⟨u.name, (d.handleFor u.name).1, u.count⟩ ::
            (handlesFor us (d.handleFor u.name).2).1,
            (handlesFor us (d.handleFor u.name).2).2) := rfl
      rw [hcons] at hx ⊢
      rcases List.mem_cons.mp hx with rfl | hx
      · obtain ⟨t, hprefix, hrest⟩ := handlesFor_eq us (d.handleFor u.name).2
        rw [hrest]
        exact UniformTable.handle?_kept hprefix (handle?_handleFor u.name d)
      · exact ih _ x hx

end Device
end ShaderAssets
