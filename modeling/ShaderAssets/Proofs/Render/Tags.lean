import ShaderAssets.Render.SettingChange

/-!
# Settings field by field

The tags of a pass are applied in order, and each may set several fields of the settings,
some of them or none.  No field has an influence on another, so a field holds what the last
tag that carries it says, or its initial value if none does.  A field is carried by tags of
one name only; hence tags of different names may change places.

Main results:

- Inductive {lit}`Says`: what the name and the values of a tag say about a field.
- Theorem {lit}`carries_iff_resolved`: this is what the setting that they make carries.
- Theorem {lit}`get_foldl_apply`: settings applied one after the other, for one field.
- Theorem {lit}`apply_comm`: settings that carry no common field may change places.
- Theorem {lit}`ofTags_fields`: tags act field by field, and the last one wins.
-/

namespace ShaderAssets
namespace Render

open SettingChange (readWord32? readSwitch?)

/-! ## Fields -/

/-- A field of render settings. -/
inductive SettingField where
  | blend
  | cull
  | depthWrite
  | depthFunction
  | iteration
  | stencilFunction
  | stencilReference
  | stencilMask
  | stencilFail
  | stencilDepthFail
  | stencilPass
deriving DecidableEq, Repr

namespace SettingField

/-- What a field holds. -/
def Value : SettingField → Type
  | .blend => BlendMode
  | .cull => CullMode
  | .depthWrite => Bool
  | .depthFunction => DepthFunction
  | .iteration => IterationMode
  | .stencilFunction => Option Comparison
  | .stencilReference => Option UInt32
  | .stencilMask => Option UInt32
  | .stencilFail => Option StencilOp
  | .stencilDepthFail => Option StencilOp
  | .stencilPass => Option StencilOp

/-- The name of the tags that set a field. -/
def tagName : SettingField → String
  | .blend => "blend_mode"
  | .cull => "backface_culling"
  | .depthWrite => "depth_write"
  | .depthFunction => "depth_func"
  | .iteration => "iteration_mode"
  | .stencilFunction => "stencil_func"
  | .stencilReference => "stencil_func"
  | .stencilMask => "stencil_mask"
  | .stencilFail => "stencil_op"
  | .stencilDepthFail => "stencil_op"
  | .stencilPass => "stencil_op"

end SettingField

namespace RenderSettings

/-- The value of a field. -/
def get (s : RenderSettings) : (f : SettingField) → f.Value
  | .blend => s.blendMode
  | .cull => s.cullMode
  | .depthWrite => s.depthWrite
  | .depthFunction => s.depthFunction
  | .iteration => s.iterationMode
  | .stencilFunction => s.stencilFunction
  | .stencilReference => s.stencilReference
  | .stencilMask => s.stencilMask
  | .stencilFail => s.stencilFail
  | .stencilDepthFail => s.stencilDepthFail
  | .stencilPass => s.stencilPass

/-- Settings are determined by their fields. -/
theorem eq_of_get_eq {s t : RenderSettings} (h : ∀ f, s.get f = t.get f) : s = t := by
  cases s
  cases t
  rw [mk.injEq]
  exact ⟨h .blend, h .cull, h .depthWrite, h .depthFunction, h .iteration, h .stencilFunction,
    h .stencilReference, h .stencilMask, h .stencilFail, h .stencilDepthFail, h .stencilPass⟩

end RenderSettings

/-! ## What a setting carries -/

namespace SettingChange

/-- The value that a setting carries for a field, if it does. -/
def carried? : SettingChange → (f : SettingField) → Option f.Value
  | .cull mode, .cull => some mode
  | .blend mode, .blend => some mode
  | .iteration mode, .iteration => some mode
  | .depthWrite on, .depthWrite => some on
  | .depthFunction function, .depthFunction => some function
  | .stencilMask mask, .stencilMask => some (some mask)
  | .stencilFunction function _, .stencilFunction => function.map some
  | .stencilFunction _ reference, .stencilReference => reference.map some
  | .stencilOps fail _ _, .stencilFail => fail.map some
  | .stencilOps _ depthFail _, .stencilDepthFail => depthFail.map some
  | .stencilOps _ _ pass, .stencilPass => pass.map some
  | _, _ => none

end SettingChange

namespace RenderSettings

/-- Applying a setting sets the fields that it carries and leaves the others. -/
theorem get_apply (s : RenderSettings) (change : SettingChange) (f : SettingField) :
    (s.apply change).get f = (change.carried? f).getD (s.get f) := by
  cases change with
  | stencilFunction function reference =>
      cases function <;> cases reference <;> cases f <;> rfl
  | stencilOps fail depthFail pass =>
      cases fail <;> cases depthFail <;> cases pass <;> cases f <;> rfl
  | _ => cases f <;> rfl

/-- Settings that carry no common field may change places. -/
theorem apply_comm {a b : SettingChange} (h : ∀ f, a.carried? f = none ∨ b.carried? f = none)
    (s : RenderSettings) : (s.apply a).apply b = (s.apply b).apply a := by
  refine eq_of_get_eq fun f => ?_
  simp only [get_apply]
  rcases h f with hnone | hnone
  · rw [hnone, Option.getD_none, Option.getD_none]
  · rw [hnone, Option.getD_none, Option.getD_none]

/-- After several settings a field holds what the last one that carries it says. -/
theorem get_foldl_apply (changes : List SettingChange) (s : RenderSettings) (f : SettingField) :
    (changes.foldl apply s).get f =
      (changes.reverse.findSome? (·.carried? f)).getD (s.get f) := by
  induction changes generalizing s with
  | nil => rfl
  | cons change changes ih =>
      rw [List.foldl_cons, ih, get_apply, List.reverse_cons, List.findSome?_append]
      cases changes.reverse.findSome? (·.carried? f) with
      | none => simp
      | some v => rfl

end RenderSettings

/-! ## What a tag says -/

/-- The part of some values that has a given number names a stencil operation.  Each value
may hold several parts, separated by commas; empty parts do not count. -/
def NamesOp (values : List String) (i : Nat) (op : StencilOp) : Prop :=
  ∃ part, ((values.flatMap fun v => v.toList.splitOn ',').filter fun p => !p.isEmpty)[i]? =
    some part ∧ StencilOp.ofKeyword? (String.ofList part) = some op

/-- What a tag with a name and values says about a field.  Most tags are read off their first
value; the reference of a stencil function is its second one, and a stencil operation has
three parts. -/
inductive Says : String → List String → (f : SettingField) → f.Value → Prop where
  | blend {value : String} {mode : BlendMode} (h : BlendMode.ofKeyword? value = some mode)
      (rest : List String) : Says "blend_mode" (value :: rest) .blend mode
  | cull {value : String} {mode : CullMode} (h : CullMode.ofKeyword? value = some mode)
      (rest : List String) : Says "backface_culling" (value :: rest) .cull mode
  | depthWrite {value : String} {on : Bool} (h : readSwitch? value = some on)
      (rest : List String) : Says "depth_write" (value :: rest) .depthWrite on
  | depthFunction {value : String} {function : DepthFunction}
      (h : DepthFunction.ofKeyword? value = some function) (rest : List String) :
      Says "depth_func" (value :: rest) .depthFunction function
  | iteration {value : String} {mode : IterationMode}
      (h : IterationMode.ofKeyword? value = some mode) (rest : List String) :
      Says "iteration_mode" (value :: rest) .iteration mode
  | stencilMask {value : String} {mask : UInt32} (h : readWord32? value = some mask)
      (rest : List String) : Says "stencil_mask" (value :: rest) .stencilMask (some mask)
  | stencilFunction {value : String} {function : Comparison}
      (h : Comparison.ofKeyword? value = some function) (rest : List String) :
      Says "stencil_func" (value :: rest) .stencilFunction (some function)
  | stencilReference {text : String} {reference : UInt32}
      (h : readWord32? text = some reference) (value : String) (rest : List String) :
      Says "stencil_func" (value :: text :: rest) .stencilReference (some reference)
  | stencilFail {values : List String} {op : StencilOp} (h : NamesOp values 0 op) :
      Says "stencil_op" values .stencilFail (some op)
  | stencilDepthFail {values : List String} {op : StencilOp} (h : NamesOp values 1 op) :
      Says "stencil_op" values .stencilDepthFail (some op)
  | stencilPass {values : List String} {op : StencilOp} (h : NamesOp values 2 op) :
      Says "stencil_op" values .stencilPass (some op)

/-- A field is carried by tags of one name only. -/
theorem Says.name_eq {name : String} {values : List String} {f : SettingField} {v : f.Value}
    (h : Says name values f v) : name = f.tagName := by
  cases h <;> rfl

namespace SettingChange

/-- The operation that is read from the part with a given number. -/
theorem readOps_eq_some_iff {values : List String} {i : Nat} {op : StencilOp} :
    (readOps values)[i]?.join = some op ↔ NamesOp values i op := by
  rw [readOps, List.getElem?_map, NamesOp, Option.join_eq_some_iff, Option.map_eq_some_iff]

/-- What the setting of a tag carries is what the tag says. -/
theorem says_of_carried? {name : String} {values : List String} {change : SettingChange}
    {f : SettingField} {v : f.Value} (hread : read? name values = some change)
    (hcarried : change.carried? f = some v) : Says name values f v := by
  unfold read? at hread
  -- One case for each name; the setting then carries one field, or those of a stencil tag.
  split at hread
  · cases hread
  · rename_i value rest
    split at hread
    · obtain ⟨mode, hmode, rfl⟩ := Option.map_eq_some_iff.mp hread
      cases f <;> cases hcarried
      exact .cull hmode rest
    · obtain ⟨mode, hmode, rfl⟩ := Option.map_eq_some_iff.mp hread
      cases f <;> cases hcarried
      exact .blend hmode rest
    · obtain ⟨mode, hmode, rfl⟩ := Option.map_eq_some_iff.mp hread
      cases f <;> cases hcarried
      exact .iteration hmode rest
    · obtain ⟨on, hon, rfl⟩ := Option.map_eq_some_iff.mp hread
      cases f <;> cases hcarried
      exact .depthWrite hon rest
    · obtain ⟨function, hfunction, rfl⟩ := Option.map_eq_some_iff.mp hread
      cases f <;> cases hcarried
      exact .depthFunction hfunction rest
    · obtain ⟨mask, hmask, rfl⟩ := Option.map_eq_some_iff.mp hread
      cases f <;> cases hcarried
      exact .stencilMask hmask rest
    · cases hread
      cases f with
      | stencilFunction =>
          obtain ⟨function, hfunction, rfl⟩ := Option.map_eq_some_iff.mp hcarried
          exact .stencilFunction hfunction rest
      | stencilReference =>
          obtain ⟨reference, hreference, rfl⟩ := Option.map_eq_some_iff.mp hcarried
          obtain ⟨text, htext, hread⟩ := Option.bind_eq_some_iff.mp hreference
          obtain ⟨more, rfl⟩ := List.head?_eq_some_iff.mp htext
          exact .stencilReference hread value more
      | _ => cases hcarried
    · cases hread
      cases f with
      | stencilFail =>
          obtain ⟨op, hop, rfl⟩ := Option.map_eq_some_iff.mp hcarried
          exact .stencilFail (readOps_eq_some_iff.mp hop)
      | stencilDepthFail =>
          obtain ⟨op, hop, rfl⟩ := Option.map_eq_some_iff.mp hcarried
          exact .stencilDepthFail (readOps_eq_some_iff.mp hop)
      | stencilPass =>
          obtain ⟨op, hop, rfl⟩ := Option.map_eq_some_iff.mp hcarried
          exact .stencilPass (readOps_eq_some_iff.mp hop)
      | _ => cases hcarried
    · cases hread

/-- The setting of a stencil operation carries the parts that name operations. -/
theorem read?_stencilOp {values : List String} {i : Nat} {op : StencilOp}
    (h : NamesOp values i op) : ∃ ops : Nat → Option StencilOp,
      read? "stencil_op" values = some (.stencilOps (ops 0) (ops 1) (ops 2)) ∧
        ops i = some op := by
  cases values with
  | nil =>
      obtain ⟨part, hpart, -⟩ := h
      cases hpart
  | cons value rest =>
      exact ⟨fun i => (readOps (value :: rest))[i]?.join, rfl, readOps_eq_some_iff.mpr h⟩

/-- What a tag says is what its setting carries. -/
theorem exists_carried?_of_says {name : String} {values : List String} {f : SettingField}
    {v : f.Value} (h : Says name values f v) :
    ∃ change, read? name values = some change ∧ change.carried? f = some v := by
  cases h with
  | blend h rest => exact ⟨_, congrArg (Option.map SettingChange.blend) h, rfl⟩
  | cull h rest => exact ⟨_, congrArg (Option.map SettingChange.cull) h, rfl⟩
  | depthWrite h rest => exact ⟨_, congrArg (Option.map SettingChange.depthWrite) h, rfl⟩
  | depthFunction h rest => exact ⟨_, congrArg (Option.map SettingChange.depthFunction) h, rfl⟩
  | iteration h rest => exact ⟨_, congrArg (Option.map SettingChange.iteration) h, rfl⟩
  | stencilMask h rest => exact ⟨_, congrArg (Option.map SettingChange.stencilMask) h, rfl⟩
  | stencilFunction h rest => exact ⟨_, rfl, congrArg (Option.map some) h⟩
  | stencilReference h value rest => exact ⟨_, rfl, congrArg (Option.map some) h⟩
  | stencilFail h =>
      obtain ⟨ops, hread, hop⟩ := read?_stencilOp h
      exact ⟨_, hread, congrArg (Option.map some) hop⟩
  | stencilDepthFail h =>
      obtain ⟨ops, hread, hop⟩ := read?_stencilOp h
      exact ⟨_, hread, congrArg (Option.map some) hop⟩
  | stencilPass h =>
      obtain ⟨ops, hread, hop⟩ := read?_stencilOp h
      exact ⟨_, hread, congrArg (Option.map some) hop⟩

end SettingChange

/-! ## Tags -/

/-- A tag carries a value for a field: its values resolve to a setting that does. -/
def Carries (defines : String) (tag : Source.Tag) (f : SettingField) (v : f.Value) : Prop :=
  ∃ change, SettingChange.ofTag? defines tag = some change ∧ change.carried? f = some v

/-- What a tag carries is what its name and its resolved values say. -/
theorem carries_iff_resolved {defines : String} {tag : Source.Tag} {f : SettingField}
    {v : f.Value} : Carries defines tag f v ↔ Says tag.name (tag.resolve defines) f v := by
  constructor
  · rintro ⟨change, hread, hcarried⟩
    exact SettingChange.says_of_carried? hread hcarried
  · exact SettingChange.exists_carried?_of_says

/-- What a tag carries, as a partial function. -/
theorem carries_iff {defines : String} {tag : Source.Tag} {f : SettingField} {v : f.Value} :
    Carries defines tag f v ↔
      (SettingChange.ofTag? defines tag).bind (·.carried? f) = some v :=
  Option.bind_eq_some_iff.symm

/-- A tag carries nothing for a field. -/
theorem not_carries_iff {defines : String} {tag : Source.Tag} {f : SettingField} :
    (∀ v, ¬Carries defines tag f v) ↔
      (SettingChange.ofTag? defines tag).bind (·.carried? f) = none := by
  simp only [carries_iff, Option.eq_none_iff_forall_ne_some, ne_eq]

/-- Tags of different names carry different fields. -/
theorem carried?_eq_none_or {defines : String} {a b : Source.Tag} (h : a.name ≠ b.name)
    {change other : SettingChange} (ha : SettingChange.ofTag? defines a = some change)
    (hb : SettingChange.ofTag? defines b = some other) (f : SettingField) :
    change.carried? f = none ∨ other.carried? f = none := by
  cases hv : change.carried? f with
  | none => exact Or.inl rfl
  | some v =>
      refine Or.inr (Option.eq_none_iff_forall_ne_some.mpr fun v' hv' => h ?_)
      calc a.name = f.tagName := (carries_iff_resolved.mp ⟨change, ha, hv⟩).name_eq
        _ = b.name := (carries_iff_resolved.mp ⟨other, hb, hv'⟩).name_eq.symm

/-- The last entry of a list for which a function has a value. -/
theorem findSome?_reverse_eq_some_iff {α β : Type} {f : α → Option β} {l : List α} {b : β} :
    l.reverse.findSome? f = some b ↔ ∃ front a back, l = front ++ a :: back ∧ f a = some b ∧
      ∀ later ∈ back, f later = none := by
  rw [List.findSome?_eq_some_iff]
  constructor
  · rintro ⟨back, a, front, heq, ha, hlater⟩
    refine ⟨front.reverse, a, back.reverse, ?_, ha, ?_⟩
    · rw [← List.reverse_reverse l, heq]
      simp
    · exact fun later hmem => hlater later (List.mem_reverse.mp hmem)
  · rintro ⟨front, a, back, rfl, ha, hlater⟩
    refine ⟨back.reverse, a, front.reverse, by simp, ha, ?_⟩
    exact fun later hmem => hlater later (List.mem_reverse.mp hmem)

namespace RenderSettings

variable (defines : String)

/-- A field of the settings that tags make is found by searching them from the end. -/
theorem get_ofTags (tags : List Source.Tag) (f : SettingField) :
    (ofTags tags defines).get f =
      (tags.reverse.findSome? fun tag =>
        (SettingChange.ofTag? defines tag).bind (·.carried? f)).getD (initial.get f) := by
  rw [ofTags, get_foldl_apply, ← List.filterMap_reverse, ← List.head?_filterMap,
    List.filterMap_filterMap, List.head?_filterMap]

/-- A field holds what the last tag that carries it says, or its initial value. -/
theorem get_ofTags_eq_iff (tags : List Source.Tag) (f : SettingField) (v : f.Value) :
    (ofTags tags defines).get f = v ↔
      (∃ front tag back, tags = front ++ tag :: back ∧ Carries defines tag f v ∧
        ∀ later ∈ back, ∀ v', ¬Carries defines later f v') ∨
      ((∀ tag ∈ tags, ∀ v', ¬Carries defines tag f v') ∧ initial.get f = v) := by
  have hlast := findSome?_reverse_eq_some_iff (l := tags) (b := v)
    (f := fun tag => (SettingChange.ofTag? defines tag).bind (·.carried? f))
  have hnone := List.findSome?_eq_none_iff (l := tags.reverse)
    (p := fun tag => (SettingChange.ofTag? defines tag).bind (·.carried? f))
  simp only [List.mem_reverse] at hnone
  simp only [not_carries_iff, get_ofTags]
  simp only [carries_iff, ← hlast, ← hnone]
  cases tags.reverse.findSome? _ with
  | none => simp
  | some v' => simp

/-- A tag without a setting may be deleted. -/
theorem ofTags_delete (front : List Source.Tag) {tag : Source.Tag} (back : List Source.Tag)
    (h : SettingChange.ofTag? defines tag = none) :
    ofTags (front ++ tag :: back) defines = ofTags (front ++ back) defines := by
  simp only [ofTags, List.filterMap_append, List.filterMap_cons_none h]

/-- Neighbouring tags of different names may change places. -/
theorem ofTags_swap (front : List Source.Tag) {a b : Source.Tag} (back : List Source.Tag)
    (h : a.name ≠ b.name) :
    ofTags (front ++ a :: b :: back) defines = ofTags (front ++ b :: a :: back) defines := by
  cases ha : SettingChange.ofTag? defines a with
  | none => simp only [ofTags, List.filterMap_append, List.filterMap_cons, ha]
  | some change =>
      cases hb : SettingChange.ofTag? defines b with
      | none => simp only [ofTags, List.filterMap_append, List.filterMap_cons, ha, hb]
      | some other =>
          have hcomm := apply_comm (carried?_eq_none_or h ha hb)
          simp only [ofTags, List.filterMap_append, List.filterMap_cons, ha, hb,
            List.foldl_append, List.foldl_cons, hcomm]

/-- A field that the last tag does not carry stays as the tags in front of it set it. -/
theorem get_ofTags_concat (front : List Source.Tag) {tag : Source.Tag} {f : SettingField}
    (h : ∀ v, ¬Carries defines tag f v) :
    (ofTags (front ++ [tag]) defines).get f = (ofTags front defines).get f := by
  rw [get_ofTags, get_ofTags, List.reverse_append, List.reverse_singleton,
    List.singleton_append, List.findSome?_cons, not_carries_iff.mp h]

/-- Tags act field by field, and the last one wins.

A field of the settings holds what the last tag that carries it says, or its initial value if
no tag does; a tag carries what its name and its resolved values say.  A tag whose values
resolve to no setting may be deleted, and neighbouring tags of different names, hence of
different kinds, may change places.  What a tag does not carry, such as a part of a stencil
function or operation, stays as earlier tags set it. -/
theorem ofTags_fields (defines : String) :
    (∀ tags f v, (ofTags tags defines).get f = v ↔
      (∃ front tag back, tags = front ++ tag :: back ∧ Carries defines tag f v ∧
        ∀ later ∈ back, ∀ v', ¬Carries defines later f v') ∨
      ((∀ tag ∈ tags, ∀ v', ¬Carries defines tag f v') ∧ initial.get f = v)) ∧
    (∀ tag f v, Carries defines tag f v ↔ Says tag.name (tag.resolve defines) f v) ∧
    (∀ front tag back, SettingChange.ofTag? defines tag = none →
      ofTags (front ++ tag :: back) defines = ofTags (front ++ back) defines) ∧
    (∀ (front : List Source.Tag) (a b : Source.Tag) back, a.name ≠ b.name →
      ofTags (front ++ a :: b :: back) defines = ofTags (front ++ b :: a :: back) defines) ∧
    ∀ front tag f, (∀ v, ¬Carries defines tag f v) →
      (ofTags (front ++ [tag]) defines).get f = (ofTags front defines).get f :=
  ⟨get_ofTags_eq_iff defines, fun _ _ _ => carries_iff_resolved,
    fun front _ back => ofTags_delete defines front back,
    fun front _ _ back => ofTags_swap defines front back,
    fun front _ _ => get_ofTags_concat defines front⟩

/-- The second tag names an operation in its second part only, and leaves the others. -/
example :
    let s := ofTags [.plain "stencil_op" ["zero,invert", "incr"],
      .plain "stencil_op" ["bogus,,keep"]] ""
    [s.stencilFail, s.stencilDepthFail, s.stencilPass] =
      [some .zero, some .keep, some .incr] := by
  decide +kernel

end RenderSettings

end Render
end ShaderAssets
