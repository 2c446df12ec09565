import ShaderAssets.Device.Basic

/-!
# Who owns the objects of a device

Programs own their two modules, and every live program is held by someone.  The
invariant names the handles that are held and says that nothing else is alive; making
a program adds its handle, and destroying it takes the handle away.

Main results:

- Structure {lit}`Device.Owns`: the live programs are the held ones, and the live
  modules are theirs.
- Theorem {lit}`Owns.create`: a new program with two new modules may be held.
- Theorem {lit}`Owns.destroy`: a held program may be destroyed.
-/

namespace ShaderAssets

/-! ## Lists with gaps -/

/-- What stands at a place of a list with gaps after an entry was appended. -/
theorem join_getElem?_concat {α : Type} (l : List (Option α)) (a : Option α) (i : Nat) :
    (l ++ [a])[i]?.join = if i = l.length then a else l[i]?.join := by
  by_cases hi : i = l.length
  · subst hi
    simp
  · rw [if_neg hi, List.getElem?_append]
    split
    · rfl
    · have hle : l.length ≤ i := by omega
      have hpos : i - l.length ≠ 0 := by omega
      rw [List.getElem?_eq_none hle, List.getElem?_eq_none (by simp; omega)]

/-- What stands at a place of a list with gaps after an entry was removed. -/
theorem join_getElem?_set_none {α : Type} (l : List (Option α)) (i j : Nat) :
    (l.set j none)[i]?.join = if i = j then none else l[i]?.join := by
  rw [List.getElem?_set]
  by_cases hij : j = i
  · subst hij
    rw [if_pos rfl, if_pos rfl]
    split <;> rfl
  · rw [if_neg hij, if_neg (Ne.symm hij)]

/-- Removing an entry of a list with gaps makes it hold one less. -/
theorem countP_set_none {α : Type} {l : List (Option α)} {i : Nat} {a : α}
    (h : l[i]?.join = some a) :
    (l.set i none).countP Option.isSome + 1 = l.countP Option.isSome := by
  obtain ⟨hi, hget⟩ : ∃ hi : i < l.length, l[i] = some a := by
    cases hentry : l[i]? with
    | none => rw [hentry] at h; cases h
    | some entry =>
        rw [hentry] at h
        obtain ⟨hi, rfl⟩ := List.getElem?_eq_some_iff.mp hentry
        exact ⟨hi, h⟩
  have hpos : 0 < l.countP Option.isSome :=
    List.countP_pos_iff.mpr ⟨l[i], List.getElem_mem hi, by rw [hget]; rfl⟩
  rw [List.countP_set hi, hget]
  simp
  omega

/-! ## The invariant -/

/-- A program owns its vertex module and its fragment module. -/
def Program.owns (p : Program) (m : ModuleHandle) : Prop :=
  m = p.vertex ∨ m = p.fragment

namespace Device

/-- The handles of the live programs are held, each once, and nothing but these
programs and their modules is alive. -/
structure Owns (d : Device) (held : List ProgramHandle) : Prop where
  /-- No handle is held twice. -/
  nodup : held.Nodup
  /-- Held programs are alive, and live programs are held. -/
  live_iff : ∀ h, d.isLive h = true ↔ h ∈ held
  /-- A module is alive exactly as long as a program owns it. -/
  module_iff : ∀ m, (d.module? m).isSome = true ↔ ∃ h p, d.program? h = some p ∧ p.owns m
  /-- The two modules of a program differ. -/
  distinct : ∀ h p, d.program? h = some p → p.vertex ≠ p.fragment
  /-- No module has two owners. -/
  unshared : ∀ h h' p p' m, d.program? h = some p → d.program? h' = some p' →
    p.owns m → p'.owns m → h = h'
  programs_count : d.livePrograms = held.length
  modules_count : d.liveModules = 2 * held.length

/-- Two devices that hold the same modules and programs under the same handles. -/
structure SameObjects (d d' : Device) : Prop where
  module_eq : ∀ m, d'.module? m = d.module? m
  program_eq : ∀ h, d'.program? h = d.program? h
  modules_count : d'.liveModules = d.liveModules
  programs_count : d'.livePrograms = d.livePrograms

/-- The objects of a device are in its lists of modules and programs. -/
theorem SameObjects.of_eq {d d' : Device} (hmodules : d'.modules = d.modules)
    (hprograms : d'.programs = d.programs) : SameObjects d d' where
  module_eq m := by
    rw [module?, hmodules, module?]
  program_eq h := by
    rw [program?, hprograms, program?]
  modules_count := by
    rw [liveModules, hmodules, liveModules]
  programs_count := by
    rw [livePrograms, hprograms, livePrograms]

/-- Holding the same objects is transitive. -/
theorem SameObjects.trans {d d' d'' : Device} (h : SameObjects d d')
    (h' : SameObjects d' d'') : SameObjects d d'' where
  module_eq m := (h'.module_eq m).trans (h.module_eq m)
  program_eq x := (h'.program_eq x).trans (h.program_eq x)
  modules_count := h'.modules_count.trans h.modules_count
  programs_count := h'.programs_count.trans h.programs_count

/-- Nothing is held of an empty device. -/
theorem Owns.empty (renderer : Renderer) : Owns (Device.empty renderer) [] where
  nodup := List.nodup_nil
  live_iff h := by
    simp [isLive, program?, Device.empty]
  module_iff m := by
    simp [module?, program?, Device.empty]
  distinct h p hp := by
    simp [program?, Device.empty] at hp
  unshared h h' p p' m hp := by
    simp [program?, Device.empty] at hp
  programs_count := rfl
  modules_count := rfl

/-- The order in which handles are held does not matter. -/
theorem Owns.perm {d : Device} {held held' : List ProgramHandle} (h : Owns d held)
    (hperm : held.Perm held') : Owns d held' where
  nodup := hperm.nodup_iff.mp h.nodup
  live_iff x := (h.live_iff x).trans hperm.mem_iff
  module_iff := h.module_iff
  distinct := h.distinct
  unshared := h.unshared
  programs_count := by
    rw [← hperm.length_eq]
    exact h.programs_count
  modules_count := by
    rw [← hperm.length_eq]
    exact h.modules_count

/-- Ownership only depends on the objects of a device. -/
theorem Owns.of_sameObjects {d d' : Device} {held : List ProgramHandle} (h : Owns d held)
    (hsame : SameObjects d d') : Owns d' held where
  nodup := h.nodup
  live_iff x := by
    rw [isLive, hsame.program_eq]
    exact h.live_iff x
  module_iff m := by
    simp only [hsame.module_eq, hsame.program_eq]
    exact h.module_iff m
  distinct x p hp := h.distinct x p (hsame.program_eq x ▸ hp)
  unshared x x' p p' m hp hp' := by
    rw [hsame.program_eq] at hp hp'
    exact h.unshared x x' p p' m hp hp'
  programs_count := by
    rw [hsame.programs_count]
    exact h.programs_count
  modules_count := by
    rw [hsame.modules_count]
    exact h.modules_count

/-- There are twice as many live modules as live programs. -/
theorem Owns.liveModules_eq {d : Device} {held : List ProgramHandle} (h : Owns d held) :
    d.liveModules = 2 * d.livePrograms := by
  rw [h.modules_count, h.programs_count]

/-! ## Making programs -/

/-- A module that a live program owns has a handle that was given out. -/
theorem Owns.index_lt {d : Device} {held : List ProgramHandle} (h : Owns d held)
    {x : ProgramHandle} {p : Program} {m : ModuleHandle} (hp : d.program? x = some p)
    (hm : p.owns m) : m.index < d.modules.length := by
  have hlive : (d.module? m).isSome = true := (h.module_iff m).mpr ⟨x, p, hp, hm⟩
  by_cases hlt : m.index < d.modules.length
  · exact hlt
  · rw [module?, List.getElem?_eq_none (by omega)] at hlive
    cases hlive

/-- The modules of a device after two modules were made. -/
theorem module?_concat {d d' : Device} {v f : StageModule}
    (hmodules : d'.modules = d.modules ++ [some v] ++ [some f]) (m : ModuleHandle) :
    d'.module? m =
      if m.index = d.modules.length + 1 then some f
      else if m.index = d.modules.length then some v else d.module? m := by
  rw [module?, hmodules, join_getElem?_concat, join_getElem?_concat, List.length_append]
  rfl

/-- The handle of the next program leads nowhere yet. -/
theorem program?_length (d : Device) : d.program? ⟨d.programs.length⟩ = none := by
  simp [program?]

/-- The programs of a device after a program was made. -/
theorem program?_concat {d d' : Device} {new : Program}
    (hprograms : d'.programs = d.programs ++ [some new]) (x : ProgramHandle) (p : Program) :
    d'.program? x = some p ↔
      (x = ⟨d.programs.length⟩ ∧ p = new) ∨ d.program? x = some p := by
  rw [program?, hprograms, join_getElem?_concat]
  by_cases hx : x = ⟨d.programs.length⟩
  · subst hx
    rw [if_pos rfl, program?_length]
    simp [eq_comm]
  · have hindex : x.index ≠ d.programs.length := ProgramHandle.index_ne hx
    rw [if_neg hindex]
    simp [hx, program?]

/-- No older program owns a new module. -/
theorem Owns.not_owns_new {d : Device} {held : List ProgramHandle} (h : Owns d held)
    {x : ProgramHandle} {p : Program} {m : ModuleHandle} (hp : d.program? x = some p)
    (hm : p.owns m) :
    ¬(Program.mk ⟨d.modules.length⟩ ⟨d.modules.length + 1⟩).owns m := by
  have hlt := h.index_lt hp hm
  rintro (rfl | rfl)
  · exact absurd hlt (Nat.lt_irrefl _)
  · exact absurd hlt (by simp)

/-- A new program with two new modules may be held. -/
theorem Owns.create {d d' : Device} {held : List ProgramHandle} (h : Owns d held)
    {v f : StageModule}
    (hmodules : d'.modules = d.modules ++ [some v] ++ [some f])
    (hprograms : d'.programs =
      d.programs ++ [some ⟨⟨d.modules.length⟩, ⟨d.modules.length + 1⟩⟩]) :
    Owns d' (⟨d.programs.length⟩ :: held) := by
  have hmodule := module?_concat hmodules
  have hprogram := program?_concat hprograms
  refine ⟨?nodup, ?live, ?module, ?distinct, ?unshared, ?programs, ?modules⟩
  case nodup =>
    refine List.nodup_cons.mpr ⟨fun hmem => ?_, h.nodup⟩
    have hlive := (h.live_iff _).mpr hmem
    rw [isLive, program?_length] at hlive
    cases hlive
  case live =>
    intro x
    rw [isLive, Option.isSome_iff_exists, List.mem_cons, ← h.live_iff x, isLive,
      Option.isSome_iff_exists]
    constructor
    · rintro ⟨p, hp⟩
      rcases (hprogram x p).mp hp with ⟨rfl, -⟩ | hold
      · exact Or.inl rfl
      · exact Or.inr ⟨p, hold⟩
    · rintro (rfl | ⟨p, hp⟩)
      · exact ⟨_, (hprogram _ _).mpr (Or.inl ⟨rfl, rfl⟩)⟩
      · exact ⟨p, (hprogram x p).mpr (Or.inr hp)⟩
  case module =>
    intro m
    rw [hmodule m]
    constructor
    · intro hsome
      split at hsome
      · rename_i hm
        exact ⟨_, _, (hprogram _ _).mpr (Or.inl ⟨rfl, rfl⟩), Or.inr (by cases m; simp_all)⟩
      · split at hsome
        · rename_i hm
          exact ⟨_, _, (hprogram _ _).mpr (Or.inl ⟨rfl, rfl⟩), Or.inl (by cases m; simp_all)⟩
        · obtain ⟨x, p, hp, hm⟩ := (h.module_iff m).mp hsome
          exact ⟨x, p, (hprogram x p).mpr (Or.inr hp), hm⟩
    · rintro ⟨x, p, hp, hm⟩
      rcases (hprogram x p).mp hp with ⟨-, rfl⟩ | hold
      · rcases hm with rfl | rfl
        · simp
        · simp
      · split
        · rfl
        · split
          · rfl
          · exact (h.module_iff m).mpr ⟨x, p, hold, hm⟩
  case distinct =>
    intro x p hp
    rcases (hprogram x p).mp hp with ⟨-, rfl⟩ | hold
    · simp
    · exact h.distinct x p hold
  case unshared =>
    intro x x' p p' m hp hp' hm hm'
    rcases (hprogram x p).mp hp with ⟨rfl, rfl⟩ | hold
    · rcases (hprogram x' p').mp hp' with ⟨rfl, -⟩ | hold'
      · rfl
      · exact absurd hm (h.not_owns_new hold' hm')
    · rcases (hprogram x' p').mp hp' with ⟨rfl, rfl⟩ | hold'
      · exact absurd hm' (h.not_owns_new hold hm)
      · exact h.unshared x x' p p' m hold hold' hm hm'
  case programs =>
    have hcount := h.programs_count
    rw [livePrograms] at hcount ⊢
    rw [hprograms, List.countP_append, hcount]
    rfl
  case modules =>
    have hcount := h.modules_count
    rw [liveModules] at hcount ⊢
    rw [hmodules, List.countP_append, List.countP_append, hcount]
    simp
    omega

/-! ## Destroying programs -/

/-- The programs of a device after one of them was removed. -/
theorem program?_set_none {d d' : Device} {x : ProgramHandle}
    (hprograms : d'.programs = d.programs.set x.index none) (y : ProgramHandle) (q : Program) :
    d'.program? y = some q ↔ y ≠ x ∧ d.program? y = some q := by
  rw [program?, hprograms, join_getElem?_set_none]
  by_cases hy : y = x
  · subst hy
    simp
  · rw [if_neg (ProgramHandle.index_ne hy)]
    simp [hy, program?]

/-- The modules of a device after those of a program were removed. -/
theorem module?_set_none {d d' : Device} {p : Program}
    (hmodules : d'.modules = (d.modules.set p.vertex.index none).set p.fragment.index none)
    (m : ModuleHandle) :
    (d'.module? m).isSome = true ↔ ¬p.owns m ∧ (d.module? m).isSome = true := by
  rw [module?, hmodules, join_getElem?_set_none, join_getElem?_set_none]
  by_cases hm : p.owns m
  · rcases hm with rfl | rfl <;> simp [Program.owns]
  · have hf : m.index ≠ p.fragment.index :=
      ModuleHandle.index_ne fun heq => hm (Or.inr heq)
    have hv : m.index ≠ p.vertex.index :=
      ModuleHandle.index_ne fun heq => hm (Or.inl heq)
    rw [if_neg hf, if_neg hv]
    simp [hm, module?]

/-- Removing the two modules of a held program makes two modules less. -/
theorem Owns.countP_modules_removed {d : Device} {held : List ProgramHandle} (h : Owns d held)
    {x : ProgramHandle} {p : Program} (hp : d.program? x = some p) :
    ((d.modules.set p.vertex.index none).set p.fragment.index none).countP Option.isSome + 2 =
      d.liveModules := by
  obtain ⟨v, hv⟩ := Option.isSome_iff_exists.mp
    ((h.module_iff p.vertex).mpr ⟨x, p, hp, Or.inl rfl⟩)
  obtain ⟨f, hf⟩ := Option.isSome_iff_exists.mp
    ((h.module_iff p.fragment).mpr ⟨x, p, hp, Or.inr rfl⟩)
  have hne : p.fragment.index ≠ p.vertex.index := by
    intro heq
    apply h.distinct x p hp
    cases hpv : p.vertex
    cases hpf : p.fragment
    simp_all
  have hf' : (d.modules.set p.vertex.index none)[p.fragment.index]?.join = some f := by
    rw [join_getElem?_set_none, if_neg hne]
    exact hf
  have hfirst := countP_set_none hv
  have hsecond := countP_set_none hf'
  rw [liveModules]
  omega

/-- A held program may be removed together with its modules. -/
theorem Owns.remove {d d' : Device} {x : ProgramHandle} {p : Program}
    {held : List ProgramHandle} (h : Owns d (x :: held)) (hp : d.program? x = some p)
    (hprograms : d'.programs = d.programs.set x.index none)
    (hmodules : d'.modules =
      (d.modules.set p.vertex.index none).set p.fragment.index none) : Owns d' held := by
  obtain ⟨hnot, hnodup⟩ := List.nodup_cons.mp h.nodup
  have hprogram := program?_set_none hprograms
  have hmodule := module?_set_none hmodules
  refine ⟨hnodup, ?live, ?module, ?distinct, ?unshared, ?programs, ?modules⟩
  case live =>
    intro y
    rw [isLive, Option.isSome_iff_exists]
    have hy := h.live_iff y
    rw [isLive, Option.isSome_iff_exists, List.mem_cons] at hy
    constructor
    · rintro ⟨q, hq⟩
      obtain ⟨hne, hold⟩ := (hprogram y q).mp hq
      exact (hy.mp ⟨q, hold⟩).resolve_left hne
    · intro hmem
      obtain ⟨q, hold⟩ := hy.mpr (Or.inr hmem)
      refine ⟨q, (hprogram y q).mpr ⟨?_, hold⟩⟩
      rintro rfl
      exact hnot hmem
  case module =>
    intro m
    refine (hmodule m).trans ?_
    constructor
    · rintro ⟨hfree, hlive⟩
      obtain ⟨y, q, hold, hm⟩ := (h.module_iff m).mp hlive
      refine ⟨y, q, (hprogram y q).mpr ⟨?_, hold⟩, hm⟩
      rintro rfl
      rw [hp] at hold
      cases hold
      exact hfree hm
    · rintro ⟨y, q, hq, hm⟩
      obtain ⟨hne, hold⟩ := (hprogram y q).mp hq
      refine ⟨fun hown => ?_, (h.module_iff m).mpr ⟨y, q, hold, hm⟩⟩
      exact hne (h.unshared y x q p m hold hp hm hown)
  case distinct =>
    intro y q hq
    exact h.distinct y q ((hprogram y q).mp hq).2
  case unshared =>
    intro y y' q q' m hq hq' hm hm'
    exact h.unshared y y' q q' m ((hprogram y q).mp hq).2 ((hprogram y' q').mp hq').2 hm hm'
  case programs =>
    have hcount := h.programs_count
    have hless := countP_set_none hp
    rw [livePrograms, List.length_cons] at hcount
    rw [livePrograms, hprograms]
    omega
  case modules =>
    have hcount := h.modules_count
    have hless := h.countP_modules_removed hp
    rw [List.length_cons] at hcount
    rw [liveModules, hmodules]
    omega

/-- A held program may be destroyed. -/
theorem Owns.destroy {d : Device} {x : ProgramHandle} {held : List ProgramHandle}
    (h : Owns d (x :: held)) : Owns (d.destroyProgram x).value held := by
  obtain ⟨p, hp⟩ : ∃ p, d.program? x = some p :=
    Option.isSome_iff_exists.mp ((h.live_iff x).mpr List.mem_cons_self)
  rw [destroyProgram, hp]
  exact h.remove hp rfl rfl

end Device
end ShaderAssets
