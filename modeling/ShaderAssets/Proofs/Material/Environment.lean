import ShaderAssets.Shader.Compile
import ShaderAssets.Proofs.Material.History

/-!
# What a stage sees of a material

A pass that is compiled for the defines of a material starts preprocessing with the
defines of the material and the name of the stage, and nothing else.  In a condition the
name of a define stands for its value, with one exception: {lit}`defined` is an operator.

Main results:

- Theorem {lit}`Macros.perm_foldl_define`: the names given to a stage.
- Theorem {lit}`Defines.perm_parse_join`: the defines string of a material gives its
  tokens back.
- Theorem {lit}`Material.Reachable.macros_of_defines`: a stage sees the defines of the
  material.
- Theorem {lit}`Material.defined_is_no_name`: the exception.
-/

namespace ShaderAssets

/-! ## Definitions -/

namespace Macros

/-- Defining a new name adds it. -/
theorem define_of_not_mem {m : Macros} {name : String} (h : name ∉ m.map Prod.fst)
    (value : String) : m.define name value = (name, value) :: m := by
  have hkept : m.filter (·.1 != name) = m := by
    rw [List.filter_eq_self]
    intro e he
    rw [bne_iff_ne]
    rintro rfl
    exact h (List.mem_map_of_mem he)
  rw [define, hkept]

/-- Defining different new names adds them. -/
theorem perm_foldl_define {es : List (String × String)} {m : Macros}
    (h : ((m ++ es).map Prod.fst).Nodup) :
    (es.foldl (fun m (name, value) => Macros.define m name value) m).Perm (m ++ es) :=
  perm_foldl_insert id define (fun _ _ value hname => .of_eq (define_of_not_mem hname value)) h

/-- Among different names the value of a name is that of its entry. -/
theorem find?_eq_some_iff {m : Macros} (h : (m.map Prod.fst).Nodup) {name value : String} :
    m.find? name = some value ↔ (name, value) ∈ m :=
  lookup_eq_some_iff h

/-- A name that is not among the entries is undefined. -/
theorem find?_eq_none {m : Macros} {name : String} (h : name ∉ m.map Prod.fst) :
    m.find? name = none := by
  rw [find?, List.lookup_eq_none_iff]
  intro e he
  rw [bne_iff_ne]
  rintro rfl
  exact h (List.mem_map_of_mem he)

end Macros

/-! ## Texts -/

namespace Defines

/-- Reading tokens that a semicolon ends gives their entries. -/
theorem readTokens_join {es : List (String × String)} (h : ∀ e ∈ es, IsEntry e) :
    readTokens (String.join ((es.map token).map (· ++ ";"))) = es := by
  unfold readTokens
  induction es with
  | nil => decide
  | cons e es ih =>
      have he : IsEntry e := h e (by simp)
      have hcut : (String.join (((e :: es).map token).map (· ++ ";"))).toList =
          (token e).toList ++ ';' :: (String.join ((es.map token).map (· ++ ";"))).toList := by
        simp [String.join_cons]
      rw [hcut, List.splitOn_append_cons_self_of_not_mem he.no_semicolon,
        List.filterMap_cons_some he.readToken?_token,
        ih fun e' he' => h e' (List.mem_cons_of_mem e he')]

/-- The set that is read from tokens with different names holds their entries. -/
theorem perm_parse_join {es : List (String × String)} (h : ∀ e ∈ es, IsEntry e)
    (hnames : (es.map Prod.fst).Nodup) :
    (parse (String.join ((es.map token).map (· ++ ";")))).entries.Perm es := by
  rw [parse, readTokens_join h]
  exact perm_foldl_set (d := empty) hnames

end Defines

/-! ## Stages -/

namespace StageInput

/-- A stage reads the token of an entry as the entry. -/
theorem readDefine_token {e : String × String} (h : Defines.IsEntry e) :
    readDefine (Defines.token e) = e := by
  have hcut : Text.splitOnce '=' (Defines.token e).toList = some (e.1.toList, e.2.toList) := by
    rw [Defines.toList_token]
    exact Text.splitOnce_append h.no_equals _
  rw [readDefine, hcut]
  simp only [h.name_trimmed.trim_eq, h.value_trimmed.trim_eq, String.ofList_toList]

/-- A stage that is compiled for a set of entries starts with them and its own name. -/
theorem perm_macros {r : StageInput} {d : Defines} (hdefines : r.defines = d.tokens)
    (hentries : ∀ e ∈ d.entries, Defines.IsEntry e)
    (hstage : r.stage.macroName ∉ d.entries.map Prod.fst) :
    r.macros.Perm ((r.stage.macroName, "1") :: d.entries) := by
  have hread : r.defines.map readDefine = d.entries := by
    have htokens : d.tokens = d.entries.map Defines.token := rfl
    have hid : ∀ e ∈ d.entries, (readDefine ∘ Defines.token) e = id e :=
      fun e he => readDefine_token (hentries e he)
    rw [hdefines, htokens, List.map_map, List.map_congr_left hid, List.map_id]
  have hgiven : (d.entries.foldl (fun m (name, value) => Macros.define m name value) []).Perm
      d.entries :=
    Macros.perm_foldl_define (m := []) d.nodup_names
  have hnew : r.stage.macroName ∉ (d.entries.foldl
      (fun m (name, value) => Macros.define m name value) []).map Prod.fst := by
    rw [(hgiven.map Prod.fst).mem_iff]
    exact hstage
  unfold macros
  rw [hread]
  simp only [Macros.define_of_not_mem hnew]
  exact hgiven.cons _

end StageInput

namespace Material

/-- The definitions that a stage of a pass starts with when the pass is compiled for the
defines of a material. -/
def stageMacros (m : Material) (p : Pass) (path : String) (options : CompileOptions)
    (renderer : Renderer) (stage : Stage) : Macros :=
  (p.request path (.parse m.defines) options renderer stage).macros

/-- The entries of a material that is in step can be carried by tokens. -/
theorem InStep.isEntry {m : Material} {es : List (String × String)}
    (h : InStep IsUniformName m es) : ∀ e ∈ es, Defines.IsEntry e := by
  intro e he
  obtain ⟨u, hu, hname, -, w, htext, -⟩ := h.written e he
  exact isEntry_of_defineText (hname ▸ (h.names u hu).isName) htext

/-- A stage that is compiled for a material in step starts with its entries and the name
of the stage. -/
theorem InStep.perm_stageMacros {m : Material} {es : List (String × String)}
    (h : InStep IsUniformName m es) (hspelled : m.IsSpelled) (p : Pass) (path : String)
    (options : CompileOptions) (renderer : Renderer) (stage : Stage) :
    (m.stageMacros p path options renderer stage).Perm ((stage.macroName, "1") :: es) := by
  have hparsed : (Defines.parse m.defines).entries.Perm es := by
    rw [hspelled, h.tokens_eq]
    exact Defines.perm_parse_join h.isEntry h.nodup_entries
  have hstage : stage.macroName ∉ (Defines.parse m.defines).entries.map Prod.fst := by
    rw [(hparsed.map Prod.fst).mem_iff]
    intro hmem
    obtain ⟨e, he, hname⟩ := List.mem_map.mp hmem
    obtain ⟨u, hu, huname, -⟩ := h.written e he
    exact (h.names u hu).ne_stage stage (huname.trans hname)
  refine (StageInput.perm_macros rfl ?_ hstage).trans (hparsed.cons _)
  exact fun e he => Defines.isEntry_of_mem_parse he

/-- In every history, a pass that is compiled for the defines of a material starts each
stage with one definition for every uniform that is a define and the name of the stage,
and with nothing else.  As a part of a condition the name of such a uniform stands for
the whole number or truth value that the uniform holds, and a condition that is just the
name evaluates to it, unless the name is the operator {lit}`defined`.  Names of other
uniforms are undefined. -/
theorem Reachable.macros_of_defines {m : Material} (h : m.Reachable) (p : Pass) (path : String)
    (options : CompileOptions) (renderer : Renderer) (stage : Stage) :
    ((m.stageMacros p path options renderer stage).map Prod.fst).Perm
        (stage.macroName :: (m.uniforms.filter (·.isDefine)).map MaterialUniform.name) ∧
      ((m.stageMacros p path options renderer stage).map Prod.fst).Nodup ∧
      (m.stageMacros p path options renderer stage).find? stage.macroName = some "1" ∧
      (∀ u ∈ m.uniforms, u.isDefine = true →
        (∃ text, (m.stageMacros p path options renderer stage).find? u.name = some text ∧
          Writes u.value text) ∧
        (∀ n, u.value = .int n →
          (Condition.Expr.name u.name).eval (m.stageMacros p path options renderer stage).find? =
            n.toInt ∧
          (u.name ≠ "defined" →
            Condition.value? (m.stageMacros p path options renderer stage).find? u.name.toList =
              some n.toInt)) ∧
        ∀ b, u.value = .bool b →
          (Condition.Expr.name u.name).eval (m.stageMacros p path options renderer stage).find? =
            (if b then 1 else 0) ∧
          (u.name ≠ "defined" →
            Condition.value? (m.stageMacros p path options renderer stage).find? u.name.toList =
              some (if b then 1 else 0))) ∧
      ∀ name, name ≠ stage.macroName → m.isDefine name = false →
        (m.stageMacros p path options renderer stage).find? name = none := by
  obtain ⟨es, hes⟩ := h.inStep
  have hperm := hes.perm_stageMacros h.isSpelled p path options renderer stage
  have hnames : ((m.stageMacros p path options renderer stage).map Prod.fst).Perm
      (stage.macroName :: (m.uniforms.filter (·.isDefine)).map MaterialUniform.name) :=
    (hperm.map Prod.fst).trans (hes.perm_names.cons _)
  have hstage : stage.macroName ∉
      (m.uniforms.filter (·.isDefine)).map MaterialUniform.name := by
    intro hmem
    obtain ⟨u, hu, hname⟩ := List.mem_map.mp hmem
    exact (hes.names u (List.mem_filter.mp hu).1).ne_stage stage hname
  have hnodup : ((m.stageMacros p path options renderer stage).map Prod.fst).Nodup := by
    rw [hnames.nodup_iff, List.nodup_cons]
    exact ⟨hstage, hes.nodup_uniforms.sublist (List.filter_sublist.map _)⟩
  have hfind : ∀ e : String × String, e ∈ (stage.macroName, "1") :: es →
      (m.stageMacros p path options renderer stage).find? e.1 = some e.2 := by
    intro e he
    rw [Macros.find?_eq_some_iff hnodup]
    exact hperm.mem_iff.mpr he
  refine ⟨hnames, hnodup, hfind (stage.macroName, "1") (by simp), ?defines, ?others⟩
  case defines =>
    intro u hu hdefine
    obtain ⟨text, htext⟩ := hes.complete u hu hdefine
    obtain ⟨v, hv, hvname, -, hwrites⟩ := hes.written _ htext
    obtain rfl : v = u := eq_of_name_eq hes.nodup_uniforms hv hu hvname
    have hvalue := hfind _ (List.mem_cons_of_mem _ htext)
    refine ⟨⟨text, hvalue, hwrites⟩, fun n hn => ?_, fun b hb => ?_⟩
    · rw [hn] at hwrites
      refine Condition.eval_name (hes.names v hu).isName ?_
      rw [hvalue, hwrites.int, Condition.nameValue_intText]
    · rw [hb] at hwrites
      refine Condition.eval_name (hes.names v hu).isName ?_
      rw [hvalue, hwrites.bool]
      cases b <;> decide
  case others =>
    intro name hne hplain
    apply Macros.find?_eq_none
    rw [hnames.mem_iff, List.mem_cons, not_or]
    refine ⟨hne, fun hmem => ?_⟩
    obtain ⟨u, hu, rfl⟩ := List.mem_map.mp hmem
    obtain ⟨hu, hdefine⟩ := List.mem_filter.mp hu
    have hno := List.any_eq_false.mp hplain u hu
    simp [hdefine] at hno

/-- A material with a define, and a uniform that was one before it was set again. -/
def sample : Material :=
  let m := ((create "m").setUniform "LEVEL" (.int (-7)) true).value
  let m := (m.setUniform "SHARP" (.bool true) true).value
  (m.setUniform "SHARP" (.bool true) false).value

/-- A stage of a pass that is compiled for the sample sees the define and not the other
uniform. -/
theorem macros_of_defines_sample :
    Condition.value? (sample.stageMacros (.ofSource .empty) "" .standard .noop .vertex).find?
        "LEVEL".toList = some (-7) ∧
      (sample.stageMacros (.ofSource .empty) "" .standard .noop .vertex).find? "SHARP" = none := by
  have hlevel : IsUniformName "LEVEL" :=
    ⟨⟨⟨'L', _, rfl, by decide⟩, by decide⟩, fun stage => by cases stage <;> decide⟩
  have hsharp : IsUniformName "SHARP" :=
    ⟨⟨⟨'S', _, rfl, by decide⟩, by decide⟩, fun stage => by cases stage <;> decide⟩
  have hreachable : sample.Reachable :=
    (((Reachable.create "m").setUniform hlevel _ _).setUniform hsharp _ _).setUniform hsharp _ _
  obtain ⟨-, -, -, hdefines, hothers⟩ :=
    hreachable.macros_of_defines (.ofSource .empty) "" .standard .noop .vertex
  obtain ⟨-, hint, -⟩ := hdefines ⟨"LEVEL", .int (-7), true⟩ (by decide +kernel) rfl
  exact ⟨(hint (-7) rfl).2 (by decide), hothers "SHARP" (by decide) (by decide +kernel)⟩

/-- A uniform may be called {lit}`defined`, but its name alone is no condition, whatever
its value. -/
theorem defined_is_no_name :
    ¬∀ m : Material, m.Reachable → ∀ p path options renderer stage, ∀ u ∈ m.uniforms,
      u.isDefine = true → ∀ n, u.value = .int n →
        Condition.value? (m.stageMacros p path options renderer stage).find? u.name.toList =
          some n.toInt := by
  intro hall
  have hname : IsUniformName "defined" :=
    ⟨⟨⟨'d', _, rfl, by decide⟩, by decide⟩, fun stage => by cases stage <;> decide⟩
  have hvalue := hall _ ((Reachable.create "m").setUniform hname (.int 5) true)
    (.ofSource .empty) "" .standard .noop .vertex ⟨"defined", .int 5, true⟩
    (by decide +kernel) rfl 5 rfl
  rw [Condition.value?_defined] at hvalue
  cases hvalue

end Material
end ShaderAssets
