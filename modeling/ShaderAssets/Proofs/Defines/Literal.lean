import ShaderAssets.Source.Tags
import ShaderAssets.Proofs.Defines.Normal

/-!
# The literal test for a define

Whether a define is set is decided by looking for the literal {lit}`NAME=1` in the text of a
set.  A match never reaches from one token into the next and always stands around the
equals sign of a token, so the test asks for an entry whose name ends with the given one
and whose value begins with {lit}`1`.  A conditional tag makes the same test.

Main results:

- Definition {lit}`Answers`: the entries that the test finds.
- Theorem {lit}`isSet_iff`: the test on the text of a set.
- Theorem {lit}`isSet_iff_answers`: the test and the tags that depend on it.
-/

namespace ShaderAssets
namespace Defines

/-- A text that holds none of the two marks of a defines string. -/
def Unmarked (s : String) : Prop :=
  '=' ∉ s.toList ∧ ';' ∉ s.toList

instance (s : String) : Decidable (Unmarked s) :=
  inferInstanceAs (Decidable (_ ∧ _))

/-- An entry that the literal test for a name finds: its name ends with the given one and
its value begins with {lit}`1`. -/
def Answers (name : String) (e : String × String) : Prop :=
  name.toList <:+ e.1.toList ∧ ['1'] <+: e.2.toList

instance (name : String) (e : String × String) : Decidable (Answers name e) :=
  inferInstanceAs (Decidable (_ ∧ _))

/-- The literal test finds an entry by its token. -/
theorem infix_token_iff {name : String} {e : String × String} (he : Unmarked e.1)
    (hvalue : Unmarked e.2) : (name ++ "=1").toList <:+: (token e).toList ↔ Answers name e := by
  have hliteral : (name ++ "=1").toList = name.toList ++ '=' :: ['1'] := by simp
  rw [hliteral, toList_token]
  exact Text.infix_append_cons_iff he.1 hvalue.1

/-- The literal test finds one of the entries of a set. -/
theorem isSet_iff {d : Defines} (hd : ∀ e ∈ d.entries, Unmarked e.1 ∧ Unmarked e.2)
    {name : String} (hname : Unmarked name) :
    d.isSet name = true ↔ ∃ e ∈ d.entries, Answers name e := by
  have hsemicolon : ';' ∉ (name ++ "=1").toList := by simp [hname.2]
  rw [isSet, Text.occursIn_iff, toList_text, Text.infix_intercalate_iff (by simp) hsemicolon]
  simp only [List.mem_map, exists_exists_and_eq_and]
  refine exists_congr fun e => and_congr_right fun he => ?_
  exact infix_token_iff (hd e he).1 (hd e he).2

/-- In a set whose names and values hold none of the two marks, a name without them is set
exactly if some entry has a name that ends with it and a value that begins with {lit}`1`.
A conditional tag on the name selects its first values then and the others else. -/
theorem isSet_iff_answers {d : Defines}
    (hd : ∀ e ∈ d.entries, Unmarked e.1 ∧ Unmarked e.2) {name : String}
    (hname : Unmarked name) (tag : String) (ifSet ifUnset : List String) :
    (d.isSet name = true ↔ ∃ e ∈ d.entries, Answers name e) ∧
    ((∃ e ∈ d.entries, Answers name e) →
      (Source.Tag.conditional tag name ifSet ifUnset).resolve d.text = ifSet) ∧
    ((¬∃ e ∈ d.entries, Answers name e) →
      (Source.Tag.conditional tag name ifSet ifUnset).resolve d.text = ifUnset) ∧
    (Source.Tag.conditional tag name ifSet ifUnset).resolve d.text =
      if d.isSet name then ifSet else ifUnset := by
  have htest := isSet_iff hd hname
  have hresolve : (Source.Tag.conditional tag name ifSet ifUnset).resolve d.text =
      if d.isSet name then ifSet else ifUnset := rfl
  refine ⟨htest, fun hanswers => ?_, fun hnone => ?_, hresolve⟩
  · rw [hresolve, if_pos (htest.mpr hanswers)]
  · rw [hresolve, if_neg (mt htest.mp hnone)]

/-- A test for {lit}`FOG` finds the longer name {lit}`USE_FOG` with the value {lit}`12`, and
not the name itself with the value {lit}`0`. -/
theorem isSet_iff_answers_sample :
    Unmarked "FOG" ∧ (parse "FOG=0; USE_FOG=12").isSet "FOG" = true ∧
      (Source.Tag.conditional "blend_mode" "FOG" ["add"] ["alpha"]).resolve
        (parse "FOG=0; USE_FOG=12").text = ["add"] := by
  have hentries : (parse "FOG=0; USE_FOG=12").entries = [("FOG", "0"), ("USE_FOG", "12")] := by
    decide +kernel
  have hunmarked : ∀ e ∈ (parse "FOG=0; USE_FOG=12").entries, Unmarked e.1 ∧ Unmarked e.2 := by
    rw [hentries]
    decide
  have hanswers : ∃ e ∈ (parse "FOG=0; USE_FOG=12").entries, Answers "FOG" e := by
    rw [hentries]
    exact ⟨("USE_FOG", "12"), by decide, by decide⟩
  have hname : Unmarked "FOG" := by decide
  obtain ⟨htest, hset, -⟩ :=
    isSet_iff_answers hunmarked hname "blend_mode" ["add"] ["alpha"]
  exact ⟨hname, htest.mpr hanswers, hset hanswers⟩

end Defines
end ShaderAssets
