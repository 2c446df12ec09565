import Mathlib.Data.List.Nodup
import ShaderAssets.Proofs.Defines.Normal

/-!
# The last token of a name

A token of a raw defines string gives a name a value: the parts around its first equals
sign without the white space at their ends, or the value {lit}`1` for a bare name.  Where
several tokens give one name a value, the last of them counts.  So a set of defines is
known by its last tokens, and the normalized text is a canonical form: two raw strings have
the same one exactly if their last tokens agree for every name.

Main results:

- Inductive {lit}`Gives`: what a token says.
- Theorem {lit}`readToken?_eq_some_iff`: reading a token.
- Theorem {lit}`get?_parse_iff`: the value of a name is that of its last token.
- Theorem {lit}`normalize_eq_iff`: raw strings with the same normalized text.
- Theorem {lit}`normalize_canonical`: the normalized text is a canonical form.
-/

namespace ShaderAssets
namespace Defines

open Text (trim)

/-! ## Tokens -/

/-- A token gives a name a value: a bare name the value {lit}`1`, and the text in front of
the first equals sign the text behind it.  White space at the ends of either part does not
count, and a name is never empty. -/
inductive Gives (token : List Char) : String → String → Prop where
  | bare (hequals : '=' ∉ token) (hname : trim token ≠ []) :
      Gives token (String.ofList (trim token)) "1"
  | valued {name value : List Char} (htoken : token = name ++ '=' :: value)
      (hequals : '=' ∉ name) (hname : trim name ≠ []) :
      Gives token (String.ofList (trim name)) (String.ofList (trim value))

/-- A token without an equals sign is read as a bare name. -/
theorem readToken?_bare {token : List Char} (h : '=' ∉ token) :
    readToken? token =
      if (trim token).isEmpty then none else some (String.ofList (trim token), "1") := by
  have hcut : Text.splitOnce '=' (trim token) = none :=
    Text.splitOnce_eq_none fun hmem => h (Text.mem_of_mem_trim hmem)
  rw [readToken?, hcut]

/-- A token with an equals sign is read as the name in front of the first one and the value
behind it. -/
theorem readToken?_valued {name : List Char} (h : '=' ∉ name) (value : List Char) :
    readToken? (name ++ '=' :: value) =
      if (trim name).isEmpty then none
      else some (String.ofList (trim name), String.ofList (trim value)) := by
  have hstart : '=' ∉ Text.trimStart name :=
    fun hmem => h ((List.dropWhile_suffix Text.isBlank).subset hmem)
  have hcut : Text.splitOnce '=' (trim (name ++ '=' :: value)) =
      some (Text.trimStart name, Text.trimEnd value) := by
    rw [Text.trim_append_cons (by decide)]
    exact Text.splitOnce_append hstart _
  rw [readToken?, hcut]
  simp only [Text.trim_trimStart, Text.trim_trimEnd]

/-- What is read from a token is what it gives. -/
theorem readToken?_eq_some_iff {token : List Char} {name value : String} :
    readToken? token = some (name, value) ↔ Gives token name value := by
  constructor
  · intro h
    by_cases hequals : '=' ∈ token
    · obtain ⟨n, v, rfl, hn⟩ := List.eq_append_cons_of_mem hequals
      rw [readToken?_valued hn, Option.ite_none_left_eq_some] at h
      obtain ⟨hne, heq⟩ := h
      cases heq
      exact .valued rfl hn (by simpa using hne)
    · rw [readToken?_bare hequals, Option.ite_none_left_eq_some] at h
      obtain ⟨hne, heq⟩ := h
      cases heq
      exact .bare hequals (by simpa using hne)
  · rintro (⟨hequals, hname⟩ | ⟨rfl, hequals, hname⟩)
    · rw [readToken?_bare hequals, if_neg (by simpa using hname)]
    · rw [readToken?_valued hequals, if_neg (by simpa using hname)]

/-- The last of several tokens that give a name a value gives it this one. -/
def LastGives (tokens : List (List Char)) (name value : String) : Prop :=
  ∃ front token back, tokens = front ++ token :: back ∧ Gives token name value ∧
    ∀ later ∈ back, ∀ v, ¬Gives later name v

/-- No token gives a value when there are none. -/
theorem not_lastGives_nil {name value : String} : ¬LastGives [] name value := by
  rintro ⟨front, token, back, heq, -⟩
  cases front <;> cases heq

/-- A further token counts if it gives the name a value, else those in front of it do. -/
theorem lastGives_concat {tokens : List (List Char)} {token : List Char}
    {name value : String} : LastGives (tokens ++ [token]) name value ↔
      Gives token name value ∨ ((∀ v, ¬Gives token name v) ∧ LastGives tokens name value) := by
  constructor
  · rintro ⟨front, t, back, heq, hgives, hlater⟩
    rcases List.eq_nil_or_concat back with rfl | ⟨back, last, rfl⟩
    · obtain ⟨-, hlast⟩ := List.append_inj' heq rfl
      cases hlast
      exact Or.inl hgives
    · rw [List.concat_eq_append, ← List.cons_append, ← List.append_assoc] at heq
      obtain ⟨rfl, hlast⟩ := List.append_inj' heq rfl
      cases hlast
      refine Or.inr ⟨hlater token (by simp), front, t, back, rfl, hgives, ?_⟩
      exact fun later hmem => hlater later (by simp [hmem])
  · rintro (hgives | ⟨hnot, front, t, back, rfl, hgives, hlater⟩)
    · exact ⟨tokens, token, [], rfl, hgives, by simp⟩
    · refine ⟨front, t, back ++ [token], by simp, hgives, ?_⟩
      intro later hmem
      rcases List.mem_append.mp hmem with hmem | hmem
      · exact hlater later hmem
      · rw [List.mem_singleton.mp hmem]
        exact hnot

/-- A name has a last token exactly if some token gives it a value. -/
theorem exists_lastGives_iff {tokens : List (List Char)} {name : String} :
    (∃ value, LastGives tokens name value) ↔ ∃ token ∈ tokens, ∃ value, Gives token name value := by
  induction tokens using List.reverseRecOn with
  | nil =>
      refine ⟨fun ⟨_, h⟩ => absurd h not_lastGives_nil, ?_⟩
      rintro ⟨token, hmem, -⟩
      cases hmem
  | append_singleton tokens token ih =>
      simp only [lastGives_concat, List.mem_append, List.mem_singleton]
      constructor
      · rintro ⟨value, hgives | ⟨-, hlast⟩⟩
        · exact ⟨token, Or.inr rfl, value, hgives⟩
        · obtain ⟨t, hmem, hgives⟩ := ih.mp ⟨value, hlast⟩
          exact ⟨t, Or.inl hmem, hgives⟩
      · rintro ⟨t, hmem, value, hgives⟩
        by_cases hthis : ∃ v, Gives token name v
        · obtain ⟨v, hv⟩ := hthis
          exact ⟨v, Or.inl hv⟩
        · rcases hmem with hmem | rfl
          · obtain ⟨v, hlast⟩ := ih.mpr ⟨t, hmem, value, hgives⟩
            exact ⟨v, Or.inr ⟨not_exists.mp hthis, hlast⟩⟩
          · exact absurd ⟨value, hgives⟩ hthis

/-! ## Values of names -/

/-- Putting an entry into sorted entries changes what is found for its name only. -/
theorem lookup_insertEntry (name value other : String) (entries : List (String × String)) :
    (insertEntry name value entries).lookup other =
      if other = name then some value else entries.lookup other := by
  induction entries with
  | nil => exact lookup_cons_eq_ite ..
  | cons e entries ih =>
      obtain ⟨n, v⟩ := e
      rw [insertEntry]
      split
      · exact lookup_cons_eq_ite ..
      · split
        · rename_i hname
          subst hname
          rw [lookup_cons_eq_ite, lookup_cons_eq_ite]
          by_cases h : other = name <;> simp [h]
        · rename_i hne
          rw [lookup_cons_eq_ite, lookup_cons_eq_ite, ih]
          by_cases h : other = n
          · subst h
            simp [Ne.symm hne]
          · simp [h]

/-- Setting a name changes the value of this name only. -/
theorem get?_set (d : Defines) (name value other : String) :
    (d.set name value).get? other = if other = name then some value else d.get? other :=
  lookup_insertEntry name value other d.entries

/-- The value of a name in a set is that of its entry. -/
theorem get?_eq_some_iff {d : Defines} {name value : String} :
    d.get? name = some value ↔ (name, value) ∈ d.entries :=
  lookup_eq_some_iff d.nodup_names

/-- Sets that give every name the same value are equal. -/
theorem eq_of_get? {d d' : Defines} (h : ∀ name value,
    d.get? name = some value ↔ d'.get? name = some value) : d = d' := by
  refine eq_of_perm ((List.perm_ext_iff_of_nodup ?_ ?_).mpr ?_)
  · exact List.Nodup.of_map _ d.nodup_names
  · exact List.Nodup.of_map _ d'.nodup_names
  · rintro ⟨name, value⟩
    rw [← get?_eq_some_iff, ← get?_eq_some_iff, h]

/-- In the set that tokens give, the value of a name is that of its last token. -/
theorem get?_foldl_set_iff {tokens : List (List Char)} {name value : String} :
    (((tokens.filterMap readToken?).foldl (fun d (name, value) => d.set name value)
      empty).get? name = some value) ↔ LastGives tokens name value := by
  induction tokens using List.reverseRecOn with
  | nil =>
      refine ⟨fun h => ?_, fun h => absurd h not_lastGives_nil⟩
      cases h
  | append_singleton tokens token ih =>
      rw [List.filterMap_append, List.foldl_append, lastGives_concat, ← ih]
      cases hread : readToken? token with
      | none =>
          have hnot : ∀ name v, ¬Gives token name v := fun name v hgives => by
            rw [readToken?_eq_some_iff.mpr hgives] at hread
            cases hread
          simp [hread, hnot]
      | some e =>
          obtain ⟨n, v⟩ := e
          have hgives : ∀ name v', Gives token name v' ↔ n = name ∧ v = v' := fun name v' => by
            rw [← readToken?_eq_some_iff, hread, Option.some.injEq, Prod.mk.injEq]
          simp only [List.filterMap_cons, hread, List.filterMap_nil, List.foldl_cons,
            List.foldl_nil, get?_set, hgives]
          by_cases hname : name = n
          · simp [hname]
          · simp [hname, Ne.symm hname]

/-- The value that a raw string gives a name is that of the last token of the name. -/
theorem get?_parse_iff {raw name value : String} :
    (parse raw).get? name = some value ↔ LastGives (raw.toList.splitOn ';') name value :=
  get?_foldl_set_iff

/-- Raw strings have the same normalized text exactly if their last tokens agree. -/
theorem normalize_eq_iff {a b : String} : normalize a = normalize b ↔
    ∀ name value, LastGives (a.toList.splitOn ';') name value ↔
      LastGives (b.toList.splitOn ';') name value := by
  simp only [← get?_parse_iff]
  constructor
  · intro h name value
    rw [parse_eq_of_normalize_eq h]
  · intro h
    rw [normalize, normalize, eq_of_get? h]

/-! ## Sets that are put together -/

/-- The sets that are put together by setting names that tokens can carry to values that
tokens can carry. -/
inductive Built : Defines → Prop where
  | empty : Built empty
  | set {d : Defines} (h : Built d) {name value : String} (hentry : IsEntry (name, value)) :
      Built (d.set name value)

/-- The entries of such a set can be carried by tokens. -/
theorem Built.isEntry {d : Defines} (h : Built d) : ∀ e ∈ d.entries, IsEntry e := by
  induction h with
  | empty => exact fun e he => absurd he List.not_mem_nil
  | set _ hentry ih =>
      intro e he
      rcases mem_insertEntry he with rfl | he
      · exact hentry
      · exact ih e he

/-- The normalized text is a canonical form: it gives the same set as the raw string, the
value of a name is that of its last token, two raw strings have the same normalized text
exactly if their last tokens agree for every name, and the text of a set that was put
together gives the set. -/
theorem normalize_canonical :
    (∀ raw, parse (normalize raw) = parse raw ∧ normalize (normalize raw) = normalize raw) ∧
    (∀ raw name value, (parse raw).get? name = some value ↔
      LastGives (raw.toList.splitOn ';') name value) ∧
    (∀ raw name, (parse raw).get? name = none ↔
      ∀ token ∈ raw.toList.splitOn ';', ∀ value, ¬Gives token name value) ∧
    (∀ a b, normalize a = normalize b ↔
      ∀ name value, LastGives (a.toList.splitOn ';') name value ↔
        LastGives (b.toList.splitOn ';') name value) ∧
    ∀ d, Built d → parse d.text = d ∧ normalize d.text = d.text := by
  refine ⟨fun raw => ⟨parse_text_parse raw, normalize_normalize raw⟩,
    fun _ _ _ => get?_parse_iff, fun raw name => ?_, fun _ _ => normalize_eq_iff,
    fun d hbuilt => ?_⟩
  · have hsome : (∃ value, (parse raw).get? name = some value) ↔
        ∃ token ∈ raw.toList.splitOn ';', ∃ value, Gives token name value := by
      simp only [get?_parse_iff, exists_lastGives_iff]
    rw [← Option.isSome_iff_exists, ← not_iff_not] at hsome
    simpa using hsome
  · have hparse : parse d.text = d := parse_text hbuilt.isEntry
    exact ⟨hparse, congrArg text hparse⟩

end Defines
end ShaderAssets
