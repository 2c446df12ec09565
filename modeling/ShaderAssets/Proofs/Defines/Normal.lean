import ShaderAssets.Defines
import ShaderAssets.Proofs.Text.Trim
import ShaderAssets.Proofs.Text.Parts

/-!
# The normal form of defines

Reading a raw defines string gives names and values that stand for themselves when
they are written as {lit}`NAME=VALUE` tokens.  So the text of a set that was read is
read as the same set again, and normalizing twice is normalizing once.

Main results:

- Structure {lit}`IsEntry`: a name and a value that a token can carry.
- Theorem {lit}`perm_foldl_insert`: a table holds the entries put into it.
- Theorem {lit}`parse_text_parse`: the text of a set that was read gives the set back.
- Theorem {lit}`normalize_normalize`: normalizing is idempotent.
-/

namespace ShaderAssets

/-! ## Tables -/

/-- A table to which each new name adds its entry holds the entries put into it,
provided that their names differ. -/
theorem perm_foldl_insert {τ : Type} (entries : τ → List (String × String))
    (insert : τ → String → String → τ)
    (hinsert : ∀ t name value, name ∉ (entries t).map Prod.fst →
      (entries (insert t name value)).Perm ((name, value) :: entries t))
    {es : List (String × String)} {t : τ} (h : ((entries t ++ es).map Prod.fst).Nodup) :
    (entries (es.foldl (fun t (name, value) => insert t name value) t)).Perm
      (entries t ++ es) := by
  induction es generalizing t with
  | nil =>
      rw [List.append_nil]
      exact .refl _
  | cons e es ih =>
      obtain ⟨name, value⟩ := e
      have hmiddle : ((entries t ++ (name, value) :: es).map Prod.fst).Perm
          (name :: (entries t ++ es).map Prod.fst) :=
        List.perm_middle.map Prod.fst
      obtain ⟨hnew, -⟩ := List.nodup_cons.mp (hmiddle.nodup_iff.mp h)
      have hname : name ∉ (entries t).map Prod.fst := fun hmem =>
        hnew (by simp [List.mem_map.mp hmem])
      have hall : (entries (insert t name value) ++ es).Perm
          (entries t ++ (name, value) :: es) :=
        ((hinsert t name value hname).append_right es).trans List.perm_middle.symm
      exact (ih ((hall.map Prod.fst).nodup_iff.mpr h)).trans hall

/-- The first entry of a name is found. -/
theorem lookup_cons_eq_ite (name value other : String) (es : List (String × String)) :
    List.lookup other ((name, value) :: es) =
      if other = name then some value else es.lookup other := by
  rw [List.lookup_cons]
  by_cases h : other = name
  · simp [h]
  · simp [h, beq_eq_false_iff_ne.mpr h]

/-- Among different names the value that is found is that of the entry with the name. -/
theorem lookup_eq_some_iff {es : List (String × String)} (h : (es.map Prod.fst).Nodup)
    {name value : String} : es.lookup name = some value ↔ (name, value) ∈ es := by
  induction es with
  | nil => simp
  | cons e es ih =>
      obtain ⟨n, v⟩ := e
      rw [List.map_cons, List.nodup_cons] at h
      obtain ⟨hnew, hrest⟩ := h
      rw [lookup_cons_eq_ite, List.mem_cons]
      by_cases hname : name = n
      · subst hname
        rw [if_pos rfl]
        simp only [Option.some.injEq, Prod.mk.injEq, true_and]
        constructor
        · exact fun hv => Or.inl hv.symm
        · rintro (hv | hmem)
          · exact hv.symm
          · exact absurd (List.mem_map_of_mem hmem) hnew
      · rw [if_neg hname]
        simp only [Prod.mk.injEq, hname, false_and, false_or]
        exact ih hrest

namespace Defines

open Text (IsTrimmed)

/-! ## Sets -/

/-- Names in strict order are different. -/
theorem nodup_names (d : Defines) : (d.entries.map Prod.fst).Nodup := by
  rw [List.nodup_iff_pairwise_ne, List.pairwise_map]
  refine d.sorted.imp fun {a b} hlt heq => ?_
  rw [heq] at hlt
  exact String.lt_irrefl _ hlt

/-- Inserting a new name adds one entry. -/
theorem perm_insertEntry {name value : String} {entries : List (String × String)}
    (h : name ∉ entries.map Prod.fst) :
    (insertEntry name value entries).Perm ((name, value) :: entries) := by
  induction entries with
  | nil => exact .refl _
  | cons head rest ih =>
      obtain ⟨n, v⟩ := head
      rw [List.map_cons, List.mem_cons, not_or] at h
      obtain ⟨hne, hrest⟩ := h
      rw [insertEntry]
      split
      · exact .refl _
      · exact ((ih hrest).cons _).trans (List.Perm.swap ..)

/-- A set holds the entries put into it, provided that their names differ. -/
theorem perm_foldl_set {es : List (String × String)} {d : Defines}
    (h : ((d.entries ++ es).map Prod.fst).Nodup) :
    (es.foldl (fun d (name, value) => d.set name value) d).entries.Perm (d.entries ++ es) :=
  perm_foldl_insert entries set (fun _ _ _ hname => perm_insertEntry hname) h

/-- Two sets with the same entries are equal. -/
theorem eq_of_perm {d d' : Defines} (h : d.entries.Perm d'.entries) : d = d' := by
  have heq : d.entries = d'.entries := by
    refine List.Perm.eq_of_pairwise (fun a b _ _ hab hba => ?_) d.sorted d'.sorted h
    exact absurd (String.lt_trans hab hba) (String.lt_irrefl _)
  cases d
  cases d'
  cases heq
  rfl

/-- Putting the entries of a set into the empty set gives the set. -/
theorem foldl_set_entries (d : Defines) :
    d.entries.foldl (fun d (name, value) => d.set name value) empty = d :=
  eq_of_perm (perm_foldl_set (d := empty) (by simpa [empty] using d.nodup_names))

/-- The entries of a set are among those put into it. -/
theorem mem_foldl_set {es : List (String × String)} {d : Defines} {e : String × String}
    (h : e ∈ (es.foldl (fun d (name, value) => d.set name value) d).entries) :
    e ∈ d.entries ∨ e ∈ es := by
  induction es generalizing d with
  | nil => exact Or.inl h
  | cons head es ih =>
      rcases ih h with h | h
      · rcases mem_insertEntry h with rfl | h
        · exact Or.inr (by simp)
        · exact Or.inl h
      · exact Or.inr (List.mem_cons_of_mem head h)

/-! ## Tokens -/

/-- The token of a name and a value. -/
def token (e : String × String) : String :=
  e.1 ++ "=" ++ e.2

/-- A name and a value that a token can carry. -/
structure IsEntry (e : String × String) : Prop where
  name_ne_nil : e.1.toList ≠ []
  name_trimmed : IsTrimmed e.1.toList
  value_trimmed : IsTrimmed e.2.toList
  no_equals : '=' ∉ e.1.toList
  name_no_semicolon : ';' ∉ e.1.toList
  value_no_semicolon : ';' ∉ e.2.toList

/-- The characters of a token. -/
theorem toList_token (e : String × String) :
    (token e).toList = e.1.toList ++ '=' :: e.2.toList := by
  simp [token]

/-- A token of an entry has no white space at either end. -/
theorem IsEntry.isTrimmed_token {e : String × String} (h : IsEntry e) :
    IsTrimmed (token e).toList where
  head c hc := by
    obtain ⟨first, rest, hname⟩ := List.exists_cons_of_ne_nil h.name_ne_nil
    refine h.name_trimmed.head c ?_
    rw [toList_token, hname] at hc
    rw [hname]
    exact hc
  last c hc := by
    rw [toList_token] at hc
    cases hvalue : e.2.toList with
    | nil =>
        rw [hvalue, List.getLast?_concat, Option.some.injEq] at hc
        subst hc
        rfl
    | cons a rest =>
        refine h.value_trimmed.last c ?_
        rw [hvalue] at hc ⊢
        simpa [List.getLast?_append, List.getLast?_cons_cons, List.getLast?_cons] using hc

/-- A token of an entry gives the entry back. -/
theorem IsEntry.readToken?_token {e : String × String} (h : IsEntry e) :
    readToken? (token e).toList = some e := by
  have hcut : Text.splitOnce '=' (token e).toList = some (e.1.toList, e.2.toList) := by
    rw [toList_token]
    exact Text.splitOnce_append h.no_equals _
  simp only [readToken?, h.isTrimmed_token.trim_eq, hcut, h.name_trimmed.trim_eq,
    h.value_trimmed.trim_eq]
  rw [if_neg (by simpa using h.name_ne_nil), String.ofList_toList, String.ofList_toList]

/-- The parts of a trimmed text without semicolons make an entry. -/
theorem isEntry_ofList {name value : List Char} (hne : name ≠ []) (hname : IsTrimmed name)
    (hvalue : IsTrimmed value) (hequals : '=' ∉ name) (hsemicolon : ';' ∉ name)
    (hsemicolon' : ';' ∉ value) : IsEntry (String.ofList name, String.ofList value) where
  name_ne_nil := by simpa using hne
  name_trimmed := by simpa using hname
  value_trimmed := by simpa using hvalue
  no_equals := by simpa using hequals
  name_no_semicolon := by simpa using hsemicolon
  value_no_semicolon := by simpa using hsemicolon'

/-- What a part without semicolons gives is an entry. -/
theorem isEntry_of_readToken? {part : List Char} {e : String × String}
    (hpart : ';' ∉ part) (h : readToken? part = some e) : IsEntry e := by
  have htrim : ';' ∉ Text.trim part := fun hmem => hpart (Text.mem_of_mem_trim hmem)
  rw [readToken?] at h
  cases hcut : Text.splitOnce '=' (Text.trim part) with
  | none =>
      simp only [hcut, Option.ite_none_left_eq_some, Option.some.injEq] at h
      obtain ⟨hne, rfl⟩ := h
      refine isEntry_ofList (by simpa using hne) (Text.isTrimmed_trim part)
        (.of_forall (by decide)) (Text.not_mem_of_splitOnce hcut) htrim (by decide)
  | some parts =>
      obtain ⟨name, value⟩ := parts
      obtain ⟨heq, hname⟩ := Text.eq_append_of_splitOnce hcut
      simp only [hcut, Option.ite_none_left_eq_some, Option.some.injEq] at h
      obtain ⟨hne, rfl⟩ := h
      rw [heq, List.mem_append, List.mem_cons, not_or, not_or] at htrim
      exact isEntry_ofList (by simpa using hne) (Text.isTrimmed_trim name)
        (Text.isTrimmed_trim value) (fun hmem => hname (Text.mem_of_mem_trim hmem))
        (fun hmem => htrim.1 (Text.mem_of_mem_trim hmem))
        (fun hmem => htrim.2.2 (Text.mem_of_mem_trim hmem))

/-- What a raw defines string gives are entries. -/
theorem isEntry_of_mem_readTokens {raw : String} {e : String × String}
    (h : e ∈ readTokens raw) : IsEntry e := by
  obtain ⟨part, hpart, hread⟩ := List.mem_filterMap.mp h
  exact isEntry_of_readToken? (Text.not_mem_of_mem_splitOn hpart) hread

/-- Tokens of entries hold no semicolon. -/
theorem IsEntry.no_semicolon {e : String × String} (h : IsEntry e) :
    ';' ∉ (token e).toList := by
  simp [toList_token, h.name_no_semicolon, h.value_no_semicolon]

/-! ## Texts -/

/-- The entries of a set that was read can be carried by tokens. -/
theorem isEntry_of_mem_parse {raw : String} {e : String × String}
    (h : e ∈ (parse raw).entries) : IsEntry e := by
  rcases mem_foldl_set h with h | h
  · cases h
  · exact isEntry_of_mem_readTokens h

/-- The text of a set is its tokens with semicolons between them. -/
theorem toList_text (d : Defines) :
    d.text.toList = [';'].intercalate (d.entries.map fun e => (token e).toList) := by
  simp [text, tokens, token, String.toList_intercalate, Function.comp_def]

/-- The text of a set of entries gives its entries in order. -/
theorem readTokens_text {d : Defines} (h : ∀ e ∈ d.entries, IsEntry e) :
    readTokens d.text = d.entries := by
  have hread : ∀ es : List (String × String), (∀ e ∈ es, IsEntry e) →
      (es.map fun e => (token e).toList).filterMap readToken? = es := by
    intro es hes
    induction es with
    | nil => rfl
    | cons e es ih =>
        have he : readToken? (token e).toList = some e := (hes e (by simp)).readToken?_token
        rw [List.map_cons, List.filterMap_cons_some he,
          ih fun e' he' => hes e' (List.mem_cons_of_mem e he')]
  rw [readTokens, toList_text]
  by_cases hempty : d.entries = []
  · rw [hempty]
    rfl
  · rw [List.splitOn_intercalate, hread d.entries h]
    · intro part hpart
      obtain ⟨e, he, rfl⟩ := List.mem_map.mp hpart
      exact (h e he).no_semicolon
    · simpa using hempty

/-- The text of a set of entries gives the set. -/
theorem parse_text {d : Defines} (h : ∀ e ∈ d.entries, IsEntry e) : parse d.text = d := by
  rw [parse, readTokens_text h, foldl_set_entries]

/-- The text of a set that was read gives the set back. -/
@[simp]
theorem parse_text_parse (raw : String) : parse (parse raw).text = parse raw :=
  parse_text fun _ he => isEntry_of_mem_parse he

/-- Normalizing twice is normalizing once. -/
@[simp]
theorem normalize_normalize (raw : String) : normalize (normalize raw) = normalize raw := by
  rw [normalize, normalize, parse_text_parse]

/-- Reading the text of a set again leaves its hash. -/
@[simp]
theorem hashOf_text_parse (raw : String) : hashOf (parse raw).text = hashOf raw := by
  rw [hashOf, hashOf, parse_text_parse]

/-- Raw strings with one normal form give one set. -/
theorem parse_eq_of_normalize_eq {a b : String} (h : normalize a = normalize b) :
    parse a = parse b := by
  rw [← parse_text_parse a, ← parse_text_parse b]
  exact congrArg parse h

end Defines
end ShaderAssets
