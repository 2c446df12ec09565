import ShaderAssets.Proofs.Preprocess.Grammar
import ShaderAssets.Proofs.Preprocess.Inclusion
import ShaderAssets.Proofs.Preprocess.Lexemes
import ShaderAssets.Proofs.Text.Slashes

/-!
# Irrelevant definitions

A run asks for the definitions of names only in its conditionals, and only for names that
these mention.  So two runs that start with definitions which agree on all names that can be
asked for go the same way: their states differ at most in what the other names are defined
as, after every line and through every file, and what they give is the same.

Conditions are read as lexemes, and a lexeme may be less than a word.  A name that is read
from the middle of a word follows a number, though, and no condition has a name there.

Main results:

- Definition {lit}`Directive.Asks`: the names that a directive asks for.
- Theorem {lit}`Condition.holds?_congr`: a condition depends on the names that its text
  mentions.
- Relation {lit}`SameOutcome`: outcomes that differ at most in irrelevant definitions.
- Theorem {lit}`onLines_sameOutcome`: lines keep states related.
- Theorem {lit}`run_congr`: a run depends on the names that its directives ask for.
- Theorem {lit}`run_define_irrelevant`: defining a name that no directive mentions.
-/

namespace ShaderAssets
namespace Condition

open Text

/-! ## Conditions -/

/-- A condition has the same value over definitions that agree on its names. -/
theorem Derives.congr {macros macros' : String → Option String} {level : Level}
    {tokens : List Token} {v : Int64} (h : Derives macros level tokens v)
    (hmacros : ∀ name, .name name ∈ tokens → macros' name = macros name) :
    Derives macros' level tokens v := by
  induction h with
  | number v => exact .number v
  | group _ ih => exact .group (ih fun name hname => hmacros name (by simp [hname]))
  | isDefined target =>
      rw [← hmacros target (by simp)]
      exact .isDefined target
  | isDefinedGroup target =>
      rw [← hmacros target (by simp)]
      exact .isDefinedGroup target
  | @name text hne =>
      rw [← hmacros text (by simp)]
      exact .name hne
  | not _ ih => exact .not (ih fun name hname => hmacros name (by simp [hname]))
  | negate _ ih => exact .negate (ih fun name hname => hmacros name (by simp [hname]))
  | operand hlevel _ ih => exact .operand hlevel (ih hmacros)
  | binary _ _ ihleft ihright =>
      exact .binary (ihleft fun name hname => hmacros name (by simp [hname]))
        (ihright fun name hname => hmacros name (by simp [hname]))

/-- A name token does not follow a number token directly. -/
def Token.Apart (first second : Token) : Prop :=
  ¬∃ n name, first = .number n ∧ second = .name name

/-- In a condition no name follows a number directly: an operator or a parenthesis stands
between them. -/
theorem Derives.isChain {macros : String → Option String} {level : Level}
    {tokens : List Token} {v : Int64} (h : Derives macros level tokens v) :
    tokens.IsChain Token.Apart := by
  induction h with
  | group _ ih => simp [List.isChain_cons, List.isChain_append, ih, Token.Apart]
  | not _ ih => simp [List.isChain_cons, ih, Token.Apart]
  | negate _ ih => simp [List.isChain_cons, ih, Token.Apart]
  | operand _ _ ih => exact ih
  | binary _ _ ihleft ihright =>
      simp [List.isChain_append, List.isChain_cons, ihleft, ihright, Token.Apart]
  | _ => simp [List.isChain_cons, Token.Apart]

/-- A lexeme that begins with a digit is a number. -/
theorem exists_number_of_token? {lexeme : List Char} {token : Token}
    (h : token? lexeme = some token) (hdigit : BeginsWith Char.isDigit lexeme) :
    ∃ n, token = .number n := by
  obtain ⟨c, rest, rfl, hc⟩ := hdigit
  simp only [token?, if_pos hc] at h
  obtain ⟨n, -, rfl⟩ := Option.map_eq_some_iff.mp h
  exact ⟨n, rfl⟩

/-- A lexeme that begins like a name is one. -/
theorem eq_name_of_token? {lexeme : List Char} {token : Token}
    (h : token? lexeme = some token) (hname : BeginsWith isNameStart lexeme) :
    token = .name (String.ofList lexeme) := by
  obtain ⟨c, rest, rfl, hc⟩ := hname
  simp only [token?, isDigit_of_isNameStart hc, if_neg Bool.false_ne_true, if_pos hc] at h
  exact (Option.some.inj h).symm

/-- Only what begins like a name is a name. -/
theorem name_of_token? {lexeme : List Char} {name : String}
    (h : token? lexeme = some (.name name)) :
    BeginsWith isNameStart lexeme ∧ name = String.ofList lexeme := by
  unfold token? at h
  split at h
  · cases h
  · rename_i c rest
    split at h
    · obtain ⟨n, -, hn⟩ := Option.map_eq_some_iff.mp h
      cases hn
    · split at h
      · rename_i hc
        cases h
        exact ⟨⟨c, rest, rfl, hc⟩, rfl⟩
      · unfold symbol? at h
        split at h <;> cases h

/-- Lexemes whose tokens are apart are apart. -/
theorem isChain_of_mapM {lexemes : List (List Char)} {tokens : List Token}
    (h : lexemes.mapM token? = some tokens) (htokens : tokens.IsChain Token.Apart) :
    lexemes.IsChain Apart := by
  induction lexemes generalizing tokens with
  | nil => exact .nil
  | cons first rest ih =>
      obtain ⟨token, more, htoken, hmore, rfl⟩ := mapM_cons_eq_some h
      rw [List.isChain_cons] at htokens ⊢
      refine ⟨fun second hsecond hboth => ?_, ih hmore htokens.2⟩
      obtain ⟨more', rfl⟩ : ∃ more', rest = second :: more' := by
        cases rest with
        | nil => cases hsecond
        | cons c more' => exact ⟨more', by simpa using hsecond⟩
      obtain ⟨token', tokens', htoken', -, rfl⟩ := mapM_cons_eq_some hmore
      obtain ⟨n, rfl⟩ := exists_number_of_token? htoken hboth.1
      exact htokens.1 token' rfl ⟨n, _, rfl, eq_name_of_token? htoken' hboth.2⟩

/-- A text that is a condition mentions the names among its tokens. -/
theorem mentions_of_mem_tokens {macros : String → Option String} {level : Level}
    {text : List Char} {tokens : List Token} {v : Int64} (hlex : lex text = some tokens)
    (h : Derives macros level tokens v) {name : String} (hname : .name name ∈ tokens) :
    Mentions text name := by
  obtain ⟨lexeme, hmem, htoken⟩ := exists_of_mem_mapM hlex hname
  obtain ⟨hbegins, rfl⟩ := name_of_token? htoken
  exact (cuts_lexemes text).mentions (isChain_of_mapM hlex h.isChain) hmem hbegins

/-- A text that is a condition over some definitions is one over definitions that agree on
the names that it mentions, with the same value. -/
theorem Means.congr {macros macros' : String → Option String} {text : List Char} {v : Int64}
    (h : Means macros text v) (hmacros : ∀ name, Mentions text name → macros' name = macros name) :
    Means macros' text v := by
  obtain ⟨tokens, hlex, hderives⟩ := h
  exact ⟨tokens, hlex,
    hderives.congr fun name hname => hmacros name (mentions_of_mem_tokens hlex hderives hname)⟩

/-- Whether a condition holds depends on the definitions of the names that its text
mentions. -/
theorem holds?_congr {macros macros' : String → Option String} {text : List Char}
    (hmacros : ∀ name, Mentions text name → macros' name = macros name) :
    holds? macros' text = holds? macros text := by
  by_cases hmeans : ∃ v, Means macros text v
  · obtain ⟨v, hv⟩ := hmeans
    rw [hv.holds?_eq, (hv.congr hmacros).holds?_eq]
  · have hmeans' : ¬∃ v, Means macros' text v := fun ⟨v, hv⟩ =>
      hmeans ⟨v, hv.congr fun name hname => (hmacros name hname).symm⟩
    rw [Option.eq_none_iff_forall_ne_some.mpr fun b hb => hmeans (means_of_holds? hb),
      Option.eq_none_iff_forall_ne_some.mpr fun b hb => hmeans' (means_of_holds? hb)]

end Condition

/-! ## What directives ask for -/

namespace Directive

open Condition Text

/-- A directive asks whether a name is defined, or mentions it in its condition. -/
def Asks (directive : Directive) (name : String) : Prop :=
  match directive with
  | .ifDefined asked _ => name = asked
  | .condition expr | .otherwiseIf expr => Mentions expr.toList name
  | _ => False

/-- A comment at the end of an argument begins with a slash. -/
theorem exists_eq_beforeMark_append (s : List Char) :
    ∃ comment, s = beforeMark ['/', '/'] s ++ comment ∧
      ∀ c, comment.head? = some c → c = '/' := by
  cases hcomment : hasComment s with
  | false => exact ⟨[], by rw [beforeMark_of_not_hasComment hcomment, List.append_nil], nofun⟩
  | true =>
      obtain ⟨rest, heq, -⟩ := beforeMark_spec hcomment
      refine ⟨'/' :: '/' :: rest, heq, fun c hc => ?_⟩
      cases hc
      rfl

/-- The argument of a directive stands behind white space and in front of a character that
belongs to no name. -/
theorem exists_eq_append_argument (rest : List Char) :
    ∃ front after, rest = front ++ (argument rest ++ after) ∧
      (∀ c ∈ front, isBlank c = true) ∧ ∀ c, after.head? = some c → isNameRest c = false := by
  obtain ⟨front, back, hrest, hfront, hback⟩ := exists_eq_append_trim_append rest
  obtain ⟨comment, htrim, hcomment⟩ := exists_eq_beforeMark_append (trim rest)
  obtain ⟨gap, hmark, hgap⟩ := exists_eq_trimEnd_append (beforeMark ['/', '/'] (trim rest))
  refine ⟨front, gap ++ (comment ++ back), ?_, hfront, fun c hc => ?_⟩
  · calc rest = front ++ (trim rest ++ back) := hrest
      _ = front ++ (beforeMark ['/', '/'] (trim rest) ++ comment ++ back) := by rw [← htrim]
      _ = front ++ (argument rest ++ gap ++ comment ++ back) := by rw [argument, ← hmark]
      _ = front ++ (argument rest ++ (gap ++ (comment ++ back))) := by simp
  · rw [List.head?_append, List.head?_append] at hc
    cases hgaphead : gap.head? with
    | some d =>
        rw [hgaphead] at hc
        cases hc
        exact isNameRest_of_isBlank (hgap c (List.mem_of_head? hgaphead))
    | none =>
        cases hcommenthead : comment.head? with
        | some d =>
            rw [hgaphead, hcommenthead] at hc
            cases hc
            rw [hcomment c hcommenthead]
            decide
        | none =>
            rw [hgaphead, hcommenthead] at hc
            exact isNameRest_of_isBlank (hback c (List.mem_of_head? hc))

/-- A line with a directive mentions the names that the argument of the directive mentions:
the keyword in front of it does not go on with a name. -/
theorem mentions_of_argument {line rest : List Char} {name : String}
    (hline : trim line = '#' :: rest)
    (h : Mentions (argument ((trimStart rest).dropWhile isKeywordChar)) name) :
    Mentions line name := by
  obtain ⟨hne, before, after, harg, hpart⟩ := h
  obtain ⟨front, back, htrim, -, hback⟩ := exists_eq_append_trim_append line
  obtain ⟨gap, tail, htail, hgap, htailhead⟩ :=
    exists_eq_append_argument ((trimStart rest).dropWhile isKeywordChar)
  -- The line in front of the argument, up to the white space behind the keyword.
  let keyword := rest.takeWhile isBlank ++ (trimStart rest).takeWhile isKeywordChar
  have hrest : rest = keyword ++ (gap ++ (before ++ name.toList ++ after ++ tail)) := by
    rw [← harg, ← htail, List.append_assoc, List.takeWhile_append_dropWhile]
    exact (List.takeWhile_append_dropWhile ..).symm
  refine ⟨hne, front ++ ('#' :: keyword ++ gap) ++ before, after ++ (tail ++ back), ?_, ?_⟩
  · rw [htrim, hline]
    conv_lhs => rw [hrest]
    simp
  · refine (hpart.append_left fun hnil c hc => ?_).append_right fun c hc => ?_
    · -- The name would stand right behind the keyword if there were no white space.
      subst hnil
      cases hlast : gap.getLast? with
      | some d =>
          rw [List.getLast?_append, List.getLast?_append, hlast] at hc
          cases hc
          simpa using isNameRest_of_isBlank (hgap c (List.mem_of_getLast? hlast))
      | none =>
          rw [List.getLast?_eq_none_iff.mp hlast, harg] at htail
          obtain ⟨d, more, hname⟩ := List.exists_cons_of_ne_nil hne
          have hhead : ((trimStart rest).dropWhile isKeywordChar).head? = some d := by
            rw [htail, hname]
            rfl
          have hword := hpart.free d (by rw [hname]; exact List.mem_cons_self)
          rw [show isNameRest d = isKeywordChar d from rfl, head?_dropWhile hhead] at hword
          cases hword
    · rw [List.head?_append] at hc
      cases htailfirst : tail.head? with
      | some d =>
          rw [htailfirst] at hc
          cases hc
          simpa using htailhead c htailfirst
      | none =>
          rw [htailfirst] at hc
          simpa using isNameRest_of_isBlank (hback c (List.mem_of_head? hc))

/-- A directive asks only for names that its argument mentions. -/
theorem mentions_of_ofKeyword {keyword : String} {argument : List Char} {name : String}
    (hname : IsName name.toList) (h : (ofKeyword keyword argument).Asks name) :
    Mentions argument name := by
  have hself : name = String.ofList argument → Mentions argument name := by
    rintro rfl
    rw [String.toList_ofList] at hname
    refine ⟨by simpa using hname.ne_nil, [], [], by simp, ?_, nofun, nofun⟩
    intro c hc
    rw [String.toList_ofList] at hc
    simpa using hname.rest c hc
  unfold ofKeyword at h
  split at h
  · split at h <;> exact h.elim
  · exact h.elim
  · exact h.elim
  · exact hself h
  · exact hself h
  · rwa [Asks, String.toList_ofList] at h
  · rwa [Asks, String.toList_ofList] at h
  · exact h.elim
  · exact h.elim
  · exact h.elim

/-- A line whose directive asks for a name is no ordinary text and mentions the name. -/
theorem mentions_of_asks {line : List Char} {name : String} (hname : IsName name.toList)
    (h : (ofLine line).Asks name) : ofLine line ≠ .text ∧ Mentions line name := by
  constructor
  · intro htext
    rw [htext] at h
    exact h
  · unfold ofLine at h
    split at h
    · rename_i rest hline
      exact mentions_of_argument hline (mentions_of_ofKeyword hname h)
    · exact h.elim

end Directive

/-! ## Two runs -/

/-- Two states that differ at most in what irrelevant names are defined as. -/
structure AgreeOn (relevant : String → Prop) (s s' : PreprocessState) : Prop where
  macros : ∀ name, relevant name → s'.macros.find? name = s.macros.find? name
  stack : s'.stack = s.stack
  included : s'.included = s.included

/-- Two outcomes that are the same failure, or the same lines and states that differ at most
in what irrelevant names are defined as. -/
inductive SameOutcome (relevant : String → Prop) : PreprocessResult → PreprocessResult → Prop where
  | ok {emitted : List (List Char)} {s s' : PreprocessState} (h : AgreeOn relevant s s') :
      SameOutcome relevant (.ok (emitted, s)) (.ok (emitted, s'))
  | error (e : PreprocessError) : SameOutcome relevant (.error e) (.error e)

/-- Both outcomes are the failure, or both are lines with related states. -/
theorem SameOutcome.eq_or_eq {relevant : String → Prop} {r r' : PreprocessResult}
    (h : SameOutcome relevant r r') :
    (∃ e, r = .error e ∧ r' = .error e) ∨
      ∃ emitted s s', r = .ok (emitted, s) ∧ r' = .ok (emitted, s') ∧ AgreeOn relevant s s' := by
  cases h with
  | ok h => exact .inr ⟨_, _, _, rfl, rfl, h⟩
  | error e => exact .inl ⟨e, rfl, rfl⟩

namespace AgreeOn

variable {relevant : String → Prop} {s s' : PreprocessState}

/-- Such states are active alike. -/
theorem active (h : AgreeOn relevant s s') : s'.active = s.active := by
  rw [PreprocessState.active, PreprocessState.active, h.stack]

/-- Such states have the same conditions hold. -/
theorem evaluate (h : AgreeOn relevant s s') {text : String}
    (htext : ∀ name, Condition.Mentions text.toList name → relevant name) (number : Nat) :
    s'.evaluate number text = s.evaluate number text := by
  rw [PreprocessState.evaluate, PreprocessState.evaluate,
    Condition.holds?_congr fun name hname => h.macros name (htext name hname)]

/-- Such states stay so with the same change of their groups. -/
theorem setStack (h : AgreeOn relevant s s') (stack : List Frame) :
    AgreeOn relevant { s with stack := stack } { s' with stack := stack } :=
  ⟨h.macros, rfl, h.included⟩

/-- Such states stay so with the same path included. -/
theorem includes (h : AgreeOn relevant s s') (path : String) :
    AgreeOn relevant { s with included := path :: s.included }
      { s' with included := path :: s'.included } :=
  ⟨h.macros, h.stack, congrArg (path :: ·) h.included⟩

/-- Such states stay so with the same definition. -/
theorem define (h : AgreeOn relevant s s') (name value : String) :
    AgreeOn relevant { s with macros := s.macros.define name value }
      { s' with macros := s'.macros.define name value } := by
  refine ⟨fun other hother => ?_, h.stack, h.included⟩
  simp only [Macros.find?_define, h.macros other hother]

/-- Such states stay so with the same name forgotten. -/
theorem undefine (h : AgreeOn relevant s s') (name : String) :
    AgreeOn relevant { s with macros := s.macros.undefine name }
      { s' with macros := s'.macros.undefine name } := by
  refine ⟨fun other hother => ?_, h.stack, h.included⟩
  simp only [Macros.find?_undefine, h.macros other hother]

/-- Such states open a group alike. -/
theorem openGroup (h : AgreeOn relevant s s') (active taken : Bool) :
    AgreeOn relevant (s.openGroup active taken) (s'.openGroup active taken) := by
  rw [PreprocessState.openGroup, PreprocessState.openGroup, h.active, h.stack]
  exact h.setStack _

/-- A directive that asks for relevant names only does the same in such states. -/
theorem obey (h : AgreeOn relevant s s') {directive : Directive}
    (hasks : ∀ name, directive.Asks name → relevant name) (number : Nat) (line : List Char) :
    SameOutcome relevant (s.obey number line directive) (s'.obey number line directive) := by
  cases directive with
  | text =>
      simp only [PreprocessState.obey, PreprocessState.emit, h.active]
      exact .ok h
  | inclusion path => exact .ok h
  | malformedInclusion argument =>
      simp only [PreprocessState.obey, h.active]
      split
      · exact .error _
      · exact .ok h
  | define name value =>
      simp only [PreprocessState.obey, h.active]
      split
      · exact .ok (h.define name value)
      · exact .ok h
  | undefine name =>
      simp only [PreprocessState.obey, h.active]
      split
      · exact .ok (h.undefine name)
      · exact .ok h
  | ifDefined name expected =>
      simp only [PreprocessState.obey, Macros.isDefined, h.active, h.macros name (hasks name rfl)]
      exact .ok (h.openGroup _ _)
  | condition expr =>
      simp only [PreprocessState.obey, h.active, h.evaluate hasks number]
      split
      · cases s.evaluate number expr with
        | error e => exact .error e
        | ok holds => exact .ok (h.openGroup holds holds)
      · exact .ok (h.openGroup false false)
  | otherwiseIf expr =>
      simp only [PreprocessState.obey, h.stack, h.evaluate hasks number]
      split
      · exact .error _
      · split
        · cases s.evaluate number expr with
          | error e => exact .error e
          | ok holds => exact .ok (h.setStack _)
        · exact .ok (h.setStack _)
  | otherwise =>
      simp only [PreprocessState.obey, h.stack]
      split
      · exact .error _
      · exact .ok (h.setStack _)
  | endIf =>
      simp only [PreprocessState.obey, h.stack]
      split
      · exact .error _
      · exact .ok (h.setStack _)

end AgreeOn

/-- A first line that does the same goes before what does the same. -/
theorem SameOutcome.map {relevant : String → Prop} {r r' : PreprocessResult}
    (h : SameOutcome relevant r r') (emitted : List (List Char)) :
    SameOutcome relevant (r.map fun r => (emitted ++ r.1, r.2))
      (r'.map fun r => (emitted ++ r.1, r.2)) := by
  cases h with
  | ok h => exact .ok h
  | error e => exact .error e

namespace Preprocess

/-- The directives of a text ask for relevant names only. -/
def AsksOnly (relevant : String → Prop) (source : String) : Prop :=
  ∀ line ∈ Text.linesOf source, ∀ name, (Directive.ofLine line).Asks name → relevant name

section Processing

variable {relevant : String → Prop} {files : String → Option String}

/-- A line that asks for relevant names only does the same in related states, if every file
that is entered does. -/
theorem onLine_sameOutcome {enter : String → PreprocessState → PreprocessResult}
    (henter : ∀ path s s', AgreeOn relevant s s' →
      SameOutcome relevant (enter path s) (enter path s'))
    {line : List Char} (hline : ∀ name, (Directive.ofLine line).Asks name → relevant name)
    {s s' : PreprocessState} (h : AgreeOn relevant s s') (number : Nat) :
    SameOutcome relevant (onLine enter number line s) (onLine enter number line s') := by
  unfold onLine
  split
  · rename_i path hpath
    simp only [h.active, h.included]
    split
    · have hincludes := h.includes path
      rw [h.included] at hincludes
      exact henter path _ _ hincludes
    · exact .ok h
  · exact h.obey hline number line

/-- Lines that ask for relevant names only do the same in related states, if every file that
is entered does. -/
theorem onLines_sameOutcome {enter : String → PreprocessState → PreprocessResult}
    (henter : ∀ path s s', AgreeOn relevant s s' →
      SameOutcome relevant (enter path s) (enter path s'))
    {lines : List (List Char)}
    (hlines : ∀ line ∈ lines, ∀ name, (Directive.ofLine line).Asks name → relevant name)
    {s s' : PreprocessState} (h : AgreeOn relevant s s') (number : Nat) :
    SameOutcome relevant (onLines enter number lines s) (onLines enter number lines s') := by
  induction lines generalizing number s s' with
  | nil => exact .ok h
  | cons line rest ih =>
      rw [List.forall_mem_cons] at hlines
      rcases (onLine_sameOutcome henter hlines.1 h number).eq_or_eq with
        ⟨e, hresult, hresult'⟩ | ⟨emitted, s₁, s₁', hresult, hresult', hagree⟩
      · rw [onLines_cons_error hresult, onLines_cons_error hresult']
        exact .error e
      · rw [onLines_cons_ok hresult, onLines_cons_ok hresult']
        exact (ih hlines.2 hagree (number + 1)).map emitted

/-- A file does the same in related states, if all files ask for relevant names only. -/
theorem enter_sameOutcome
    (hfiles : ∀ path text, files path = some text → AsksOnly relevant text)
    (budget : Nat) (path : String) {s s' : PreprocessState} (h : AgreeOn relevant s s') :
    SameOutcome relevant (enter files budget path s) (enter files budget path s') := by
  induction budget generalizing path s s' with
  | zero => exact .error _
  | succ budget ih =>
      rw [enter, enter]
      split
      · exact .error _
      · rename_i text hfile
        exact onLines_sameOutcome (fun path _ _ => ih path) (hfiles path text hfile) h 1

/-- A run depends on the definitions of the names that its directives ask for: the same over
all definitions that agree on them. -/
theorem run_congr {macros macros' : Macros} {source : String} (hsource : AsksOnly relevant source)
    (hfiles : ∀ path text, files path = some text → AsksOnly relevant text)
    (hmacros : ∀ name, relevant name → macros'.find? name = macros.find? name) :
    run files macros' source = run files macros source := by
  have hagree : AgreeOn relevant ⟨macros, [], []⟩ ⟨macros', [], []⟩ := ⟨hmacros, rfl, rfl⟩
  have hlines := onLines_sameOutcome (fun path _ _ => enter_sameOutcome hfiles maxDepth path)
    hsource hagree 1
  rcases hlines.eq_or_eq with ⟨e, hresult, hresult'⟩ | ⟨_, _, _, hresult, hresult', hfinal⟩
  · rw [run_of_error hresult, run_of_error hresult']
  · rw [run_of_ok hresult, run_of_ok hresult', hfinal.stack]

end Processing

/-! ## A name that no directive mentions -/

/-- Some directive of a text mentions a name. -/
def MentionedIn (source : String) (name : String) : Prop :=
  ∃ line ∈ Text.linesOf source, Directive.ofLine line ≠ .text ∧ Condition.Mentions line name

instance (source name : String) : Decidable (MentionedIn source name) :=
  List.decidableBEx _ _

/-- A text whose directives do not mention a name asks for other names only. -/
theorem asksOnly_of_not_mentionedIn {source name : String}
    (hname : Condition.IsName name.toList) (h : ¬MentionedIn source name) :
    AsksOnly (· ≠ name) source := by
  rintro line hmem other hasks rfl
  exact h ⟨line, hmem, Directive.mentions_of_asks hname hasks⟩

/-- If no directive of a source or of any file mentions a name, a run is the same whatever the
name is defined as, and the same if it is not defined. -/
theorem run_define_irrelevant {files : String → Option String} {source name : String}
    (hname : Condition.IsName name.toList) (hsource : ¬MentionedIn source name)
    (hfiles : ∀ path text, files path = some text → ¬MentionedIn text name)
    (macros : Macros) (value : String) :
    run files (macros.define name value) source = run files macros source ∧
      run files (macros.undefine name) source = run files macros source := by
  have hsource' := asksOnly_of_not_mentionedIn hname hsource
  have hfiles' := fun path text hfile => asksOnly_of_not_mentionedIn hname (hfiles path text hfile)
  constructor
  · refine run_congr hsource' hfiles' fun other hother => ?_
    rw [Macros.find?_define, if_neg hother]
  · refine run_congr hsource' hfiles' fun other hother => ?_
    rw [Macros.find?_undefine, if_neg hother]

/-- A file with {lit}`_FOG` in an ordinary line, and in a definition as a part of a word. -/
def fogFiles (path : String) : Option String :=
  if path = "fog.h" then some "#if FOG_LEVEL > 1\n_FOG\n#endif\n#define FOGGY 1_FOG\n" else none

/-- A source in which {lit}`_FOG` is a lexeme of a malformed condition, but no word of a
directive. -/
def fogSource : String :=
  "#include <fog.h>\n#pragma _FOG\n#if FOGGY\nfog();\n#elif 1_FOG\n#endif\n"

/-- The same failure with {lit}`_FOG` defined. -/
theorem run_define_irrelevant_sample :
    ¬MentionedIn fogSource "_FOG" ∧
      run fogFiles [("FOG_LEVEL", "2")] fogSource = .error (.badExpression 5 "1_FOG") ∧
      run fogFiles (Macros.define [("FOG_LEVEL", "2")] "_FOG" "7") fogSource =
        .error (.badExpression 5 "1_FOG") := by
  have hname : Condition.IsName "_FOG".toList := ⟨⟨'_', _, rfl, by decide⟩, by decide⟩
  have hsource : ¬MentionedIn fogSource "_FOG" := by decide +kernel
  have hfiles : ∀ path text, fogFiles path = some text → ¬MentionedIn text "_FOG" := by
    intro path text hfile
    unfold fogFiles at hfile
    split at hfile
    · cases hfile
      decide +kernel
    · cases hfile
  have hrun : run fogFiles [("FOG_LEVEL", "2")] fogSource = .error (.badExpression 5 "1_FOG") := by
    rfl
  obtain ⟨hdefined, -⟩ := run_define_irrelevant hname hsource hfiles [("FOG_LEVEL", "2")] "7"
  exact ⟨hsource, hrun, hdefined.trans hrun⟩

end Preprocess
end ShaderAssets
