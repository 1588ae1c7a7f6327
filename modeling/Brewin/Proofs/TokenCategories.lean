import Mathlib.Tactic.ByContra
import Brewin.Proofs.LeadingKeyword
import Brewin.Proofs.WrappedArithmetic

namespace Brewin

section Words

variable {token : String}

theorem classify_eq_builtin_iff {b : Builtin} :
    classify token = .builtin b ↔ Builtin.ofName? token = some b := by
  unfold Builtin.ofName?
  constructor
  · intro h
    have hword : reserved? token = some (.builtin b) := fits_of_classify h
    rw [hword]
  · intro h
    split at h
    next b' hb =>
      cases h
      exact classify_of_reserved? hb
    next => cases h

theorem exists_kind_iff :
    (∃ k, Kind.ofName? token = some k) ↔ ∃ t, classify token = .typeName t := by
  unfold Kind.ofName?
  constructor
  · rintro ⟨k, h⟩
    split at h
    next t ht => exact ⟨t, classify_of_reserved? ht⟩
    next => cases h
  · rintro ⟨t, h⟩
    have hword : reserved? token = some (.typeName t) := fits_of_classify h
    rw [hword]
    exact ⟨_, rfl⟩

theorem classify_eq_operator_iff {op : Operator} :
    classify token = .operator op ↔ Operator.ofSpelling? token = some op := by
  rw [Operator.ofSpelling?_eq_some_iff]
  refine ⟨fits_of_classify, ?_⟩
  rintro rfl
  cases op <;> decide

theorem isBuiltin_iff_category :
    isBuiltin token = true ↔ (classify token).category = .builtin := by
  have hclass : (classify token).category = .builtin ↔ ∃ b, classify token = .builtin b := by
    cases classify token <;> simp [TokenClass.category]
  rw [hclass, isBuiltin, Option.isSome_iff_exists]
  exact exists_congr fun b => classify_eq_builtin_iff.symm

theorem isOperator_iff_category :
    isOperator token = true ↔ (classify token).category = .operator := by
  have hclass : (classify token).category = .operator ↔ ∃ op, classify token = .operator op := by
    cases classify token <;> simp [TokenClass.category]
  rw [hclass, isOperator, Option.isSome_iff_exists]
  exact exists_congr fun op => classify_eq_operator_iff.symm

theorem kind_iff_category :
    (∃ k, Kind.ofName? token = some k) ↔ (classify token).category = .type := by
  rw [exists_kind_iff]
  cases classify token <;> simp [TokenClass.category]

end Words

section Literals

variable {token : String}

theorem isBoolLiteral_iff : isBoolLiteral token = true ↔ token = "True" ∨ token = "False" := by
  simp [isBoolLiteral]

/-- Reserved words are written without quotes and digits. -/
theorem reserved_not_literal : ∀ c ∈ TokenClass.reserved,
    isStringLiteral c.name = false ∧ isIntLiteral c.name = false := by
  decide

theorem spelling_not_literal (op : Operator) :
    isStringLiteral op.spelling = false ∧ isIntLiteral op.spelling = false := by
  cases op <;> decide

/-- Texts and numbers are found by their own tests, for the tests in front of these fail. -/
theorem classify_of_literal (h : isStringLiteral token = true ∨ isIntLiteral token = true) :
    classify token = if isStringLiteral token then .text else .number := by
  have hnot : ¬ (isStringLiteral token = false ∧ isIntLiteral token = false) := by
    rintro ⟨hstring, hint⟩
    simp [hstring, hint] at h
  fun_cases classify token with
  | case1 hempty =>
    subst hempty
    exact absurd (by decide) hnot
  | case2 _ c hc =>
    have hplain := reserved_not_literal c (mem_reserved_of_reserved? hc)
    rw [name_of_reserved? hc] at hplain
    exact absurd hplain hnot
  | case3 _ _ op hop =>
    have hplain := spelling_not_literal op
    rw [Operator.ofSpelling?_eq_some_iff.mp hop] at hplain
    exact absurd hplain hnot
  | case4 _ _ _ hstring => rw [if_pos hstring]
  | case5 _ _ _ hstring hint => rw [if_neg hstring]
  | case6 _ _ _ hstring hint => exact absurd ⟨by simpa using hstring, by simpa using hint⟩ hnot
  | case7 _ _ _ hstring hint => exact absurd ⟨by simpa using hstring, by simpa using hint⟩ hnot

theorem isLiteral_iff_category : IsLiteral token ↔ (classify token).category = .literal := by
  constructor
  · have hmarked : isStringLiteral token = true ∨ isIntLiteral token = true →
        (classify token).category = .literal := by
      intro h
      rw [classify_of_literal h]
      split <;> rfl
    rintro (hstring | hint | hbool)
    · exact hmarked (.inl hstring)
    · exact hmarked (.inr hint)
    · rcases isBoolLiteral_iff.mp hbool with rfl | rfl <;> decide
  · intro h
    cases hc : classify token with
    | number => exact .inr (.inl (fits_of_classify hc))
    | text => exact .inl (fits_of_classify hc)
    | truth b =>
      have hword : reserved? token = some (.truth b) := fits_of_classify hc
      have hname := name_of_reserved? hword
      refine .inr (.inr (isBoolLiteral_iff.mpr ?_))
      cases b with
      | true => exact .inl hname.symm
      | false => exact .inr hname.symm
    | endOfLine | keyword | builtin | typeName | identifier | operator | illegal =>
      rw [hc] at h
      cases h

theorem isLiteral_iff_readLiteral : IsLiteral token ↔ readLiteral token ≠ .notLiteral := by
  constructor
  · intro h
    rw [IsLiteral, isBoolLiteral_iff] at h
    unfold readLiteral
    (repeat' split) <;> simp_all
  · intro h
    by_contra hnot
    exact h (readLiteral_of_not_isLiteral hnot)

/-- No token is a literal in two ways. -/
theorem isLiteral_iff_count : IsLiteral token ↔
    [isStringLiteral token, isIntLiteral token, isBoolLiteral token].count true = 1 := by
  have hint : isIntLiteral token = true → isStringLiteral token = false :=
    isStringLiteral_of_isIntLiteral
  have hbool : isBoolLiteral token = true →
      isStringLiteral token = false ∧ isIntLiteral token = false := by
    intro h
    rcases isBoolLiteral_iff.mp h with rfl | rfl <;> decide
  unfold IsLiteral
  generalize isStringLiteral token = s at *
  generalize isIntLiteral token = i at *
  generalize isBoolLiteral token = b at *
  revert s i b
  decide

end Literals

section Statements

variable {tokens : List String}

/-- The statements of a keyword are those that it makes with the tokens behind it. -/
theorem keyword?_eq_some_iff {s : Statement} {k : Keyword} :
    s.keyword? = some k ↔ ∃ args, s = .ofKeyword k args := by
  constructor
  · intro h
    cases s with
    | func name => cases h; exact ⟨[name], rfl⟩
    | var type names => cases h; exact ⟨type :: names, rfl⟩
    | assign target expr => cases h; exact ⟨target :: expr, rfl⟩
    | call name args => cases h; exact ⟨name :: args, rfl⟩
    | ifThen args | whileDo args | ret args => cases h; exact ⟨args, rfl⟩
    | endFunc | orElse | endIf | endWhile => cases h; exact ⟨[], rfl⟩
    | nop => cases h
    | malformed omission => cases omission <;> cases h <;> exact ⟨[], rfl⟩
  · rintro ⟨args, rfl⟩
    exact keyword?_ofKeyword k args

theorem decode_eq_ofKeyword_iff {k : Keyword} :
    (∃ args, Statement.decode tokens = .ofKeyword k args) ↔ leadingClass tokens = .keyword k := by
  rw [← keyword?_eq_some_iff, keyword?_decode]

theorem decode_of_leadingClass {first : String} {args : List String} {k : Keyword}
    (h : leadingClass (first :: args) = .keyword k) :
    Statement.decode (first :: args) = .ofKeyword k args := by
  have hword : reserved? first = some (.keyword k) := classify_eq_keyword_iff.mp h
  simp [Statement.decode, hword]

theorem decode_eq_func_iff {name : String} : Statement.decode tokens = .func name ↔
    2 ≤ tokens.length ∧ leadingClass tokens = .keyword .func ∧ tokens[1]? = some name := by
  constructor
  · intro h
    have hclass : leadingClass tokens = .keyword .func :=
      decode_eq_ofKeyword_iff.mp ⟨[name], h⟩
    match tokens with
    | [] => cases h
    | [first] =>
      rw [decode_of_leadingClass hclass] at h
      cases h
    | first :: second :: rest =>
      rw [decode_of_leadingClass hclass] at h
      cases h
      exact ⟨by simp, hclass, rfl⟩
  · rintro ⟨hlength, hclass, hname⟩
    match tokens with
    | [] => simp at hlength
    | [first] => simp at hlength
    | first :: second :: rest =>
      rw [decode_of_leadingClass hclass]
      cases hname
      rfl

/-- To store a line that defines a function is to insert this function, whatever was stored. -/
theorem decode_eq_func_iff_insertLine {name : String} (line : Nat) :
    Statement.decode tokens = .func name ↔
      ∃ f : Definition, f.name = name ∧ f.line = line ∧
        ∀ t : FunctionTable, t.insertLine (tokens, line) = t.insert f := by
  have hread : (∃ f, Definition.ofTokens? line tokens = some f ∧ f.name = name) ↔
      Statement.decode tokens = .func name := ofTokens?_isSome_iff
  rw [← hread]
  constructor
  · rintro ⟨f, hf, hname⟩
    refine ⟨f, hname, ofTokens?_line hf, fun t => ?_⟩
    simp [FunctionTable.insertLine, hf]
  · rintro ⟨f, hname, -, hstored⟩
    have hempty := hstored {}
    unfold FunctionTable.insertLine at hempty
    cases hg : Definition.ofTokens? line tokens with
    | none => simp [hg, FunctionTable.insert] at hempty
    | some g =>
      have hsame : g = f := by simpa [hg, FunctionTable.insert] using hempty
      exact ⟨g, rfl, by rw [hsame, hname]⟩

/-- Takes in the current line by its statement. -/
def Matching.follow (m : Matching) (s : Statement) : Matching :=
  match s.keyword? with
  | some k => { m.visit (.keyword k) with line := m.line + 1 }
  | none => { m with line := m.line + 1 }

theorem Matching.advance_eq_follow (m : Matching) (tokens : List String) :
    m.advance tokens = m.follow (Statement.decode tokens) := by
  unfold advance follow
  cases hk : (Statement.decode tokens).keyword? with
  | some k => rw [keyword?_decode.mp hk]
  | none =>
    -- Only a keyword makes the matching act, and the line would decode to its statement.
    have hclass : ∀ k, leadingClass tokens ≠ .keyword k := by
      intro k h
      rw [keyword?_decode.mpr h] at hk
      cases hk
    cases hc : leadingClass tokens with
    | keyword k => exact absurd hc (hclass k)
    | endOfLine | builtin | typeName | identifier | number | text | truth | operator | illegal =>
      rfl

/-- Matches the blocks of a program by its statements. -/
def Flow.ofStatements (statements : List Statement) : Flow :=
  (statements.foldl Matching.follow {}).flow

theorem Flow.resolve_eq_ofStatements (stream : List (List String)) :
    Flow.resolve stream = Flow.ofStatements (stream.map Statement.decode) := by
  have hstep : Matching.advance = fun m tokens => m.follow (Statement.decode tokens) := by
    funext m tokens
    exact m.advance_eq_follow tokens
  rw [resolve, ofStatements, List.foldl_map, hstep]

end Statements

/-- Every test of a token agrees with its class, and a line is matched and stored as the statement
that it decodes to. -/
theorem classifiers_agree :
    (∀ token,
      (readLiteral token ≠ .notLiteral ↔ (classify token).category = .literal) ∧
      ((classify token).category = .literal ↔
        [isStringLiteral token, isIntLiteral token, isBoolLiteral token].count true = 1) ∧
      (isOperator token = true ↔ (classify token).category = .operator) ∧
      (isBuiltin token = true ↔ (classify token).category = .builtin) ∧
      ((∃ k, Kind.ofName? token = some k) ↔ (classify token).category = .type)) ∧
    (∀ tokens,
      ((∃ cond, Statement.decode tokens = .ifThen cond) ↔
        leadingClass tokens = .keyword .ifThen) ∧
      (Statement.decode tokens = .orElse ↔ leadingClass tokens = .keyword .orElse) ∧
      (Statement.decode tokens = .endIf ↔ leadingClass tokens = .keyword .endIf) ∧
      ((∃ cond, Statement.decode tokens = .whileDo cond) ↔
        leadingClass tokens = .keyword .whileDo) ∧
      (Statement.decode tokens = .endWhile ↔ leadingClass tokens = .keyword .endWhile)) ∧
    (∀ stream, Flow.resolve stream = Flow.ofStatements (stream.map Statement.decode)) ∧
    ∀ tokens name,
      (Statement.decode tokens = .func name ↔
        2 ≤ tokens.length ∧ leadingClass tokens = .keyword .func ∧ tokens[1]? = some name) ∧
      ∀ line, Statement.decode tokens = .func name ↔
        ∃ f : Definition, f.name = name ∧ f.line = line ∧
          ∀ t : FunctionTable, t.insertLine (tokens, line) = t.insert f := by
  refine ⟨fun token => ?_, fun tokens => ?_, Flow.resolve_eq_ofStatements, fun tokens name => ?_⟩
  · exact ⟨isLiteral_iff_readLiteral.symm.trans isLiteral_iff_category,
      isLiteral_iff_category.symm.trans isLiteral_iff_count, isOperator_iff_category,
      isBuiltin_iff_category, kind_iff_category⟩
  · have hblock : ∀ k, (∃ args, Statement.decode tokens = .ofKeyword k args) ↔
        leadingClass tokens = .keyword k := fun k => decode_eq_ofKeyword_iff
    have hbare : ∀ {s : Statement}, Statement.decode tokens = s ↔
        ∃ _ : List String, Statement.decode tokens = s := fun {s} => (exists_const _).symm
    exact ⟨hblock .ifThen, hbare.trans (hblock .orElse), hbare.trans (hblock .endIf),
      hblock .whileDo, hbare.trans (hblock .endWhile)⟩
  · exact ⟨decode_eq_func_iff, decode_eq_func_iff_insertLine⟩

end Brewin
