import Brewin.Program

namespace Brewin

/-- The keyword that a statement's line starts with. -/
def Statement.keyword? : Statement → Option Keyword
  | func _ => some .func
  | endFunc => some .endFunc
  | var _ _ => some .var
  | assign _ _ => some .assign
  | call _ _ => some .funcCall
  | ifThen _ => some .ifThen
  | orElse => some .orElse
  | endIf => some .endIf
  | whileDo _ => some .whileDo
  | endWhile => some .endWhile
  | ret _ => some .ret
  | nop => none
  | malformed omission => some omission.keyword

theorem keyword?_ofKeyword (k : Keyword) (args : List String) :
    (Statement.ofKeyword k args).keyword? = some k := by
  cases k <;> cases args <;> rfl

/-- The test that a token has passed when it is given a class. -/
def TokenClass.Fits (token : String) : TokenClass → Prop
  | endOfLine => token = ""
  | identifier => isIdentifier token = true
  | number => isIntLiteral token = true
  | text => isStringLiteral token = true
  | operator op => op.spelling = token
  | illegal => isIdentifier token = false
  | c => reserved? token = some c

theorem mem_reserved_of_reserved? {word : String} {c : TokenClass} (h : reserved? word = some c) :
    c ∈ TokenClass.reserved :=
  List.mem_of_find?_eq_some h

theorem fits_of_classify {token : String} {c : TokenClass} (h : classify token = c) :
    c.Fits token := by
  subst h
  fun_cases classify token with
  | case1 h => exact h
  | case2 _ c hc =>
    have hmem := mem_reserved_of_reserved? hc
    cases c with
    | keyword | builtin | typeName | truth => exact hc
    | endOfLine | identifier | number | text | operator | illegal =>
      simp [TokenClass.reserved] at hmem
  | case3 _ _ op hop => exact Operator.ofSpelling?_eq_some_iff.mp hop
  | case4 _ _ _ h => exact h
  | case5 _ _ _ _ h => exact h
  | case6 _ _ _ _ _ h => exact h
  | case7 _ _ _ _ _ h => exact Bool.eq_false_iff.mpr h

theorem classify_of_reserved? {token : String} {c : TokenClass} (h : reserved? token = some c) :
    classify token = c := by
  have hne : token ≠ "" := by
    rintro rfl
    have hnone : reserved? "" = none := by decide
    rw [hnone] at h
    cases h
  simp [classify, hne, h]

theorem classify_eq_keyword_iff {token : String} {k : Keyword} :
    classify token = .keyword k ↔ reserved? token = some (.keyword k) :=
  ⟨fits_of_classify, classify_of_reserved?⟩

theorem reserved?_spelling (k : Keyword) : reserved? k.spelling = some (.keyword k) := by
  cases k <;> decide

/-- A keyword is told by its spelling. -/
theorem leadingClass_eq_keyword_iff {tokens : List String} {k : Keyword} :
    leadingClass tokens = .keyword k ↔ tokens.head? = some k.spelling := by
  cases tokens with
  | nil => simp [leadingClass]
  | cons first args =>
    rw [leadingClass, classify_eq_keyword_iff, List.head?_cons, Option.some.injEq]
    constructor
    · intro h
      exact (name_of_reserved? h).symm
    · rintro rfl
      exact reserved?_spelling k

/-- Decoding and matching go by the same word: the one that the line starts with. -/
theorem keyword?_decode {tokens : List String} {k : Keyword} :
    (Statement.decode tokens).keyword? = some k ↔ leadingClass tokens = .keyword k := by
  cases tokens with
  | nil => simp [Statement.decode, Statement.keyword?, leadingClass]
  | cons first args =>
    simp only [leadingClass, classify_eq_keyword_iff, Statement.decode]
    split
    next other hk => simp [keyword?_ofKeyword, hk]
    next hn =>
      constructor
      · intro h
        simp [Statement.keyword?] at h
      · intro h
        exact absurd h (hn k)

/-- A line is read as a definition exactly if it decodes to a func statement. -/
theorem ofTokens?_isSome_iff {line : Nat} {tokens : List String} {name : String} :
    (∃ f, Definition.ofTokens? line tokens = some f ∧ f.name = name) ↔
      Statement.decode tokens = .func name := by
  cases tokens with
  | nil => simp [Definition.ofTokens?, Statement.decode]
  | cons first args =>
    cases args with
    | nil =>
      simp only [Definition.ofTokens?, Statement.decode]
      constructor
      · simp
      · intro h
        split at h
        next k hk => cases k <;> simp [Statement.ofKeyword] at h
        next => simp at h
    | cons second rest =>
      simp only [Definition.ofTokens?, classify_eq_keyword_iff, Statement.decode]
      constructor
      · rintro ⟨f, hf, rfl⟩
        split at hf
        next hk =>
          cases Option.some.inj hf
          simp [hk, Statement.ofKeyword]
        next => simp at hf
      · intro h
        split at h
        next k hk =>
          cases k <;> simp only [Statement.ofKeyword, Statement.func.injEq, reduceCtorEq] at h
          exact ⟨⟨second, line, rest.dropLast.map Param.ofToken, rest.getLast?.getD ""⟩,
            by simp [hk], h⟩
        next => simp at h

theorem ofTokens?_line {line : Nat} {tokens : List String} {f : Definition}
    (h : Definition.ofTokens? line tokens = some f) : f.line = line := by
  unfold Definition.ofTokens? at h
  split at h
  next =>
    split at h
    next => cases Option.some.inj h; rfl
    next => simp at h
  next => simp at h

end Brewin
