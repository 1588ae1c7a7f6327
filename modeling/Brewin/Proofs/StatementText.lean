import Mathlib.Data.List.DropRight
import Brewin.Proofs.UniqueLayout

namespace Brewin

open Statement

/-- A token that can stand anywhere in a line: nothing in it ends it, and its quotes are closed. -/
structure WholeToken (token : String) : Prop where
  nonempty : token.toList ≠ []
  unbroken : Unbroken token.toList
  even : token.toList.count '"' % 2 = 0

theorem wholeToken_of_mem_tokenize {line token : String} (hm : token ∈ tokenize line)
    (heven : token.toList.count '"' % 2 = 0) : WholeToken token := by
  obtain ⟨d, hd, hchars⟩ := Layout.exists_lexical line.toList
  rw [tokenize_of_lexical hd hchars] at hm
  obtain ⟨p, hp, rfl⟩ := List.mem_map.mp hm
  have hne := hd.nonempty p hp
  have hunbroken := hd.unbroken p hp
  rw [← String.toList_ofList (l := p.token)] at hne hunbroken
  exact ⟨hne, hunbroken, heven⟩

theorem wholeToken_nop : WholeToken "nop" := by
  have hm : "nop" ∈ tokenize "nop" := by decide +kernel
  exact wholeToken_of_mem_tokenize hm (by decide)

namespace Layout

/-- Every token with one space behind it. -/
def ofTokens (tokens : List String) : Layout :=
  ⟨[], tokens.map fun token => ⟨token.toList, [' ']⟩, []⟩

theorem lexical_ofTokens {tokens : List String} (h : ∀ token ∈ tokens, WholeToken token) :
    (ofTokens tokens).Lexical := by
  have hpiece : ∀ p ∈ (ofTokens tokens).pieces, p.gap = [' '] ∧ p.token ≠ [] ∧
      Unbroken p.token ∧ p.token.count '"' % 2 = 0 := by
    intro p hp
    obtain ⟨token, hm, rfl⟩ := List.mem_map.mp hp
    have hwhole := h token hm
    exact ⟨rfl, hwhole.nonempty, hwhole.unbroken, hwhole.even⟩
  have hinit : ∀ p ∈ (ofTokens tokens).pieces.dropLast, p ∈ (ofTokens tokens).pieces :=
    fun p hp => List.dropLast_subset _ hp
  refine ⟨by simp [ofTokens], ?_, ?_, by simp [ofTokens], ?_, ?_, ?_, ?_⟩
  · intro p hp c hc
    rw [(hpiece p hp).1] at hc
    cases List.mem_singleton.mp hc
    exact Or.inl rfl
  · intro p hp
    rw [(hpiece p (hinit p hp)).1]
    simp
  · intro p hp
    exact (hpiece p hp).2.1
  · intro p hp
    exact (hpiece p hp).2.2.1
  · intro p hp
    exact (hpiece p (hinit p hp)).2.2.2
  · intro p hp hodd
    have heven := (hpiece p (List.mem_of_getLast? hp)).2.2.2
    omega

theorem tokens_ofTokens (tokens : List String) : (ofTokens tokens).tokens = tokens := by
  simp [ofTokens, Layout.tokens, List.map_map, Function.comp_def]

theorem chars_ofTokens {tokens : List String} (hne : tokens ≠ []) :
    (ofTokens tokens).chars = (spaced tokens ++ " ").toList := by
  induction tokens with
  | nil => exact absurd rfl hne
  | cons token rest ih =>
    cases rest with
    | nil => simp [ofTokens, chars, body, spaced]
    | cons next rest =>
      have hcons : (ofTokens (token :: next :: rest)).chars =
          token.toList ++ ' ' :: (ofTokens (next :: rest)).chars := by
        simp [ofTokens, chars, body]
      rw [hcons, ih (by simp), spaced, spaced, String.intercalate_cons_cons]
      simp

end Layout

/-- The text has one space between the parts, and perhaps one at its end. -/
def IsSpaced (text : String) (parts : List String) : Prop :=
  text = spaced parts ∨ text = spaced parts ++ " "

theorem IsSpaced.tokenize_eq {text : String} {parts : List String} (h : IsSpaced text parts)
    (hwhole : ∀ part ∈ parts, WholeToken part) (hne : parts ≠ []) : tokenize text = parts := by
  have hbehind : tokenize (spaced parts ++ " ") = parts := by
    rw [tokenize_of_lexical (Layout.lexical_ofTokens hwhole) (Layout.chars_ofTokens hne),
      Layout.tokens_ofTokens]
  rcases h with rfl | rfl
  · have hbetween := tokenize_spaced_tokens (spaced parts ++ " ")
    rwa [hbehind] at hbetween
  · exact hbehind

theorem isSpaced_single (part : String) : IsSpaced part [part] :=
  Or.inl String.intercalate_singleton.symm

theorem isSpaced_pair (word part : String) : IsSpaced (word ++ " " ++ part) [word, part] := by
  left
  rw [spaced, String.intercalate_cons_cons, String.intercalate_singleton]

/-- Where no more parts follow, the space in front of them stands at the end. -/
theorem isSpaced_append {parts : List String} (hne : parts ≠ []) (more : List String) :
    IsSpaced (spaced parts ++ " " ++ spaced more) (parts ++ more) := by
  cases more with
  | nil =>
    right
    simp [spaced]
  | cons part more =>
    left
    exact (String.intercalate_append_of_ne_nil hne (by simp)).symm

theorem isSpaced_cons (word : String) (more : List String) :
    IsSpaced (word ++ " " ++ spaced more) (word :: more) := by
  have h := isSpaced_append (List.cons_ne_nil word []) more
  rwa [spaced, String.intercalate_singleton] at h

theorem isSpaced_cons_cons (word part : String) (more : List String) :
    IsSpaced (word ++ " " ++ part ++ " " ++ spaced more) (word :: part :: more) := by
  have h := isSpaced_append (List.cons_ne_nil word [part]) more
  rwa [spaced, String.intercalate_cons_cons, String.intercalate_singleton] at h

section

variable {parts : List String} {part : String} {c : Char}

theorem head_spaced (hhead : parts.head? = some part) (hc : part.toList.head? = some c) :
    (spaced parts).toList.head? = some c := by
  obtain ⟨rest, rfl⟩ := List.head?_eq_some_iff.mp hhead
  cases rest with
  | nil => rwa [spaced, String.intercalate_singleton]
  | cons next rest =>
    rw [spaced, String.intercalate_cons_cons, String.append_assoc, String.toList_append,
      List.head?_append, hc]
    rfl

theorem last_spaced (hlast : parts.getLast? = some part) (hc : part.toList.getLast? = some c) :
    (spaced parts).toList.getLast? = some c := by
  obtain ⟨front, rfl⟩ := List.getLast?_eq_some_iff.mp hlast
  by_cases hfront : front = []
  · rwa [hfront, spaced, List.nil_append, String.intercalate_singleton]
  · rw [spaced, String.intercalate_append_of_ne_nil hfront (by simp),
      String.intercalate_singleton, String.toList_append, List.getLast?_append, hc]
    rfl

end

/-- Trimming keeps a text without blanks at its ends, and takes off a space behind it. -/
theorem trim_of_ends {text : String} {first last : Char} (hfirst : text.toList.head? = some first)
    (hlast : text.toList.getLast? = some last) (hbfirst : isBlank first = false)
    (hblast : isBlank last = false) : trim text = text ∧ trim (text ++ " ") = text := by
  have hend : text.toList.rdropWhile isBlank = text.toList := by
    rw [List.rdropWhile_eq_self_iff]
    intro hne
    rw [List.getLast?_eq_getLast_of_ne_nil hne, Option.some_inj] at hlast
    simp [hlast, hblast]
  have hstart : ∀ more, (text.toList ++ more).dropWhile isBlank = text.toList ++ more := by
    intro more
    obtain ⟨rest, htext⟩ := List.head?_eq_some_iff.mp hfirst
    simp [htext, hbfirst]
  constructor
  · have hkeep := hstart []
    rw [List.append_nil] at hkeep
    rw [trim, hkeep]
    show String.ofList (text.toList.rdropWhile isBlank) = text
    rw [hend, String.ofList_toList]
  · rw [trim, String.toList_append, hstart]
    show String.ofList ((text.toList ++ [' ']).rdropWhile isBlank) = text
    rw [List.rdropWhile_concat_pos _ _ _ (by decide), hend, String.ofList_toList]

/-- The last token does not end in a blank. -/
def EndsBare (tokens : List String) : Prop :=
  ∀ last, tokens.getLast? = some last → ∀ c, last.toList.getLast? = some c → isBlank c = false

theorem IsSpaced.trimmed {text first : String} {rest : List String} {a : Char}
    (h : IsSpaced text (first :: rest)) (ha : first.toList.head? = some a)
    (hb : isBlank a = false) (hwhole : ∀ part ∈ first :: rest, WholeToken part)
    (hends : EndsBare (first :: rest)) : IsSpaced (trim text) (first :: rest) := by
  have hlast : (first :: rest).getLast? = some ((first :: rest).getLast (by simp)) :=
    List.getLast?_eq_some_getLast (by simp)
  have hne := (hwhole _ (List.mem_of_getLast? hlast)).nonempty
  have hc := List.getLast?_eq_some_getLast hne
  obtain ⟨hkeep, hspace⟩ :=
    trim_of_ends (head_spaced rfl ha) (last_spaced hlast hc) hb (hends _ hlast _ hc)
  rcases h with rfl | rfl
  · exact Or.inl hkeep
  · exact Or.inl hspace

namespace Statement

/-- What stands between the spaces of a statement's text. -/
def parts : Statement → List String
  | func name => ["func", name]
  | endFunc => ["endfunc"]
  | var type names => "var" :: type :: names
  | assign target expr => "assign" :: target :: expr
  | call name args => "funccall" :: name :: args
  | ifThen cond => "if" :: cond
  | orElse => ["else"]
  | endIf => ["endif"]
  | whileDo cond => "while" :: cond
  | endWhile => ["endwhile"]
  | ret expr => "return" :: expr
  | nop => ["nop"]
  | malformed omission => [omission.keyword.spelling, "<" ++ omission.reason ++ ">"]

/-- The statements whose text is trimmed. -/
def isTrimmed : Statement → Bool
  | call _ _ | ret _ => true
  | _ => false

theorem isTrimmed_iff {s : Statement} :
    s.isTrimmed = true ↔ (∃ name args, s = .call name args) ∨ ∃ expr, s = .ret expr := by
  cases s <;> simp [isTrimmed]

theorem parts_ne_nil (s : Statement) : s.parts ≠ [] := by
  cases s <;> simp [parts]

theorem decode_parts {s : Statement} (h : ∀ omission, s ≠ .malformed omission) :
    decode s.parts = s := by
  cases s with
  | malformed omission => exact absurd rfl (h omission)
  | _ => rfl

theorem isSpaced_text {s : Statement} (hwhole : ∀ part ∈ s.parts, WholeToken part)
    (hends : s.isTrimmed = true → EndsBare s.parts) : IsSpaced s.text s.parts := by
  cases s with
  | func name => exact isSpaced_pair "func" name
  | endFunc => exact isSpaced_single "endfunc"
  | var type names => exact isSpaced_cons_cons "var" type names
  | assign target expr => exact isSpaced_cons_cons "assign" target expr
  | call name args =>
    have h := isSpaced_cons_cons "funccall" name args
    exact h.trimmed rfl (by decide) hwhole (hends rfl)
  | ifThen cond => exact isSpaced_cons "if" cond
  | orElse => exact isSpaced_single "else"
  | endIf => exact isSpaced_single "endif"
  | whileDo cond => exact isSpaced_cons "while" cond
  | endWhile => exact isSpaced_single "endwhile"
  | ret expr =>
    have h := isSpaced_cons "return" expr
    exact h.trimmed rfl (by decide) hwhole (hends rfl)
  | nop => exact isSpaced_single "nop"
  | malformed omission => cases omission <;> exact Or.inl (by decide)

/-- The parts are the tokens that the statement was read from; behind the name of a function and
behind a keyword that stands alone the rest of the line is left out. -/
theorem parts_ofKeyword {k : Keyword} {args : List String}
    (h : ∀ omission, ofKeyword k args ≠ .malformed omission) :
    (ofKeyword k args).parts <+: k.spelling :: args := by
  cases k with
  | func =>
    cases args with
    | nil => exact absurd rfl (h .definedName)
    | cons name rest => exact ⟨rest, rfl⟩
  | var =>
    cases args with
    | nil => exact absurd rfl (h .variableType)
    | cons type names => exact List.prefix_rfl
  | assign =>
    cases args with
    | nil => exact absurd rfl (h .assignmentTarget)
    | cons target expr => exact List.prefix_rfl
  | funcCall =>
    cases args with
    | nil => exact absurd rfl (h .calledName)
    | cons name args => exact List.prefix_rfl
  | ifThen | whileDo | ret => exact List.prefix_rfl
  | endFunc | orElse | endIf | endWhile => exact ⟨args, rfl⟩

theorem parts_ofKeyword_of_isTrimmed {k : Keyword} {args : List String}
    (h : (ofKeyword k args).isTrimmed = true) :
    (ofKeyword k args).parts = k.spelling :: args := by
  cases k with
  | funcCall =>
    cases args with
    | nil => cases h
    | cons name args => rfl
  | ret => rfl
  | func | var | assign => cases args <;> cases h
  | endFunc | ifThen | orElse | endIf | whileDo | endWhile => cases h

/-- A line does nothing, or it is the statement of the keyword that it starts with. -/
theorem decode_cases (tokens : List String) : decode tokens = .nop ∨
    ∃ k args, tokens = k.spelling :: args ∧ decode tokens = ofKeyword k args := by
  cases tokens with
  | nil => exact Or.inl rfl
  | cons first args =>
    rw [decode]
    split
    next k hk =>
      have hname : k.spelling = first := name_of_reserved? hk
      exact Or.inr ⟨k, args, by rw [hname], rfl⟩
    next => exact Or.inl rfl

theorem wholeToken_parts_decode {tokens : List String}
    (hwhole : ∀ token ∈ tokens, WholeToken token)
    (hformed : ∀ omission, decode tokens ≠ .malformed omission) :
    ∀ part ∈ (decode tokens).parts, WholeToken part := by
  intro part hpart
  rcases decode_cases tokens with hnop | ⟨k, args, rfl, hdecode⟩
  · rw [hnop] at hpart
    cases List.mem_singleton.mp hpart
    exact wholeToken_nop
  · rw [hdecode] at hpart hformed
    exact hwhole part ((parts_ofKeyword hformed).subset hpart)

theorem parts_decode_of_isTrimmed {tokens : List String}
    (h : (decode tokens).isTrimmed = true) : (decode tokens).parts = tokens := by
  rcases decode_cases tokens with hnop | ⟨k, args, rfl, hdecode⟩
  · rw [hnop] at h
    cases h
  · rw [hdecode] at h ⊢
    exact parts_ofKeyword_of_isTrimmed h

end Statement

/-- The text of a statement is read as the same statement again, if the quotes of its line are
closed. The text of a call or return is trimmed, so its last token must not end in a blank. -/
theorem decode_tokenize_text {line : String}
    (hquotes : ∀ token ∈ tokenize line, token.toList.count '"' % 2 = 0)
    (hformed : ∀ omission, decode (tokenize line) ≠ .malformed omission)
    (hends : (∃ name args, decode (tokenize line) = .call name args) ∨
        (∃ expr, decode (tokenize line) = .ret expr) →
      ∀ last, (tokenize line).getLast? = some last →
        ∀ c, last.toList.getLast? = some c → isBlank c = false) :
    decode (tokenize (decode (tokenize line)).text) = decode (tokenize line) := by
  have hwhole : ∀ part ∈ (decode (tokenize line)).parts, WholeToken part := by
    apply wholeToken_parts_decode _ hformed
    intro token hm
    exact wholeToken_of_mem_tokenize hm (hquotes token hm)
  have hspaced : IsSpaced (decode (tokenize line)).text (decode (tokenize line)).parts := by
    apply isSpaced_text hwhole
    intro htrimmed
    rw [parts_decode_of_isTrimmed htrimmed]
    exact hends (isTrimmed_iff.mp htrimmed)
  rw [hspaced.tokenize_eq hwhole (parts_ne_nil _), decode_parts hformed]

/-- A call with quoted separators and a comment, and what its text is read as. -/
theorem decode_tokenize_text_call :
    tokenize "  funccall print   \"a # b\" x# both" = ["funccall", "print", "\"a # b\"", "x"] ∧
    decode (tokenize "funccall print \"a # b\" x") = .call "print" ["\"a # b\"", "x"] := by
  have htokens : tokenize "  funccall print   \"a # b\" x# both" =
      ["funccall", "print", "\"a # b\"", "x"] := by decide +kernel
  have h := @decode_tokenize_text "  funccall print   \"a # b\" x# both"
  rw [htokens] at h
  have hquotes : ∀ token ∈ ["funccall", "print", "\"a # b\"", "x"],
      token.toList.count '"' % 2 = 0 := by decide
  have hends : ∀ last, ["funccall", "print", "\"a # b\"", "x"].getLast? = some last →
      ∀ c, last.toList.getLast? = some c → isBlank c = false := by
    intro last hlast c hc
    cases hlast
    cases hc
    decide
  exact ⟨htokens, h hquotes (fun omission hm => by cases hm) fun _ => hends⟩

end Brewin
