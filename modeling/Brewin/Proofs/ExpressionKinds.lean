import Mathlib.Data.List.Forall2
import Brewin.Expression

namespace Brewin

/-- The results of two computations that differ in nothing but values: results that correspond,
or the same problem. Where one of the two meets a zero divisor, the other is free. -/
inductive Matches {α : Type} (R : α → α → Prop) : Except Problem α → Except Problem α → Prop
  | leftZero {problem : Problem} {other : Except Problem α}
      (zero : problem.cause? = some .zeroDivisor) : Matches R (.error problem) other
  | rightZero {other : Except Problem α} {problem : Problem}
      (zero : problem.cause? = some .zeroDivisor) : Matches R other (.error problem)
  | same (problem : Problem) : Matches R (.error problem) (.error problem)
  | both {a b : α} (related : R a b) : Matches R (.ok a) (.ok b)

theorem Matches.bind {α β : Type} {R : α → α → Prop} {S : β → β → Prop}
    {r r' : Except Problem α} {f f' : α → Except Problem β} (h : Matches R r r')
    (hf : ∀ a b, R a b → Matches S (f a) (f' b)) : Matches S (r >>= f) (r' >>= f') := by
  cases h with
  | leftZero zero => exact .leftZero zero
  | rightZero zero => exact .rightZero zero
  | same problem => exact .same problem
  | both related => exact hf _ _ related

theorem Matches.map {α β : Type} {R : α → α → Prop} {S : β → β → Prop}
    {r r' : Except Problem α} {f f' : α → β} (h : Matches R r r')
    (hf : ∀ a b, R a b → S (f a) (f' b)) : Matches S (r.map f) (r'.map f') := by
  cases h with
  | leftZero zero => exact .leftZero zero
  | rightZero zero => exact .rightZero zero
  | same problem => exact .same problem
  | both related => exact .both (hf _ _ related)

theorem Matches.outcomes {α : Type} {R : α → α → Prop} {r r' : Except Problem α}
    (h : Matches R r r') :
    (∃ problem, r = .error problem ∧ problem.cause? = some .zeroDivisor) ∨
    (∃ problem, r' = .error problem ∧ problem.cause? = some .zeroDivisor) ∨
    (∃ a b, r = .ok a ∧ r' = .ok b ∧ R a b) ∨
    ∃ problem, r = .error problem ∧ r' = .error problem := by
  cases h with
  | leftZero zero => exact Or.inl ⟨_, rfl, zero⟩
  | rightZero zero => exact Or.inr (Or.inl ⟨_, rfl, zero⟩)
  | same problem => exact Or.inr (Or.inr (Or.inr ⟨problem, rfl, rfl⟩))
  | both related => exact Or.inr (Or.inr (Or.inl ⟨_, _, rfl, rfl, related⟩))

/-- Two values of one kind. -/
def SameKind (v w : Value) : Prop :=
  v.kind = w.kind

theorem sameKind_int (a b : Int64) : SameKind (.int a) (.int b) :=
  rfl

theorem sameKind_string (a b : String) : SameKind (.string a) (.string b) :=
  rfl

theorem sameKind_bool (a b : Bool) : SameKind (.bool a) (.bool b) :=
  rfl

/-- Operations with the same guard against a zero divisor. -/
theorem matches_guarded {problem : Problem} (zero : problem.cause? = some .zeroDivisor)
    (b d x y : Int64) :
    Matches SameKind (if b = 0 then .error problem else .ok (.int x))
      (if d = 0 then .error problem else .ok (.int y)) := by
  by_cases hb : b = 0
  · rw [if_pos hb]
    exact .leftZero zero
  · by_cases hd : d = 0
    · rw [if_pos hd]
      exact .rightZero zero
    · rw [if_neg hb, if_neg hd]
      exact .both (sameKind_int x y)

theorem matches_intOperation (symbol : String) (a b c d : Int64) :
    Matches SameKind (intOperation symbol a b) (intOperation symbol c d) := by
  unfold intOperation
  cases Operator.ofSpelling? symbol with
  | none => exact .same _
  | some op =>
    cases op with
    | divide => exact matches_guarded rfl b d _ _
    | modulo => exact matches_guarded rfl b d _ _
    | and | or => exact .same _
    | plus | minus | times => exact .both (sameKind_int _ _)
    | less | greater | lessEq | greaterEq | equal | notEqual => exact .both (sameKind_bool _ _)

theorem matches_stringOperation (symbol a b c d : String) :
    Matches SameKind (stringOperation symbol a b) (stringOperation symbol c d) := by
  unfold stringOperation
  cases Operator.ofSpelling? symbol with
  | none => exact .same _
  | some op =>
    cases op with
    | plus => exact .both (sameKind_string _ _)
    | less | greater | lessEq | greaterEq | equal | notEqual => exact .both (sameKind_bool _ _)
    | minus | times | divide | modulo | and | or => exact .same _

theorem matches_boolOperation (symbol : String) (a b c d : Bool) :
    Matches SameKind (boolOperation symbol a b) (boolOperation symbol c d) := by
  unfold boolOperation
  cases Operator.ofSpelling? symbol with
  | none => exact .same _
  | some op =>
    cases op with
    | and | or | equal | notEqual => exact .both (sameKind_bool _ _)
    | plus | minus | times | divide | modulo | less | greater | lessEq | greaterEq =>
      exact .same _

/-- An operator treats values of the same kinds alike. -/
theorem matches_operation (symbol : String) {a b c d : Value} (hleft : SameKind a c)
    (hright : SameKind b d) : Matches SameKind (operation symbol a b) (operation symbol c d) := by
  cases a <;> cases c <;> cases hleft <;> cases b <;> cases d <;> cases hright
  case int.int.refl.int.int.refl => exact matches_intOperation symbol _ _ _ _
  case string.string.refl.string.string.refl => exact matches_stringOperation symbol _ _ _ _
  case bool.bool.refl.bool.bool.refl => exact matches_boolOperation symbol _ _ _ _
  all_goals exact .same _

namespace Scopes

variable {s s' : Scopes}

/-- A token that stands for variables of one kind, or for none, in both. -/
def Likewise (s s' : Scopes) (token : String) : Prop :=
  (s.valueOf? token).map Value.kind = (s'.valueOf? token).map Value.kind

theorem matches_operand {token : String} (h : s.Likewise s' token) :
    Matches SameKind (s.operand token) (s'.operand token) := by
  unfold operand
  cases readLiteral token with
  | value v => exact .both rfl
  | outOfRange => exact .same _
  | notLiteral =>
    unfold Likewise at h
    cases hs : s.valueOf? token with
    | none =>
      rw [hs] at h
      have hs' : s'.valueOf? token = none := Option.map_eq_none_iff.mp h.symm
      rw [hs']
      exact .same _
    | some v =>
      rw [hs] at h
      obtain ⟨w, hw, hkind⟩ := Option.map_eq_some_iff.mp h.symm
      rw [hw]
      exact .both hkind.symm

theorem matches_reduceToken {token : String} (h : s.Likewise s' token) {xs ys : Stack Value}
    (hstack : List.Forall₂ SameKind xs ys) :
    Matches (List.Forall₂ SameKind) (s.reduceToken token xs) (s'.reduceToken token ys) := by
  unfold reduceToken
  by_cases hop : isOperator token = true
  · rw [if_pos hop, if_pos hop]
    cases hstack with
    | nil => exact .same _
    | cons hleft hrest =>
      cases hrest with
      | nil => exact .same _
      | cons hright hrest =>
        exact (matches_operation token hleft hright).map fun v w hvw => .cons hvw hrest
  · rw [if_neg hop, if_neg hop]
    exact (matches_operand h).map fun v w hvw => .cons hvw hstack

/-- The two stacks have the same kinds from end to end of the expression. -/
theorem matches_reduce {expr : List String} (h : ∀ token ∈ expr, s.Likewise s' token) :
    Matches (List.Forall₂ SameKind) (s.reduce expr) (s'.reduce expr) := by
  induction expr with
  | nil => exact .both .nil
  | cons token rest ih =>
    have hrest := ih fun other hother => h other (List.mem_cons_of_mem token hother)
    exact hrest.bind fun xs ys hstack => matches_reduceToken (h token (by simp)) hstack

/-- What a stack stands for at the end of an expression. -/
def resultOf : Stack Value → Except Problem Value
  | [v] => .ok v
  | operands => .error (.leftoverOperands operands.length)

theorem evaluate_eq_bind (s : Scopes) {expr : List String} (h : ¬ expr.isEmpty = true) :
    s.evaluate expr = s.reduce expr >>= resultOf := by
  unfold evaluate
  rw [if_neg h]
  cases s.reduce expr with
  | error problem => rfl
  | ok operands =>
    match operands with
    | [] | [_] | _ :: _ :: _ => rfl

theorem matches_resultOf {xs ys : Stack Value} (h : List.Forall₂ SameKind xs ys) :
    Matches SameKind (resultOf xs) (resultOf ys) := by
  cases h with
  | nil => exact .same _
  | cons hvalue hrest =>
    cases hrest with
    | nil => exact .both hvalue
    | cons hnext hrest =>
      -- The message counts the values, and both stacks hold the same number of them.
      simp only [resultOf, List.length_cons, hrest.length_eq]
      exact .same _

theorem matches_evaluate {expr : List String} (h : ∀ token ∈ expr, s.Likewise s' token) :
    Matches SameKind (s.evaluate expr) (s'.evaluate expr) := by
  by_cases hempty : expr.isEmpty = true
  · rw [evaluate, evaluate, if_pos hempty, if_pos hempty]
    exact .same _
  · rw [s.evaluate_eq_bind hempty, s'.evaluate_eq_bind hempty]
    exact (matches_reduce h).bind fun xs ys hstack => matches_resultOf hstack

end Scopes

/-- The kind of an expression does not depend on values: in two storages in which its tokens stand
for variables of the same kinds it has values of one kind, or the same problem and so the same
message, unless one of the two meets a zero divisor. -/
theorem evaluate_kind_stable {s s' : Scopes} {expr : List String}
    (h : ∀ token ∈ expr,
      (s.valueOf? token).map Value.kind = (s'.valueOf? token).map Value.kind) :
    (∃ problem, s.evaluate expr = .error problem ∧ problem.cause? = some .zeroDivisor) ∨
    (∃ problem, s'.evaluate expr = .error problem ∧ problem.cause? = some .zeroDivisor) ∨
    (∃ v w, s.evaluate expr = .ok v ∧ s'.evaluate expr = .ok w ∧ v.kind = w.kind) ∨
    ∃ problem, s.evaluate expr = .error problem ∧ s'.evaluate expr = .error problem := by
  have hmatches : Matches SameKind (s.evaluate expr) (s'.evaluate expr) :=
    Scopes.matches_evaluate h
  exact hmatches.outcomes

/-- The storage of a main function with one number. -/
def holding (n : Int64) : Scopes :=
  (Scopes.start "main" noLine).bind "x" (.int n)

theorem evaluate_kind_stable_holding :
    (∀ token ∈ ["<", "x", "/", "8", "x"],
      ((holding 2).valueOf? token).map Value.kind =
        ((holding 4).valueOf? token).map Value.kind) ∧
    ∃ v w, (holding 2).evaluate ["<", "x", "/", "8", "x"] = .ok v ∧
      (holding 4).evaluate ["<", "x", "/", "8", "x"] = .ok w ∧ v.kind = w.kind := by
  have hkinds : ∀ token ∈ ["<", "x", "/", "8", "x"],
      ((holding 2).valueOf? token).map Value.kind =
        ((holding 4).valueOf? token).map Value.kind := by decide
  have htwo : (holding 2).evaluate ["<", "x", "/", "8", "x"] = .ok (.bool true) := by decide
  have hfour : (holding 4).evaluate ["<", "x", "/", "8", "x"] = .ok (.bool false) := by decide
  refine ⟨hkinds, ?_⟩
  rcases evaluate_kind_stable hkinds with ⟨_, hp, -⟩ | ⟨_, hp, -⟩ | hvalues | ⟨_, hp, -⟩
  · cases htwo.symm.trans hp
  · cases hfour.symm.trans hp
  · exact hvalues
  · cases htwo.symm.trans hp

end Brewin
