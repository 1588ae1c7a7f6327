import Brewin.Expression

namespace Brewin

/-- A prefix expression as a tree: operators inside, operands at the leaves. -/
inductive PrefixTree
  | leaf (token : String) (operand : isOperator token = false)
  | node (op : String) (operator : isOperator op = true) (left right : PrefixTree)

namespace PrefixTree

/-- The tokens of a tree, each operator in front of its two operands. -/
def tokens : PrefixTree → List String
  | leaf token _ => [token]
  | node op _ left right => op :: (left.tokens ++ right.tokens)

/-- The meaning of a tree: the right operand first, then the left one, then the operator. -/
def value (s : Scopes) : PrefixTree → Except Problem Value
  | leaf token _ => s.operand token
  | node op _ left right => do
    let b ← right.value s
    let a ← left.value s
    operation op a b

/-- The tokens of a tree show where they end, and which tree they belong to. -/
theorem tokens_append_inj {t u : PrefixTree} {xs ys : List String}
    (h : t.tokens ++ xs = u.tokens ++ ys) : t = u ∧ xs = ys := by
  induction t generalizing u xs ys with
  | leaf token ht =>
    cases u with
    | leaf other hu =>
      obtain ⟨rfl, rfl⟩ := List.cons.inj h
      exact ⟨rfl, rfl⟩
    | node op hu left right =>
      have hhead : token = op := (List.cons.inj h).1
      rw [hhead, hu] at ht
      cases ht
  | node op ht left right ihLeft ihRight =>
    cases u with
    | leaf other hu =>
      have hhead : op = other := (List.cons.inj h).1
      rw [← hhead, ht] at hu
      cases hu
    | node op' hu left' right' =>
      obtain ⟨rfl, htail⟩ := List.cons.inj h
      rw [List.append_eq, List.append_eq, List.append_assoc, List.append_assoc] at htail
      obtain ⟨rfl, hrest⟩ := ihLeft htail
      obtain ⟨rfl, rfl⟩ := ihRight hrest
      exact ⟨rfl, rfl⟩

theorem tokens_injective {t u : PrefixTree} (h : t.tokens = u.tokens) : t = u := by
  have hnil : t.tokens ++ [] = u.tokens ++ [] := by rw [h]
  exact (tokens_append_inj hnil).1

theorem tokens_ne_nil (t : PrefixTree) : t.tokens ≠ [] := by
  cases t <;> simp [tokens]

end PrefixTree

namespace Scopes

variable {s : Scopes}

theorem reduceToken_operand {token : String} (h : isOperator token = false)
    (operands : Stack Value) :
    s.reduceToken token operands = (s.operand token).map (· :: operands) := by
  simp [reduceToken, h]

theorem reduceToken_operator {op : String} (h : isOperator op = true) (left right : Value)
    (operands : Stack Value) :
    s.reduceToken op (left :: right :: operands) =
      (operation op left right).map (· :: operands) := by
  simp [reduceToken, h]

/-- Reading the tokens of a tree puts the value of the tree on the stack, whatever lies there. -/
theorem reduce_tokens_append (s : Scopes) (t : PrefixTree) (rest : List String) :
    s.reduce (t.tokens ++ rest) =
      s.reduce rest >>= fun operands => (t.value s).map (· :: operands) := by
  induction t generalizing rest with
  | leaf token ht =>
    show s.reduce rest >>= s.reduceToken token = _
    congr 1
    funext operands
    exact reduceToken_operand ht operands
  | node op ht left right ihLeft ihRight =>
    have htokens : (PrefixTree.node op ht left right).tokens ++ rest =
        op :: (left.tokens ++ (right.tokens ++ rest)) := by
      simp [PrefixTree.tokens]
    rw [htokens]
    show s.reduce (left.tokens ++ (right.tokens ++ rest)) >>= s.reduceToken op = _
    rw [ihLeft, ihRight]
    cases s.reduce rest with
    | error problem => rfl
    | ok operands =>
      show ((right.value s).map (· :: operands) >>= _) >>= _ = _
      rw [PrefixTree.value]
      cases right.value s with
      | error problem => rfl
      | ok b =>
        cases left.value s with
        | error problem => rfl
        | ok a => exact reduceToken_operator ht a b operands

theorem reduce_tokens (s : Scopes) (t : PrefixTree) :
    s.reduce t.tokens = (t.value s).map ([·]) := by
  have h := s.reduce_tokens_append t []
  rw [List.append_nil] at h
  rw [h]
  rfl

theorem evaluate_tokens (s : Scopes) (t : PrefixTree) : s.evaluate t.tokens = t.value s := by
  have hne : t.tokens.isEmpty = false := by
    simpa using t.tokens_ne_nil
  unfold evaluate
  rw [hne, s.reduce_tokens t]
  cases t.value s <;> rfl

/-- The stack that a row of trees leaves has one value for each of them. -/
theorem length_of_reduce_trees {ts : List PrefixTree} {operands : Stack Value}
    (h : s.reduce (ts.flatMap PrefixTree.tokens) = .ok operands) : operands.length = ts.length := by
  induction ts generalizing operands with
  | nil =>
    cases h
    rfl
  | cons t ts ih =>
    rw [List.flatMap_cons, reduce_tokens_append] at h
    cases hr : s.reduce (ts.flatMap PrefixTree.tokens) with
    | error problem =>
      rw [hr] at h
      cases h
    | ok below =>
      rw [hr] at h
      have hbelow := ih hr
      cases hv : t.value s with
      | error problem =>
        rw [hv] at h
        cases h
      | ok v =>
        rw [hv] at h
        cases h
        simp [hbelow]

theorem reduce_cons_of_error {rest : List String} {problem : Problem}
    (h : s.reduce rest = .error problem) (token : String) :
    s.reduce (token :: rest) = .error problem := by
  rw [reduce, h]
  rfl

/-- Tokens that do not make up a row of trees somewhere have an operator without its operands. -/
theorem trees_or_error (s : Scopes) (expr : List String) :
    (∃ ts : List PrefixTree, ts.flatMap PrefixTree.tokens = expr) ∨
      ∃ problem, s.reduce expr = .error problem := by
  induction expr with
  | nil => exact Or.inl ⟨[], rfl⟩
  | cons token rest ih =>
    rcases ih with ⟨ts, rfl⟩ | ⟨problem, hp⟩
    · by_cases hop : isOperator token = true
      · match ts with
        | left :: right :: ts =>
          refine Or.inl ⟨.node token hop left right :: ts, ?_⟩
          simp [PrefixTree.tokens]
        | [] | [_] =>
          right
          cases hr : s.reduce (List.flatMap PrefixTree.tokens _) with
          | error problem => exact ⟨problem, reduce_cons_of_error hr token⟩
          | ok operands =>
            -- At most one value lies on the stack.
            have hlength := length_of_reduce_trees hr
            refine ⟨.missingOperand token, ?_⟩
            rw [reduce, hr]
            show s.reduceToken token operands = _
            match operands with
            | [] | [_] => simp [reduceToken, hop]
            | _ :: _ :: _ => simp at hlength
      · refine Or.inl ⟨.leaf token (Bool.eq_false_iff.mpr hop) :: ts, ?_⟩
        simp [PrefixTree.tokens]
    · exact Or.inr ⟨problem, reduce_cons_of_error hp token⟩

/-- Tokens that are not those of one tree have no value. -/
theorem evaluate_error_of_no_tree {expr : List String}
    (h : ∀ t : PrefixTree, t.tokens ≠ expr) : ∃ problem, s.evaluate expr = .error problem := by
  by_cases hempty : expr.isEmpty = true
  · exact ⟨.emptyExpression, by simp [evaluate, hempty]⟩
  · unfold evaluate
    rw [if_neg hempty]
    rcases s.trees_or_error expr with ⟨ts, hts⟩ | ⟨problem, hp⟩
    · cases hr : s.reduce expr with
      | error problem => exact ⟨problem, rfl⟩
      | ok operands =>
        have hlength : operands.length = ts.length := by
          apply length_of_reduce_trees (s := s)
          rw [hts]
          exact hr
        match operands with
        | [] => exact ⟨_, rfl⟩
        | _ :: _ :: _ => exact ⟨_, rfl⟩
        | [v] =>
          -- One value comes from one tree, and there is none.
          obtain ⟨t, rfl⟩ := List.length_eq_one_iff.mp hlength.symm
          have htokens : t.tokens = expr := by simpa using hts
          exact absurd htokens (h t)
    · exact ⟨problem, by rw [hp]⟩

end Scopes

/-- An expression has a value exactly if it is the prefix form of a tree, which is then the only
one, and the value is that of the tree. Its problem too is the first one of the tree, and any
other list of tokens has a problem. -/
theorem evaluate_iff_value (s : Scopes) (expr : List String) :
    (∀ v, s.evaluate expr = .ok v ↔ ∃ t : PrefixTree, t.tokens = expr ∧ t.value s = .ok v) ∧
    (∀ t u : PrefixTree, t.tokens = expr → u.tokens = expr → t = u) ∧
    (∀ (t : PrefixTree) (problem : Problem), t.tokens = expr →
      (s.evaluate expr = .error problem ↔ t.value s = .error problem)) ∧
    ((∀ t : PrefixTree, t.tokens ≠ expr) → ∃ problem, s.evaluate expr = .error problem) := by
  refine ⟨fun v => ⟨fun hv => ?_, ?_⟩, ?_, ?_, Scopes.evaluate_error_of_no_tree⟩
  · by_cases htree : ∃ t : PrefixTree, t.tokens = expr
    · obtain ⟨t, rfl⟩ := htree
      exact ⟨t, rfl, (s.evaluate_tokens t).symm.trans hv⟩
    · have hno : ∀ t : PrefixTree, t.tokens ≠ expr := fun t ht => htree ⟨t, ht⟩
      obtain ⟨problem, hp⟩ := Scopes.evaluate_error_of_no_tree (s := s) hno
      cases hv.symm.trans hp
  · rintro ⟨t, rfl, hv⟩
    exact (s.evaluate_tokens t).trans hv
  · intro t u ht hu
    exact PrefixTree.tokens_injective (ht.trans hu.symm)
  · rintro t problem rfl
    rw [s.evaluate_tokens t]

end Brewin
