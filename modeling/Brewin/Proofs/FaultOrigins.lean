import Brewin.Workspace

namespace Brewin

/-- The problems that a statement can have with its own text and data. The others come from the
way in which branches and loops are nested, and from the step limit. -/
def Problem.plain : Problem → Bool
  | ifWithoutEndIf | elseWithoutEndIf | endIfWithoutBlock => false
  | whileWithoutEndWhile | endWhileWithoutWhile | endWhileWithoutBlock => false
  | stepLimit _ => false
  | _ => true

/-- The problems that are found when a part of the statement is done: some names are declared, or
a prompt is written. -/
def Problem.late : Problem → Bool
  | duplicateName _ | readFailed _ => true
  | _ => false

/-- The problems that are found in texts and values, before anything is done with them. -/
def Problem.early (problem : Problem) : Bool :=
  problem.plain && !problem.late

namespace Problem

variable {problem : Problem}

theorem ne_stepLimit (h : problem.plain = true) (n : Nat) : problem ≠ .stepLimit n := by
  rintro rfl
  cases h

theorem plain_of_early (h : problem.early = true) : problem.plain = true :=
  (Bool.and_eq_true_iff.mp h).1

theorem late_of_early (h : problem.early = true) : problem.late = false :=
  (Bool.not_eq_true' _).mp (Bool.and_eq_true_iff.mp h).2

end Problem

/-- The computation fails over its own data only, and early. -/
def Early {α : Type} (r : Except Problem α) : Prop :=
  ∀ problem, r = .error problem → problem.early = true

section

variable {α β : Type}

theorem early_ok (a : α) : Early (.ok a : Except Problem α) := by
  intro problem h
  cases h

theorem early_error {problem : Problem} (h : problem.early = true) :
    Early (.error problem : Except Problem α) := by
  rintro _ ⟨⟩
  exact h

theorem Early.bind {r : Except Problem α} {f : α → Except Problem β} (hr : Early r)
    (hf : ∀ a, Early (f a)) : Early (r >>= f) := by
  cases r with
  | error problem => exact early_error (hr problem rfl)
  | ok a => exact hf a

theorem Early.map {r : Except Problem α} (hr : Early r) (f : α → β) : Early (r.map f) := by
  cases r with
  | error problem => exact early_error (hr problem rfl)
  | ok a => exact early_ok (f a)

end

theorem early_operation (symbol : String) (a b : Value) : Early (operation symbol a b) := by
  unfold operation
  split
  next =>
    unfold intOperation
    (repeat' split) <;> first | exact early_ok _ | exact early_error rfl
  next =>
    unfold stringOperation
    split <;> first | exact early_ok _ | exact early_error rfl
  next =>
    unfold boolOperation
    split <;> first | exact early_ok _ | exact early_error rfl
  next =>
    split
    next => exact early_error rfl
    next => exact early_error rfl

namespace Scopes

variable (s : Scopes)

theorem early_operand (token : String) : Early (s.operand token) := by
  unfold operand
  split
  next => exact early_ok _
  next => exact early_error rfl
  next =>
    split
    next => exact early_ok _
    next => exact early_error rfl

theorem early_reduceToken (token : String) (operands : Stack Value) :
    Early (s.reduceToken token operands) := by
  unfold reduceToken
  split
  next =>
    split
    next => exact (early_operation _ _ _).map _
    next => exact early_error rfl
  next => exact (s.early_operand token).map _

theorem early_reduce (expr : List String) : Early (s.reduce expr) := by
  induction expr with
  | nil => exact early_ok _
  | cons token rest ih => exact ih.bind fun operands => s.early_reduceToken token operands

theorem early_evaluate (expr : List String) : Early (s.evaluate expr) := by
  have hr := s.early_reduce expr
  unfold evaluate
  split
  next => exact early_error rfl
  next =>
    split
    next problem h => exact early_error (hr problem h)
    next => exact early_ok _
    next => exact early_error rfl

theorem early_condition (cond : List String) : Early (s.condition cond) := by
  have he := s.early_evaluate cond
  unfold condition
  split
  next problem h => exact early_error (he problem h)
  next => exact early_ok _
  next => exact early_error rfl

theorem early_operands (args : List String) : Early (s.operands args) := by
  unfold operands
  induction args with
  | nil => exact early_ok _
  | cons token args ih =>
    rw [List.mapM_cons]
    exact (s.early_operand token).bind fun v => ih.bind fun values => early_ok _

theorem early_joined (args : List String) : Early (s.joined args) :=
  (s.early_operands args).map _

theorem early_assignment (target : String) (expr : List String) :
    Early (s.assignment target expr) := by
  have he := s.early_evaluate expr
  unfold assignment
  split
  next problem h => exact early_error (he problem h)
  next =>
    split
    next => exact early_error rfl
    next =>
      split
      next => exact early_ok _
      next => exact early_error rfl

theorem early_arguments (f : Definition) (args : List String) : Early (s.arguments f args) := by
  have ho := s.early_operands args
  unfold arguments
  split
  next problem h => exact early_error (ho problem h)
  next =>
    split
    next => exact early_error rfl
    next =>
      split
      next => exact early_error rfl
      next => exact early_ok _

theorem plain_declareAll (v : Value) (names : List String) :
    ∀ problem, (s.declareAll v names).2 = some problem → problem.plain = true := by
  induction names generalizing s with
  | nil =>
    intro problem h
    cases h
  | cons name names ih =>
    unfold declareAll
    split
    next =>
      rintro _ ⟨⟩
      rfl
    next => exact ih (s.bind name v)

end Scopes

theorem early_checkResult (t : FunctionTable) (function : String) (v : Value) :
    Early (t.checkResult function v) := by
  unfold FunctionTable.checkResult
  split
  next => exact early_ok _
  next => exact early_error rfl

/-- The effect fails over its own data only. -/
def Effect.Plain (e : Effect) : Prop :=
  ∀ problem, e.problem? = some problem → problem.plain = true

/-- The effect fails early. -/
def Effect.Early (e : Effect) : Prop :=
  ∀ problem, e.problem? = some problem → problem.early = true

theorem Effect.Early.plain {e : Effect} (h : e.Early) : e.Plain :=
  fun problem hp => Problem.plain_of_early (h problem hp)

namespace Workspace

variable (w : Workspace)

theorem early_fail {problem : Problem} (h : problem.early = true) :
    (w.fail problem).Early := by
  rintro _ ⟨⟩
  exact h

theorem early_done : Effect.Early ⟨w, none⟩ := by
  intro problem h
  cases h

theorem plain_fail {problem : Problem} (h : problem.plain = true) :
    (w.fail problem).Plain := by
  rintro _ ⟨⟩
  exact h

theorem plain_declare (type : String) (names : List String) : (w.declare type names).Plain := by
  unfold declare
  split
  next => exact w.plain_fail rfl
  next v _ => exact w.scopes.plain_declareAll v names

theorem early_assign (target : String) (expr : List String) : (w.assign target expr).Early := by
  have ha := w.scopes.early_assignment target expr
  unfold assign
  split
  next problem h => exact w.early_fail (ha problem h)
  next => exact early_done _

theorem early_print (args : List String) : (w.print args).Early := by
  have hj := w.scopes.early_joined args
  unfold print
  split
  next problem h => exact w.early_fail (hj problem h)
  next =>
    split
    next => exact early_done _
    next => exact w.early_fail rfl

theorem early_strToInt (args : List String) : (w.strToInt args).Early := by
  unfold strToInt
  split
  next token =>
    split
    next problem h => exact w.early_fail (w.scopes.early_operand token problem h)
    next =>
      split
      next => exact w.early_fail rfl
      next => exact early_done _
    next => exact w.early_fail rfl
  next => exact w.early_fail rfl

theorem plain_input (args : List String) : (w.input args).Plain := by
  have hj := w.scopes.early_joined args
  unfold input
  split
  next problem h => exact (w.early_fail (hj problem h)).plain
  next =>
    split
    next =>
      split
      next => exact (early_done _).plain
      next => exact plain_fail _ rfl
    next => exact w.plain_fail rfl

theorem plain_builtin (b : Builtin) (args : List String) : (w.builtin b args).Plain := by
  cases b with
  | print => exact (w.early_print args).plain
  | input => exact w.plain_input args
  | strToInt => exact (w.early_strToInt args).plain

end Workspace

end Brewin
