import Brewin.Proofs.CallSegment

namespace Brewin

/-- The kinds of the values that variables hold. -/
def Kind.storable : Kind → Bool
  | int | string | bool => true
  | void | unknown => false

theorem storable_zero {k : Kind} {v : Value} (h : k.zero? = some v) : v.kind.storable = true := by
  cases k <;> cases h <;> rfl

theorem storable_literal {token : String} {v : Value} (h : readLiteral token = .value v) :
    v.kind.storable = true := by
  unfold readLiteral at h
  split at h
  next =>
    cases h
    rfl
  next =>
    split at h
    next =>
      split at h
      next =>
        cases h
        rfl
      next => cases h
    next =>
      split at h
      next =>
        cases h
        rfl
      next =>
        split at h
        next =>
          cases h
          rfl
        next => cases h

theorem storable_intOperation {symbol : String} {a b : Int64} {v : Value}
    (h : intOperation symbol a b = .ok v) : v.kind.storable = true := by
  unfold intOperation at h
  (repeat' split at h) <;> cases h <;> rfl

theorem storable_stringOperation {symbol a b : String} {v : Value}
    (h : stringOperation symbol a b = .ok v) : v.kind.storable = true := by
  unfold stringOperation at h
  split at h <;> cases h <;> rfl

theorem storable_boolOperation {symbol : String} {a b : Bool} {v : Value}
    (h : boolOperation symbol a b = .ok v) : v.kind.storable = true := by
  unfold boolOperation at h
  split at h <;> cases h <;> rfl

/-- Whatever its operands are, an operation gives a value of a variable's kind or fails. -/
theorem storable_operation {symbol : String} {a b v : Value} (h : operation symbol a b = .ok v) :
    v.kind.storable = true := by
  unfold operation at h
  split at h
  next => exact storable_intOperation h
  next => exact storable_stringOperation h
  next => exact storable_boolOperation h
  next =>
    split at h
    next => cases h
    next => cases h

theorem exists_of_map_eq_ok {α β : Type} {r : Except Problem α} {f : α → β} {b : β}
    (h : r.map f = .ok b) : ∃ a, r = .ok a ∧ f a = b := by
  cases r with
  | error problem => cases h
  | ok a => exact ⟨a, rfl, Except.ok.inj h⟩

/-- All cells hold values of a variable's kind, and all slots lead to cells. -/
structure Scopes.Sound (s : Scopes) : Prop where
  bounded : s.Bounded
  storable : ∀ v ∈ s.cells, v.kind.storable = true

namespace Scopes.Sound

variable {s : Scopes}

theorem value (h : s.Sound) {slot : Slot} (hb : s.frame.Binds slot) :
    (s.value slot).kind.storable = true := by
  have hlt : slot.cell < s.cells.size := h.bounded s.frame (by simp [frames]) slot hb
  have hv : s.value slot = s.cells[slot.cell] := by
    simp [Scopes.value, hlt]
  rw [hv]
  exact h.storable _ (Array.getElem_mem hlt)

theorem operand (h : s.Sound) {token : String} {v : Value} (ho : s.operand token = .ok v) :
    v.kind.storable = true := by
  unfold Scopes.operand at ho
  split at ho
  next hl =>
    cases ho
    exact storable_literal hl
  next => cases ho
  next =>
    split at ho
    next hv =>
      cases ho
      obtain ⟨slot, hs, rfl⟩ := Option.map_eq_some_iff.mp hv
      exact h.value (Frame.binds_of_find? hs)
    next => cases ho

theorem operands (h : s.Sound) {args : List String} {values : List Value}
    (ho : s.operands args = .ok values) : ∀ v ∈ values, v.kind.storable = true := by
  induction args generalizing values with
  | nil =>
    cases ho
    simp
  | cons token args ih =>
    rw [Scopes.operands, List.mapM_cons] at ho
    obtain ⟨v, hv, ho⟩ := exists_of_bind_eq_ok ho
    obtain ⟨rest, hrest, ho⟩ := exists_of_bind_eq_ok ho
    cases ho
    exact List.forall_mem_cons.mpr ⟨h.operand hv, ih hrest⟩

theorem reduceToken (h : s.Sound) {token : String} {operands result : Stack Value}
    (ho : ∀ v ∈ operands, v.kind.storable = true)
    (hr : s.reduceToken token operands = .ok result) :
    ∀ v ∈ result, v.kind.storable = true := by
  unfold Scopes.reduceToken at hr
  split at hr
  next =>
    split at hr
    next left right rest =>
      obtain ⟨v, hv, rfl⟩ := exists_of_map_eq_ok hr
      exact List.forall_mem_cons.mpr ⟨storable_operation hv, fun w hw => ho w (by simp [hw])⟩
    next => cases hr
  next =>
    obtain ⟨v, hv, rfl⟩ := exists_of_map_eq_ok hr
    exact List.forall_mem_cons.mpr ⟨h.operand hv, ho⟩

theorem reduce (h : s.Sound) {expr : List String} {result : Stack Value}
    (hr : s.reduce expr = .ok result) : ∀ v ∈ result, v.kind.storable = true := by
  induction expr generalizing result with
  | nil =>
    cases hr
    simp
  | cons token rest ih =>
    obtain ⟨operands, ho, hr⟩ := exists_of_bind_eq_ok hr
    exact h.reduceToken (ih ho) hr

theorem evaluate (h : s.Sound) {expr : List String} {v : Value}
    (he : s.evaluate expr = .ok v) : v.kind.storable = true := by
  unfold Scopes.evaluate at he
  split at he
  next => cases he
  next =>
    split at he
    next => cases he
    next hr =>
      cases he
      exact h.reduce hr v (by simp)
    next => cases he

theorem arguments (h : s.Sound) {f : Definition} {args : List String} {values : List Value}
    (ha : s.arguments f args = .ok values) : ∀ v ∈ values, v.kind.storable = true := by
  unfold Scopes.arguments at ha
  split at ha
  next => cases ha
  next given ho =>
    split at ha
    next => cases ha
    next =>
      split at ha
      next => cases ha
      next =>
        cases ha
        exact h.operands ho

theorem givenBack (h : s.Sound) {p : Program} {statement : Statement} {v : Value}
    (hg : GivenBack p s statement (some v)) : v.kind.storable = true := by
  have default : ∀ {w}, p.functions.defaultResult? s.frame.function = some w →
      w.kind.storable = true := by
    intro w hw
    obtain ⟨k, -, hz⟩ := Option.bind_eq_some_iff.mp hw
    exact storable_zero hz
  generalize hr : some v = result? at hg
  cases hg with
  | atEnd => exact default hr.symm
  | bare => exact default hr.symm
  | value _ he _ =>
    cases hr
    exact h.evaluate he

end Scopes.Sound

theorem less_notMem_text_int (n : Int64) : '<' ∉ (Value.int n).text.toList := by
  have digits : ∀ m : Nat, '<' ∉ m.repr.toList := by
    intro m hm
    rw [Nat.toList_repr] at hm
    have := Nat.isDigit_of_mem_toDigits (by decide) (by decide) hm
    exact absurd this (by decide)
  change '<' ∉ (Int.repr n.toInt).toList
  cases n.toInt with
  | ofNat m => exact digits m
  | negSucc m =>
    simp only [Int.repr, String.toList_append, List.mem_append, not_or]
    exact ⟨by decide, digits _⟩

/-- Of the values that variables hold only a text can read as the sign for no value. -/
theorem text_ne_nil {v : Value} (h : v.kind.storable = true) (ht : v.text = "<nil>") :
    v = .string "<nil>" := by
  cases v with
  | int n =>
    have hn := less_notMem_text_int n
    rw [ht] at hn
    exact absurd hn (by decide)
  | string s => exact congrArg Value.string ht
  | bool b => cases b <;> exact absurd ht (by decide)
  | void => cases h
  | unknown => cases h

end Brewin
