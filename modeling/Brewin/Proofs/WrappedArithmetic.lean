import Mathlib.Algebra.Group.Nat.Defs
import Brewin.Proofs.PrefixTree

namespace Brewin

/-- A token that is read as a literal, so that no variable can be meant. -/
abbrev IsLiteral (token : String) : Prop :=
  isStringLiteral token = true ∨ isIntLiteral token = true ∨ isBoolLiteral token = true

/-- The exact value of an arithmetic expression, over all integers. -/
inductive PrefixTree.Exact (s : Scopes) : PrefixTree → Int → Prop
  | literal {token : String} {n : Int} {h : isOperator token = false}
      (number : isIntLiteral token = true) (value : readSigned? token.toList = some n)
      (fits : FitsInt64 n) : Exact s (.leaf token h) n
  | stored {name : String} {w : Int64} {h : isOperator name = false}
      (plain : ¬ IsLiteral name) (holds : s.valueOf? name = some (.int w)) :
      Exact s (.leaf name h) w.toInt
  | sum {left right : PrefixTree} {a b : Int} {h : isOperator "+" = true} :
      Exact s left a → Exact s right b → Exact s (.node "+" h left right) (a + b)
  | difference {left right : PrefixTree} {a b : Int} {h : isOperator "-" = true} :
      Exact s left a → Exact s right b → Exact s (.node "-" h left right) (a - b)
  | product {left right : PrefixTree} {a b : Int} {h : isOperator "*" = true} :
      Exact s left a → Exact s right b → Exact s (.node "*" h left right) (a * b)

/-- A number does not start with a quote. -/
theorem isStringLiteral_of_isIntLiteral {token : String} (h : isIntLiteral token = true) :
    isStringLiteral token = false := by
  unfold isStringLiteral
  split
  next rest hchars =>
    rw [isIntLiteral, hchars] at h
    simp [readNat?] at h
  next => rfl

theorem readLiteral_of_fits {token : String} {n : Int} (hnumber : isIntLiteral token = true)
    (hvalue : readSigned? token.toList = some n) (hfits : FitsInt64 n) :
    readLiteral token = .value (.int (Int64.ofInt n)) := by
  have hread : readInt64? token = some (Int64.ofInt n) := by
    rw [readInt64?, hvalue]
    exact if_pos hfits
  simp [readLiteral, isStringLiteral_of_isIntLiteral hnumber, hnumber, hread]

theorem readLiteral_of_not_isLiteral {token : String} (h : ¬ IsLiteral token) :
    readLiteral token = .notLiteral := by
  simp only [IsLiteral, isBoolLiteral, Bool.or_eq_true, beq_iff_eq, not_or] at h
  obtain ⟨hstring, hint, htrue, hfalse⟩ := h
  simp [readLiteral, hstring, hint, htrue, hfalse]

/-- The words add, subtract and multiply as their integers do, so a tree has the word of its exact
value, whatever wraps around inside. -/
theorem PrefixTree.Exact.value_eq {s : Scopes} {t : PrefixTree} {n : Int} (h : t.Exact s n) :
    t.value s = .ok (.int (Int64.ofInt n)) := by
  induction h with
  | literal number value fits =>
    rw [PrefixTree.value, Scopes.operand, readLiteral_of_fits number value fits]
  | stored plain holds =>
    rw [PrefixTree.value, Scopes.operand, readLiteral_of_not_isLiteral plain, holds,
      Int64.ofInt_toInt]
  | sum _ _ ihLeft ihRight =>
    rw [PrefixTree.value, ihLeft, ihRight, Int64.ofInt_add]
    rfl
  | difference _ _ ihLeft ihRight =>
    rw [PrefixTree.value, ihLeft, ihRight, Int64.ofInt_sub]
    rfl
  | product _ _ ihLeft ihRight =>
    rw [PrefixTree.value, ihLeft, ihRight, Int64.ofInt_mul]
    rfl

/-- An arithmetic expression always has a value, and this is its exact value modulo 2^64. -/
theorem evaluate_exact {s : Scopes} {t : PrefixTree} {n : Int} (h : t.Exact s n) :
    ∃ w : Int64, s.evaluate t.tokens = .ok (.int w) ∧ w.toInt = n.bmod (2 ^ 64) :=
  ⟨Int64.ofInt n, (s.evaluate_tokens t).trans h.value_eq, Int64.toInt_ofInt⟩

/-- The storage of a main function with one variable. -/
def holdsFive : Scopes :=
  (Scopes.start "main" noLine).bind "x" (.int 5)

/-- A product out of range, and a difference that brings it back modulo 2^64. -/
def beyondRange : PrefixTree :=
  .node "-" (by decide)
    (.node "*" (by decide) (.leaf "9223372036854775807" (by decide)) (.leaf "2" (by decide)))
    (.leaf "x" (by decide))

theorem evaluate_exact_beyondRange :
    beyondRange.Exact holdsFive 18446744073709551609 ∧
    holdsFive.evaluate ["-", "*", "9223372036854775807", "2", "x"] = .ok (.int (-7)) := by
  have hlarge : PrefixTree.Exact holdsFive (.leaf "9223372036854775807" (by decide))
      9223372036854775807 := .literal (by decide) (by decide) (by decide)
  have htwo : PrefixTree.Exact holdsFive (.leaf "2" (by decide)) 2 :=
    .literal (by decide) (by decide) (by decide)
  have hfive : PrefixTree.Exact holdsFive (.leaf "x" (by decide)) 5 :=
    .stored (w := 5) (by decide) (by decide)
  have h : beyondRange.Exact holdsFive 18446744073709551609 :=
    .difference (.product hlarge htwo) hfive
  obtain ⟨w, hw, hmod⟩ := evaluate_exact h
  have hseven : w = -7 := Int64.toInt_inj.mp (hmod.trans (by decide))
  rw [hseven] at hw
  exact ⟨h, hw⟩

end Brewin
