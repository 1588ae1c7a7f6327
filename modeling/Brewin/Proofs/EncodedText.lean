import Mathlib.Data.List.Lex
import Mathlib.Data.String.Basic
import Brewin.Operation
import Brewin.Proofs.MarkedScan

namespace Brewin

/-- The bytes of a text. -/
def utf8 (s : String) : List UInt8 :=
  s.toUTF8.data.toList

/-- The code points of a text. -/
def codePoints (s : String) : List Nat :=
  s.toList.map Char.toNat

/-- Bytes are marked by their numbers, as if each were a character. -/
def byteMark (b : UInt8) : Mark :=
  .ofNumber b.toNat

theorem utf8_eq_flatMap (s : String) : utf8 s = s.toList.flatMap String.utf8EncodeChar := by
  have hbytes : s.toByteArray = s.toList.utf8Encode := by
    rw [← String.toByteArray_ofList, String.ofList_toList]
  rw [utf8, String.toUTF8_eq_toByteArray, hbytes, List.utf8Encode, List.data_toByteArray]

section Encoding

theorem ofNumber_eq_none {n : Nat} (h : 0x80 ≤ n) : Mark.ofNumber n = .none := by
  unfold Mark.ofNumber
  rw [if_neg (by omega), if_neg (by omega), if_neg (by omega)]

/-- A character of ASCII is one byte, and any other has no byte below 128. -/
theorem utf8EncodeChar_ascii_or_high (c : Char) :
    (∃ b, String.utf8EncodeChar c = [b] ∧ b.toNat = c.toNat) ∨
      0x80 ≤ c.toNat ∧ ∀ b ∈ String.utf8EncodeChar c, 0x80 ≤ b.toNat := by
  rw [← Char.toNat_val]
  fun_cases String.utf8EncodeChar c with
  | case1 v h =>
    left
    refine ⟨_, rfl, ?_⟩
    rw [UInt8.toNat_ofNat']
    omega
  | case2 v =>
    right
    simp only [List.mem_cons, List.not_mem_nil, or_false, forall_eq_or_imp, forall_eq,
      UInt8.toNat_ofNat']
    omega
  | case3 v =>
    right
    simp only [List.mem_cons, List.not_mem_nil, or_false, forall_eq_or_imp, forall_eq,
      UInt8.toNat_ofNat']
    omega
  | case4 v =>
    right
    simp only [List.mem_cons, List.not_mem_nil, or_false, forall_eq_or_imp, forall_eq,
      UInt8.toNat_ofNat']
    omega

/-- Bytes carry the marks, for no byte of a longer code is one. -/
theorem carries_utf8 : Carries charMark byteMark String.utf8EncodeChar := by
  intro c
  rcases utf8EncodeChar_ascii_or_high c with ⟨b, hcode, hnumber⟩ | ⟨hc, hhigh⟩
  · exact .inl ⟨b, hcode, by rw [byteMark, charMark, hnumber]⟩
  · exact .inr ⟨ofNumber_eq_none hc, String.utf8EncodeChar_ne_nil,
      fun b hb => ofNumber_eq_none (hhigh b hb)⟩

/-- Numbers of four digits to the base 64 are ordered by their digits. -/
theorem digits_lt {m n : Nat} (h : m < n) :
    m / 262144 < n / 262144 ∨ m / 262144 = n / 262144 ∧
      (m / 4096 % 64 < n / 4096 % 64 ∨ m / 4096 % 64 = n / 4096 % 64 ∧
        (m / 64 % 64 < n / 64 % 64 ∨ m / 64 % 64 = n / 64 % 64 ∧ m % 64 < n % 64)) := by
  have hstep : ∀ {p q : Nat}, p < q → p / 64 < q / 64 ∨ p / 64 = q / 64 ∧ p % 64 < q % 64 := by
    omega
  have hshift : ∀ v : Nat, v / 4096 = v / 64 / 64 ∧ v / 262144 = v / 64 / 64 / 64 := by omega
  obtain ⟨hm, hm'⟩ := hshift m
  obtain ⟨hn, hn'⟩ := hshift n
  rw [hm, hm', hn, hn']
  rcases hstep h with h | ⟨h, hlast⟩
  · rcases hstep h with h | ⟨h, hlast⟩
    · rcases hstep h with h | ⟨h, hlast⟩
      · exact .inl h
      · exact .inr ⟨h, .inl hlast⟩
    · exact .inr ⟨by rw [h], .inr ⟨by rw [h], .inl hlast⟩⟩
  · exact .inr ⟨by rw [h], .inr ⟨by rw [h], .inr ⟨by rw [h], hlast⟩⟩⟩

/-- The bytes of a smaller character come first, whatever follows. -/
theorem utf8EncodeChar_lt {c d : Char} (h : c < d) (x y : List UInt8) :
    String.utf8EncodeChar c ++ x < String.utf8EncodeChar d ++ y := by
  have hlt : c.val.toNat < d.val.toNat := h
  have hvalid : d.val.toNat < 55296 ∨ 57343 < d.val.toNat ∧ d.val.toNat < 1114112 := d.valid
  have hdigits := digits_lt hlt
  simp only [String.utf8EncodeChar]
  generalize c.val.toNat = m at hlt hdigits ⊢
  generalize d.val.toNat = n at hlt hvalid hdigits ⊢
  (repeat' split) <;>
  · simp only [List.cons_append, List.nil_append, List.cons_lt_cons_iff, UInt8.lt_iff_toNat_lt,
      ← UInt8.toNat_inj, UInt8.toNat_ofNat']
    simp (disch := omega) only [Nat.mod_eq_of_lt]
    omega

end Encoding

section Order

theorem flatMap_utf8EncodeChar_lt {a b : List Char} (h : a < b) :
    a.flatMap String.utf8EncodeChar < b.flatMap String.utf8EncodeChar := by
  induction h with
  | @nil c rest =>
    obtain ⟨x, xs, hcode⟩ := List.exists_cons_of_ne_nil (String.utf8EncodeChar_ne_nil (c := c))
    rw [List.flatMap_cons, hcode]
    exact List.Lex.nil
  | rel hlt => exact utf8EncodeChar_lt hlt _ _
  | cons hlt ih => exact List.append_left_lt ih

theorem utf8_lt {a b : String} (h : a < b) : utf8 a < utf8 b := by
  rw [utf8_eq_flatMap, utf8_eq_flatMap]
  exact flatMap_utf8EncodeChar_lt (String.lt_iff_toList_lt.mp h)

theorem codePoints_lt {a b : String} (h : a < b) : codePoints a < codePoints b :=
  List.map_lt (fun _ _ hlt => hlt) (String.lt_iff_toList_lt.mp h)

end Order

/-- The six comparisons of an order. The other operators compare nothing. -/
def Operator.comparison? {α : Type} [LT α] [DecidableLT α] [DecidableEq α] (op : Operator)
    (a b : α) : Option Bool :=
  match op with
  | .less => some (decide (a < b))
  | .greater => some (decide (b < a))
  | .lessEq => some (decide (a < b ∨ a = b))
  | .greaterEq => some (decide (b < a ∨ a = b))
  | .equal => some (decide (a = b))
  | .notEqual => some (decide (a ≠ b))
  | _ => none

section Comparison

variable {α : Type} [LT α] [Std.Asymm fun x y : α => x < y] {f : String → α}

/-- What is strictly monotone from a linear order reflects it. -/
theorem lt_iff_of_monotone (hf : ∀ {a b}, a < b → f a < f b) (a b : String) :
    f a < f b ↔ a < b := by
  refine ⟨fun h => ?_, hf⟩
  rcases lt_trichotomy a b with hlt | rfl | hgt
  · exact hlt
  · exact absurd h (Std.Asymm.asymm _ _ h)
  · exact absurd h (Std.Asymm.asymm _ _ (hf hgt))

theorem eq_iff_of_monotone (hf : ∀ {a b}, a < b → f a < f b) (a b : String) :
    f a = f b ↔ a = b := by
  refine ⟨fun h => ?_, congrArg f⟩
  rcases lt_trichotomy a b with hlt | heq | hgt
  · exact absurd (hf hlt) (h ▸ fun hl => Std.Asymm.asymm _ _ hl hl)
  · exact heq
  · exact absurd (hf hgt) (h ▸ fun hl => Std.Asymm.asymm _ _ hl hl)

theorem comparison?_of_monotone [DecidableLT α] [DecidableEq α]
    (hf : ∀ {a b}, a < b → f a < f b) (op : Operator) (a b : String) :
    op.comparison? (f a) (f b) = op.comparison? a b := by
  simp only [Operator.comparison?, ne_eq, lt_iff_of_monotone hf, eq_iff_of_monotone hf]

end Comparison

/-- The truth value that an operation gives. -/
def truth? : Except Problem Value → Option Bool
  | .ok (.bool b) => some b
  | _ => none

theorem truth?_stringOperation (op : Operator) (a b : String) :
    truth? (stringOperation op.spelling a b) = op.comparison? a b := by
  rw [stringOperation, Operator.ofSpelling?_eq_some_iff.mpr rfl]
  cases op
  all_goals simp only [truth?, Operator.comparison?, not_lt, le_iff_lt_or_eq, eq_comm]

/-- A line read by bytes has the tokens that it has by characters, and so have tokens without their
quotes. The comparisons of texts are those of their bytes and of their code points, and they belong
to one total order. -/
theorem bytes_agree_with_characters :
    (∀ line, tokenize line = (markedTokens charMark line.toList).map String.ofList ∧
      markedTokens byteMark (utf8 line) = (tokenize line).map utf8) ∧
    (∀ token, (unquote token).toList = markedUnquote charMark token.toList ∧
      markedUnquote byteMark (utf8 token) = utf8 (unquote token)) ∧
    (∀ op a b, truth? (stringOperation (Operator.spelling op) a b) =
        op.comparison? (utf8 a) (utf8 b) ∧
      op.comparison? (utf8 a) (utf8 b) = op.comparison? (codePoints a) (codePoints b)) ∧
    IsStrictTotalOrder String fun a b => utf8 a < utf8 b := by
  refine ⟨fun line => ?_, fun token => ?_, fun op a b => ?_, ?_⟩
  · have hchars : tokenize line = (markedTokens charMark line.toList).map String.ofList :=
      (markedTokens_charMark line.toList).symm
    refine ⟨hchars, ?_⟩
    rw [utf8_eq_flatMap, carries_utf8.markedTokens_flatMap, hchars, List.map_map]
    simp [utf8_eq_flatMap]
  · refine ⟨(markedUnquote_charMark token).symm, ?_⟩
    rw [utf8_eq_flatMap, carries_utf8.markedUnquote_flatMap, markedUnquote_charMark,
      utf8_eq_flatMap]
  · rw [truth?_stringOperation, comparison?_of_monotone utf8_lt,
      comparison?_of_monotone codePoints_lt]
    exact ⟨rfl, rfl⟩
  · simp only [lt_iff_of_monotone utf8_lt]
    infer_instance

end Brewin
