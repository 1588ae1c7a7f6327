import Brewin.Proofs.BuiltinResults
import Brewin.Proofs.FlooredDivision
import Brewin.Proofs.StatementText
import Brewin.Proofs.TrimmedEnds
import Brewin.Proofs.WrappedArithmetic

namespace Brewin

/-- One or more decimal digits. -/
structure IsDigits (cs : List Char) : Prop where
  nonempty : cs ≠ []
  digits : ∀ c ∈ cs, c.isDigit = true

/-- The number that digits write, each of them counted by its place. -/
def placeValue : List Char → Nat
  | [] => 0
  | c :: cs => (c.toNat - '0'.toNat) * 10 ^ cs.length + placeValue cs

/-- Digits, with an optional minus in front, write an integer. -/
inductive Numeral : List Char → Int → Prop
  | digits {cs : List Char} : IsDigits cs → Numeral cs (placeValue cs)
  | minus {cs : List Char} : IsDigits cs → Numeral ('-' :: cs) (-(placeValue cs))

/-- A conversion takes a plus in front of the digits too. -/
inductive SignedNumeral : List Char → Int → Prop
  | plain {cs : List Char} {i : Int} : Numeral cs i → SignedNumeral cs i
  | plus {cs : List Char} : IsDigits cs → SignedNumeral ('+' :: cs) (placeValue cs)

/-- Reading from the left counts every digit by its place. -/
theorem ofDigitChars_eq (cs : List Char) (n : Nat) :
    Nat.ofDigitChars 10 cs n = n * 10 ^ cs.length + placeValue cs := by
  induction cs generalizing n with
  | nil => simp [placeValue]
  | cons c cs ih =>
    rw [Nat.ofDigitChars_cons, ih, placeValue, List.length_cons, Nat.pow_succ]
    ring

theorem readNat?_eq_some_iff {cs : List Char} {n : Nat} :
    readNat? cs = some n ↔ IsDigits cs ∧ n = placeValue cs := by
  have hvalue : cs.foldl (fun n c => 10 * n + (c.toNat - '0'.toNat)) 0 = placeValue cs := by
    have h := ofDigitChars_eq cs 0
    rw [Nat.zero_mul, Nat.zero_add] at h
    exact h
  unfold readNat?
  rw [hvalue]
  constructor
  · intro h
    split at h
    next hd =>
      cases h
      exact ⟨⟨hd.1, List.all_eq_true.mp hd.2⟩, rfl⟩
    next => cases h
  · rintro ⟨⟨hne, hall⟩, rfl⟩
    rw [if_pos ⟨hne, List.all_eq_true.mpr hall⟩]

theorem IsDigits.head {c : Char} {cs : List Char} (h : IsDigits (c :: cs)) :
    c.isDigit = true :=
  h.digits c List.mem_cons_self

/-- Digits that are read and then signed. -/
theorem map_readNat?_eq_some_iff {cs : List Char} {f : Int → Int} {i : Int} :
    (do return (← readNat? cs : Nat) : Option Int).map f = some i ↔
      IsDigits cs ∧ i = f (placeValue cs) := by
  cases h : readNat? cs with
  | none =>
    have hnot : ¬ IsDigits cs := fun hd => by
      rw [readNat?_eq_some_iff.mpr ⟨hd, rfl⟩] at h
      cases h
    simp [hnot]
  | some n =>
    obtain ⟨hd, rfl⟩ := readNat?_eq_some_iff.mp h
    simp [hd, eq_comm]

theorem readSigned?_eq_some_iff {cs : List Char} {i : Int} :
    readSigned? cs = some i ↔ SignedNumeral cs i := by
  constructor
  · intro h
    unfold readSigned? at h
    split at h
    next =>
      obtain ⟨hd, rfl⟩ := map_readNat?_eq_some_iff.mp h
      exact .plain (.minus hd)
    next =>
      obtain ⟨hd, rfl⟩ := map_readNat?_eq_some_iff.mp h
      exact .plus hd
    next =>
      obtain ⟨hd, rfl⟩ := map_readNat?_eq_some_iff.mp h
      exact .plain (.digits hd)
  · intro h
    cases h with
    | plain h =>
      cases h with
      | minus hd => exact map_readNat?_eq_some_iff.mpr ⟨hd, rfl⟩
      | digits hd =>
        unfold readSigned?
        split
        next => exact absurd hd.head (by decide)
        next => exact absurd hd.head (by decide)
        next => exact map_readNat?_eq_some_iff.mpr ⟨hd, rfl⟩
    | plus hd => exact map_readNat?_eq_some_iff.mpr ⟨hd, rfl⟩

theorem toInt64?_eq_some_iff {i : Int} {n : Int64} : toInt64? i = some n ↔ n.toInt = i := by
  unfold toInt64?
  constructor
  · intro h
    split at h
    next hfits =>
      cases h
      exact Int64.toInt_ofInt.trans (bmod_of_fits hfits)
    next => cases h
  · rintro rfl
    rw [if_pos (fits_toInt n), Int64.ofInt_toInt]

theorem readInt64?_eq_some_iff {s : String} {n : Int64} :
    readInt64? s = some n ↔ SignedNumeral s.toList n.toInt := by
  unfold readInt64?
  rw [Option.bind_eq_some_iff]
  constructor
  · rintro ⟨i, hi, hn⟩
    rw [toInt64?_eq_some_iff.mp hn]
    exact readSigned?_eq_some_iff.mp hi
  · intro h
    exact ⟨n.toInt, readSigned?_eq_some_iff.mpr h, toInt64?_eq_some_iff.mpr rfl⟩

theorem isSome_readNat?_iff {cs : List Char} : (readNat? cs).isSome = true ↔ IsDigits cs := by
  rw [Option.isSome_iff_exists]
  constructor
  · rintro ⟨n, hn⟩
    exact (readNat?_eq_some_iff.mp hn).1
  · intro h
    exact ⟨placeValue cs, readNat?_eq_some_iff.mpr ⟨h, rfl⟩⟩

theorem isIntLiteral_iff {token : String} :
    isIntLiteral token = true ↔ ∃ i, Numeral token.toList i := by
  unfold isIntLiteral
  generalize token.toList = cs
  constructor
  · intro h
    split at h
    next => exact ⟨_, .minus (isSome_readNat?_iff.mp h)⟩
    next => exact ⟨_, .digits (isSome_readNat?_iff.mp h)⟩
  · rintro ⟨i, h⟩
    cases h with
    | minus hd => exact isSome_readNat?_iff.mpr hd
    | digits hd =>
      split
      next => exact absurd hd.head (by decide)
      next => exact isSome_readNat?_iff.mpr hd

/-- A numeral is read as its value, if this is in range. -/
theorem readLiteral_of_numeral {token : String} {i : Int} (h : Numeral token.toList i) :
    readLiteral token =
      if FitsInt64 i then .value (.int (Int64.ofInt i)) else .outOfRange := by
  have hint : isIntLiteral token = true := isIntLiteral_iff.mpr ⟨i, h⟩
  have hread : readInt64? token = toInt64? i := by
    rw [readInt64?, readSigned?_eq_some_iff.mpr (.plain h), Option.bind_some]
  simp only [readLiteral, isStringLiteral_of_isIntLiteral hint, hint, hread, toInt64?]
  by_cases hfits : FitsInt64 i
  · simp only [if_pos hfits]
    rfl
  · simp only [if_neg hfits]
    rfl

/-- Only numerals are read as numbers, in range or not. -/
theorem exists_numeral_of_readLiteral {token : String}
    (h : (∃ n, readLiteral token = .value (.int n)) ∨ readLiteral token = .outOfRange) :
    ∃ i, Numeral token.toList i := by
  apply isIntLiteral_iff.mp
  unfold readLiteral at h
  by_cases hint : isIntLiteral token = true
  · exact hint
  · rw [if_neg hint] at h
    (repeat' split at h) <;> simp at h

/-- An integer is written as a numeral. -/
theorem numeral_toString (i : Int) : Numeral (toString i).toList i := by
  have hdigits : ∀ m : Nat, IsDigits m.repr.toList ∧ placeValue m.repr.toList = m := by
    intro m
    have hvalue := ofDigitChars_eq (Nat.toDigits 10 m) 0
    rw [Nat.ofDigitChars_ten_toDigits, Nat.zero_mul, Nat.zero_add] at hvalue
    rw [Nat.toList_repr]
    refine ⟨⟨Nat.toDigits_ne_nil, fun c hc => ?_⟩, hvalue.symm⟩
    exact Nat.isDigit_of_mem_toDigits (by decide) (by decide) hc
  show Numeral (Int.repr i).toList i
  cases i with
  | ofNat m =>
    obtain ⟨hd, hvalue⟩ := hdigits m
    have h := Numeral.digits hd
    rw [hvalue] at h
    exact h
  | negSucc m =>
    obtain ⟨hd, hvalue⟩ := hdigits (m + 1)
    have h := Numeral.minus hd
    rw [hvalue] at h
    simp only [Int.repr, String.toList_append]
    exact h

theorem numeral_text (n : Int64) : Numeral (Value.int n).text.toList n.toInt :=
  numeral_toString n.toInt

theorem isBlank_of_isDigit {c : Char} (h : c.isDigit = true) : isBlank c = false := by
  have hrange : 48 ≤ c.toNat ∧ c.toNat ≤ 57 := by
    simp only [Char.isDigit, Bool.and_eq_true, decide_eq_true_eq] at h
    exact h
  simp only [isBlank, Bool.or_eq_false_iff, Bool.and_eq_false_iff, decide_eq_false_iff_not,
    beq_eq_false_iff_ne]
  omega

theorem Numeral.not_blank {cs : List Char} {i : Int} (h : Numeral cs i) :
    ∀ c ∈ cs, isBlank c = false := by
  cases h with
  | digits hd => exact fun c hc => isBlank_of_isDigit (hd.digits c hc)
  | minus hd =>
    intro c hc
    rcases List.mem_cons.mp hc with rfl | hc
    · decide
    · exact isBlank_of_isDigit (hd.digits c hc)

/-- A word between blanks is what trimming leaves. -/
theorem trimmed_of_word {front back word : String} (hfront : ∀ c ∈ front.toList, isBlank c = true)
    (hback : ∀ c ∈ back.toList, isBlank c = true) (hword : ∀ c ∈ word.toList, isBlank c = false) :
    Trimmed (front ++ word ++ back) word := by
  refine ⟨⟨front.toList, back.toList, by simp, hfront, hback⟩, fun c hc => ?_, fun c hc => ?_⟩
  · exact hword c (List.mem_of_head? hc)
  · exact hword c (List.mem_of_getLast? hc)

/-- The text has a number between blanks that a conversion can read. -/
def HoldsNumber (text : String) (n : Int64) : Prop :=
  ∃ word, Trimmed text word ∧ SignedNumeral word.toList n.toInt

theorem readInt64?_trim_eq_some_iff {text : String} {n : Int64} :
    readInt64? (trim text) = some n ↔ HoldsNumber text n := by
  rw [readInt64?_eq_some_iff]
  constructor
  · intro h
    exact ⟨trim text, trimmed_trim text, h⟩
  · rintro ⟨word, hword, h⟩
    rwa [hword.eq_trim]

section

variable {p : Program} {o : Options} {st : State} {token text : String}

theorem strToInt_stores (hx : st.exhausted o = false)
    (hat : p.at? st.ip = some (.call "strtoint" [token]))
    (hv : st.scopes.operand token = .ok (.string text)) {n : Int64} (h : HoldsNumber text n) :
    (st.step p o).signal = .running ∧
      (st.step p o).state.scopes.HoldsAtBase "resulti" (.int n) := by
  have hread := readInt64?_trim_eq_some_iff.mpr h
  have heffect : st.workspace.builtin .strToInt [token] =
      ⟨{ st.workspace with scopes := st.scopes.setResult (.int n) }, none⟩ := by
    change st.workspace.scopes.operand token = _ at hv
    simp only [Workspace.builtin, Workspace.strToInt, hv, hread]
    rfl
  obtain ⟨hworkspace, hrunning, -⟩ := step_of_builtin hx hat (Builtin.ofName?_spelling .strToInt)
  rw [heffect] at hworkspace hrunning
  refine ⟨hrunning rfl, ?_⟩
  rw [State.scopes, hworkspace]
  exact st.scopes.holds_setResult rfl

theorem strToInt_fails (hx : st.exhausted o = false)
    (hat : p.at? st.ip = some (.call "strtoint" [token]))
    (hv : st.scopes.operand token = .ok (.string text)) (h : ∀ n, ¬ HoldsNumber text n) :
    (st.step p o).signal = .failed ⟨st.ip, .notANumber text⟩ := by
  have hread : readInt64? (trim text) = none := by
    rw [Option.eq_none_iff_forall_ne_some]
    intro n hn
    exact h n (readInt64?_trim_eq_some_iff.mp hn)
  have heffect : st.workspace.builtin .strToInt [token] =
      ⟨st.workspace, some (.notANumber text)⟩ := by
    change st.workspace.scopes.operand token = _ at hv
    simp only [Workspace.builtin, Workspace.strToInt, hv, hread]
    rfl
  obtain ⟨-, -, hfailed⟩ := step_of_builtin hx hat (Builtin.ofName?_spelling .strToInt)
  rw [heffect] at hfailed
  exact hfailed _ rfl

end

/-- A text between quotes, without a quote of its own, is one token. -/
theorem wholeToken_quotation {s : String} (h : '"' ∉ s.toList) :
    WholeToken ("\"" ++ s ++ "\"") := by
  have hchars : ("\"" ++ s ++ "\"").toList = '"' :: (s.toList ++ ['"']) := by simp
  have hcount : s.toList.count '"' = 0 := List.count_eq_zero.mpr h
  refine ⟨by simp [hchars], ?_, ?_⟩
  · intro k c hc heven
    rw [hchars] at hc heven
    cases k with
    | zero =>
      cases hc
      rintro (hs | hs)
      · exact absurd hs (by decide)
      · exact absurd hs (by decide)
    | succ k =>
      -- Behind the first quote the text is quoted, up to the last one.
      have hlt := (List.getElem?_eq_some_iff.mp hc).1
      simp only [List.length_cons, List.length_append, List.length_nil] at hlt
      have hle : k ≤ s.toList.length := by omega
      have htake : (s.toList.take k).count '"' = 0 := by
        rw [List.count_eq_zero]
        exact fun hm => h (List.mem_of_mem_take hm)
      rw [List.take_succ_cons, List.take_append_of_le_length hle, List.count_cons_self, htake]
        at heven
      omega
  · rw [hchars, List.count_cons_self, List.count_append, hcount]
    decide

theorem readLiteral_quotation (s : String) :
    readLiteral ("\"" ++ s ++ "\"") = .value (.string s) := by
  have hchars : ("\"" ++ s ++ "\"").toList = '"' :: (s.toList ++ ['"']) := by simp
  have hstring : isStringLiteral ("\"" ++ s ++ "\"") = true := by
    rw [isStringLiteral, hchars]
    simp
  have hunquote : unquote ("\"" ++ s ++ "\"") = s := by
    rw [unquote, if_pos hstring, hchars]
    simp
  rw [readLiteral, if_pos hstring, hunquote]

/-- What is printed can be read again. A value written as a literal is read as itself, and the
numerals are read as their values in the range of 64 bits. A conversion reads what stands between
blanks, and nothing else. -/
theorem value_text_reads_back :
    (∀ n : Int64, readLiteral (Value.int n).text = .value (.int n)) ∧
    (∀ b : Bool, readLiteral (Value.bool b).text = .value (.bool b)) ∧
    (∀ s : String, '"' ∉ s.toList → tokenize ("\"" ++ s ++ "\"") = ["\"" ++ s ++ "\""] ∧
      readLiteral ("\"" ++ s ++ "\"") = .value (.string s)) ∧
    (∀ token : String,
      ((∃ n, readLiteral token = .value (.int n)) ∨ readLiteral token = .outOfRange) ↔
        ∃ i, Numeral token.toList i) ∧
    (∀ (token : String) (i : Int), Numeral token.toList i →
      (-2 ^ 63 ≤ i ∧ i ≤ 2 ^ 63 - 1 →
        ∃ n : Int64, readLiteral token = .value (.int n) ∧ n.toInt = i) ∧
      (¬ (-2 ^ 63 ≤ i ∧ i ≤ 2 ^ 63 - 1) → readLiteral token = .outOfRange)) ∧
    ∀ (p : Program) (o : Options) (st : State) (token text : String), st.exhausted o = false →
      p.at? st.ip = some (.call "strtoint" [token]) →
      st.scopes.operand token = .ok (.string text) →
      (∀ n : Int64, ((st.step p o).signal = .running ∧
        (st.step p o).state.scopes.HoldsAtBase "resulti" (.int n)) ↔ HoldsNumber text n) ∧
      ((∀ n, ¬ HoldsNumber text n) →
        ∃ fault, (st.step p o).signal = .failed fault ∧ fault.kind = .type) ∧
      ∀ (n : Int64) (front back : String), (∀ c ∈ front.toList, isBlank c = true) →
        (∀ c ∈ back.toList, isBlank c = true) → text = front ++ (Value.int n).text ++ back →
        (st.step p o).signal = .running ∧
          (st.step p o).state.scopes.HoldsAtBase "resulti" (.int n) := by
  have hfits : ∀ i : Int, (-2 ^ 63 ≤ i ∧ i ≤ 2 ^ 63 - 1) ↔ FitsInt64 i := by
    intro i
    constructor
    · rintro ⟨hlow, hhigh⟩
      exact ⟨by omega, by omega⟩
    · rintro ⟨hlow, hhigh⟩
      exact ⟨by omega, by omega⟩
  refine ⟨fun n => ?_, fun b => ?_, fun s hs => ?_, fun token => ?_, fun token i h => ?_, ?_⟩
  · rw [readLiteral_of_numeral (numeral_text n), if_pos (fits_toInt n), Int64.ofInt_toInt]
  · cases b <;> decide
  · have hwhole : ∀ part ∈ ["\"" ++ s ++ "\""], WholeToken part := by
      intro part hpart
      cases List.mem_singleton.mp hpart
      exact wholeToken_quotation hs
    exact ⟨(isSpaced_single _).tokenize_eq hwhole (by simp), readLiteral_quotation s⟩
  · constructor
    · exact exists_numeral_of_readLiteral
    · rintro ⟨i, h⟩
      rw [readLiteral_of_numeral h]
      by_cases hi : FitsInt64 i
      · exact Or.inl ⟨_, if_pos hi⟩
      · exact Or.inr (if_neg hi)
  · rw [hfits, readLiteral_of_numeral h]
    constructor
    · intro hi
      exact ⟨_, if_pos hi, Int64.toInt_ofInt.trans (bmod_of_fits hi)⟩
    · intro hi
      exact if_neg hi
  · intro p o st token text hx hat hv
    have hstores := fun n => strToInt_stores hx hat hv (n := n)
    have hfails := strToInt_fails hx hat hv
    refine ⟨fun n => ⟨?_, hstores n⟩, fun h => ⟨_, hfails h, rfl⟩, ?_⟩
    · rintro ⟨hrunning, hholds⟩
      by_cases hnone : ∀ m, ¬ HoldsNumber text m
      · rw [hfails hnone] at hrunning
        cases hrunning
      · obtain ⟨m, hm⟩ := not_forall_not.mp hnone
        cases (hstores m hm).2.unique hholds
        exact hm
    · intro n front back hfront hback htext
      have hnumeral := numeral_text n
      have hword := trimmed_of_word hfront hback hnumeral.not_blank
      apply hstores
      rw [htext]
      exact ⟨(Value.int n).text, hword, .plain hnumeral⟩

/-- A main function that converts a text with a sign and blanks. -/
def converts : Program :=
  .ofStream [["func", "main", "void"], ["funccall", "strtoint", "\" +12\t\""], ["endfunc"]]

/-- The state in which the sample makes its conversion. -/
def convertsCall : State :=
  { ip := 1, steps := 1, workspace := { scopes := .start mainFunction noLine } }

theorem value_text_reads_back_signed :
    readLiteral (Value.int Int64.minValue).text = .value (.int Int64.minValue) ∧
    readLiteral "-9223372036854775809" = .outOfRange ∧
    tokenize "\"a # b\"" = ["\"a # b\""] ∧
    (convertsCall.step converts {}).signal = .running ∧
    (convertsCall.step converts {}).state.scopes.HoldsAtBase "resulti" (.int 12) := by
  obtain ⟨hint, -, hstring, -, hrange, hconvert⟩ := value_text_reads_back
  have hbelow : Numeral "-9223372036854775809".toList (-9223372036854775809) := by
    have hdigits : IsDigits "9223372036854775809".toList :=
      ⟨by decide, List.all_eq_true.mp (by decide +kernel)⟩
    exact .minus hdigits
  have hat : converts.at? convertsCall.ip = some (.call "strtoint" ["\" +12\t\""]) := by
    decide +kernel
  have hoperand : convertsCall.scopes.operand "\" +12\t\"" = .ok (.string " +12\t") := by
    decide +kernel
  have hholds : HoldsNumber " +12\t" 12 := by
    have hdigits : IsDigits "12".toList := ⟨by decide, List.all_eq_true.mp (by decide +kernel)⟩
    have htrimmed : Trimmed " +12\t" "+12" := by
      refine ⟨⟨[' '], ['\t'], by decide, ?_, ?_⟩, ?_, ?_⟩
      · simp [isBlank]
      · simp [isBlank]
      · simp [isBlank]
      · simp [isBlank]
    exact ⟨"+12", htrimmed, .plus hdigits⟩
  obtain ⟨hrunning, hstored⟩ :=
    ((hconvert converts {} convertsCall _ _ (by decide) hat hoperand).1 12).mpr hholds
  exact ⟨hint _, (hrange _ _ hbelow).2 (by decide), (hstring "a # b" (by decide)).1, hrunning,
    hstored⟩

end Brewin
