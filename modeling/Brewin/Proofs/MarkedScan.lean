import Brewin.Proofs.UniqueLayout

namespace Brewin

/-- What the tokenizer sees in a symbol. -/
inductive Mark
  | separator | comment | quote | none
  deriving DecidableEq, Repr

/-- The mark of a symbol by its number. -/
def Mark.ofNumber (n : Nat) : Mark :=
  if n = 0x20 ∨ n = 0x09 ∨ n = 0x0d ∨ n = 0x0a then separator
  else if n = 0x23 then comment
  else if n = 0x22 then quote
  else none

section Scan

variable {α : Type} (mark : α → Mark)

/-- The symbol ends a token, unless it is quoted. -/
def ends (a : α) : Bool :=
  mark a == .separator || mark a == .comment

/-- Splits off one token: it reaches up to the first symbol outside quotes that ends it. The flag
says whether a quote is open. -/
def takeMarked : Bool → List α → List α × List α
  | _, [] => ([], [])
  | quoted, a :: rest =>
    if !quoted && ends mark a then ([], a :: rest)
    else
      let (token, rest) := takeMarked (quoted != (mark a == .quote)) rest
      (a :: token, rest)

theorem length_takeMarked_le (quoted : Bool) (xs : List α) :
    (takeMarked mark quoted xs).2.length ≤ xs.length := by
  induction xs generalizing quoted with
  | nil => exact Nat.le_refl 0
  | cons a rest ih =>
    rw [takeMarked]
    split
    · exact Nat.le_refl _
    · exact Nat.le_succ_of_le (ih _)

variable {mark}

theorem length_takeMarked_lt {a : α} (h : ends mark a = false) (rest : List α) :
    (takeMarked mark false (a :: rest)).2.length < (a :: rest).length := by
  simp only [takeMarked, h, Bool.and_false, Bool.false_eq_true, ↓reduceIte]
  exact Nat.lt_succ_of_le (length_takeMarked_le mark _ rest)

theorem ends_of_dropWhile {xs rest : List α} {a : α}
    (h : xs.dropWhile (mark · == .separator) = a :: rest) (hc : mark a ≠ .comment) :
    ends mark a = false := by
  have hs := List.head?_dropWhile_not (mark · == .separator) xs
  simp only [h, List.head?_cons] at hs
  simpa [ends, hc] using hs

variable (mark)

/-- The tokens of a text. Separators in front are passed, and a comment ends the text. -/
def markedTokens (xs : List α) : List (List α) :=
  match _h : xs.dropWhile (mark · == .separator) with
  | [] => []
  | a :: rest =>
    if _hc : mark a = .comment then []
    else
      (takeMarked mark false (a :: rest)).1 ::
        markedTokens (takeMarked mark false (a :: rest)).2
termination_by xs.length
decreasing_by
  have hlt := length_takeMarked_lt (ends_of_dropWhile _h _hc) rest
  have hle := (List.dropWhile_sublist (mark · == .separator) (l := xs)).length_le
  rw [_h] at hle
  omega

variable {mark}

theorem takeMarked_cons_of_none {a : α} (h : mark a = .none) (quoted : Bool) (rest : List α) :
    takeMarked mark quoted (a :: rest) =
      (a :: (takeMarked mark quoted rest).1, (takeMarked mark quoted rest).2) := by
  have hquote : (quoted != (mark a == .quote)) = quoted := by
    rw [h]
    exact Bool.xor_false quoted
  rw [takeMarked, hquote]
  simp [ends, h]

theorem markedTokens_of_nil {xs : List α} (h : xs.dropWhile (mark · == .separator) = []) :
    markedTokens mark xs = [] := by
  rw [markedTokens]
  split
  next => rfl
  next h' => cases h.symm.trans h'

theorem markedTokens_of_cons {xs rest : List α} {a : α}
    (h : xs.dropWhile (mark · == .separator) = a :: rest) :
    markedTokens mark xs =
      if mark a = .comment then []
      else
        (takeMarked mark false (a :: rest)).1 ::
          markedTokens mark (takeMarked mark false (a :: rest)).2 := by
  rw [markedTokens]
  split
  next h' => cases h.symm.trans h'
  next h' =>
    cases h.symm.trans h'
    rfl

variable (mark)

/-- Takes the quotes off a token that starts with one and ends with another. -/
def markedUnquote (token : List α) : List α :=
  if 2 ≤ token.length ∧ token.head?.map mark = some .quote ∧
      token.getLast?.map mark = some .quote then
    token.tail.dropLast
  else token

end Scan

section Characters

/-- Characters are marked by their code points. -/
def charMark (c : Char) : Mark :=
  .ofNumber c.toNat

theorem charMark_eq (c : Char) :
    charMark c =
      if isSeparator c then .separator
      else if c = '#' then .comment
      else if c = '"' then .quote
      else .none := by
  have hsame : ∀ d : Char, c.toNat = d.toNat ↔ c = d := fun d => Char.toNat_inj
  have hspace := hsame ' '
  have htab := hsame '\t'
  have hreturn := hsame '\r'
  have hfeed := hsame '\n'
  have hsign := hsame '#'
  have hquote := hsame '"'
  simp only [Char.reduceToNat] at hspace htab hreturn hfeed hsign hquote
  simp [charMark, Mark.ofNumber, isSeparator, hspace, htab, hreturn, hfeed, hsign, hquote, or_assoc]

theorem charMark_separator (c : Char) : (charMark c == .separator) = isSeparator c := by
  rw [charMark_eq]
  (repeat' split) <;> simp_all

theorem charMark_comment (c : Char) : (charMark c == .comment) = (c == '#') := by
  rw [charMark_eq]
  by_cases hc : c = '#'
  · subst hc
    rfl
  · (repeat' split) <;> simp_all

theorem charMark_quote (c : Char) : (charMark c == .quote) = (c == '"') := by
  rw [charMark_eq]
  by_cases hc : c = '"'
  · subst hc
    rfl
  · (repeat' split) <;> simp_all

theorem takeMarked_charMark (quoted : Bool) (cs : List Char) :
    takeMarked charMark quoted cs = takeToken quoted cs := by
  induction cs generalizing quoted with
  | nil => rfl
  | cons c rest ih =>
    rw [takeMarked, takeToken, ends, charMark_separator, charMark_comment, charMark_quote, ih]

/-- The tokens of a line are those of its characters. -/
theorem markedTokens_charMark (cs : List Char) :
    (markedTokens charMark cs).map String.ofList = (Cursor.mk cs).tokens := by
  have hskip : ∀ cs : List Char,
      (Cursor.mk cs).skipSeparators.rest = cs.dropWhile (charMark · == .separator) := by
    intro cs
    simp only [charMark_separator]
    rfl
  fun_induction markedTokens charMark cs with
  | case1 cs h =>
    have hnext : (Cursor.mk cs).next = (none, ⟨[]⟩) := by
      rw [Cursor.next, hskip, h]
    rw [Cursor.tokens_of_none hnext]
    rfl
  | case2 cs c rest h hc =>
    have hsign : c = '#' := by
      rw [← beq_iff_eq, charMark_comment] at hc
      exact beq_iff_eq.mp hc
    have hnext : (Cursor.mk cs).next = (none, ⟨[]⟩) := by
      rw [Cursor.next, hskip, h, hsign]
      rfl
    rw [Cursor.tokens_of_none hnext]
    rfl
  | case3 cs c rest h hc ih =>
    have hsign : c ≠ '#' := by
      rintro rfl
      exact hc rfl
    have hnext : (Cursor.mk cs).next =
        (some (String.ofList (takeMarked charMark false (c :: rest)).1),
          ⟨(takeMarked charMark false (c :: rest)).2⟩) := by
      rw [Cursor.next, hskip, h, takeMarked_charMark]
      simp [hsign]
    rw [Cursor.tokens_of_some hnext, ← ih]
    rfl

theorem markedUnquote_charMark (token : String) :
    markedUnquote charMark token.toList = (unquote token).toList := by
  have hquote : ∀ c, charMark c = .quote ↔ c = '"' := by
    intro c
    rw [← beq_iff_eq, charMark_quote, beq_iff_eq]
  have hliteral : isStringLiteral token = true ↔ 2 ≤ token.toList.length ∧
      token.toList.head?.map charMark = some .quote ∧
      token.toList.getLast?.map charMark = some .quote := by
    unfold isStringLiteral
    split
    next rest heq =>
      cases rest with
      | nil => simp [heq]
      | cons c rest => simp [heq, hquote, List.getLast?_cons_cons]
    next hne =>
      cases hcs : token.toList with
      | nil => simp
      | cons c rest =>
        have hc : c ≠ '"' := fun h => hne rest (h ▸ hcs)
        simp [hquote, hc]
  unfold markedUnquote unquote
  by_cases h : isStringLiteral token = true
  · rw [if_pos h, if_pos (hliteral.mp h), String.toList_ofList]
  · rw [if_neg h, if_neg fun hq => h (hliteral.mpr hq)]

end Characters

section Coding

variable {α β : Type}

/-- A code carries marks: a marked symbol becomes one symbol with the same mark, and in the code of
any other symbol nothing is marked. -/
def Carries (mark : α → Mark) (mark' : β → Mark) (code : α → List β) : Prop :=
  ∀ a, (∃ b, code a = [b] ∧ mark' b = mark a) ∨
    mark a = .none ∧ code a ≠ [] ∧ ∀ b ∈ code a, mark' b = .none

variable {mark : α → Mark} {mark' : β → Mark} {code : α → List β}

namespace Carries

theorem singleton (h : Carries mark mark' code) {a : α} (ha : mark a ≠ .none) :
    ∃ b, code a = [b] := by
  rcases h a with ⟨b, hcode, -⟩ | ⟨hnone, -⟩
  · exact ⟨b, hcode⟩
  · exact absurd hnone ha

/-- The first symbol of a code has the mark of what it stands for. -/
theorem cons (h : Carries mark mark' code) (a : α) :
    ∃ b bs, code a = b :: bs ∧ mark' b = mark a := by
  rcases h a with ⟨b, hcode, hmark⟩ | ⟨hmark, hne, hplain⟩
  · exact ⟨b, [], hcode, hmark⟩
  · obtain ⟨b, bs, hcode⟩ := List.exists_cons_of_ne_nil hne
    refine ⟨b, bs, hcode, ?_⟩
    rw [hmark, hplain b (by simp [hcode])]

theorem concat (h : Carries mark mark' code) (a : α) :
    ∃ bs b, code a = bs ++ [b] ∧ mark' b = mark a := by
  rcases h a with ⟨b, hcode, hmark⟩ | ⟨hmark, hne, hplain⟩
  · exact ⟨[], b, hcode, hmark⟩
  · refine ⟨(code a).dropLast, (code a).getLast hne, (List.dropLast_concat_getLast hne).symm, ?_⟩
    rw [hmark, hplain _ (List.getLast_mem hne)]

theorem takeMarked_append {xs : List β} (h : ∀ b ∈ xs, mark' b = .none) (quoted : Bool)
    (rest : List β) :
    takeMarked mark' quoted (xs ++ rest) =
      (xs ++ (takeMarked mark' quoted rest).1, (takeMarked mark' quoted rest).2) := by
  induction xs with
  | nil => rfl
  | cons b xs ih =>
    rw [List.cons_append, takeMarked_cons_of_none (h b List.mem_cons_self),
      ih fun x hx => h x (List.mem_cons_of_mem b hx), List.cons_append]

theorem takeMarked_flatMap (h : Carries mark mark' code) (quoted : Bool) (xs : List α) :
    takeMarked mark' quoted (xs.flatMap code) =
      ((takeMarked mark quoted xs).1.flatMap code, (takeMarked mark quoted xs).2.flatMap code) := by
  induction xs generalizing quoted with
  | nil => rfl
  | cons a xs ih =>
    rw [List.flatMap_cons]
    rcases h a with ⟨b, hcode, hmark⟩ | ⟨hmark, -, hplain⟩
    · rw [hcode, List.singleton_append, takeMarked, takeMarked, ends, ends, hmark]
      split
      · simp [hcode]
      · simp [ih, hcode]
    · rw [takeMarked_append hplain, ih, takeMarked_cons_of_none hmark, List.flatMap_cons]

theorem dropWhile_flatMap (h : Carries mark mark' code) (xs : List α) :
    (xs.flatMap code).dropWhile (mark' · == .separator) =
      (xs.dropWhile (mark · == .separator)).flatMap code := by
  induction xs with
  | nil => rfl
  | cons a xs ih =>
    by_cases hsep : mark a = .separator
    · obtain ⟨b, hcode⟩ := h.singleton (a := a) (by simp [hsep])
      obtain ⟨_, _, hcons, hmark⟩ := h.cons a
      cases hcode.symm.trans hcons
      simp [hcode, hmark, hsep, ih]
    · obtain ⟨b, bs, hcode, hmark⟩ := h.cons a
      simp [hcode, hmark, hsep]

/-- The tokens of a coded text are the coded tokens. -/
theorem markedTokens_flatMap (h : Carries mark mark' code) (xs : List α) :
    markedTokens mark' (xs.flatMap code) = (markedTokens mark xs).map (·.flatMap code) := by
  fun_induction markedTokens mark xs with
  | case1 xs hdrop => exact markedTokens_of_nil (by rw [h.dropWhile_flatMap, hdrop]; rfl)
  | case2 xs a rest hdrop hc =>
    obtain ⟨b, bs, hcode, hmark⟩ := h.cons a
    have hdrop' := h.dropWhile_flatMap xs
    rw [hdrop, List.flatMap_cons, hcode, List.cons_append] at hdrop'
    rw [markedTokens_of_cons hdrop', if_pos (hmark.trans hc)]
    rfl
  | case3 xs a rest hdrop hc ih =>
    obtain ⟨b, bs, hcode, hmark⟩ := h.cons a
    have hdrop' := h.dropWhile_flatMap xs
    have hfirst : (a :: rest).flatMap code = b :: (bs ++ rest.flatMap code) := by
      rw [List.flatMap_cons, hcode, List.cons_append]
    rw [hdrop, hfirst] at hdrop'
    rw [markedTokens_of_cons hdrop', if_neg (by rwa [hmark]), ← hfirst, h.takeMarked_flatMap, ih]
    rfl

theorem head?_flatMap (h : Carries mark mark' code) (xs : List α) :
    (xs.flatMap code).head?.map mark' = xs.head?.map mark := by
  cases xs with
  | nil => rfl
  | cons a xs =>
    obtain ⟨b, bs, hcode, hmark⟩ := h.cons a
    simp [hcode, hmark]

theorem getLast?_flatMap (h : Carries mark mark' code) (xs : List α) :
    (xs.flatMap code).getLast?.map mark' = xs.getLast?.map mark := by
  rcases List.eq_nil_or_concat xs with rfl | ⟨front, a, rfl⟩
  · rfl
  · obtain ⟨bs, b, hcode, hmark⟩ := h.concat a
    simp [hcode, hmark]

/-- Without its quotes a coded token is the coded token without its quotes. -/
theorem markedUnquote_flatMap (h : Carries mark mark' code) (token : List α) :
    markedUnquote mark' (token.flatMap code) = (markedUnquote mark token).flatMap code := by
  unfold markedUnquote
  rw [h.head?_flatMap, h.getLast?_flatMap]
  rcases token with - | ⟨a, rest⟩
  · rfl
  rcases List.eq_nil_or_concat rest with rfl | ⟨inner, z, rfl⟩
  · -- A quote that stands alone is one symbol in the code too, so it stays.
    by_cases ha : mark a = .quote
    · obtain ⟨b, hcode⟩ := h.singleton (a := a) (by simp [ha])
      simp [hcode]
    · simp [ha]
  · have hlast : (a :: (inner ++ [z])).getLast? = some z := by
      rw [← List.cons_append, List.getLast?_concat]
    rw [List.concat_eq_append, List.head?_cons, hlast]
    by_cases hquotes : mark a = .quote ∧ mark z = .quote
    · obtain ⟨b, hb⟩ := h.singleton (a := a) (by simp [hquotes])
      obtain ⟨c, hc⟩ := h.singleton (a := z) (by simp [hquotes])
      simp [hb, hc, hquotes]
    · have hnone : ¬ ((some a).map mark = some .quote ∧ (some z).map mark = some .quote) := by
        simpa using hquotes
      rw [if_neg fun hall => hnone hall.2, if_neg fun hall => hnone hall.2]

end Carries

end Coding

end Brewin
