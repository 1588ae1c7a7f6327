import Brewin.Proofs.LineLayout

namespace Brewin

namespace Cursor

theorem tokens_of_none {c d : Cursor} (h : c.next = (none, d)) : c.tokens = [] := by
  rw [tokens]
  split
  next => rfl
  next token e hsome => cases h.symm.trans hsome

theorem tokens_of_some {c d : Cursor} {token : String} (h : c.next = (some token, d)) :
    c.tokens = token :: d.tokens := by
  rw [tokens]
  split
  next e hnone => cases h.symm.trans hnone
  next token' e hsome =>
    cases h.symm.trans hsome
    rfl

end Cursor

namespace Layout

variable {lead comment : List Char} {p : Piece} {pieces : List Piece}

theorem Lexical.next_nil (h : Lexical ⟨lead, [], comment⟩) :
    (Cursor.mk (chars ⟨lead, [], comment⟩)).next = (none, ⟨[]⟩) := by
  have hskip : (Cursor.mk (chars ⟨lead, [], comment⟩)).skipSeparators.rest = comment := h.dropWhile
  unfold Cursor.next
  rw [hskip]
  cases hcomment : comment with
  | nil => rfl
  | cons c rest =>
    have hsign : c = '#' := h.comment c (by rw [hcomment]; rfl)
    simp [hsign]

theorem Lexical.next_cons (h : Lexical ⟨lead, p :: pieces, comment⟩) :
    (Cursor.mk (chars ⟨lead, p :: pieces, comment⟩)).next =
      (some (String.ofList p.token), ⟨(behind p pieces comment).chars⟩) := by
  obtain ⟨c, rest, htoken, hstops⟩ := h.head_token
  have hbody : body ⟨lead, p :: pieces, comment⟩ =
      c :: (rest ++ (behind p pieces comment).chars) := by
    rw [body_cons, htoken]
    rfl
  have hskip : (Cursor.mk (chars ⟨lead, p :: pieces, comment⟩)).skipSeparators.rest =
      c :: (rest ++ (behind p pieces comment).chars) := h.dropWhile.trans hbody
  have htake := h.takeToken
  rw [hbody] at htake
  have hsign : c ≠ '#' := fun hc => hstops (Or.inr hc)
  unfold Cursor.next
  simp only [hskip, if_neg hsign, htake]

/-- The tokenizer finds the tokens of every layout that follows the rules. -/
theorem Lexical.tokens_eq {d : Layout} (h : d.Lexical) : (Cursor.mk d.chars).tokens = d.tokens := by
  obtain ⟨lead, pieces, comment⟩ := d
  induction pieces generalizing lead with
  | nil => exact Cursor.tokens_of_none h.next_nil
  | cons p pieces ih =>
    obtain ⟨-, -, -, -, -, hrest⟩ := lexical_cons_iff.mp h
    rw [Cursor.tokens_of_some h.next_cons, ih p.gap hrest]
    rfl

theorem Lexical.body_nil_ne_cons {lead' comment' : List Char} (h : Lexical ⟨lead, [], comment⟩)
    (h' : Lexical ⟨lead', p :: pieces, comment'⟩) :
    body ⟨lead, [], comment⟩ ≠ body ⟨lead', p :: pieces, comment'⟩ := by
  intro heq
  obtain ⟨c, rest, htoken, hstops⟩ := h'.head_token
  rw [body_cons, htoken] at heq
  have hhead : comment.head? = some c := by
    change comment = _ at heq
    rw [heq]
    rfl
  exact hstops (Or.inr (h.comment c hhead))

/-- A line has only one layout that follows the rules. -/
theorem Lexical.unique {d e : Layout} (hd : d.Lexical) (he : e.Lexical)
    (h : d.chars = e.chars) : d = e := by
  obtain ⟨lead, pieces, comment⟩ := d
  obtain ⟨lead', pieces', comment'⟩ := e
  induction pieces generalizing lead lead' pieces' with
  | nil =>
    have hlead : lead = lead' := hd.takeWhile.symm.trans (h ▸ he.takeWhile)
    have hbody := hd.dropWhile.symm.trans (h ▸ he.dropWhile)
    cases pieces' with
    | nil =>
      have hcomment : comment = comment' := hbody
      rw [hlead, hcomment]
    | cons q pieces' => exact absurd hbody (hd.body_nil_ne_cons he)
  | cons p pieces ih =>
    have hlead : lead = lead' := hd.takeWhile.symm.trans (h ▸ he.takeWhile)
    have hbody := hd.dropWhile.symm.trans (h ▸ he.dropWhile)
    cases pieces' with
    | nil => exact absurd hbody.symm (he.body_nil_ne_cons hd)
    | cons q pieces' =>
      have htake := hd.takeToken.symm.trans (hbody ▸ he.takeToken)
      obtain ⟨htoken, hrest⟩ := Prod.mk.inj htake
      obtain ⟨-, -, -, -, -, hdrest⟩ := lexical_cons_iff.mp hd
      obtain ⟨-, -, -, -, -, herest⟩ := lexical_cons_iff.mp he
      have htail := ih p.gap hdrest q.gap pieces' herest hrest
      obtain ⟨token, gap⟩ := p
      obtain ⟨token', gap'⟩ := q
      cases htail
      cases htoken
      rw [hlead]

/-- A token that is taken off goes in front of a layout of the rest. -/
theorem Lexical.cons_takeToken {c : Char} {rest gap : List Char} (hpass : ¬ Stops c)
    (hlead : ∀ a ∈ lead, Separates a) (h : Lexical ⟨gap, pieces, comment⟩)
    (hchars : chars ⟨gap, pieces, comment⟩ = (Brewin.takeToken false (c :: rest)).2) :
    Lexical ⟨lead, ⟨(Brewin.takeToken false (c :: rest)).1, gap⟩ :: pieces, comment⟩ ∧
      chars ⟨lead, ⟨(Brewin.takeToken false (c :: rest)).1, gap⟩ :: pieces, comment⟩ =
        lead ++ c :: rest := by
  have hfirst := @takeToken_of_passes false c (fun _ => hpass) rest
  have hsplit := takeToken_append false (c :: rest)
  obtain ⟨hin, hend⟩ := takeToken_spec (c :: rest) 0
  simp only [Nat.zero_mod, Nat.zero_add, show (0 == 1) = false from rfl] at hin hend
  have hnonempty : (Brewin.takeToken false (c :: rest)).1 ≠ [] := by
    rw [hfirst]
    exact List.cons_ne_nil _ _
  generalize (Brewin.takeToken false (c :: rest)).1 = token at hin hend hsplit hnonempty
  generalize (Brewin.takeToken false (c :: rest)).2 = behind at hend hsplit hchars
  refine ⟨lexical_cons_iff.mpr ⟨hlead, hnonempty, hin, ?_, ?_, h⟩, ?_⟩
  · intro hpieces
    obtain ⟨next, pieces, rfl⟩ := List.exists_cons_of_ne_nil hpieces
    obtain ⟨first, others, htoken, hgoes⟩ := h.head_token
    have hbody := body_cons gap comment next pieces
    rw [htoken] at hbody
    rcases hend with hnil | ⟨heven, a, more, hstart, hstops⟩
    · rw [chars, hbody, hnil] at hchars
      simp at hchars
    · refine ⟨?_, heven⟩
      intro hgap
      -- Without a gap the next token would start with what ends this one.
      rw [chars, hbody, hstart, show gap = [] from hgap] at hchars
      cases hchars
      exact hgoes hstops
  · intro hpieces hodd
    subst hpieces
    rcases hend with hnil | ⟨heven, -⟩
    · rw [hnil] at hchars
      exact List.append_eq_nil_iff.mp hchars
    · change token.count '"' % 2 = 1 at hodd
      omega
  · rw [chars, body_cons]
    show _ ++ (token ++ chars ⟨gap, pieces, comment⟩) = _
    rw [hchars, hsplit]

/-- Every line has a layout that follows the rules. -/
theorem exists_lexical (cs : List Char) : ∃ d : Layout, d.Lexical ∧ d.chars = cs := by
  -- Each token shortens the line.
  induction hn : cs.length using Nat.strongRecOn generalizing cs with
  | ind n ih =>
    have hlead : ∀ c ∈ cs.takeWhile isSeparator, Separates c :=
      fun c hc => isSeparator_iff.mp (List.all_eq_true.mp List.all_takeWhile c hc)
    have hcs : cs.takeWhile isSeparator ++ cs.dropWhile isSeparator = cs :=
      List.takeWhile_append_dropWhile
    cases hdrop : cs.dropWhile isSeparator with
    | nil =>
      rw [hdrop] at hcs
      exact ⟨⟨_, [], []⟩, lexical_nil hlead (by simp), hcs⟩
    | cons c rest =>
      rw [hdrop] at hcs
      by_cases hsign : c = '#'
      · refine ⟨⟨_, [], c :: rest⟩, lexical_nil hlead ?_, hcs⟩
        intro a ha
        cases ha
        exact hsign
      · have hsep : isSeparator c = false := by
          have := List.head?_dropWhile_not isSeparator cs
          simpa [hdrop] using this
        have hpass : ¬ Stops c := by
          rintro (hc | hc)
          · exact absurd (isSeparator_iff.mpr hc) (Bool.eq_false_iff.mp hsep)
          · exact hsign hc
        have hlength : (takeToken false (c :: rest)).2.length < n := by
          have hshort := takeToken_rest_length_lt rest hsep hsign
          have hlonger := congrArg List.length hcs
          rw [List.length_append] at hlonger
          omega
        obtain ⟨⟨gap, pieces, comment⟩, hlexical, hchars⟩ := ih _ hlength _ rfl
        obtain ⟨hwhole, hline⟩ := hlexical.cons_takeToken hpass hlead hchars
        exact ⟨_, hwhole, hline.trans hcs⟩

/-- The pieces with one space between them. -/
def respaced : List Piece → List Piece
  | [] => []
  | [p] => [⟨p.token, []⟩]
  | p :: next :: pieces => ⟨p.token, [' ']⟩ :: respaced (next :: pieces)

theorem respaced_ne_nil (p : Piece) (pieces : List Piece) : respaced (p :: pieces) ≠ [] := by
  cases pieces <;> simp [respaced]

theorem tokens_respaced (pieces : List Piece) :
    (respaced pieces).map (·.token) = pieces.map (·.token) := by
  induction pieces using respaced.induct with
  | case1 => rfl
  | case2 p => rfl
  | case3 p next pieces ih =>
    rw [respaced, List.map_cons, ih]
    rfl

theorem body_respaced (lead : List Char) (pieces : List Piece) :
    body ⟨lead, respaced pieces, []⟩ = [' '].intercalate (pieces.map (·.token)) := by
  induction pieces using respaced.induct with
  | case1 => rfl
  | case2 p => simp [body, respaced]
  | case3 p next pieces ih =>
    rw [respaced, body_cons, List.map_cons, List.map_cons, List.intercalate_cons_cons,
      ← List.map_cons, ← ih, List.append_assoc]
    rfl

theorem Lexical.respaced {d : Layout} (h : d.Lexical) : Lexical ⟨[], respaced d.pieces, []⟩ := by
  obtain ⟨lead, pieces, comment⟩ := d
  have hspace : ∀ c ∈ [' '], Separates c := by simp [Separates]
  have hall : ∀ gap : List Char, (∀ c ∈ gap, Separates c) →
      Lexical ⟨gap, Layout.respaced pieces, []⟩ := by
    induction pieces using Layout.respaced.induct generalizing lead with
    | case1 =>
      intro gap hgap
      exact lexical_nil hgap (by simp)
    | case2 p =>
      intro gap hgap
      obtain ⟨-, hne, hunbroken, -, -, -⟩ := lexical_cons_iff.mp h
      exact lexical_cons_iff.mpr ⟨hgap, hne, hunbroken, by simp, by simp,
        lexical_nil (by simp) (by simp)⟩
    | case3 p next pieces ih =>
      intro gap hgap
      obtain ⟨-, hne, hunbroken, hapart, -, hrest⟩ := lexical_cons_iff.mp h
      have heven := (hapart (by simp)).2
      refine lexical_cons_iff.mpr ⟨hgap, hne, hunbroken, fun _ => ⟨by simp, heven⟩, ?_,
        ih p.gap hrest [' '] hspace⟩
      intro hnil
      exact absurd hnil (respaced_ne_nil next pieces)
  exact hall [] (by simp)

end Layout

theorem tokenize_of_lexical {line : String} {d : Layout} (h : d.Lexical)
    (hchars : d.chars = line.toList) : tokenize line = d.tokens := by
  show (Cursor.mk line.toList).tokens = d.tokens
  rw [← hchars]
  exact h.tokens_eq

/-- The tokens of a line with one space between them have the same tokens again. -/
theorem tokenize_spaced_tokens (line : String) :
    tokenize (Statement.spaced (tokenize line)) = tokenize line := by
  obtain ⟨d, hd, hchars⟩ := Layout.exists_lexical line.toList
  have htokens := tokenize_of_lexical hd hchars
  have hline : Layout.chars ⟨[], Layout.respaced d.pieces, []⟩ =
      (Statement.spaced (tokenize line)).toList := by
    rw [htokens, Statement.spaced, String.toList_intercalate]
    show Layout.body _ = _
    rw [Layout.body_respaced, Layout.tokens, List.map_map]
    simp [Function.comp_def]
  rw [tokenize_of_lexical hd.respaced hline, htokens]
  have hsame := congrArg (List.map String.ofList) (Layout.tokens_respaced d.pieces)
  simpa [Layout.tokens, List.map_map, Function.comp_def] using hsame

/-- A line can be cut in exactly one way, and the tokenizer cuts it so. -/
theorem tokenize_unique_layout (line : String) :
    (∃! d : Layout, d.Lexical ∧ d.chars = line.toList) ∧
    (∀ d : Layout, d.Lexical → d.chars = line.toList → tokenize line = d.tokens) ∧
    tokenize (Statement.spaced (tokenize line)) = tokenize line := by
  refine ⟨?_, fun d hd hchars => tokenize_of_lexical hd hchars, tokenize_spaced_tokens line⟩
  obtain ⟨d, hd, hchars⟩ := Layout.exists_lexical line.toList
  refine ⟨d, ⟨hd, hchars⟩, ?_⟩
  rintro e ⟨he, hechars⟩
  exact he.unique hd (hechars.trans hchars.symm)

/-- A comment may be glued to a token, and an open quote takes the rest of the line. -/
example : tokenize "print a#b" = ["print", "a"] ∧
    tokenize "print \"a # b " = ["print", "\"a # b "] := by
  decide +kernel

end Brewin
