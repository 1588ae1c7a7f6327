import Mathlib.Logic.ExistsUnique
import Mathlib.Tactic.ByContra
import Brewin.Statement
import Brewin.TokenScan

namespace Brewin

/-- The character can stand between tokens. -/
def Separates (c : Char) : Prop :=
  c = ' ' ∨ c = '\t' ∨ c = '\r' ∨ c = '\n'

instance : DecidablePred Separates :=
  fun c => inferInstanceAs (Decidable (c = ' ' ∨ c = '\t' ∨ c = '\r' ∨ c = '\n'))

/-- The character ends a token, unless it is quoted. -/
def Stops (c : Char) : Prop :=
  Separates c ∨ c = '#'

theorem isSeparator_iff {c : Char} : isSeparator c = true ↔ Separates c := by
  simp [isSeparator, Separates, or_assoc]

/-- No character ends the token: behind an even number of quotes none of them stops. -/
def Unbroken (token : List Char) : Prop :=
  ∀ k c, token[k]? = some c → (token.take k).count '"' % 2 = 0 → ¬ Stops c

/-- A token and the separators behind it. -/
structure Piece where
  token : List Char
  gap : List Char

/-- A line cut into separators, tokens with the separators behind them, and a comment. -/
structure Layout where
  lead : List Char
  pieces : List Piece
  comment : List Char

namespace Layout

/-- The line behind the separators in front. -/
def body (d : Layout) : List Char :=
  (d.pieces.flatMap fun p => p.token ++ p.gap) ++ d.comment

def chars (d : Layout) : List Char :=
  d.lead ++ d.body

def tokens (d : Layout) : List String :=
  d.pieces.map fun p => String.ofList p.token

/-- The rules of cutting. Only the last token may have an open quote, and it is the end then. -/
structure Lexical (d : Layout) : Prop where
  lead : ∀ c ∈ d.lead, Separates c
  gaps : ∀ p ∈ d.pieces, ∀ c ∈ p.gap, Separates c
  apart : ∀ p ∈ d.pieces.dropLast, p.gap ≠ []
  comment : ∀ c, d.comment.head? = some c → c = '#'
  nonempty : ∀ p ∈ d.pieces, p.token ≠ []
  unbroken : ∀ p ∈ d.pieces, Unbroken p.token
  closed : ∀ p ∈ d.pieces.dropLast, p.token.count '"' % 2 = 0
  last : ∀ p, d.pieces.getLast? = some p → p.token.count '"' % 2 = 1 →
    p.gap = [] ∧ d.comment = []

/-- The layout behind the first token. -/
abbrev behind (p : Piece) (pieces : List Piece) (comment : List Char) : Layout :=
  ⟨p.gap, pieces, comment⟩

variable {lead comment : List Char} {p : Piece} {pieces : List Piece}

theorem body_cons (lead comment : List Char) (p : Piece) (pieces : List Piece) :
    body ⟨lead, p :: pieces, comment⟩ = p.token ++ (behind p pieces comment).chars := by
  simp [body, chars]

theorem lexical_nil (hlead : ∀ c ∈ lead, Separates c)
    (hcomment : ∀ c, comment.head? = some c → c = '#') : Lexical ⟨lead, [], comment⟩ := by
  refine ⟨hlead, ?_, ?_, hcomment, ?_, ?_, ?_, ?_⟩ <;> simp

/-- What the first token adds to the rules for the rest of the line. -/
theorem lexical_cons_iff : Lexical ⟨lead, p :: pieces, comment⟩ ↔
    (∀ c ∈ lead, Separates c) ∧ p.token ≠ [] ∧ Unbroken p.token ∧
      (pieces ≠ [] → p.gap ≠ [] ∧ p.token.count '"' % 2 = 0) ∧
      (pieces = [] → p.token.count '"' % 2 = 1 → p.gap = [] ∧ comment = []) ∧
      Lexical (behind p pieces comment) := by
  cases pieces with
  | nil =>
    constructor
    · intro h
      refine ⟨h.lead, h.nonempty p (by simp), h.unbroken p (by simp), by simp, ?_, ?_⟩
      · intro _ hodd
        exact h.last p rfl hodd
      · exact lexical_nil (h.gaps p (by simp)) h.comment
    · rintro ⟨hlead, hne, hunbroken, -, hlast, hrest⟩
      refine ⟨hlead, ?_, by simp, hrest.comment, ?_, ?_, by simp, ?_⟩
      · intro q hq
        cases List.mem_singleton.mp hq
        exact hrest.lead
      · intro q hq
        cases List.mem_singleton.mp hq
        exact hne
      · intro q hq
        cases List.mem_singleton.mp hq
        exact hunbroken
      · intro q hq hodd
        cases hq
        exact hlast rfl hodd
  | cons next pieces =>
    have hdrop : (p :: next :: pieces).dropLast = p :: (next :: pieces).dropLast := rfl
    constructor
    · intro h
      have hfirst : p ∈ (p :: next :: pieces).dropLast := by simp [hdrop]
      have hin : ∀ q ∈ next :: pieces, q ∈ p :: next :: pieces :=
        fun q hq => List.mem_cons_of_mem p hq
      have hinit : ∀ q ∈ (next :: pieces).dropLast, q ∈ (p :: next :: pieces).dropLast :=
        fun q hq => hdrop ▸ List.mem_cons_of_mem p hq
      refine ⟨h.lead, h.nonempty p (by simp), h.unbroken p (by simp), ?_, by simp, ?_⟩
      · intro _
        exact ⟨h.apart p hfirst, h.closed p hfirst⟩
      · exact ⟨h.gaps p (by simp), fun q hq => h.gaps q (hin q hq),
          fun q hq => h.apart q (hinit q hq), h.comment, fun q hq => h.nonempty q (hin q hq),
          fun q hq => h.unbroken q (hin q hq), fun q hq => h.closed q (hinit q hq), h.last⟩
    · rintro ⟨hlead, hne, hunbroken, hapart, -, hrest⟩
      obtain ⟨hgap, heven⟩ := hapart (by simp)
      refine ⟨hlead, ?_, ?_, hrest.comment, ?_, ?_, ?_, hrest.last⟩
      · intro q hq
        rcases List.mem_cons.mp hq with rfl | hq
        · exact hrest.lead
        · exact hrest.gaps q hq
      · intro q hq
        rcases List.mem_cons.mp hq with rfl | hq
        · exact hgap
        · exact hrest.apart q hq
      · intro q hq
        rcases List.mem_cons.mp hq with rfl | hq
        · exact hne
        · exact hrest.nonempty q hq
      · intro q hq
        rcases List.mem_cons.mp hq with rfl | hq
        · exact hunbroken
        · exact hrest.unbroken q hq
      · intro q hq
        rcases List.mem_cons.mp hq with rfl | hq
        · exact heven
        · exact hrest.closed q hq

/-- Behind a token the line ends, or its next character stops the token. -/
theorem Lexical.stops (h : Lexical ⟨lead, p :: pieces, comment⟩) :
    (behind p pieces comment).chars = [] ∨
      p.token.count '"' % 2 = 0 ∧
        ∃ c rest, (behind p pieces comment).chars = c :: rest ∧ Stops c := by
  obtain ⟨-, -, -, hapart, hlast, hrest⟩ := lexical_cons_iff.mp h
  cases hgap : p.gap with
  | cons c gap =>
    have hsep : Separates c := hrest.lead c (by simp [hgap])
    have heven : p.token.count '"' % 2 = 0 := by
      by_cases hpieces : pieces = []
      · by_contra hodd
        have hnil := (hlast hpieces (by omega)).1
        rw [hgap] at hnil
        cases hnil
      · exact (hapart hpieces).2
    refine Or.inr ⟨heven, c, gap ++ (behind p pieces comment).body, ?_, Or.inl hsep⟩
    show p.gap ++ (behind p pieces comment).body = _
    rw [hgap]
    rfl
  | nil =>
    have hpieces : pieces = [] := by
      by_contra hne
      exact (hapart hne).1 hgap
    subst hpieces
    cases hcomment : comment with
    | nil => simp [chars, body, hgap]
    | cons c rest =>
      have hsign : c = '#' := hrest.comment c (by rw [hcomment]; rfl)
      have heven : p.token.count '"' % 2 = 0 := by
        by_contra hodd
        have hnil := (hlast rfl (by omega)).2
        rw [hcomment] at hnil
        cases hnil
      refine Or.inr ⟨heven, c, rest, ?_, Or.inr hsign⟩
      simp [chars, body, hgap]

theorem Lexical.head_token (h : Lexical ⟨lead, p :: pieces, comment⟩) :
    ∃ c rest, p.token = c :: rest ∧ ¬ Stops c := by
  obtain ⟨-, hne, hunbroken, -⟩ := lexical_cons_iff.mp h
  obtain ⟨c, rest, htoken⟩ := List.exists_cons_of_ne_nil hne
  exact ⟨c, rest, htoken, hunbroken 0 c (by rw [htoken]; rfl) rfl⟩

theorem Lexical.head_body {d : Layout} (h : d.Lexical) :
    ∀ c, d.body.head? = some c → isSeparator c = false := by
  obtain ⟨lead, pieces, comment⟩ := d
  intro c hc
  cases pieces with
  | nil =>
    have hsign : c = '#' := h.comment c hc
    rw [hsign]
    rfl
  | cons p pieces =>
    obtain ⟨a, rest, htoken, hstops⟩ := h.head_token
    rw [body_cons, htoken] at hc
    cases hc
    exact Bool.eq_false_iff.mpr fun hsep => hstops (Or.inl (isSeparator_iff.mp hsep))

theorem Lexical.isSeparator_lead {d : Layout} (h : d.Lexical) :
    ∀ c ∈ d.lead, isSeparator c = true :=
  fun c hc => isSeparator_iff.mpr (h.lead c hc)

/-- The separators in front of a line are exactly the lead of its layout. -/
theorem Lexical.takeWhile {d : Layout} (h : d.Lexical) :
    d.chars.takeWhile isSeparator = d.lead := by
  rw [chars, List.takeWhile_append_of_pos h.isSeparator_lead]
  have hbody : d.body.takeWhile isSeparator = [] := by
    cases hb : d.body with
    | nil => rfl
    | cons c rest =>
      have hc := h.head_body c (by rw [hb]; rfl)
      simp [hc]
  rw [hbody, List.append_nil]

theorem Lexical.dropWhile {d : Layout} (h : d.Lexical) :
    d.chars.dropWhile isSeparator = d.body := by
  rw [chars, List.dropWhile_append_of_pos h.isSeparator_lead]
  cases hb : d.body with
  | nil => rfl
  | cons c rest =>
    have hc := h.head_body c (by rw [hb]; rfl)
    simp [hc]

end Layout

section

variable {token rest : List Char}

theorem flip_quoted (seen : Nat) (c : Char) :
    ((seen % 2 == 1) != (c == '"')) = ((seen + if c = '"' then 1 else 0) % 2 == 1) := by
  by_cases hc : c = '"'
  · rcases Nat.mod_two_eq_zero_or_one seen with hs | hs
    · simp [hc, hs, Nat.add_mod]
    · simp [hc, hs, Nat.add_mod]
  · simp [hc, beq_eq_false_iff_ne.mpr hc]

theorem count_quote_cons (c : Char) (cs : List Char) :
    (c :: cs).count '"' = (if c = '"' then 1 else 0) + cs.count '"' := by
  rw [List.count_cons]
  by_cases hc : c = '"'
  · simp [hc, Nat.add_comm]
  · simp [hc]

theorem takeToken_of_stops {c : Char} (h : Stops c) (rest : List Char) :
    takeToken false (c :: rest) = ([], c :: rest) := by
  rcases h with h | h
  · simp [takeToken, isSeparator_iff.mpr h]
  · simp [takeToken, h]

theorem takeToken_of_passes {quoted : Bool} {c : Char} (h : quoted = false → ¬ Stops c)
    (rest : List Char) :
    takeToken quoted (c :: rest) =
      (c :: (takeToken (quoted != (c == '"')) rest).1,
        (takeToken (quoted != (c == '"')) rest).2) := by
  cases quoted with
  | true => simp [takeToken]
  | false =>
    have hsep : isSeparator c = false :=
      Bool.eq_false_iff.mpr fun hs => h rfl (Or.inl (isSeparator_iff.mp hs))
    have hsign : c ≠ '#' := fun hs => h rfl (Or.inr hs)
    simp [takeToken, hsep, hsign]

/-- A token is taken off whole if nothing in it stops and the rest does. The number says how many
quotes stand in front. -/
theorem takeToken_append_eq (seen : Nat)
    (hpass : ∀ k c, token[k]? = some c → (seen + (token.take k).count '"') % 2 = 0 → ¬ Stops c)
    (hrest : rest = [] ∨ (seen + token.count '"') % 2 = 0 ∧ ∃ c cs, rest = c :: cs ∧ Stops c) :
    takeToken (seen % 2 == 1) (token ++ rest) = (token, rest) := by
  induction token generalizing seen with
  | nil =>
    rcases hrest with rfl | ⟨heven, c, cs, rfl, hstops⟩
    · rfl
    · have hquoted : (seen % 2 == 1) = false := by
        simp only [List.count_nil, Nat.add_zero] at heven
        simp [heven]
      rw [hquoted]
      exact takeToken_of_stops hstops cs
  | cons c token ih =>
    have hhere : (seen % 2 == 1) = false → ¬ Stops c := by
      intro hquoted
      have hodd : seen % 2 ≠ 1 := by simpa using hquoted
      exact hpass 0 c rfl (by simp only [List.take_zero, List.count_nil]; omega)
    rw [List.cons_append, takeToken_of_passes hhere, flip_quoted, ih]
    · intro k a ha heven
      apply hpass (k + 1) a ha
      rw [List.take_succ_cons, count_quote_cons]
      omega
    · rcases hrest with hnil | ⟨heven, hstop⟩
      · exact Or.inl hnil
      · rw [count_quote_cons] at heven
        exact Or.inr ⟨by omega, hstop⟩

/-- Nothing in the token that is taken off stops, and the rest is empty or does. -/
theorem takeToken_spec (cs : List Char) (seen : Nat) :
    (∀ k c, (takeToken (seen % 2 == 1) cs).1[k]? = some c →
      (seen + ((takeToken (seen % 2 == 1) cs).1.take k).count '"') % 2 = 0 → ¬ Stops c) ∧
    ((takeToken (seen % 2 == 1) cs).2 = [] ∨
      (seen + (takeToken (seen % 2 == 1) cs).1.count '"') % 2 = 0 ∧
        ∃ c rest, (takeToken (seen % 2 == 1) cs).2 = c :: rest ∧ Stops c) := by
  induction cs generalizing seen with
  | nil => simp [takeToken]
  | cons c cs ih =>
    by_cases hstop : seen % 2 = 0 ∧ Stops c
    · have hquoted : (seen % 2 == 1) = false := by simp [hstop.1]
      rw [hquoted, takeToken_of_stops hstop.2]
      refine ⟨by simp, Or.inr ⟨?_, c, cs, rfl, hstop.2⟩⟩
      simpa using hstop.1
    · have hpass : (seen % 2 == 1) = false → ¬ Stops c := by
        intro hquoted hc
        have hodd : seen % 2 ≠ 1 := by simpa using hquoted
        exact hstop ⟨by omega, hc⟩
      obtain ⟨hin, hend⟩ := ih (seen + if c = '"' then 1 else 0)
      rw [takeToken_of_passes hpass, flip_quoted]
      refine ⟨?_, ?_⟩
      · intro k a ha heven
        cases k with
        | zero =>
          cases ha
          apply hpass
          simp only [List.take_zero, List.count_nil, Nat.add_zero] at heven
          simp [heven]
        | succ k =>
          rw [List.take_succ_cons, count_quote_cons] at heven
          exact hin k a ha (by omega)
      · rcases hend with hnil | ⟨heven, hnext⟩
        · exact Or.inl hnil
        · refine Or.inr ⟨?_, hnext⟩
          rw [count_quote_cons]
          omega

end

namespace Layout

variable {lead comment : List Char} {p : Piece} {pieces : List Piece}

theorem Lexical.takeToken (h : Lexical ⟨lead, p :: pieces, comment⟩) :
    takeToken false (body ⟨lead, p :: pieces, comment⟩) =
      (p.token, (behind p pieces comment).chars) := by
  obtain ⟨-, -, hunbroken, -⟩ := lexical_cons_iff.mp h
  rw [body_cons]
  apply takeToken_append_eq 0
  · intro k c hc heven
    rw [Nat.zero_add] at heven
    exact hunbroken k c hc heven
  · rw [Nat.zero_add]
    exact h.stops

end Layout

end Brewin
