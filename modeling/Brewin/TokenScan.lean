namespace Brewin

/-- The characters that separate tokens. -/
def isSeparator (c : Char) : Bool :=
  c == ' ' || c == '\t' || c == '\r' || c == '\n'

/-- Splits off one token: it reaches up to the first separator or comment sign outside quotes.
The flag says whether a quote is open. -/
def takeToken : Bool → List Char → List Char × List Char
  | _, [] => ([], [])
  | quoted, c :: rest =>
    if !quoted && (isSeparator c || c == '#') then ([], c :: rest)
    else
      let (token, rest) := takeToken (quoted != (c == '"')) rest
      (c :: token, rest)

theorem takeToken_append (quoted : Bool) (cs : List Char) :
    (takeToken quoted cs).1 ++ (takeToken quoted cs).2 = cs := by
  induction cs generalizing quoted with
  | nil => rfl
  | cons c rest ih =>
    rw [takeToken]
    split
    · rfl
    · simp [ih]

theorem takeToken_rest_length_lt {c : Char} (rest : List Char)
    (hs : isSeparator c = false) (hc : c ≠ '#') :
    (takeToken false (c :: rest)).2.length < (c :: rest).length := by
  have h := congrArg List.length (takeToken_append (false != (c == '"')) rest)
  simp only [List.length_append] at h
  simp only [takeToken, hs, hc, Bool.not_false, Bool.true_and, Bool.false_or, beq_iff_eq,
    ↓reduceIte, List.length_cons]
  omega

/-- The characters of a line that have not been read as tokens yet. -/
structure Cursor where
  rest : List Char
  deriving DecidableEq, Repr

namespace Cursor

def ofLine (line : String) : Cursor :=
  ⟨line.toList⟩

def skipSeparators (c : Cursor) : Cursor :=
  ⟨c.rest.dropWhile isSeparator⟩

/-- The next token, and the cursor behind it. A comment ends the line. -/
def next (c : Cursor) : Option String × Cursor :=
  match c.skipSeparators.rest with
  | [] => (none, ⟨[]⟩)
  | d :: rest =>
    if d = '#' then (none, ⟨[]⟩)
    else
      let (token, rest) := takeToken false (d :: rest)
      (some (String.ofList token), ⟨rest⟩)

/-- Whether a token follows; the separators in front of it are passed. -/
def more (c : Cursor) : Bool × Cursor :=
  let c := c.skipSeparators
  (c.rest.head?.any (· != '#'), c)

theorem skipSeparators_length_le (c : Cursor) :
    c.skipSeparators.rest.length ≤ c.rest.length :=
  (List.dropWhile_sublist _).length_le

theorem next_rest_length_lt {c d : Cursor} {token : String} (h : c.next = (some token, d)) :
    d.rest.length < c.rest.length := by
  have hl := c.skipSeparators_length_le
  unfold next at h
  split at h
  next => simp at h
  next x rest hx =>
    split at h
    next => simp at h
    next hc =>
      have hs : isSeparator x = false := by
        have := List.head?_dropWhile_not isSeparator c.rest
        simp only [skipSeparators] at hx
        simpa [hx] using this
      have ht := takeToken_rest_length_lt rest hs hc
      rw [hx] at hl
      cases h
      exact Nat.lt_of_lt_of_le ht hl

/-- The tokens from here to the end of the line. -/
def tokens (c : Cursor) : List String :=
  match _h : c.next with
  | (none, _) => []
  | (some token, d) => token :: d.tokens
termination_by c.rest.length
decreasing_by exact next_rest_length_lt _h

end Cursor

/-- The tokens of a line. -/
def tokenize (line : String) : List String :=
  (Cursor.ofLine line).tokens

end Brewin
