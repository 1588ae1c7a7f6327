namespace Brewin

/-- Turns every carriage return that stands before a line feed into nothing. -/
def joinLineEndings : List Char → List Char
  | '\r' :: '\n' :: rest => '\n' :: joinLineEndings rest
  | c :: rest => c :: joinLineEndings rest
  | [] => []

/-- Drops one line feed at the end, if there is one. -/
def dropFinalLineFeed (cs : List Char) : List Char :=
  if cs.getLast? = some '\n' then cs.dropLast else cs

/-- Cuts at every line feed; the pieces hold none. -/
def cutAtLineFeeds : List Char → List (List Char)
  | [] => [[]]
  | c :: rest =>
    if c = '\n' then [] :: cutAtLineFeeds rest
    else
      match cutAtLineFeeds rest with
      | line :: lines => (c :: line) :: lines
      | [] => [[c]]

theorem cutAtLineFeeds_ne_nil (cs : List Char) : cutAtLineFeeds cs ≠ [] := by
  cases cs with
  | nil => simp [cutAtLineFeeds]
  | cons c rest =>
    rw [cutAtLineFeeds]
    split
    · simp
    · split <;> simp

theorem lineFeed_not_mem_cut {cs line : List Char} (h : line ∈ cutAtLineFeeds cs) :
    '\n' ∉ line := by
  induction cs generalizing line with
  | nil => simp_all [cutAtLineFeeds]
  | cons c rest ih =>
    rw [cutAtLineFeeds] at h
    split at h
    next =>
      rcases List.mem_cons.mp h with rfl | h
      · simp
      · exact ih h
    next hc =>
      split at h
      next first more hr =>
        rcases List.mem_cons.mp h with rfl | h
        · have := ih (hr ▸ List.mem_cons_self)
          simp [this, Ne.symm hc]
        · exact ih (hr ▸ List.mem_cons_of_mem first h)
      next hr => exact absurd hr (cutAtLineFeeds_ne_nil rest)

/-- The source lines of a file, with either line ending; an empty text has none. -/
def splitLines (text : String) : List String :=
  match dropFinalLineFeed (joinLineEndings text.toList) with
  | [] => []
  | cs => (cutAtLineFeeds cs).map String.ofList

end Brewin
