import Brewin.Proofs.Moves
import Brewin.Proofs.OutlineProgram

namespace Brewin

/-- A token that starts outside of separators and comments has a first character. -/
theorem takeToken_ne_nil {c : Char} (rest : List Char) (hs : isSeparator c = false)
    (hc : c ≠ '#') : (takeToken false (c :: rest)).1 ≠ [] := by
  simp [takeToken, hs, hc]

namespace Cursor

theorem isSeparator_of_skipSeparators {c : Cursor} {d : Char} {rest : List Char}
    (h : c.skipSeparators.rest = d :: rest) : isSeparator d = false := by
  have := List.head?_dropWhile_not isSeparator c.rest
  simp only [skipSeparators] at h
  simpa [h] using this

theorem next_ne_empty {c d : Cursor} {token : String} (h : c.next = (some token, d)) :
    token ≠ "" := by
  unfold next at h
  split at h
  next => simp at h
  next x rest hx =>
    split at h
    next => simp at h
    next hc =>
      cases h
      have hne := takeToken_ne_nil rest (isSeparator_of_skipSeparators hx) hc
      intro he
      have := congrArg String.toList he
      rw [String.toList_ofList] at this
      exact hne this

theorem ne_empty_of_mem_tokens (c : Cursor) : ∀ token ∈ c.tokens, token ≠ "" := by
  induction c using tokens.induct with
  | case1 c d h =>
    rw [tokens]
    split
    next => simp
    next token e h' => cases h.symm.trans h'
  | case2 c token d h ih =>
    rw [tokens]
    split
    next e h' => cases h.symm.trans h'
    next token' e h' =>
      cases h.symm.trans h'
      intro x hx
      rcases List.mem_cons.mp hx with rfl | hx
      · exact next_ne_empty h
      · exact ih x hx

end Cursor

/-- No token of a line is empty. -/
theorem ne_empty_of_mem_tokenize {line token : String} (h : token ∈ tokenize line) :
    token ≠ "" :=
  (Cursor.ofLine line).ne_empty_of_mem_tokens token h

theorem decode_call {tokens args : List String} {name : String}
    (h : Statement.decode tokens = .call name args) : ∃ first, tokens = first :: name :: args := by
  unfold Statement.decode at h
  split at h
  next => cases h
  next first rest =>
    split at h
    next k _ =>
      unfold Statement.ofKeyword at h
      split at h <;> cases h
      exact ⟨first, rfl⟩
    next => cases h

theorem ne_empty_of_call {source : List String} {line : Int} {name : String} {args : List String}
    (h : (Program.load source).at? line = some (.call name args)) : ∀ token ∈ args, token ≠ "" := by
  obtain ⟨n, rfl⟩ := exists_line_of_at? h
  rw [at?_load, decoded, List.getElem?_map] at h
  obtain ⟨text, -, hd⟩ := Option.map_eq_some_iff.mp h
  obtain ⟨first, ht⟩ := decode_call hd
  intro token hm
  have hmem : token ∈ tokenize text := by
    rw [ht]
    exact List.mem_cons_of_mem _ (List.mem_cons_of_mem _ hm)
  exact ne_empty_of_mem_tokenize hmem

end Brewin
