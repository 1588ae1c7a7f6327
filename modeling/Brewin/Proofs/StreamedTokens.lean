import Mathlib.Data.List.DropRight
import Brewin.Proofs.UniqueLayout

namespace Brewin

/-- A call on a line that is read token by token. -/
inductive Query
  | next | more
  deriving DecidableEq, Repr

inductive Reply
  | token (token? : Option String)
  | more (follows : Bool)
  deriving DecidableEq, Repr

/-- What a call for a token has brought. -/
def Reply.token? : Reply → Option (Option String)
  | token t => some t
  | more _ => none

/-- The replies of a list that hands out its tokens one by one. -/
def listReplies : List String → List Query → List Reply
  | _, [] => []
  | tokens, .next :: calls => .token tokens.head? :: listReplies tokens.tail calls
  | tokens, .more :: calls => .more tokens.head?.isSome :: listReplies tokens calls

/-- The tokens of a list are handed out in their order, and nothing behind the last one. -/
theorem filterMap_listReplies (tokens : List String) (calls : List Query) :
    (listReplies tokens calls).filterMap Reply.token? =
      (List.range (calls.count .next)).map (tokens[·]?) := by
  fun_induction listReplies tokens calls with
  | case1 => rfl
  | case2 tokens calls ih =>
    rw [List.count_cons_self, List.range_succ_eq_map, List.map_cons, List.map_map,
      List.head?_eq_getElem?]
    simpa [Reply.token?, Function.comp_def] using ih
  | case3 tokens calls ih =>
    rw [List.filterMap_cons_none rfl, List.count_cons_of_ne (by decide)]
    exact ih

namespace Cursor

section Calls

/-- The answer to a call, and the cursor behind it. -/
def reply (c : Cursor) : Query → Reply × Cursor
  | .next => (.token c.next.1, c.next.2)
  | .more => (.more c.more.1, c.more.2)

/-- The cursor behind a sequence of calls. -/
def after (c : Cursor) (calls : List Query) : Cursor :=
  calls.foldl (fun d call => (d.reply call).2) c

def replies : Cursor → List Query → List Reply
  | _, [] => []
  | c, call :: calls => (c.reply call).1 :: (c.reply call).2.replies calls

/-- What the calls for tokens bring, in their order. -/
def handed (c : Cursor) (calls : List Query) : List (Option String) :=
  (c.replies calls).filterMap Reply.token?

theorem after_append (c : Cursor) (calls later : List Query) :
    c.after (calls ++ later) = (c.after calls).after later :=
  List.foldl_append

theorem getElem?_replies (c : Cursor) (calls : List Query) (k : Nat) :
    (c.replies calls)[k]? = calls[k]?.map fun call => ((c.after (calls.take k)).reply call).1 := by
  induction calls generalizing c k with
  | nil => rfl
  | cons call calls ih =>
    cases k with
    | zero => rfl
    | succ k => exact ih (c.reply call).2 k

end Calls

section Tokens

variable {c d : Cursor} {token : String}

theorem next_skipSeparators (c : Cursor) : c.skipSeparators.next = c.next := by
  have hskip : c.skipSeparators.skipSeparators = c.skipSeparators :=
    congrArg Cursor.mk (List.dropWhile_idempotent isSeparator c.rest)
  rw [next, next, hskip]

/-- Asking for more does not change what the next call for a token brings, nor what is left. -/
theorem next_more (c : Cursor) : c.more.2.next = c.next :=
  c.next_skipSeparators

theorem more_eq_isSome (c : Cursor) : c.more.1 = c.next.1.isSome := by
  show c.skipSeparators.rest.head?.any (· != '#') = c.next.1.isSome
  unfold next
  split
  next hnil => rw [hnil]; rfl
  next x rest hcons =>
    rw [hcons]
    by_cases hsign : x = '#'
    · simp [hsign]
    · simp [hsign]

theorem next_of_fst_eq_none (h : c.next.1 = none) : c.next = (none, ⟨[]⟩) := by
  unfold next at h ⊢
  split at h
  next => rfl
  next x rest _ =>
    split at h
    next hsign => rw [if_pos hsign]
    next => cases h

theorem next_fst (c : Cursor) : c.next.1 = c.tokens.head? := by
  rcases h : c.next with ⟨- | token, d⟩
  · rw [tokens_of_none h]
    rfl
  · rw [tokens_of_some h]
    rfl

/-- A call for a token takes the first one away, if there is one. -/
theorem tokens_next (c : Cursor) : c.next.2.tokens = c.tokens.tail := by
  rcases h : c.next with ⟨- | token, d⟩
  · have hend := next_of_fst_eq_none (c := c) (by rw [h])
    cases h.symm.trans hend
    rw [tokens_of_none h]
    exact tokens_of_none rfl
  · rw [tokens_of_some h]
    rfl

theorem tokens_more (c : Cursor) : c.more.2.tokens = c.tokens := by
  rcases h : c.next with ⟨- | token, d⟩
  · rw [tokens_of_none h, tokens_of_none (c.next_more.trans h)]
  · rw [tokens_of_some h, tokens_of_some (c.next_more.trans h)]

/-- A cursor answers as the list of the tokens in front of it does. -/
theorem replies_eq_listReplies (c : Cursor) (calls : List Query) :
    c.replies calls = listReplies c.tokens calls := by
  induction calls generalizing c with
  | nil => rfl
  | cons call calls ih =>
    cases call with
    | next =>
      show .token c.next.1 :: c.next.2.replies calls = _
      rw [ih, next_fst, tokens_next, listReplies]
    | more =>
      show .more c.more.1 :: c.more.2.replies calls = _
      rw [ih, more_eq_isSome, next_fst, tokens_more, listReplies]

theorem handed_eq (c : Cursor) (calls : List Query) :
    c.handed calls = (List.range (calls.count .next)).map (c.tokens[·]?) := by
  rw [handed, replies_eq_listReplies, filterMap_listReplies]

/-- However often it is asked whether there are more, the same call for a token comes next. -/
theorem next_after_more {between : List Query} (h : ∀ call ∈ between, call = .more) :
    (c.after between).next = c.next := by
  induction between generalizing c with
  | nil => rfl
  | cons call between ih =>
    obtain ⟨rfl, hbetween⟩ := List.forall_mem_cons.mp h
    exact (ih hbetween).trans c.next_more

end Tokens

section Progress

variable {c d : Cursor} {token : String}

theorem suffix_next (c : Cursor) : c.next.2.rest <:+ c.rest := by
  have hskip : c.skipSeparators.rest <:+ c.rest := List.dropWhile_suffix isSeparator
  unfold next
  split
  next => exact List.nil_suffix
  next x rest hcons =>
    split
    next => exact List.nil_suffix
    next =>
      rw [hcons] at hskip
      exact List.IsSuffix.trans ⟨_, takeToken_append false (x :: rest)⟩ hskip

theorem suffix_reply (c : Cursor) (call : Query) : (c.reply call).2.rest <:+ c.rest := by
  cases call with
  | next => exact c.suffix_next
  | more => exact List.dropWhile_suffix isSeparator

/-- No call moves the cursor back. -/
theorem suffix_after (c : Cursor) (calls : List Query) : (c.after calls).rest <:+ c.rest := by
  induction calls generalizing c with
  | nil => exact List.suffix_rfl
  | cons call calls ih => exact (ih (c.reply call).2).trans (c.suffix_reply call)

/-- The number of bytes in front of the cursor. -/
def bytesLeft (c : Cursor) : Nat :=
  (String.ofList c.rest).utf8ByteSize

/-- The number of bytes of a line that the cursor has passed. -/
def position (line : String) (c : Cursor) : Nat :=
  line.utf8ByteSize - c.bytesLeft

theorem bytesLeft_of_append {read : List Char} (h : read ++ d.rest = c.rest) :
    c.bytesLeft = (String.ofList read).utf8ByteSize + d.bytesLeft := by
  rw [bytesLeft, ← h, String.ofList_append, String.utf8ByteSize_append, bytesLeft]

theorem bytesLeft_lt_of_next (h : c.next = (some token, d)) : d.bytesLeft < c.bytesLeft := by
  obtain ⟨read, hread⟩ : d.rest <:+ c.rest := by
    have hsuffix := c.suffix_next
    rwa [h] at hsuffix
  have hshort := next_rest_length_lt h
  have hne : read ≠ [] := by
    rintro rfl
    rw [← hread, List.nil_append] at hshort
    exact Nat.lt_irrefl _ hshort
  have hpos : (String.ofList read).utf8ByteSize ≠ 0 := by
    rw [Ne, String.utf8ByteSize_eq_zero_iff]
    intro hempty
    exact hne (String.ofList_eq_empty_iff.mp hempty)
  have hbytes := bytesLeft_of_append hread
  omega

theorem length_tokens_le (c : Cursor) : c.tokens.length ≤ c.bytesLeft := by
  induction c using tokens.induct with
  | case1 c d h =>
    rw [tokens_of_none h]
    exact Nat.zero_le _
  | case2 c token d h ih =>
    have hless := bytesLeft_lt_of_next h
    rw [tokens_of_some h, List.length_cons]
    omega

theorem bytesLeft_ofLine (line : String) : (ofLine line).bytesLeft = line.utf8ByteSize := by
  rw [bytesLeft, ofLine, String.ofList_toList]

/-- Within its line a cursor is moved forward by every token. -/
theorem position_lt_of_next {line : String} (hin : c.rest <:+ line.toList)
    (h : c.next = (some token, d)) : c.position line < d.position line := by
  obtain ⟨passed, hpassed⟩ := hin
  have hline := bytesLeft_of_append (c := ofLine line) hpassed
  rw [bytesLeft_ofLine] at hline
  have hless := bytesLeft_lt_of_next h
  unfold position
  omega

end Progress

end Cursor

/-- Calls for tokens alone bring every token, and then nothing. -/
theorem handed_replicate (line : String) :
    (Cursor.ofLine line).handed (List.replicate ((tokenize line).length + 1) .next) =
      (tokenize line).map some ++ [none] := by
  have hall : (List.range (tokenize line).length).map ((tokenize line)[·]?) =
      (tokenize line).map some := by
    apply List.ext_getElem (by simp)
    intro j _ hj
    rw [List.length_map] at hj
    simp [hj]
  have htokens : (Cursor.ofLine line).tokens = tokenize line := rfl
  rw [Cursor.handed_eq, htokens, List.count_replicate_self, List.range_succ, List.map_append, hall,
    List.map_singleton, List.getElem?_eq_none (Nat.le_refl _)]

/-- Every call is answered as the list of tokens would: the calls for tokens bring the tokens one by
one and nothing behind them, and asking for more tells what the next of these calls will find and
changes nothing for it. Each token moves the cursor forward in its line, so a loop of such calls
ends. -/
theorem streamed_as_tokenized (line : String) (calls : List Query) :
    (Cursor.ofLine line).handed calls =
      (List.range (calls.count .next)).map (fun j => (tokenize line)[j]?) ∧
    (∀ k, calls[k]? = some .more →
      ∃ follows, ((Cursor.ofLine line).replies calls)[k]? = some (.more follows) ∧
        ∀ between, (∀ call ∈ between, call = .more) →
          (follows = true ↔
            ∃ token, ((Cursor.ofLine line).after (calls.take k ++ between)).next.1 = some token)) ∧
    (∀ calls' : List Query, calls'.filter (· = .next) = calls.filter (· = .next) →
      (Cursor.ofLine line).handed calls' = (Cursor.ofLine line).handed calls) ∧
    ((Cursor.ofLine line).after calls).rest <:+ line.toList ∧
    (∀ token d, ((Cursor.ofLine line).after calls).next = (some token, d) →
      ((Cursor.ofLine line).after calls).position line < d.position line) ∧
    ∃ n, n ≤ line.utf8ByteSize ∧
      (Cursor.ofLine line).handed (List.replicate (n + 1) .next) =
        (tokenize line).map some ++ [none] := by
  have hin : ((Cursor.ofLine line).after calls).rest <:+ line.toList :=
    (Cursor.ofLine line).suffix_after calls
  refine ⟨(Cursor.ofLine line).handed_eq calls, ?_, ?_, hin,
    fun token d h => Cursor.position_lt_of_next hin h, _, ?_, handed_replicate line⟩
  · intro k hk
    refine ⟨((Cursor.ofLine line).after (calls.take k)).more.1, ?_, ?_⟩
    · rw [Cursor.getElem?_replies, hk]
      rfl
    · intro between hbetween
      rw [Cursor.after_append, Cursor.next_after_more hbetween, Cursor.more_eq_isSome,
        Option.isSome_iff_exists]
  · intro calls' hsame
    have hcount := congrArg (List.count .next) hsame
    rw [List.count_filter (by rfl), List.count_filter (by rfl)] at hcount
    rw [Cursor.handed_eq, Cursor.handed_eq, hcount]
  · exact (Cursor.length_tokens_le _).trans_eq (Cursor.bytesLeft_ofLine line)

/-- A quote inside a token, and a comment glued to it. -/
def gluedComment : String := "\ta \"b #\"c# d"

/-- Asks for more before the first token, twice behind it, and in front of the comment. -/
def askedBetween : List Query := [.more, .next, .more, .more, .next, .more, .next]

theorem streamed_as_tokenized_gluedComment :
    (Cursor.ofLine gluedComment).handed askedBetween = [some "a", some "\"b #\"c", none] ∧
    ((Cursor.ofLine gluedComment).replies askedBetween)[5]? = some (.more false) ∧
    (Cursor.ofLine gluedComment).handed [.next, .next, .next] =
      [some "a", some "\"b #\"c", none] ∧
    (Cursor.mk "\"b #\"c# d".toList).position gluedComment <
      (Cursor.mk "# d".toList).position gluedComment := by
  obtain ⟨hhanded, hmore, hsame, -, -, -⟩ := streamed_as_tokenized gluedComment askedBetween
  obtain ⟨-, -, -, -, hforward, -⟩ := streamed_as_tokenized gluedComment [.more, .next, .more]
  have hall : (Cursor.ofLine gluedComment).handed askedBetween =
      [some "a", some "\"b #\"c", none] := hhanded.trans (by decide +kernel)
  obtain ⟨follows, hreply, hfollows⟩ := hmore 5 rfl
  have hnext :
      ((Cursor.ofLine gluedComment).after (askedBetween.take 5 ++ [.more])).next.1 = none := by
    decide +kernel
  have hnone : follows = false := by
    rw [← Bool.not_eq_true, hfollows [.more] (by simp), hnext]
    simp
  have hstands : (Cursor.ofLine gluedComment).after [.more, .next, .more] =
      ⟨"\"b #\"c# d".toList⟩ := by decide +kernel
  rw [hstands] at hforward
  exact ⟨hall, hreply.trans (by rw [hnone]), (hsame [.next, .next, .next] rfl).trans hall,
    hforward "\"b #\"c" ⟨"# d".toList⟩ (by decide +kernel)⟩

end Brewin
