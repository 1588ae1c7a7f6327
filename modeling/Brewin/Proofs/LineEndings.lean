import Brewin.SourceLines

namespace Brewin

/-- A carriage return before a line feed. -/
def returnAndFeed : List Char := ['\r', '\n']

/-- The second text has a line feed for every carriage return before a line feed in the first: the
two join the same pieces. -/
def Unified (text unified : List Char) : Prop :=
  ∃ first others, text = returnAndFeed.intercalate (first :: others) ∧
    unified = ['\n'].intercalate (first :: others) ∧
    ∀ piece ∈ first :: others, ¬ returnAndFeed <:+: piece

/-- The second text is the first without one line feed at its end, if there is one. -/
def Unended (text body : List Char) : Prop :=
  text = body ++ ['\n'] ∨ text = body ∧ text.getLast? ≠ some '\n'

section Unifying

variable {front rest : List Char}

theorem joinLineEndings_cons {c : Char} (h : c = '\r' → rest.head? ≠ some '\n') :
    joinLineEndings (c :: rest) = c :: joinLineEndings rest := by
  rw [joinLineEndings]
  rintro tail hc rfl
  exact h hc rfl

/-- What holds no pair stays, if no pair begins in it either. -/
theorem joinLineEndings_append (hfront : ¬ returnAndFeed <:+: front)
    (hjoint : front.getLast? = some '\r' → rest.head? ≠ some '\n') :
    joinLineEndings (front ++ rest) = front ++ joinLineEndings rest := by
  induction front with
  | nil => rfl
  | cons c front ih =>
    rw [List.infix_cons_iff, not_or] at hfront
    have hhere : c = '\r' → (front ++ rest).head? ≠ some '\n' := by
      rintro rfl hnext
      cases front with
      | nil => exact hjoint rfl hnext
      | cons d front =>
        cases hnext
        exact hfront.1 ⟨front, rfl⟩
    have hrest : front.getLast? = some '\r' → rest.head? ≠ some '\n' := by
      intro hlast
      apply hjoint
      rw [List.getLast?_cons, hlast]
      rfl
    rw [List.cons_append, joinLineEndings_cons hhere, ih hfront.2 hrest, List.cons_append]

theorem joinLineEndings_pairless (hfront : ¬ returnAndFeed <:+: front) :
    joinLineEndings front = front := by
  have hend := @joinLineEndings_append front [] hfront (by simp)
  simpa [joinLineEndings] using hend

theorem joinLineEndings_returnAndFeed (hfront : ¬ returnAndFeed <:+: front) (rest : List Char) :
    joinLineEndings (front ++ (returnAndFeed ++ rest)) = front ++ '\n' :: joinLineEndings rest := by
  rw [joinLineEndings_append hfront (by simp [returnAndFeed])]
  rfl

theorem Unified.eq_joinLineEndings {text unified : List Char} (h : Unified text unified) :
    unified = joinLineEndings text := by
  obtain ⟨first, others, rfl, rfl, hpieces⟩ := h
  induction others generalizing first with
  | nil =>
    rw [List.intercalate_singleton, List.intercalate_singleton,
      joinLineEndings_pairless (hpieces first (by simp))]
  | cons next others ih =>
    have hrest := ih next fun piece hp => hpieces piece (List.mem_cons_of_mem first hp)
    rw [List.intercalate_cons_cons, List.intercalate_cons_cons, List.append_assoc,
      List.append_assoc, joinLineEndings_returnAndFeed (hpieces first (by simp)), hrest]
    rfl

/-- Every text has its pieces. -/
theorem unified_joinLineEndings (text : List Char) : Unified text (joinLineEndings text) := by
  fun_induction joinLineEndings text with
  | case1 rest ih =>
    obtain ⟨first, others, htext, hunified, hpieces⟩ := ih
    refine ⟨[], first :: others, ?_, ?_, ?_⟩
    · rw [List.intercalate_cons_cons, ← htext]
      rfl
    · rw [List.intercalate_cons_cons, ← hunified]
      rfl
    · intro piece hp
      rcases List.mem_cons.mp hp with rfl | hp
      · simp [returnAndFeed]
      · exact hpieces piece hp
  | case2 c rest hpair ih =>
    obtain ⟨first, others, htext, hunified, hpieces⟩ := ih
    refine ⟨c :: first, others, ?_, ?_, ?_⟩
    · rw [List.intercalate_cons_cons_left, ← htext]
    · rw [List.intercalate_cons_cons_left, ← hunified]
    · intro piece hp
      rcases List.mem_cons.mp hp with rfl | hp
      · rw [List.infix_cons_iff, not_or]
        refine ⟨?_, hpieces first List.mem_cons_self⟩
        rintro ⟨tail, heq⟩
        cases heq
        exact hpair (returnAndFeed.intercalate (tail :: others)) rfl (by simpa using htext)
      · exact hpieces piece (List.mem_cons_of_mem first hp)
  | case3 => exact ⟨[], [], rfl, rfl, by simp [returnAndFeed]⟩

end Unifying

theorem unended_dropFinalLineFeed (cs : List Char) : Unended cs (dropFinalLineFeed cs) := by
  unfold dropFinalLineFeed
  split
  next h =>
    obtain ⟨body, hbody⟩ := List.getLast?_eq_some_iff.mp h
    left
    rw [hbody, List.dropLast_concat]
  next h => exact Or.inr ⟨rfl, h⟩

theorem Unended.eq_dropFinalLineFeed {text body : List Char} (h : Unended text body) :
    dropFinalLineFeed text = body := by
  unfold dropFinalLineFeed
  rcases h with rfl | ⟨rfl, hlast⟩
  · simp
  · rw [if_neg hlast]

theorem cutAtLineFeeds_eq_splitOn (cs : List Char) : cutAtLineFeeds cs = cs.splitOn '\n' := by
  induction cs with
  | nil => rfl
  | cons c cs ih =>
    rw [List.splitOn_cons_eq_if_modifyHead, cutAtLineFeeds, ih]
    by_cases hc : c = '\n'
    · simp [hc]
    · obtain ⟨line, lines, hl⟩ := List.exists_cons_of_ne_nil (List.splitOn_ne_nil '\n' cs)
      simp [hc, hl]

/-- Unless nothing is left, the lines stand between the line feeds of what is left. -/
theorem splitLines_eq {text : String} {body : List Char}
    (h : Unended (joinLineEndings text.toList) body) :
    splitLines text = if body = [] then [] else (body.splitOn '\n').map String.ofList := by
  rw [splitLines, h.eq_dropFinalLineFeed]
  split
  next => simp
  next hne => rw [if_neg hne, cutAtLineFeeds_eq_splitOn]

theorem intercalate_splitLines {text : String} {body : List Char}
    (h : Unended (joinLineEndings text.toList) body) :
    ("\n".intercalate (splitLines text)).toList = body := by
  rw [splitLines_eq h]
  split
  next hempty => simp [hempty]
  next => simp [List.intercalate_splitOn, Function.comp_def]

/-- A line that can be ended by a line feed and by a carriage return before it. -/
structure Endable (line : String) : Prop where
  feedless : '\n' ∉ line.toList
  last : line.toList.getLast? ≠ some '\r'

theorem Endable.pairless {line : String} (h : Endable line) : ¬ returnAndFeed <:+: line.toList :=
  fun hpair => h.feedless (hpair.subset (by simp [returnAndFeed]))

theorem endable_empty : Endable "" :=
  ⟨by simp, by simp⟩

section Joining

variable {ending : String} {lines : List String}

/-- Behind a line both endings count as a line feed. -/
theorem joinLineEndings_ending {line : String} (hline : Endable line)
    (hending : ending ∈ ["\n", "\r\n"]) (rest : List Char) :
    joinLineEndings (line.toList ++ (ending.toList ++ rest)) =
      line.toList ++ '\n' :: joinLineEndings rest := by
  simp only [List.mem_cons, List.not_mem_nil, or_false] at hending
  rcases hending with rfl | rfl
  · rw [joinLineEndings_append hline.pairless fun h => absurd h hline.last]
    rfl
  · exact joinLineEndings_returnAndFeed hline.pairless rest

theorem joinLineEndings_intercalate (hlines : ∀ line ∈ lines, Endable line)
    (hending : ending ∈ ["\n", "\r\n"]) :
    joinLineEndings (ending.intercalate lines).toList = ("\n".intercalate lines).toList := by
  induction lines with
  | nil => rfl
  | cons line lines ih =>
    have hline := hlines line List.mem_cons_self
    have hrest := ih fun l hl => hlines l (List.mem_cons_of_mem line hl)
    by_cases hnil : lines = []
    · rw [hnil, String.intercalate_singleton, String.intercalate_singleton,
        joinLineEndings_pairless hline.pairless]
    · rw [String.intercalate_cons_of_ne_nil hnil, String.intercalate_cons_of_ne_nil hnil]
      simp only [String.toList_append, List.append_assoc]
      rw [joinLineEndings_ending hline hending, hrest]
      rfl

/-- To end every line is to join the lines with an empty one behind them. -/
theorem join_map_append (ending : String) (lines : List String) :
    String.join (lines.map (· ++ ending)) = ending.intercalate (lines ++ [""]) := by
  induction lines with
  | nil => simp
  | cons line lines ih =>
    rw [List.map_cons, String.join_cons, ih, List.cons_append,
      String.intercalate_cons_of_ne_nil (by simp)]

theorem intercalate_eq_empty_iff (hne : lines ≠ []) :
    "\n".intercalate lines = "" ↔ lines = [""] := by
  match lines, hne with
  | [line], _ => simp
  | first :: second :: others, _ => simp

/-- Lines that are left with line feeds between them are the lines of the text. -/
theorem splitLines_of_unended {text : String} (hlines : ∀ line ∈ lines, Endable line)
    (hne : lines ≠ [])
    (h : Unended (joinLineEndings text.toList) ("\n".intercalate lines).toList) :
    splitLines text = if lines = [""] then [] else lines := by
  have hsplit : ("\n".intercalate lines).toList.splitOn '\n' = lines.map String.toList := by
    rw [String.toList_intercalate]
    apply List.splitOn_intercalate
    · intro cs hcs
      obtain ⟨line, hline, rfl⟩ := List.mem_map.mp hcs
      exact (hlines line hline).feedless
    · simpa using hne
  rw [splitLines_eq h, hsplit, List.map_map]
  simp only [String.toList_eq_nil_iff, intercalate_eq_empty_iff hne]
  simp [Function.comp_def]

theorem splitLines_join (hlines : ∀ line ∈ lines, Endable line)
    (hending : ending ∈ ["\n", "\r\n"]) :
    splitLines (String.join (lines.map (· ++ ending))) = if lines = [""] then [] else lines := by
  by_cases hne : lines = []
  · subst hne
    rfl
  · have hall : ∀ line ∈ lines ++ [""], Endable line := by
      intro line hl
      rcases List.mem_append.mp hl with hl | hl
      · exact hlines line hl
      · cases List.mem_singleton.mp hl
        exact endable_empty
    apply splitLines_of_unended hlines hne
    left
    rw [join_map_append, joinLineEndings_intercalate hall hending,
      String.intercalate_append_of_ne_nil hne (by simp)]
    simp

/-- Joined lines end in their last line. -/
theorem suffix_intercalate (front : List String) (last : String) :
    last.toList <:+ ("\n".intercalate (front ++ [last])).toList := by
  by_cases hfront : front = []
  · simp [hfront]
  · rw [String.intercalate_append_of_ne_nil hfront (by simp)]
    exact ⟨("\n".intercalate front ++ "\n").toList, by simp⟩

theorem splitLines_intercalate (hlines : ∀ line ∈ lines, Endable line)
    (hending : ending ∈ ["\n", "\r\n"]) {last : String} (hlast : lines.getLast? = some last)
    (hne : last ≠ "") : splitLines (ending.intercalate lines) = lines := by
  obtain ⟨front, rfl⟩ := List.getLast?_eq_some_iff.mp hlast
  have hfeed : ("\n".intercalate (front ++ [last])).toList.getLast? ≠ some '\n' := by
    obtain ⟨before, hbefore⟩ := suffix_intercalate front last
    rw [← hbefore, List.getLast?_append]
    intro hc
    cases hl : last.toList.getLast? with
    | none => exact hne (by simpa using hl)
    | some c =>
      rw [hl, Option.some_or] at hc
      cases hc
      exact (hlines last (by simp)).feedless (List.mem_of_getLast? hl)
  have hsingle : front ++ [last] ≠ [""] := by
    intro h
    rw [h] at hlast
    cases hlast
    exact hne rfl
  have hunended : Unended (joinLineEndings (ending.intercalate (front ++ [last])).toList)
      ("\n".intercalate (front ++ [last])).toList := by
    rw [joinLineEndings_intercalate hlines hending]
    exact Or.inr ⟨rfl, hfeed⟩
  rw [splitLines_of_unended hlines (by simp) hunended, if_neg hsingle]

end Joining

theorem lineFeed_not_mem_splitLines {text line : String} (h : line ∈ splitLines text) :
    '\n' ∉ line.toList := by
  unfold splitLines at h
  split at h
  next => cases h
  next cs _ =>
    obtain ⟨piece, hpiece, rfl⟩ := List.mem_map.mp h
    rw [String.toList_ofList]
    exact lineFeed_not_mem_cut hpiece

/-- Lines that are joined with either ending are split again, with or without an ending at the end;
the lines of any text, joined by line feeds, are the text with unified endings and without the last
of them. -/
theorem splitLines_inverts_joining :
    (∀ lines : List String, (∀ line ∈ lines, Endable line) → ∀ ending ∈ ["\n", "\r\n"],
      splitLines (String.join (lines.map (· ++ ending))) = (if lines = [""] then [] else lines) ∧
      ∀ last, lines.getLast? = some last → last ≠ "" →
        splitLines (ending.intercalate lines) = lines) ∧
    ∀ text : String, (∀ line ∈ splitLines text, '\n' ∉ line.toList) ∧
      (∃ unified, Unified text.toList unified) ∧
      ∀ unified, Unified text.toList unified →
        Unended unified ("\n".intercalate (splitLines text)).toList := by
  refine ⟨fun lines hlines ending hending => ⟨splitLines_join hlines hending, ?_⟩, fun text => ?_⟩
  · intro last hlast hne
    exact splitLines_intercalate hlines hending hlast hne
  · refine ⟨fun line => lineFeed_not_mem_splitLines, ⟨_, unified_joinLineEndings _⟩, ?_⟩
    intro unified hunified
    have hunended := unended_dropFinalLineFeed unified
    rw [hunified.eq_joinLineEndings] at hunended ⊢
    rwa [intercalate_splitLines hunended]

theorem splitLines_inverts_joining_blank :
    Endable "a\rb" ∧ Endable "" ∧ Endable "c" ∧
    splitLines "a\rb\r\n\r\nc\r\n" = ["a\rb", "", "c"] ∧
    splitLines "a\rb\n\nc" = ["a\rb", "", "c"] ∧
    Unified "a\r\r\n\n\n".toList "a\r\n\n\n".toList ∧
    "\n".intercalate (splitLines "a\r\r\n\n\n") = "a\r\n\n" := by
  have hfirst : Endable "a\rb" := ⟨by decide, by decide⟩
  have hlast : Endable "c" := ⟨by decide, by decide⟩
  have hlines : ∀ line ∈ ["a\rb", "", "c"], Endable line := by
    simp [hfirst, endable_empty, hlast]
  have hunified : Unified "a\r\r\n\n\n".toList "a\r\n\n\n".toList :=
    ⟨['a', '\r'], [['\n', '\n']], rfl, rfl, by decide⟩
  obtain ⟨hjoin, htext⟩ := splitLines_inverts_joining
  refine ⟨hfirst, endable_empty, hlast, ?_, ?_, hunified, ?_⟩
  · exact (hjoin _ hlines "\r\n" (by simp)).1
  · exact (hjoin _ hlines "\n" (by simp)).2 "c" rfl (by decide)
  · rcases (htext "a\r\r\n\n\n").2.2 _ hunified with hended | ⟨-, hopen⟩
    · rw [← String.toList_inj]
      exact List.append_cancel_right hended.symm
    · exact absurd rfl hopen

end Brewin
