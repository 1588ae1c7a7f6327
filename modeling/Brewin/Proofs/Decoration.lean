import Brewin.Listing
import Brewin.Proofs.DefinedFunctions
import Brewin.Proofs.NumeralText

namespace Brewin

/-- What follows the escape sequence in front: the escape character, a bracket, digits and the
letter m. -/
def behindEscape? : List Char → Option (List Char)
  | '\x1b' :: '[' :: cs =>
    match cs.dropWhile Char.isDigit with
    | 'm' :: rest => if cs.head?.any Char.isDigit then some rest else none
    | _ => none
  | _ => none

theorem length_behindEscape?_lt {cs rest : List Char} (h : behindEscape? cs = some rest) :
    rest.length < cs.length := by
  unfold behindEscape? at h
  split at h
  next cs =>
    split at h
    next after hafter =>
      split at h
      next =>
        cases h
        have hle := (List.dropWhile_sublist Char.isDigit (l := cs)).length_le
        rw [hafter] at hle
        simp only [List.length_cons] at hle ⊢
        omega
      next => cases h
    next => cases h
  next => cases h

/-- The text without its escape sequences. -/
def dropEscapes (cs : List Char) : List Char :=
  match _h : behindEscape? cs with
  | some rest => dropEscapes rest
  | none =>
    match cs with
    | [] => []
    | c :: cs => c :: dropEscapes cs
termination_by cs.length
decreasing_by
  · exact length_behindEscape?_lt _h
  · simp

theorem dropEscapes_of_some {cs rest : List Char} (h : behindEscape? cs = some rest) :
    dropEscapes cs = dropEscapes rest := by
  rw [dropEscapes]
  split
  next rest' h' =>
    cases h.symm.trans h'
    rfl
  next h' => cases h.symm.trans h'

theorem dropEscapes_of_ne {c : Char} (h : c ≠ '\x1b') (cs : List Char) :
    dropEscapes (c :: cs) = c :: dropEscapes cs := by
  have hnone : behindEscape? (c :: cs) = none := by
    unfold behindEscape?
    split
    next heq =>
      cases heq
      exact absurd rfl h
    next => rfl
  rw [dropEscapes]
  split
  next h' => cases hnone.symm.trans h'
  next => rfl

theorem behindEscape?_of_digits {digits : List Char} (h : IsDigits digits) (rest : List Char) :
    behindEscape? ('\x1b' :: '[' :: (digits ++ 'm' :: rest)) = some rest := by
  have hdrop : (digits ++ 'm' :: rest).dropWhile Char.isDigit = 'm' :: rest := by
    rw [List.dropWhile_append_of_pos h.digits]
    rfl
  have hfirst : (digits ++ 'm' :: rest).head?.any Char.isDigit = true := by
    obtain ⟨first, others, rfl⟩ := List.exists_cons_of_ne_nil h.nonempty
    exact h.head
  rw [behindEscape?, hdrop]
  simp only [hfirst, ↓reduceIte]

def withoutEscapes (s : String) : String :=
  String.ofList (dropEscapes s.toList)

/-- The text has no escape character. -/
def EscapeFree (s : String) : Prop :=
  '\x1b' ∉ s.toList

instance (s : String) : Decidable (EscapeFree s) :=
  inferInstanceAs (Decidable (¬ _))

/-- Wherever the two texts stand, the first without escape sequences is the second. -/
def Decorates (shown plain : String) : Prop :=
  ∀ rest, dropEscapes (shown.toList ++ rest) = plain.toList ++ dropEscapes rest

namespace Decorates

variable {shown plain shown' plain' : String}

theorem withoutEscapes_eq (h : Decorates shown plain) : withoutEscapes shown = plain := by
  have hend := h []
  have hnil : dropEscapes [] = [] := by
    rw [dropEscapes]
    rfl
  rw [List.append_nil, hnil, List.append_nil] at hend
  rw [withoutEscapes, hend, String.ofList_toList]

theorem append (h : Decorates shown plain) (h' : Decorates shown' plain') :
    Decorates (shown ++ shown') (plain ++ plain') := by
  intro rest
  rw [String.toList_append, List.append_assoc, h, h', String.toList_append, List.append_assoc]

theorem refl {s : String} (h : EscapeFree s) : Decorates s s := by
  have hall : ∀ cs : List Char, '\x1b' ∉ cs → ∀ rest,
      dropEscapes (cs ++ rest) = cs ++ dropEscapes rest := by
    intro cs hcs rest
    induction cs with
    | nil => rfl
    | cons c cs ih =>
      obtain ⟨hc, hrest⟩ := not_or.mp (fun hmem => hcs (List.mem_cons.mpr hmem))
      rw [List.cons_append, dropEscapes_of_ne (Ne.symm hc), ih hrest, List.cons_append]
  exact hall s.toList h

theorem escape {digits : String} (h : IsDigits digits.toList) :
    Decorates (escape digits) "" := by
  intro rest
  have hescape : (Brewin.escape digits).toList ++ rest =
      '\x1b' :: '[' :: (digits.toList ++ 'm' :: rest) := by
    simp [Brewin.escape]
  rw [hescape, dropEscapes_of_some (behindEscape?_of_digits h rest)]
  rfl

theorem paint (h : Decorates shown plain) (color : Color) :
    Decorates (paint true color shown) (Brewin.paint false color plain) := by
  have hstart : Decorates (Brewin.escape (toString color.number)) "" :=
    escape (by cases color <;> exact isSome_readNat?_iff.mp (by decide))
  have hreset : Decorates (Brewin.escape "0") "" :=
    escape (isSome_readNat?_iff.mp (by decide))
  have hall := (hstart.append h).append hreset
  rwa [String.append_empty, String.empty_append] at hall

theorem appendText (h : Decorates shown plain) (s : String) (hs : EscapeFree s := by decide) :
    Decorates (shown ++ s) (plain ++ s) :=
  h.append (refl hs)

theorem painted {s : String} (h : EscapeFree s) (color : Color) :
    Decorates (Brewin.paint true color s) (Brewin.paint false color s) :=
  (refl h).paint color

end Decorates

section EscapeFree

variable {s t : String} {tokens : List String}

@[simp] theorem escapeFree_append : EscapeFree (s ++ t) ↔ EscapeFree s ∧ EscapeFree t := by
  simp [EscapeFree]

theorem EscapeFree.mono (h : EscapeFree t) (hsub : s.toList ⊆ t.toList) : EscapeFree s :=
  fun hmem => h (hsub hmem)

theorem escapeFree_intercalate (hs : EscapeFree s) (htokens : ∀ token ∈ tokens, EscapeFree token) :
    EscapeFree (s.intercalate tokens) := by
  induction tokens with
  | nil => simp [EscapeFree]
  | cons token tokens ih =>
    have htoken := htokens token List.mem_cons_self
    have hrest := ih fun t ht => htokens t (List.mem_cons_of_mem token ht)
    by_cases hnil : tokens = []
    · simpa [hnil] using htoken
    · rw [String.intercalate_cons_of_ne_nil hnil]
      simp [htoken, hs, hrest]

theorem escapeFree_trim (h : EscapeFree s) : EscapeFree (trim s) := by
  obtain ⟨front, back, hsplit, -, -⟩ := (trimmed_trim s).split
  apply h.mono
  rw [hsplit]
  simp

theorem Numeral.escape_not_mem {cs : List Char} {i : Int} (h : Numeral cs i) : '\x1b' ∉ cs := by
  intro hmem
  cases h with
  | digits hd => exact absurd (hd.digits _ hmem) (by decide)
  | minus hd =>
    rcases List.mem_cons.mp hmem with hminus | hmem
    · exact absurd hminus (by decide)
    · exact absurd (hd.digits _ hmem) (by decide)

theorem escapeFree_toString (i : Int) : EscapeFree (toString i) :=
  (numeral_toString i).escape_not_mem

@[simp] theorem escapeFree_repr (n : Nat) : EscapeFree n.repr :=
  escapeFree_toString n

theorem escapeFree_of_mem_tokenize {line token : String} (hline : EscapeFree line)
    (h : token ∈ tokenize line) : EscapeFree token := by
  obtain ⟨d, hd, hchars⟩ := Layout.exists_lexical line.toList
  rw [tokenize_of_lexical hd hchars] at h
  obtain ⟨p, hp, rfl⟩ := List.mem_map.mp h
  apply hline.mono
  intro c hc
  rw [String.toList_ofList] at hc
  rw [← hchars]
  simp only [Layout.chars, Layout.body, List.mem_append, List.mem_flatMap]
  exact Or.inr (Or.inl ⟨p, hp, Or.inl hc⟩)

end EscapeFree

theorem IsSpaced.escapeFree {text : String} {parts : List String} (h : IsSpaced text parts)
    (hparts : ∀ part ∈ parts, EscapeFree part) : EscapeFree text := by
  have hspace : EscapeFree " " := by decide
  have hspaced := escapeFree_intercalate hspace hparts
  rcases h with rfl | rfl
  · exact hspaced
  · exact escapeFree_append.mpr ⟨hspaced, hspace⟩

/-- Some texts are trimmed, but all of them come from the parts with spaces between them. -/
theorem Statement.exists_isSpaced (s : Statement) :
    ∃ spaced, IsSpaced spaced s.parts ∧ (s.text = spaced ∨ s.text = trim spaced) := by
  cases s with
  | func name => exact ⟨_, isSpaced_pair "func" name, Or.inl rfl⟩
  | endFunc => exact ⟨_, isSpaced_single "endfunc", Or.inl rfl⟩
  | var type names => exact ⟨_, isSpaced_cons_cons "var" type names, Or.inl rfl⟩
  | assign target expr => exact ⟨_, isSpaced_cons_cons "assign" target expr, Or.inl rfl⟩
  | call name args => exact ⟨_, isSpaced_cons_cons "funccall" name args, Or.inr rfl⟩
  | ifThen cond => exact ⟨_, isSpaced_cons "if" cond, Or.inl rfl⟩
  | orElse => exact ⟨_, isSpaced_single "else", Or.inl rfl⟩
  | endIf => exact ⟨_, isSpaced_single "endif", Or.inl rfl⟩
  | whileDo cond => exact ⟨_, isSpaced_cons "while" cond, Or.inl rfl⟩
  | endWhile => exact ⟨_, isSpaced_single "endwhile", Or.inl rfl⟩
  | ret expr => exact ⟨_, isSpaced_cons "return" expr, Or.inr rfl⟩
  | nop => exact ⟨_, isSpaced_single "nop", Or.inl rfl⟩
  | malformed omission => exact ⟨_, by cases omission <;> exact Or.inl (by decide), Or.inl rfl⟩

theorem Statement.escapeFree_parts_decode {tokens : List String}
    (h : ∀ token ∈ tokens, EscapeFree token) :
    ∀ part ∈ (decode tokens).parts, EscapeFree part := by
  rcases decode_cases tokens with hnop | ⟨k, args, rfl, hdecode⟩
  · rw [hnop]
    decide
  · rw [hdecode]
    by_cases hformed : ∃ omission, ofKeyword k args = .malformed omission
    · obtain ⟨omission, homission⟩ := hformed
      rw [homission]
      cases omission <;> decide
    · intro part hpart
      exact h part ((parts_ofKeyword (not_exists.mp hformed)).subset hpart)

theorem Statement.escapeFree_text_decode {tokens : List String}
    (h : ∀ token ∈ tokens, EscapeFree token) : EscapeFree (decode tokens).text := by
  obtain ⟨spaced, hspaced, htext⟩ := (decode tokens).exists_isSpaced
  have hfree := hspaced.escapeFree (escapeFree_parts_decode h)
  rcases htext with htext | htext
  · rwa [htext]
  · rw [htext]
    exact escapeFree_trim hfree

theorem Flow.escapeFree_describe (flow : Flow) (line : Nat) : EscapeFree (flow.describe line) := by
  have hwords : EscapeFree "else " ∧ EscapeFree ", endif " ∧ EscapeFree "endif " ∧
      EscapeFree "endwhile " ∧ EscapeFree "while " ∧ EscapeFree "" := by decide
  unfold describe
  (repeat' split) <;> simp [hwords]

theorem Param.escapeFree_ofToken {token : String} (h : EscapeFree token) :
    EscapeFree (ofToken token).name ∧ EscapeFree (ofToken token).type := by
  have hname : (ofToken token).name.toList ⊆ token.toList := by
    unfold ofToken
    split <;> simpa using (List.takeWhile_sublist _).subset
  have htype : (ofToken token).type.toList ⊆ token.toList := by
    have htail : (token.toList.dropWhile (· != ':')).tail ⊆ token.toList :=
      ((List.tail_sublist _).trans (List.dropWhile_sublist _)).subset
    unfold ofToken
    split
    next type heq =>
      rw [heq] at htail
      intro c hc
      exact htail (by simp_all)
    next type heq => simpa using htail
  exact ⟨h.mono hname, h.mono htype⟩

theorem escapeFree_listedParam {token : String} (h : EscapeFree token) :
    EscapeFree (listedParam (Param.ofToken token)) := by
  have hwords : EscapeFree ": " ∧ EscapeFree "ref " ∧ EscapeFree "" := by decide
  obtain ⟨hname, htype⟩ := Param.escapeFree_ofToken h
  unfold listedParam
  split <;> simp [hwords, hname, htype]

theorem Definition.escapeFree_ofTokens? {n : Nat} {tokens : List String} {f : Definition}
    (hf : ofTokens? n tokens = some f) (h : ∀ token ∈ tokens, EscapeFree token) :
    EscapeFree f.name ∧ EscapeFree f.returnType ∧
      EscapeFree (", ".intercalate (f.params.map listedParam)) := by
  unfold ofTokens? at hf
  split at hf
  next first name rest =>
    split at hf
    next =>
      cases hf
      have hrest : ∀ token ∈ rest, EscapeFree token :=
        fun token ht => h token (List.mem_cons_of_mem _ (List.mem_cons_of_mem _ ht))
      refine ⟨h name (by simp), ?_, escapeFree_intercalate (by decide) ?_⟩
      · cases hlast : rest.getLast? with
        | none => exact List.not_mem_nil
        | some last => exact hrest last (List.mem_of_getLast? hlast)
      · intro text htext
        simp only [List.map_map, List.mem_map] at htext
        obtain ⟨token, htoken, rfl⟩ := htext
        exact escapeFree_listedParam (hrest token (List.dropLast_subset _ htoken))
    next => cases hf
  next => cases hf

theorem decorates_paintLine (line : Int) : Decorates (paintLine true line) (paintLine false line) :=
  .painted (escapeFree_toString line) .cyan

theorem decorates_faultReport {label message source : String} (hlabel : EscapeFree label)
    (hmessage : EscapeFree message) (hsource : EscapeFree source) (line : Int) :
    Decorates (faultReport true label line message source)
      (faultReport false label line message source) := by
  have hkind := (Decorates.painted hlabel .bold).paint .brightRed
  have hline := (hkind.appendText " on line ").append (decorates_paintLine line)
  have hmessage := ((hline.appendText ": ").appendText message hmessage).appendText "\n"
  exact hmessage.append (.painted hsource .gray)

section Listing

theorem linesText_cons (line : String) (lines : List String) :
    linesText (line :: lines) = line ++ "\n" ++ linesText lines := by
  simp [linesText]

theorem linesText_append (lines more : List String) :
    linesText (lines ++ more) = linesText lines ++ linesText more := by
  simp [linesText]

theorem decorates_linesText_singleton {shown plain : String} (h : Decorates shown plain) :
    Decorates (linesText [shown]) (linesText [plain]) := by
  rw [linesText_cons, linesText_cons]
  exact (h.appendText "\n").appendText ""

theorem decorates_linesText_filterMap {α : Type} {shown plain : α → Option String} {xs : List α}
    (h : ∀ x ∈ xs, Option.Rel Decorates (shown x) (plain x)) :
    Decorates (linesText (xs.filterMap shown)) (linesText (xs.filterMap plain)) := by
  induction xs with
  | nil => exact Decorates.refl (s := "") (by decide)
  | cons x xs ih =>
    have hrest := ih fun y hy => h y (List.mem_cons_of_mem x hy)
    have hx := h x List.mem_cons_self
    rw [List.filterMap_cons, List.filterMap_cons]
    generalize shown x = a, plain x = b at hx
    cases hx with
    | none => exact hrest
    | some hline =>
      simp only [linesText_cons]
      exact (hline.appendText "\n").append hrest

theorem decorates_linesText_map {α : Type} {shown plain : α → String} {xs : List α}
    (h : ∀ x ∈ xs, Decorates (shown x) (plain x)) :
    Decorates (linesText (xs.map shown)) (linesText (xs.map plain)) := by
  rw [← List.filterMap_eq_map, ← List.filterMap_eq_map]
  exact decorates_linesText_filterMap fun x hx => .some (h x hx)

theorem decorates_listedLine? (flow : Flow) (index : Nat) {statement : Statement}
    (h : EscapeFree statement.text) :
    Option.Rel Decorates (listedLine? true flow index statement)
      (listedLine? false flow index statement) := by
  have hjump : ∀ jump, EscapeFree jump →
      Decorates (if jump = "" then "" else paint true .gray (" -> " ++ jump))
        (if jump = "" then "" else paint false .gray (" -> " ++ jump)) := by
    intro jump hjump
    split
    · exact .refl (by decide)
    · exact .painted (escapeFree_append.mpr ⟨by decide, hjump⟩) .gray
  unfold listedLine?
  split
  · exact .none
  · have hstatement := ((decorates_paintLine index).appendText ": ").append (.painted h .yellow)
    exact .some (hstatement.append (hjump _ (flow.escapeFree_describe index)))

theorem decorates_listedFunction {n : Nat} {tokens : List String} {f : Definition}
    (hf : Definition.ofTokens? n tokens = some f) (h : ∀ token ∈ tokens, EscapeFree token) :
    Decorates (listedFunction true f) (listedFunction false f) := by
  obtain ⟨hname, hreturn, hparams⟩ := Definition.escapeFree_ofTokens? hf h
  have hcalled := ((decorates_paintLine f.line).appendText " ").append (.painted hname .cyan)
  have htaken := (hcalled.appendText "(").append (.painted hparams .blue)
  exact (htaken.appendText ") ").append (.painted hreturn .blue)

variable {stream : List (List String)}

/-- The statements of a program, from the tokens of its lines. -/
theorem decorates_listedLines (h : ∀ tokens ∈ stream, ∀ token ∈ tokens, EscapeFree token)
    (flow : Flow) :
    Decorates
      (linesText ((stream.map Line.ofTokens).zipIdx.filterMap fun (line, index) =>
        listedLine? true flow index line.statement))
      (linesText ((stream.map Line.ofTokens).zipIdx.filterMap fun (line, index) =>
        listedLine? false flow index line.statement)) := by
  apply decorates_linesText_filterMap
  rintro ⟨line, index⟩ hmem
  obtain ⟨tokens, htokens, rfl⟩ := List.mem_map.mp (List.fst_mem_of_mem_zipIdx hmem)
  exact decorates_listedLine? flow index (Statement.escapeFree_text_decode (h tokens htokens))

/-- Every function is read from the tokens of a line. -/
theorem decorates_listedFunctions (h : ∀ tokens ∈ stream, ∀ token ∈ tokens, EscapeFree token) :
    Decorates (linesText ((FunctionTable.ofStream stream).functions.map (listedFunction true)))
      (linesText ((FunctionTable.ofStream stream).functions.map (listedFunction false))) := by
  apply decorates_linesText_map
  intro f hf
  obtain ⟨name, hfind⟩ := (FunctionTable.ordered_ofStream stream).mem_functions_iff.mp hf
  obtain ⟨tokens, hline, hread⟩ := (FunctionTable.find?_ofStream_eq_some_iff.mp hfind).read
  exact decorates_listedFunction (Option.filter_eq_some_iff.mp hread).1
    (h tokens (List.mem_of_getElem? hline))

theorem decorates_listing {source : List String} (h : ∀ line ∈ source, EscapeFree line) :
    Decorates (listing true (Program.load source)) (listing false (Program.load source)) := by
  have htokens : ∀ tokens ∈ source.map tokenize, ∀ token ∈ tokens, EscapeFree token := by
    intro tokens hmem token htoken
    obtain ⟨line, hline, rfl⟩ := List.mem_map.mp hmem
    exact escapeFree_of_mem_tokenize (h line hline) htoken
  have htitle : ∀ title, EscapeFree title → ∀ color,
      Decorates (linesText [paint true color title]) (linesText [paint false color title]) :=
    fun title hfree color => decorates_linesText_singleton (.painted hfree color)
  have hempty : ∀ n, Decorates
      (linesText (if n = 0 then [paint true .gray "No code loaded."] else []))
      (linesText (if n = 0 then [paint false .gray "No code loaded."] else [])) := by
    intro n
    split
    · exact htitle _ (by decide) .gray
    · exact .refl (s := "") (by decide)
  unfold listing listingLines
  simp only [linesText_append]
  have hlines := ((htitle "=== Decoded Program ===" (by decide) .green).append
    (hempty (Program.load source).size)).append
      (decorates_listedLines htokens (Program.load source).flow)
  exact (hlines.append (htitle "\n=== Functions ===" (by decide) .green)).append
    (decorates_listedFunctions htokens)

end Listing

/-- The escape sequences are all that colours add to the listing of a source and to the report of a
fault. -/
theorem colors_only_decorate :
    (∀ source : List String, (∀ line ∈ source, EscapeFree line) →
      withoutEscapes (listing true (Program.load source)) = listing false (Program.load source)) ∧
    ∀ label message source : String, EscapeFree label → EscapeFree message → EscapeFree source →
      ∀ line : Int, withoutEscapes (faultReport true label line message source) =
        faultReport false label line message source := by
  refine ⟨fun source h => (decorates_listing h).withoutEscapes_eq, ?_⟩
  intro label message source hlabel hmessage hsource line
  exact (decorates_faultReport hlabel hmessage hsource line).withoutEscapes_eq

/-- A source with a loop and a function, and a fault in its last line. -/
theorem colors_only_decorate_loop :
    (∀ line ∈ ["while x", "endwhile", "func f x:refint int"], EscapeFree line) ∧
    withoutEscapes (listing true (Program.load ["while x", "endwhile", "func f x:refint int"])) =
      "=== Decoded Program ===\n0: while x -> endwhile 1\n1: endwhile -> while 0\n2: func f\n" ++
        "\n=== Functions ===\n2 f(x: ref int) int\n" ∧
    withoutEscapes ("\x1b[91m\x1b[1mNameError\x1b[0m\x1b[0m on line \x1b[36m0\x1b[0m: " ++
        "variable x not found\n\x1b[90mwhile x\x1b[0m") =
      "NameError on line 0: variable x not found\nwhile x" := by
  have hsource : ∀ line ∈ ["while x", "endwhile", "func f x:refint int"], EscapeFree line := by
    decide
  obtain ⟨hlisting, hreport⟩ := colors_only_decorate
  refine ⟨hsource, ?_, ?_⟩
  · rw [hlisting _ hsource]
    decide +kernel
  · exact hreport "NameError" "variable x not found" "while x" (by decide) (by decide) (by decide) 0

end Brewin
