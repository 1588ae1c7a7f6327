import Mathlib.Data.List.Induction
import Mathlib.Data.List.Pairwise
import Brewin.Proofs.DefinitionLines

namespace Brewin

section Headers

/-- The token that declares a parameter. -/
def Param.token (q : Param) : String :=
  q.name ++ ":" ++ (if q.byRef then "ref" else "") ++ q.type

/-- A colon in the name or "ref" before a type by value would be read in another way. -/
structure Param.Plain (q : Param) : Prop where
  name : ':' ∉ q.name.toList
  type : q.byRef = false → ¬ "ref".toList <+: q.type.toList

theorem Param.ofToken_token {q : Param} (h : q.Plain) : Param.ofToken q.token = q := by
  obtain ⟨name, type, byRef⟩ := q
  have hname : ∀ c ∈ name.toList, (c != ':') = true := by
    intro c hc
    have hne : c ≠ ':' := fun he => h.name (he ▸ hc)
    simpa using hne
  have htoken : (Param.token ⟨name, type, byRef⟩).toList =
      name.toList ++ ':' :: ((if byRef then "ref" else "").toList ++ type.toList) := by
    simp [Param.token]
  have hfront : (Param.token ⟨name, type, byRef⟩).toList.takeWhile (· != ':') = name.toList := by
    rw [htoken, List.takeWhile_append_of_pos hname]
    simp
  have hback : ((Param.token ⟨name, type, byRef⟩).toList.dropWhile (· != ':')).tail =
      (if byRef then "ref" else "").toList ++ type.toList := by
    rw [htoken, List.dropWhile_append_of_pos hname]
    simp
  unfold Param.ofToken
  rw [hfront, hback, String.ofList_toList]
  cases byRef with
  | true => simp
  | false =>
    have hplain := h.type rfl
    simp only [Bool.false_eq_true, ↓reduceIte, String.toList_empty, List.nil_append]
    split
    next rest heq => exact absurd ⟨rest, heq.symm⟩ hplain
    next => rw [String.ofList_toList]

/-- The tokens of the line that declares a function. -/
def Definition.header (f : Definition) : List String :=
  "func" :: f.name :: (f.params.map Param.token ++ [f.returnType])

theorem Definition.ofTokens?_header {f : Definition} (h : ∀ q ∈ f.params, q.Plain) :
    Definition.ofTokens? f.line f.header = some f := by
  have hfunc : classify "func" = .keyword .func := classify_eq_keyword_iff.mpr (by decide)
  have hparams : f.params.map (Param.ofToken ∘ Param.token) = f.params := by
    conv_rhs => rw [← List.map_id f.params]
    exact List.map_congr_left fun q hq => Param.ofToken_token (h q hq)
  simp [Definition.ofTokens?, Definition.header, hfunc, hparams]

theorem Definition.ofLine?_header {f : Definition} (h : ∀ q ∈ f.params, q.Plain) :
    Definition.ofLine? f.name (f.header, f.line) = some f := by
  simp [Definition.ofLine?, Definition.ofTokens?_header h]

end Headers

section LastLine

/-- The definition is read from the last line of the stream that defines the name. -/
structure Definition.Last (stream : List (List String)) (name : String) (f : Definition) :
    Prop where
  read : ∃ tokens, stream[f.line]? = some tokens ∧ ofLine? name (tokens, f.line) = some f
  last : ∀ n tokens, stream[n]? = some tokens → Statement.decode tokens = .func name → n ≤ f.line

variable {stream : List (List String)} {tokens : List String} {name : String}

theorem Definition.Last.line_lt {f : Definition} (h : f.Last stream name) :
    f.line < stream.length := by
  obtain ⟨_, hline, _⟩ := h.read
  exact (List.getElem?_eq_some_iff.mp hline).1

theorem Definition.last_concat_of_some {f g : Definition}
    (hg : ofLine? name (tokens, stream.length) = some g) :
    f.Last (stream ++ [tokens]) name ↔ g = f := by
  obtain ⟨-, hline, hdecode⟩ := ofLine?_eq_some hg
  have hlast : (stream ++ [tokens])[stream.length]? = some tokens := List.getElem?_concat_length
  constructor
  · intro h
    have hlow := h.last _ _ hlast hdecode
    have hhigh := h.line_lt
    rw [List.length_append, List.length_singleton] at hhigh
    have heq : f.line = stream.length := by omega
    obtain ⟨line, hread, hf⟩ := h.read
    rw [heq, hlast] at hread
    rw [heq, ← Option.some.inj hread, hg] at hf
    exact Option.some.inj hf
  · rintro rfl
    refine ⟨⟨tokens, by rw [hline]; exact hlast, by rw [hline]; exact hg⟩, ?_⟩
    intro n line hn _
    have hbound := (List.getElem?_eq_some_iff.mp hn).1
    rw [List.length_append, List.length_singleton] at hbound
    omega

theorem Definition.last_concat_of_none {f : Definition}
    (hnone : ofLine? name (tokens, stream.length) = none) :
    f.Last (stream ++ [tokens]) name ↔ f.Last stream name := by
  have hskip : Statement.decode tokens ≠ .func name := by
    intro hdecode
    obtain ⟨g, hg⟩ := exists_ofLine? hdecode stream.length
    rw [hnone] at hg
    cases hg
  -- The new line is neither the one that `f` comes from nor one that defines the name.
  have hold : ∀ {n : Nat} {line : List String}, (stream ++ [tokens])[n]? = some line →
      Statement.decode line = .func name → stream[n]? = some line := by
    intro n line hn hdecode
    by_cases hlt : n < stream.length
    · rw [List.getElem?_append_left hlt] at hn
      exact hn
    · rw [List.getElem?_append_right (by omega)] at hn
      have hmem := List.mem_of_getElem? hn
      rw [List.mem_singleton.mp hmem] at hdecode
      exact absurd hdecode hskip
  constructor
  · intro h
    obtain ⟨line, hline, hf⟩ := h.read
    refine ⟨⟨line, hold hline (ofLine?_eq_some hf).2.2, hf⟩, ?_⟩
    intro n other hn hdecode
    have hbound := (List.getElem?_eq_some_iff.mp hn).1
    exact h.last n other (by rw [List.getElem?_append_left hbound]; exact hn) hdecode
  · intro h
    obtain ⟨line, hline, hf⟩ := h.read
    refine ⟨⟨line, by rw [List.getElem?_append_left h.line_lt]; exact hline, hf⟩, ?_⟩
    intro n other hn hdecode
    exact h.last n other (hold hn hdecode) hdecode

end LastLine

namespace FunctionTable

theorem ofStream_concat (stream : List (List String)) (tokens : List String) :
    ofStream (stream ++ [tokens]) = (ofStream stream).insertLine (tokens, stream.length) := by
  simp [ofStream, List.zipIdx_append, List.foldl_append]

/-- What is found under a name is what the last line that defines it says. -/
theorem find?_ofStream_eq_some_iff {stream : List (List String)} {name : String} {f : Definition} :
    (ofStream stream).find? name = some f ↔ f.Last stream name := by
  induction stream using List.reverseRecOn with
  | nil =>
    constructor
    · intro h
      cases h
    · intro h
      have hlt := h.line_lt
      simp at hlt
  | append_singleton stream tokens ih =>
    rw [ofStream_concat, find?_insertLine]
    cases hg : Definition.ofLine? name (tokens, stream.length) with
    | none => rw [Option.none_or, ih, Definition.last_concat_of_none hg]
    | some g => rw [Option.some_or, Option.some_inj, Definition.last_concat_of_some hg]

/-- The functions of the first `n` lines stand in the order of their lines, each name once. -/
structure Ordered (t : FunctionTable) (n : Nat) : Prop where
  sorted : t.functions.Pairwise (fun f g => f.line < g.line)
  below : ∀ f ∈ t.functions, f.line < n
  names : t.functions.Pairwise (fun f g => f.name ≠ g.name)

theorem Ordered.insertLine {t : FunctionTable} {n : Nat} (h : t.Ordered n)
    (tokens : List String) : (t.insertLine (tokens, n)).Ordered (n + 1) := by
  unfold FunctionTable.insertLine
  cases hf : Definition.ofTokens? n tokens with
  | none =>
    refine ⟨h.sorted, ?_, h.names⟩
    intro g hg
    have hlt := h.below g hg
    omega
  | some f =>
    have hline := ofTokens?_line hf
    have hkept : ∀ g ∈ t.functions.filter (·.name != f.name), g.line < n ∧ g.name ≠ f.name := by
      intro g hg
      obtain ⟨hmem, hne⟩ := List.mem_filter.mp hg
      exact ⟨h.below g hmem, by simpa using hne⟩
    refine ⟨?_, ?_, ?_⟩
    · refine List.pairwise_append.mpr ⟨h.sorted.filter _, List.pairwise_singleton _ _, ?_⟩
      intro g hg f' hf'
      obtain rfl := List.mem_singleton.mp hf'
      have hlt := (hkept g hg).1
      omega
    · intro g hg
      rcases List.mem_append.mp hg with hg | hg
      · have hlt := (hkept g hg).1
        omega
      · obtain rfl := List.mem_singleton.mp hg
        omega
    · refine List.pairwise_append.mpr ⟨h.names.filter _, List.pairwise_singleton _ _, ?_⟩
      intro g hg f' hf'
      obtain rfl := List.mem_singleton.mp hf'
      exact (hkept g hg).2

theorem ordered_ofStream (stream : List (List String)) :
    (ofStream stream).Ordered stream.length := by
  induction stream using List.reverseRecOn with
  | nil => exact ⟨.nil, by simp [ofStream], .nil⟩
  | append_singleton stream tokens ih =>
    rw [ofStream_concat, List.length_append]
    exact ih.insertLine tokens

/-- Each function is listed where its name leads to. -/
theorem Ordered.mem_functions_iff {t : FunctionTable} {n : Nat} (h : t.Ordered n)
    {f : Definition} : f ∈ t.functions ↔ ∃ name, t.find? name = some f := by
  constructor
  · intro hmem
    have hsome : (t.find? f.name).isSome := List.find?_isSome.mpr ⟨f, hmem, by simp⟩
    obtain ⟨g, hg⟩ := Option.isSome_iff_exists.mp hsome
    have hname : g.name = f.name := by simpa using List.find?_some hg
    refine ⟨f.name, ?_⟩
    by_cases heq : g = f
    · rw [hg, heq]
    · have : Std.Symm fun f g : Definition => f.name ≠ g.name := ⟨fun _ _ => Ne.symm⟩
      exact absurd hname (h.names.forall (List.mem_of_find?_eq_some hg) hmem heq)
  · rintro ⟨name, hfind⟩
    exact List.mem_of_find?_eq_some hfind

end FunctionTable

theorem at?_load_eq_func_iff {source : List String} {n : Nat} {name : String} :
    (Program.load source).at? n = some (.func name) ↔
      ∃ tokens, (source.map tokenize)[n]? = some tokens ∧ Statement.decode tokens = .func name := by
  rw [at?_load, decoded]
  simp [Option.map_eq_some_iff]

/-- The table of a loaded source, line by line. -/
theorem find?_load_eq_some_iff {source : List String} {name : String} {f : Definition} :
    (Program.load source).functions.find? name = some f ↔ f.Last (source.map tokenize) name :=
  FunctionTable.find?_ofStream_eq_some_iff

/-- The table of a source agrees with its statements: a name leads to the last line that defines
it, all the functions are listed in the order of their lines, and a header is read as the function
that it was written for. -/
theorem functions_follow_lines (source : List String) :
    (∀ name, (∃ f, (Program.load source).functions.find? name = some f) ↔
      ∃ n : Nat, (Program.load source).at? n = some (.func name)) ∧
    (∀ name f, (Program.load source).functions.find? name = some f →
      f.name = name ∧ (Program.load source).at? f.line = some (.func name) ∧
        ∀ n : Nat, (Program.load source).at? n = some (.func name) → n ≤ f.line) ∧
    (Program.load source).functions.functions.Pairwise (fun f g => f.line < g.line) ∧
    (∀ f, f ∈ (Program.load source).functions.functions ↔
      ∃ name, (Program.load source).functions.find? name = some f) ∧
    ∀ f : Definition, (∀ q ∈ f.params, q.Plain) →
      ∀ text, source[f.line]? = some text → tokenize text = f.header →
        (∀ t : FunctionTable, (t.insertLine (tokenize text, f.line)).find? f.name = some f) ∧
        ((∀ n : Nat, (Program.load source).at? n = some (.func f.name) → n ≤ f.line) →
          (Program.load source).functions.find? f.name = some f) := by
  have hordered := FunctionTable.ordered_ofStream (source.map tokenize)
  refine ⟨?_, ?_, hordered.sorted, fun f => hordered.mem_functions_iff, ?_⟩
  · intro name
    constructor
    · rintro ⟨f, hf⟩
      exact ⟨f.line, (line_of_find? hf).2⟩
    · rintro ⟨n, hn⟩
      rw [at?_load] at hn
      exact exists_find?_of_func (List.mem_of_getElem? hn)
  · intro name f hf
    obtain ⟨hname, hline⟩ := line_of_find? hf
    refine ⟨hname, hline, ?_⟩
    intro n hn
    obtain ⟨tokens, htokens, hdecode⟩ := at?_load_eq_func_iff.mp hn
    exact (find?_load_eq_some_iff.mp hf).last n tokens htokens hdecode
  · intro f hplain text htext htokens
    have hread := Definition.ofLine?_header hplain
    rw [← htokens] at hread
    refine ⟨fun t => ?_, fun hlast => ?_⟩
    · rw [FunctionTable.find?_insertLine, hread, Option.some_or]
    · have hline : (source.map tokenize)[f.line]? = some (tokenize text) := by
        rw [List.getElem?_map, htext, Option.map_some]
      refine find?_load_eq_some_iff.mpr ⟨⟨_, hline, hread⟩, ?_⟩
      intro n tokens hn hdecode
      exact hlast n (at?_load_eq_func_iff.mpr ⟨tokens, hn, hdecode⟩)

/-- The second `f` counts, and what stands behind the "ref" of its first parameter is the type. -/
theorem functions_follow_lines_redefined :
    (Program.load ["func f a:int void", "func main void", "func f x:refrefint y:bool int"]
      ).functions.find? "f" = some ⟨"f", 2, [⟨"x", "refint", true⟩, ⟨"y", "bool", false⟩], "int"⟩ :=
    by
  have hplain : ∀ q ∈ [(⟨"x", "refint", true⟩ : Param), ⟨"y", "bool", false⟩], q.Plain := by
    intro q hq
    rcases List.mem_cons.mp hq with rfl | hq
    · exact ⟨by decide, by simp⟩
    · obtain rfl := List.mem_singleton.mp hq
      exact ⟨by decide, fun _ => by decide⟩
  obtain ⟨-, -, -, -, hstored⟩ := functions_follow_lines
    ["func f a:int void", "func main void", "func f x:refrefint y:bool int"]
  refine (hstored ⟨"f", 2, _, "int"⟩ hplain _ rfl (by decide +kernel)).2 ?_
  intro n hn
  rw [at?_load] at hn
  have hlt := (List.getElem?_eq_some_iff.mp hn).1
  simp only [decoded, List.length_map, List.length_cons, List.length_nil] at hlt
  show n ≤ 2
  omega

end Brewin
