import Brewin.Proofs.OutlineProgram

namespace Brewin

/-- The definition that a numbered line gives for a name. -/
def Definition.ofLine? (name : String) (line : List String × Nat) : Option Definition :=
  (ofTokens? line.2 line.1).filter (·.name == name)

theorem Definition.ofLine?_eq_some {name : String} {tokens : List String} {n : Nat}
    {f : Definition} (h : ofLine? name (tokens, n) = some f) :
    f.name = name ∧ f.line = n ∧ Statement.decode tokens = .func name := by
  obtain ⟨hf, hn⟩ := Option.filter_eq_some_iff.mp h
  have hname : f.name = name := by simpa using hn
  exact ⟨hname, ofTokens?_line hf, ofTokens?_isSome_iff.mp ⟨f, hf, hname⟩⟩

theorem Definition.exists_ofLine? {name : String} {tokens : List String}
    (h : Statement.decode tokens = .func name) (n : Nat) :
    ∃ f, ofLine? name (tokens, n) = some f := by
  obtain ⟨f, hf, hn⟩ := ofTokens?_isSome_iff.mpr h
  exact ⟨f, Option.filter_eq_some_iff.mpr ⟨hf, by simpa using hn⟩⟩

namespace FunctionTable

theorem find?_insertLine (t : FunctionTable) (line : List String × Nat) (name : String) :
    (t.insertLine line).find? name = (Definition.ofLine? name line).or (t.find? name) := by
  unfold insertLine Definition.ofLine?
  cases hf : Definition.ofTokens? line.2 line.1 with
  | none => rfl
  | some f =>
    simp only [find?_insert, Option.filter_some]
    by_cases hn : name = f.name
    · simp [hn]
    · simp [hn, Ne.symm hn]

theorem find?_foldl_insertLine (t : FunctionTable) (lines : List (List String × Nat))
    (name : String) :
    (lines.foldl insertLine t).find? name =
      (lines.reverse.findSome? (Definition.ofLine? name)).or (t.find? name) := by
  induction lines generalizing t with
  | nil => rfl
  | cons line lines ih =>
    rw [List.foldl_cons, ih, find?_insertLine, List.reverse_cons, List.findSome?_append,
      Option.or_assoc]
    simp

/-- Of several definitions of a name the last one counts. -/
theorem find?_ofStream (stream : List (List String)) (name : String) :
    (ofStream stream).find? name =
      stream.zipIdx.reverse.findSome? (Definition.ofLine? name) := by
  rw [ofStream, find?_foldl_insertLine]
  exact Option.or_none

end FunctionTable

/-- A function that is found stands in the program where its definition says. -/
theorem line_of_find? {source : List String} {name : String} {f : Definition}
    (h : (Program.load source).functions.find? name = some f) :
    f.name = name ∧ (Program.load source).at? f.line = some (.func name) := by
  change (FunctionTable.ofStream (source.map tokenize)).find? name = some f at h
  rw [FunctionTable.find?_ofStream] at h
  obtain ⟨⟨tokens, n⟩, hmem, hf⟩ := List.exists_of_findSome?_eq_some h
  obtain ⟨hname, hline, hdecode⟩ := Definition.ofLine?_eq_some hf
  have hn := List.mem_zipIdx_iff_getElem?.mp (List.mem_reverse.mp hmem)
  refine ⟨hname, ?_⟩
  rw [hline, at?_load, decoded, ← hdecode]
  rw [List.getElem?_map] at hn ⊢
  obtain ⟨text, ht, rfl⟩ := Option.map_eq_some_iff.mp hn
  rw [ht]
  rfl

theorem exists_find?_of_func {source : List String} {name : String}
    (h : .func name ∈ decoded source) :
    ∃ f, (Program.load source).functions.find? name = some f := by
  obtain ⟨n, hn⟩ := List.mem_iff_getElem?.mp h
  rw [decoded, List.getElem?_map] at hn
  obtain ⟨text, ht, hdecode⟩ := Option.map_eq_some_iff.mp hn
  have hmem : (tokenize text, n) ∈ (source.map tokenize).zipIdx := by
    rw [List.mem_zipIdx_iff_getElem?, List.getElem?_map, ht]
    rfl
  obtain ⟨g, hg⟩ := Definition.exists_ofLine? hdecode n
  change ∃ f, (FunctionTable.ofStream (source.map tokenize)).find? name = some f
  rw [FunctionTable.find?_ofStream, ← Option.isSome_iff_exists, List.findSome?_isSome_iff]
  exact ⟨_, List.mem_reverse.mpr hmem, by rw [hg]; rfl⟩

end Brewin
