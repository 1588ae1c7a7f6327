import Brewin.Proofs.OutlineMatching
import Brewin.Machine

namespace Brewin

/-- The routine stands in the program where its definition says. -/
structure Routine.Installed (lines : Nat → Option Statement) (flow : Flow) (r : Routine) :
    Prop where
  head : lines r.definition.line = some (.func r.definition.name)
  body : r.body.Laid lines flow (r.definition.line + 1)
  last : lines r.lastLine = some .endFunc

theorem Routine.Installed.congr {lines : Nat → Option Statement} {flow flow' : Flow} {r : Routine}
    (h : r.Installed lines flow) (agree : ∀ l, l < r.lastLine → flow.AgreeAt flow' l) :
    r.Installed lines flow' := by
  refine ⟨h.head, h.body.congr fun l _ hb => agree l ?_, h.last⟩
  unfold Routine.lastLine
  omega

section

variable {lines : Nat → Option Statement}

/-- Matching the lines of one function and then the others leaves the function installed. -/
theorem outlined_installed {n : Nat} {stream : List (List String)} {rs : List Routine}
    (h : Outlined n stream rs) {m : Matching} (hm : m.line = n)
    (hl : Spelled lines n (stream.map Statement.decode)) :
    (∀ r ∈ rs, r.Installed lines (stream.foldl Matching.advance m).flow) ∧
      ∀ l, l < n → m.flow.AgreeAt (stream.foldl Matching.advance m).flow l := by
  induction h generalizing m with
  | done => exact ⟨by simp, fun _ _ => ⟨rfl, rfl, rfl⟩⟩
  | @gap n tokens stream rs ht _ ih =>
    have hp := m.advance_plain ht (by simp [Statement.keyword?])
    rw [List.foldl_cons, hp]
    obtain ⟨hr, hb⟩ := ih (m := { m with line := m.line + 1 }) (by simp only; omega)
      (spelled_cons.mp hl).2
    exact ⟨hr, fun l h => hb l (by omega)⟩
  | @routine n header last inner stream r rs hd hs hn he _ ih =>
    have hh := ofTokens?_isSome_iff.mp ⟨_, hd, rfl⟩
    have hline := ofTokens?_line hd
    have hlen : inner.length = r.body.length := by
      rw [Body.length, ← hs, List.length_map]
    simp only [List.map_append, List.map_cons, spelled_append, spelled_cons, List.length_cons,
      hs] at hl
    obtain ⟨⟨hl1, hl2⟩, hl3, hl4⟩ := hl
    rw [hh] at hl1
    rw [he] at hl3
    have hp := m.advance_plain hh (by simp [Statement.keyword?])
    rw [List.foldl_append, List.foldl_cons, List.foldl_cons, hp]
    have hb := body_matched r.body (m := { m with line := m.line + 1 }) (by simp only; omega)
      hs hn hl2
    generalize inner.foldl Matching.advance _ = before at hb ⊢
    have hq := before.advance_plain he (by simp [Statement.keyword?])
    rw [hq]
    have hbl := hb.line
    simp only at hbl
    obtain ⟨hr, ha⟩ := ih (m := { before with line := before.line + 1 }) (by simp only; omega)
      (by rwa [show n + inner.length + 2 = n + (r.body.statements.length + 1) + 1 by
        rw [hlen, Body.length]; omega])
    refine ⟨?_, fun l h => ?_⟩
    · intro x hx
      rcases List.mem_cons.mp hx with rfl | hx
      · have hi : x.Installed lines before.flow := by
          refine ⟨by rw [hline]; exact hl1, ?_, ?_⟩
          · have := hb.laid
            simp only [hm] at this
            rwa [hline]
          · rw [Routine.lastLine, hline]
            exact hl3
        exact hi.congr fun l h => ha l (by rw [Routine.lastLine] at h; omega)
      · exact hr x hx
    · exact (hb.outside l (Or.inl (by simp only; omega))).trans (ha l (by omega))

end

namespace FunctionTable

theorem insertLine_plain (t : FunctionTable) {tokens : List String} (n : Nat)
    (h : ∀ name, Statement.decode tokens ≠ .func name) : t.insertLine (tokens, n) = t := by
  unfold insertLine
  split
  next f hf => exact absurd (ofTokens?_isSome_iff.mp ⟨f, hf, rfl⟩) (h f.name)
  next => rfl

theorem foldl_insertLine_plain (t : FunctionTable) (seg : List (List String)) (n : Nat)
    (h : ∀ s ∈ seg.map Statement.decode, ∀ name, s ≠ .func name) :
    (seg.zipIdx n).foldl insertLine t = t := by
  induction seg generalizing n with
  | nil => rfl
  | cons tokens seg ih =>
    simp only [List.map_cons, List.forall_mem_cons] at h
    rw [List.zipIdx_cons, List.foldl_cons, t.insertLine_plain n h.1, ih (n + 1) h.2]

end FunctionTable

theorem body_statement_ne_func (b : Body) : ∀ s ∈ b.statements, ∀ name, s ≠ .func name := by
  induction b with
  | done => simp [Body.statements]
  | line here simple rest ih =>
    simp only [Body.statements, List.forall_mem_cons]
    exact ⟨by cases simple <;> simp [Simple.statement], ih⟩
  | branch here cond yes rest ihYes ih =>
    simp only [Body.statements, List.forall_mem_append, List.forall_mem_cons]
    exact ⟨⟨by simp, ihYes⟩, by simp, ih⟩
  | fork here cond yes no rest ihYes ihNo ih =>
    simp only [Body.statements, List.forall_mem_append, List.forall_mem_cons]
    exact ⟨⟨⟨by simp, ihYes⟩, by simp, ihNo⟩, by simp, ih⟩
  | loop here cond inside rest ihInside ih =>
    simp only [Body.statements, List.forall_mem_append, List.forall_mem_cons]
    exact ⟨⟨by simp, ihInside⟩, by simp, ih⟩

theorem outlined_find? {n : Nat} {stream : List (List String)} {rs : List Routine}
    (h : Outlined n stream rs) (table : FunctionTable) (name : String) :
    ((stream.zipIdx n).foldl FunctionTable.insertLine table).find? name =
      ((Outline.find? ⟨rs⟩ name).map (·.definition)).or (table.find? name) := by
  induction h generalizing table with
  | done => simp [Outline.find?]
  | @gap n tokens stream rs ht _ ih =>
    rw [List.zipIdx_cons, List.foldl_cons, table.insertLine_plain n (by simp [ht]), ih]
  | @routine n header last inner stream r rs hd hs hn he _ ih =>
    have hplain := (table.insert r.definition).foldl_insertLine_plain (inner ++ [last]) (n + 1) (by
      simp only [List.map_append, hs, List.map_cons, he, List.map_nil, List.forall_mem_append]
      exact ⟨body_statement_ne_func _, by simp⟩)
    have hstream : header :: inner ++ last :: stream = header :: (inner ++ [last]) ++ stream := by
      simp
    have hinsert : table.insertLine (header, n) = table.insert r.definition := by
      simp [FunctionTable.insertLine, hd]
    rw [hstream, List.zipIdx_append, List.foldl_append, List.zipIdx_cons, List.foldl_cons,
      hinsert, hplain]
    have hn : n + (header :: (inner ++ [last])).length = n + inner.length + 2 := by
      simp only [List.length_cons, List.length_append, List.length_nil]
      omega
    rw [hn, ih, FunctionTable.find?_insert]
    simp only [Outline.find?, List.reverse_cons, List.find?_append, List.find?_singleton]
    cases List.find? (fun x => x.definition.name == name) rs.reverse with
    | some x => simp
    | none =>
      by_cases hx : name = r.definition.name
      · simp [hx]
      · simp [hx, Ne.symm hx]

theorem at?_load (source : List String) (n : Nat) :
    (Program.load source).at? n = (decoded source)[n]? := by
  change ((((source.map tokenize).map Line.ofTokens).toArray)[n]?).map (·.statement) = _
  simp [decoded, Line.ofTokens, Function.comp_def]

/-- A program whose functions are those of an outline: each name leads to its last routine, and
that stands in the program. -/
structure Outline.Covers (t : Outline) (p : Program) : Prop where
  find? : ∀ name, p.functions.find? name = (t.find? name).map (·.definition)
  installed : ∀ r ∈ t.routines, r.Installed (fun n => p.at? n) p.flow

theorem Outline.Describes.covers {t : Outline} {source : List String} (h : t.Describes source) :
    t.Covers (Program.load source) := by
  refine ⟨fun name => ?_, ?_⟩
  · have := outlined_find? h {} name
    rw [show FunctionTable.find? {} name = none from rfl, Option.or_none] at this
    exact this
  · refine (outlined_installed h (m := {}) rfl ?_).1
    intro i s hi
    simp only [Nat.zero_add, at?_load]
    simpa [decoded] using hi

theorem load_twoRounds : Program.load twoRounds = .ofStream twoRoundsTokens :=
  congrArg Program.ofStream tokenize_twoRounds

theorem Outline.mem_of_find? {t : Outline} {name : String} {r : Routine}
    (h : t.find? name = some r) : r ∈ t.routines ∧ r.definition.name = name := by
  refine ⟨List.mem_reverse.mp (List.mem_of_find?_eq_some h), ?_⟩
  simpa using List.find?_some h

end Brewin
