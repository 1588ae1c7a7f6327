import Brewin.Proofs.OutlineMatching

namespace Brewin

/-- All lines that the flow leads to lie in front of a line. -/
structure Flow.Within (flow : Flow) (size : Nat) : Prop where
  elseLine : ∀ {line e n : Nat}, flow.branch? line = some ⟨some e, n⟩ → e < size
  endLine : ∀ {line : Nat} {b : Branch}, flow.branch? line = some b → b.endLine < size
  elseEnd : ∀ {line n : Nat}, flow.elseEnd? line = some n → n < size
  partner : ∀ {line n : Nat}, flow.loopPartner? line = some n → n < size

/-- All lines that wait for a partner, and all that are recorded, have been passed. -/
structure Matching.Passed (m : Matching) : Prop where
  ifs : ∀ opened ∈ m.ifs, opened.line < m.line ∧ ∀ e ∈ opened.elses, e < m.line
  whiles : ∀ w ∈ m.whiles, w < m.line
  flow : m.flow.Within m.line

theorem lookup_cons_cases {α : Type} {key line : Nat} {entry found : α} {rest : List (Nat × α)}
    (h : ((key, entry) :: rest).lookup line = some found) :
    found = entry ∨ rest.lookup line = some found := by
  rw [List.lookup_cons] at h
  split at h
  next => exact Or.inl (Option.some.inj h).symm
  next => exact Or.inr h

theorem Flow.Within.mono {flow : Flow} {n m : Nat} (h : flow.Within n) (hle : n ≤ m) :
    flow.Within m where
  elseLine hb := Nat.lt_of_lt_of_le (h.elseLine hb) hle
  endLine hb := Nat.lt_of_lt_of_le (h.endLine hb) hle
  elseEnd he := Nat.lt_of_lt_of_le (h.elseEnd he) hle
  partner hl := Nat.lt_of_lt_of_le (h.partner hl) hle

namespace Matching

variable {m : Matching}

theorem Passed.closeIf (h : m.Passed) {opened : OpenIf} {ifs : Stack OpenIf}
    (hi : m.ifs = opened :: ifs) : (m.closeIf opened ifs).flow.Within (m.line + 1) := by
  have hflow := h.flow.mono (Nat.le_succ m.line)
  obtain ⟨hline, helses⟩ := h.ifs opened (by simp [hi])
  unfold Matching.closeIf
  split
  next e he =>
    have hlt : e < m.line := helses e (by simp [he])
    refine ⟨fun hb => ?_, fun hb => ?_, fun hn => ?_, hflow.partner⟩
    · rcases lookup_cons_cases hb with heq | hb
      · cases heq
        omega
      · exact hflow.elseLine hb
    · rcases lookup_cons_cases hb with rfl | hb
      · exact Nat.lt_succ_self _
      · exact hflow.endLine hb
    · rcases lookup_cons_cases hn with rfl | hn
      · exact Nat.lt_succ_self _
      · exact hflow.elseEnd hn
  next =>
    refine ⟨fun hb => ?_, fun hb => ?_, hflow.elseEnd, hflow.partner⟩
    · rcases lookup_cons_cases hb with heq | hb
      · cases heq
      · exact hflow.elseLine hb
    · rcases lookup_cons_cases hb with rfl | hb
      · exact Nat.lt_succ_self _
      · exact hflow.endLine hb

theorem Passed.closeWhile (h : m.Passed) {opened : Nat} {whiles : Stack Nat}
    (hw : m.whiles = opened :: whiles) :
    (m.closeWhile opened whiles).flow.Within (m.line + 1) := by
  have hflow := h.flow.mono (Nat.le_succ m.line)
  have hlt := h.whiles opened (by simp [hw])
  refine ⟨hflow.elseLine, hflow.endLine, hflow.elseEnd, fun hl => ?_⟩
  rcases lookup_cons_cases hl with rfl | hl
  · omega
  · rcases lookup_cons_cases hl with rfl | hl
    · exact Nat.lt_succ_self _
    · exact hflow.partner hl

theorem Passed.ifs_succ (h : m.Passed) :
    ∀ opened ∈ m.ifs, opened.line < m.line + 1 ∧ ∀ e ∈ opened.elses, e < m.line + 1 := by
  intro opened ho
  obtain ⟨hline, helses⟩ := h.ifs opened ho
  exact ⟨by omega, fun e he => Nat.lt_succ_of_lt (helses e he)⟩

theorem Passed.whiles_succ (h : m.Passed) : ∀ w ∈ m.whiles, w < m.line + 1 :=
  fun w hw => Nat.lt_succ_of_lt (h.whiles w hw)

theorem Passed.advance (h : m.Passed) (tokens : List String) : (m.advance tokens).Passed := by
  have hifs := h.ifs_succ
  have hwhiles := h.whiles_succ
  have hflow := h.flow.mono (Nat.le_succ m.line)
  unfold Matching.advance visit
  split
  next =>
    -- An if begins to wait at the line that has just been passed.
    refine ⟨?_, hwhiles, hflow⟩
    intro opened ho
    rcases List.mem_cons.mp ho with rfl | ho
    · exact ⟨Nat.lt_succ_self _, by simp⟩
    · exact hifs opened ho
  next =>
    split
    next => exact ⟨hifs, hwhiles, hflow⟩
    next top rest hi =>
      -- An else joins the innermost if.
      refine ⟨?_, hwhiles, hflow⟩
      rw [hi] at hifs
      intro opened ho
      rcases List.mem_cons.mp ho with rfl | ho
      · obtain ⟨hline, helses⟩ := hifs top (by simp)
        refine ⟨hline, fun e he => ?_⟩
        rcases List.mem_append.mp he with he | he
        · exact helses e he
        · cases List.mem_singleton.mp he
          exact Nat.lt_succ_self _
      · exact hifs opened (List.mem_cons_of_mem _ ho)
  next =>
    split
    next => exact ⟨hifs, hwhiles, hflow⟩
    next top rest hi =>
      -- An endif takes the innermost if away and records its jumps.
      obtain ⟨hrest, hw, -⟩ := m.closeIf_rest top rest
      refine ⟨?_, ?_, h.closeIf hi⟩
      · intro opened ho
        have hmem : opened ∈ rest := hrest ▸ ho
        exact hifs opened (hi ▸ List.mem_cons_of_mem top hmem)
      · intro w hmem
        exact hwhiles w (hw ▸ hmem)
  next =>
    refine ⟨hifs, ?_, hflow⟩
    intro w hw
    rcases List.mem_cons.mp hw with rfl | hw
    · exact Nat.lt_succ_self _
    · exact hwhiles w hw
  next =>
    split
    next => exact ⟨hifs, hwhiles, hflow⟩
    next top rest hw =>
      exact ⟨hifs, fun w hm => hwhiles w (hw ▸ List.mem_cons_of_mem top hm), h.closeWhile hw⟩
  next => exact ⟨hifs, hwhiles, hflow⟩

theorem line_advance (m : Matching) (tokens : List String) :
    (m.advance tokens).line = m.line + 1 :=
  rfl

theorem line_foldl (m : Matching) (stream : List (List String)) :
    (stream.foldl Matching.advance m).line = m.line + stream.length := by
  induction stream generalizing m with
  | nil => rfl
  | cons tokens stream ih =>
    rw [List.foldl_cons, ih, line_advance, List.length_cons]
    omega

theorem Passed.foldl (h : m.Passed) (stream : List (List String)) :
    (stream.foldl Matching.advance m).Passed := by
  induction stream generalizing m with
  | nil => exact h
  | cons tokens stream ih => exact ih (h.advance tokens)

end Matching

/-- Every jump that the flow records leads into the program. -/
theorem Flow.within_resolve (stream : List (List String)) :
    (Flow.resolve stream).Within stream.length := by
  have hstart : Matching.Passed {} := by
    refine ⟨by simp, by simp, ?_, ?_, ?_, ?_⟩ <;> intros <;> contradiction
  have hlength : (stream.foldl Matching.advance {}).line = stream.length := by
    simpa using Matching.line_foldl {} stream
  rw [← hlength]
  exact (hstart.foldl stream).flow

end Brewin
