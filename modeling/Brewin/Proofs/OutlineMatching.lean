import Brewin.Proofs.OutlineLayout

namespace Brewin

namespace Matching

theorem closeIf_agree (m : Matching) (opened : OpenIf) (ifs : Stack OpenIf) {l : Nat}
    (h : l ≠ opened.line) (he : l ∉ opened.elses) :
    m.flow.AgreeAt (m.closeIf opened ifs).flow l := by
  unfold closeIf Flow.AgreeAt Flow.branch? Flow.elseEnd? Flow.loopPartner?
  split
  next elseLine hs =>
    have hn : l ≠ elseLine := by simpa [hs] using he
    simp [List.lookup_cons, beq_eq_false_iff_ne.mpr h, beq_eq_false_iff_ne.mpr hn]
  next => simp [List.lookup_cons, beq_eq_false_iff_ne.mpr h]

theorem closeIf_rest (m : Matching) (opened : OpenIf) (ifs : Stack OpenIf) :
    (m.closeIf opened ifs).ifs = ifs ∧ (m.closeIf opened ifs).whiles = m.whiles ∧
      (m.closeIf opened ifs).line = m.line := by
  unfold closeIf
  split
  next => exact ⟨rfl, rfl, rfl⟩
  next => exact ⟨rfl, rfl, rfl⟩

theorem closeWhile_agree (m : Matching) (opened : Nat) (whiles : Stack Nat) {l : Nat}
    (h : l ≠ opened) (hl : l ≠ m.line) :
    m.flow.AgreeAt (m.closeWhile opened whiles).flow l := by
  unfold closeWhile Flow.AgreeAt Flow.branch? Flow.elseEnd? Flow.loopPartner?
  simp [List.lookup_cons, beq_eq_false_iff_ne.mpr h, beq_eq_false_iff_ne.mpr hl]

theorem closeWhile_partners (m : Matching) (opened : Nat) (whiles : Stack Nat)
    (h : opened ≠ m.line) :
    (m.closeWhile opened whiles).flow.loopPartner? opened = some m.line ∧
      (m.closeWhile opened whiles).flow.loopPartner? m.line = some opened := by
  unfold closeWhile Flow.loopPartner?
  simp [List.lookup_cons, beq_eq_false_iff_ne.mpr h]

end Matching

/-- What taking in the lines of a body comes to: the stacks are as before, the flow joins the
lines of the body, and it says nothing new about any other line. -/
structure Matched (lines : Nat → Option Statement) (b : Body) (m m' : Matching) : Prop where
  line : m'.line = m.line + b.length
  ifs : m'.ifs = m.ifs
  whiles : m'.whiles = m.whiles
  laid : b.Laid lines m'.flow m.line
  outside : ∀ l, l < m.line ∨ m.line + b.length ≤ l → m.flow.AgreeAt m'.flow l

theorem simple_keyword?_ne (simple : Simple) :
    ∀ k ∈ [Keyword.ifThen, .orElse, .endIf, .whileDo, .endWhile],
      simple.statement.keyword? ≠ some k := by
  cases simple with
  | malformed omission =>
    cases omission <;> simp [Simple.statement, Statement.keyword?, Omission.keyword]
  | _ => simp [Simple.statement, Statement.keyword?]

section

variable {lines : Nat → Option Statement}

theorem matched_branch {m before after m' : Matching} {cond : List String} {yes rest : Body}
    (hl : lines m.line = some (.ifThen cond))
    (he : lines (m.line + yes.length + 1) = some .endIf)
    (hy : Matched lines yes { m with ifs := ⟨m.line, []⟩ :: m.ifs, line := m.line + 1 } before)
    (ha : after = { before.closeIf ⟨m.line, []⟩ m.ifs with line := before.line + 1 })
    (hr : Matched lines rest after m') :
    Matched lines (.branch m.line cond yes rest) m m' := by
  obtain ⟨hi, hw, -⟩ := before.closeIf_rest ⟨m.line, []⟩ m.ifs
  have hb : before.line = m.line + yes.length + 1 := by
    have := hy.line
    simp only at this
    omega
  have hn : after.line = m.line + yes.length + 2 := by rw [ha]; simp only; omega
  have hf : after.flow.branch? m.line = some ⟨none, m.line + yes.length + 1⟩ := by
    rw [ha, ← hb]
    simp [Matching.closeIf, Flow.branch?]
  have step : ∀ l, l ≠ m.line → before.flow.AgreeAt after.flow l := by
    intro l h
    rw [ha]
    exact before.closeIf_agree ⟨m.line, []⟩ m.ifs h (by simp)
  have behind : ∀ l, l < m.line + yes.length + 2 → after.flow.AgreeAt m'.flow l :=
    fun l h => hr.outside l (Or.inl (by omega))
  refine ⟨?_, ?_, ?_, ⟨rfl, hl, he, ?_, ?_, ?_⟩, ?_⟩
  · have := hr.line
    simp only [Body.length_branch]
    omega
  · rw [hr.ifs, ha]
    exact hi
  · rw [hr.whiles, ha]
    exact hw.trans hy.whiles
  · exact (behind m.line (by omega)).1.trans hf
  · exact hy.laid.congr fun l h h' => (step l (by simp only at h; omega)).trans
      (behind l (by simp only at h'; omega))
  · rw [← hn]
    exact hr.laid
  · intro l h
    simp only [Body.length_branch] at h
    refine ((hy.outside l ?_).trans (step l (by omega))).trans (hr.outside l (by omega))
    simp only
    omega

theorem matched_fork {m before middle after late m' : Matching} {cond : List String}
    {yes no rest : Body} (hl : lines m.line = some (.ifThen cond))
    (hm : lines (m.line + yes.length + 1) = some .orElse)
    (he : lines (m.line + yes.length + no.length + 2) = some .endIf)
    (hy : Matched lines yes { m with ifs := ⟨m.line, []⟩ :: m.ifs, line := m.line + 1 } before)
    (hx : middle = { before with
      ifs := ⟨m.line, [before.line]⟩ :: m.ifs, line := before.line + 1 })
    (ho : Matched lines no middle after)
    (ha : late = { after.closeIf ⟨m.line, [before.line]⟩ m.ifs with line := after.line + 1 })
    (hr : Matched lines rest late m') :
    Matched lines (.fork m.line cond yes no rest) m m' := by
  obtain ⟨hi, hw, -⟩ := after.closeIf_rest ⟨m.line, [before.line]⟩ m.ifs
  have hb : before.line = m.line + yes.length + 1 := by
    have := hy.line
    simp only at this
    omega
  have hmid : middle.line = m.line + yes.length + 2 := by rw [hx]; simp only; omega
  have hend : after.line = m.line + yes.length + no.length + 2 := by
    have := ho.line
    omega
  have hn : late.line = m.line + yes.length + no.length + 3 := by rw [ha]; simp only; omega
  have hf : late.flow.branch? m.line =
      some ⟨some (m.line + yes.length + 1), m.line + yes.length + no.length + 2⟩ := by
    rw [ha, ← hb, ← hend]
    simp [Matching.closeIf, Flow.branch?]
  have hg : late.flow.elseEnd? (m.line + yes.length + 1) =
      some (m.line + yes.length + no.length + 2) := by
    rw [ha, ← hb, ← hend]
    simp [Matching.closeIf, Flow.elseEnd?]
  have first : ∀ l, before.flow.AgreeAt middle.flow l := by
    intro l
    rw [hx]
    exact ⟨rfl, rfl, rfl⟩
  have step : ∀ l, l ≠ m.line → l ≠ m.line + yes.length + 1 →
      after.flow.AgreeAt late.flow l := by
    intro l h h'
    rw [ha]
    exact after.closeIf_agree ⟨m.line, [before.line]⟩ m.ifs h (by simp only [List.mem_singleton]; omega)
  have behind : ∀ l, l < m.line + yes.length + no.length + 3 → late.flow.AgreeAt m'.flow l :=
    fun l h => hr.outside l (Or.inl (by omega))
  refine ⟨?_, ?_, ?_, ⟨rfl, hl, hm, he, ?_, ?_, ?_, ?_, ?_⟩, ?_⟩
  · have := hr.line
    simp only [Body.length_fork]
    omega
  · rw [hr.ifs, ha]
    exact hi
  · rw [hr.whiles, ha]
    refine hw.trans (ho.whiles.trans ?_)
    rw [hx]
    exact hy.whiles
  · exact (behind m.line (by omega)).1.trans hf
  · exact (behind _ (by omega)).2.1.trans hg
  · refine hy.laid.congr fun l h h' => ?_
    simp only at h h'
    exact (((first l).trans (ho.outside l (Or.inl (by omega)))).trans
      (step l (by omega) (by omega))).trans (behind l (by omega))
  · rw [← hmid]
    exact ho.laid.congr fun l h h' => (step l (by omega) (by omega)).trans (behind l (by omega))
  · rw [← hn]
    exact hr.laid
  · intro l h
    simp only [Body.length_fork] at h
    refine ((((hy.outside l ?_).trans (first l)).trans (ho.outside l (by omega))).trans
      (step l (by omega) (by omega))).trans (hr.outside l (by omega))
    simp only
    omega

theorem matched_loop {m before after m' : Matching} {cond : List String} {inside rest : Body}
    (hl : lines m.line = some (.whileDo cond))
    (he : lines (m.line + inside.length + 1) = some .endWhile)
    (hy : Matched lines inside { m with whiles := m.line :: m.whiles, line := m.line + 1 } before)
    (ha : after = { before.closeWhile m.line m.whiles with line := before.line + 1 })
    (hr : Matched lines rest after m') :
    Matched lines (.loop m.line cond inside rest) m m' := by
  have hb : before.line = m.line + inside.length + 1 := by
    have := hy.line
    simp only at this
    omega
  have hn : after.line = m.line + inside.length + 2 := by rw [ha]; simp only; omega
  obtain ⟨hf, hg⟩ := before.closeWhile_partners m.line m.whiles (by omega)
  have step : ∀ l, l ≠ m.line → l ≠ m.line + inside.length + 1 →
      before.flow.AgreeAt after.flow l := by
    intro l h h'
    rw [ha]
    exact before.closeWhile_agree m.line m.whiles h (by omega)
  have behind : ∀ l, l < m.line + inside.length + 2 → after.flow.AgreeAt m'.flow l :=
    fun l h => hr.outside l (Or.inl (by omega))
  refine ⟨?_, ?_, ?_, ⟨rfl, hl, he, ?_, ?_, ?_, ?_⟩, ?_⟩
  · have := hr.line
    simp only [Body.length_loop]
    omega
  · rw [hr.ifs, ha]
    exact hy.ifs
  · rw [hr.whiles, ha]
    rfl
  · refine (behind m.line (by omega)).2.2.trans ?_
    rw [ha, ← hb]
    exact hf
  · refine (behind _ (by omega)).2.2.trans ?_
    rw [ha, ← hb]
    exact hg
  · refine hy.laid.congr fun l h h' => ?_
    simp only at h h'
    exact (step l (by omega) (by omega)).trans (behind l (by omega))
  · rw [← hn]
    exact hr.laid
  · intro l h
    simp only [Body.length_loop] at h
    refine ((hy.outside l ?_).trans (step l (by omega) (by omega))).trans
      (hr.outside l (by omega))
    simp only
    omega

/-- A properly nested body is taken in without an effect on what is open around it. -/
theorem body_matched (b : Body) {m : Matching} {n : Nat} {seg : List (List String)}
    (hm : m.line = n) (hs : seg.map Statement.decode = b.statements) (hn : b.Numbered n)
    (hl : Spelled lines n b.statements) : Matched lines b m (seg.foldl Matching.advance m) := by
  subst hm
  induction b generalizing m seg with
  | done =>
    cases List.map_eq_nil_iff.mp hs
    exact ⟨rfl, rfl, rfl, trivial, fun _ _ => ⟨rfl, rfl, rfl⟩⟩
  | line here simple rest ih =>
    obtain ⟨tokens, seg, rfl, ht, hr⟩ := List.map_eq_cons_iff.mp hs
    obtain ⟨rfl, hn⟩ := hn
    obtain ⟨hl, hlr⟩ := spelled_cons.mp hl
    have hp := m.advance_plain ht (simple_keyword?_ne simple)
    rw [List.foldl_cons, hp]
    have h := ih (m := { m with line := m.line + 1 }) hr hn hlr
    refine ⟨?_, h.ifs, h.whiles, ⟨rfl, hl, h.laid⟩, fun l hb => h.outside l ?_⟩
    · have := h.line
      simp only [Body.length_line] at this ⊢
      omega
    · simp only [Body.length_line] at hb ⊢
      omega
  | branch here cond yes rest ihYes ih =>
    obtain ⟨front, back, rfl, hf, hb⟩ := List.map_eq_append_iff.mp hs
    obtain ⟨first, seg, rfl, h1, hy⟩ := List.map_eq_cons_iff.mp hf
    obtain ⟨last, behind, rfl, h2, hr⟩ := List.map_eq_cons_iff.mp hb
    obtain ⟨rfl, hny, hnr⟩ := hn
    obtain ⟨hlf, hlb⟩ := spelled_append.mp hl
    obtain ⟨hl1, hly⟩ := spelled_cons.mp hlf
    obtain ⟨hl2, hlr⟩ := spelled_cons.mp hlb
    rw [List.foldl_append, List.foldl_cons, List.foldl_cons, m.advance_ifThen h1]
    have h := ihYes (m := { m with ifs := ⟨m.line, []⟩ :: m.ifs, line := m.line + 1 }) hy hny hly
    generalize seg.foldl Matching.advance _ = before at h ⊢
    rw [before.advance_endIf h2 h.ifs]
    have hline : before.line + 1 = m.line + yes.length + 2 := by rw [h.line]; simp only; omega
    exact matched_branch hl1 hl2 h rfl (ih hr (hline ▸ hnr) (hline ▸ hlr))
  | fork here cond yes no rest ihYes ihNo ih =>
    obtain ⟨front, back, rfl, hf, hb⟩ := List.map_eq_append_iff.mp hs
    obtain ⟨front, center, rfl, hf, hc⟩ := List.map_eq_append_iff.mp hf
    obtain ⟨first, seg, rfl, h1, hy⟩ := List.map_eq_cons_iff.mp hf
    obtain ⟨mid, seg', rfl, h2, ho⟩ := List.map_eq_cons_iff.mp hc
    obtain ⟨last, behind, rfl, h3, hr⟩ := List.map_eq_cons_iff.mp hb
    obtain ⟨rfl, hny, hno, hnr⟩ := hn
    obtain ⟨hlf, hlb⟩ := spelled_append.mp hl
    obtain ⟨hlf, hlc⟩ := spelled_append.mp hlf
    obtain ⟨hl1, hly⟩ := spelled_cons.mp hlf
    obtain ⟨hl2, hlo⟩ := spelled_cons.mp hlc
    obtain ⟨hl3, hlr⟩ := spelled_cons.mp hlb
    rw [List.foldl_append, List.foldl_append, List.foldl_cons, List.foldl_cons, List.foldl_cons,
      m.advance_ifThen h1]
    have h := ihYes (m := { m with ifs := ⟨m.line, []⟩ :: m.ifs, line := m.line + 1 }) hy hny hly
    generalize seg.foldl Matching.advance _ = before at h ⊢
    rw [before.advance_orElse h2 h.ifs]
    have hline : before.line + 1 = m.line + yes.length + 2 := by rw [h.line]; simp only; omega
    have h' := ihNo (m := { before with
      ifs := ⟨m.line, [before.line]⟩ :: m.ifs, line := before.line + 1 }) ho
      (hline ▸ hno) (hline ▸ hlo)
    change Matched lines _ m (behind.foldl Matching.advance ((seg'.foldl Matching.advance
      { before with ifs := ⟨m.line, [before.line]⟩ :: m.ifs, line := before.line + 1 }).advance last))
    generalize seg'.foldl Matching.advance _ = after at h' ⊢
    rw [after.advance_endIf h3 h'.ifs]
    have hline' : after.line + 1 = m.line + yes.length + no.length + 3 := by
      rw [h'.line]
      simp only
      omega
    have hlast : m.line + yes.length + no.length + 2 = m.line +
        (Statement.ifThen cond :: yes.statements ++ .orElse :: no.statements).length := by
      simp only [Body.length, List.length_append, List.length_cons]
      omega
    exact matched_fork hl1 hl2 (hlast ▸ hl3) h rfl h' rfl
      (ih hr (hline' ▸ hnr) (by rw [← hlast] at hlr; exact hline' ▸ hlr))
  | loop here cond inside rest ihInside ih =>
    obtain ⟨front, back, rfl, hf, hb⟩ := List.map_eq_append_iff.mp hs
    obtain ⟨first, seg, rfl, h1, hy⟩ := List.map_eq_cons_iff.mp hf
    obtain ⟨last, behind, rfl, h2, hr⟩ := List.map_eq_cons_iff.mp hb
    obtain ⟨rfl, hny, hnr⟩ := hn
    obtain ⟨hlf, hlb⟩ := spelled_append.mp hl
    obtain ⟨hl1, hly⟩ := spelled_cons.mp hlf
    obtain ⟨hl2, hlr⟩ := spelled_cons.mp hlb
    rw [List.foldl_append, List.foldl_cons, List.foldl_cons, m.advance_whileDo h1]
    have h := ihInside (m := { m with whiles := m.line :: m.whiles, line := m.line + 1 }) hy hny hly
    generalize seg.foldl Matching.advance _ = before at h ⊢
    rw [before.advance_endWhile h2 h.whiles]
    have hline : before.line + 1 = m.line + inside.length + 2 := by rw [h.line]; simp only; omega
    exact matched_loop hl1 hl2 h rfl (ih hr (hline ▸ hnr) (hline ▸ hlr))

end

end Brewin
