import Brewin.Proofs.Nesting

namespace Brewin

/-- The branches and loops of the program, each with the lines that open and close it. -/
def Outline.constructs (t : Outline) : List (Nat × Nat) :=
  t.routines.flatMap (·.body.constructs)

/-- The statements that open a branch or a loop. -/
def Statement.opensBlock : Statement → Bool
  | ifThen _ | whileDo _ => true
  | _ => false

/-- A construct that stands in the program as a body of its own, and all lines of which lie as
much deeper in the whole as the line that opens it. -/
structure Body.Part (lines : Nat → Option Statement) (flow : Flow) (whole : Body)
    (first last : Nat) (part : Body) : Prop where
  laid : part.Laid lines flow first
  length : first + part.length = last + 1
  opens : ∃ s, lines first = some s ∧ s.opensBlock = true
  depth : ∀ line, first ≤ line → line ≤ last + 1 →
    whole.enclosing line = part.enclosing line + whole.enclosing first
  inside : ∀ line, first < line → line ≤ last → 0 < part.enclosing line

section

variable {lines : Nat → Option Statement} {flow : Flow}

theorem construct_bounds {b : Body} {n first last : Nat} (h : b.Numbered n)
    (hc : (first, last) ∈ b.constructs) : n ≤ first ∧ first < last ∧ last < n + b.length := by
  induction b generalizing n with
  | done => simp [Body.constructs] at hc
  | line here simple rest ih =>
    have := ih h.2 hc
    simp only [Body.length_line]
    omega
  | branch here cond yes rest ihYes ih =>
    obtain ⟨rfl, hy, hr⟩ := h
    simp only [Body.constructs, List.mem_cons, List.mem_append, Prod.mk.injEq] at hc
    simp only [Body.length_branch]
    rcases hc with ⟨rfl, rfl⟩ | hc | hc
    · omega
    · have := ihYes hy hc
      omega
    · have := ih hr hc
      omega
  | fork here cond yes no rest ihYes ihNo ih =>
    obtain ⟨rfl, hy, ho, hr⟩ := h
    simp only [Body.constructs, List.mem_cons, List.mem_append, Prod.mk.injEq] at hc
    simp only [Body.length_fork]
    rcases hc with ⟨rfl, rfl⟩ | (hc | hc) | hc
    · omega
    · have := ihYes hy hc
      omega
    · have := ihNo ho hc
      omega
    · have := ih hr hc
      omega
  | loop here cond inside rest ihInside ih =>
    obtain ⟨rfl, hi, hr⟩ := h
    simp only [Body.constructs, List.mem_cons, List.mem_append, Prod.mk.injEq] at hc
    simp only [Body.length_loop]
    rcases hc with ⟨rfl, rfl⟩ | hc | hc
    · omega
    · have := ihInside hi hc
      omega
    · have := ih hr hc
      omega

/-- A part of one of the bodies that make up a whole is a part of the whole. -/
theorem Body.Part.of_inner {whole inner part : Body} {n first last k : Nat}
    (h : Part lines flow inner first last part) (hn : inner.Numbered n)
    (hc : (first, last) ∈ inner.constructs)
    (hd : ∀ line, n ≤ line → line ≤ n + inner.length →
      whole.enclosing line = inner.enclosing line + k) :
    Part lines flow whole first last part := by
  obtain ⟨h1, h2, h3⟩ := construct_bounds hn hc
  refine ⟨h.laid, h.length, h.opens, fun line hl hr => ?_, h.inside⟩
  have hline := hd line (by omega) (by omega)
  have hfirst := hd first (by omega) (by omega)
  have hpart := h.depth line hl hr
  omega

theorem branch_part {here : Nat} {cond : List String} {yes rest : Body}
    (h : (Body.branch here cond yes rest).Laid lines flow here) :
    Body.Part lines flow (.branch here cond yes rest) here (here + yes.length + 1)
      (.branch here cond yes .done) := by
  obtain ⟨-, hs, he, hf, hy, hr⟩ := h
  have out : ∀ line, line ≤ here + yes.length + 2 → rest.enclosing line = 0 :=
    fun line hl => enclosing_outside hr.numbered (Or.inl hl)
  have first : yes.enclosing here = 0 := enclosing_outside hy.numbered (by omega)
  have done : ∀ line, Body.done.enclosing line = 0 := fun _ => rfl
  refine ⟨⟨rfl, hs, he, hf, hy, trivial⟩, ?_, ⟨_, hs, rfl⟩, fun line h1 h2 => ?_,
    fun line h1 h2 => ?_⟩
  · simp only [Body.length_branch, Body.length_done]
    omega
  · simp only [Body.enclosing_branch, done, first, out line h2, out here (by omega)]
    simp
  · rw [Body.enclosing_branch, if_pos (by omega)]
    omega

theorem fork_part {here : Nat} {cond : List String} {yes no rest : Body}
    (h : (Body.fork here cond yes no rest).Laid lines flow here) :
    Body.Part lines flow (.fork here cond yes no rest) here (here + yes.length + no.length + 2)
      (.fork here cond yes no .done) := by
  obtain ⟨-, hs, hm, he, hf, hg, hy, ho, hr⟩ := h
  have out : ∀ line, line ≤ here + yes.length + no.length + 3 → rest.enclosing line = 0 :=
    fun line hl => enclosing_outside hr.numbered (Or.inl hl)
  have first : yes.enclosing here = 0 := enclosing_outside hy.numbered (by omega)
  have second : no.enclosing here = 0 := enclosing_outside ho.numbered (by omega)
  have done : ∀ line, Body.done.enclosing line = 0 := fun _ => rfl
  refine ⟨⟨rfl, hs, hm, he, hf, hg, hy, ho, trivial⟩, ?_, ⟨_, hs, rfl⟩, fun line h1 h2 => ?_,
    fun line h1 h2 => ?_⟩
  · simp only [Body.length_fork, Body.length_done]
    omega
  · simp only [Body.enclosing_fork, done, first, second, out line h2, out here (by omega)]
    simp
  · rw [Body.enclosing_fork, if_pos (by omega)]
    omega

theorem loop_part {here : Nat} {cond : List String} {inside rest : Body}
    (h : (Body.loop here cond inside rest).Laid lines flow here) :
    Body.Part lines flow (.loop here cond inside rest) here (here + inside.length + 1)
      (.loop here cond inside .done) := by
  obtain ⟨-, hs, he, hf, hg, hi, hr⟩ := h
  have out : ∀ line, line ≤ here + inside.length + 2 → rest.enclosing line = 0 :=
    fun line hl => enclosing_outside hr.numbered (Or.inl hl)
  have first : inside.enclosing here = 0 := enclosing_outside hi.numbered (by omega)
  have done : ∀ line, Body.done.enclosing line = 0 := fun _ => rfl
  refine ⟨⟨rfl, hs, he, hf, hg, hi, trivial⟩, ?_, ⟨_, hs, rfl⟩, fun line h1 h2 => ?_,
    fun line h1 h2 => ?_⟩
  · simp only [Body.length_loop, Body.length_done]
    omega
  · simp only [Body.enclosing_loop, done, first, out line h2, out here (by omega)]
    simp
  · rw [Body.enclosing_loop, if_pos (by omega)]
    omega

/-- Every construct of a body is a part of it. -/
theorem Body.Laid.part {b : Body} {n first last : Nat} (h : b.Laid lines flow n)
    (hc : (first, last) ∈ b.constructs) : ∃ part, Part lines flow b first last part := by
  induction b generalizing n with
  | done => simp [constructs] at hc
  | line here simple rest ih =>
    obtain ⟨part, hp⟩ := ih h.2.2 hc
    exact ⟨part, hp.of_inner (k := 0) h.2.2.numbered hc fun _ _ _ => rfl⟩
  | branch here cond yes rest ihYes ih =>
    have parts := h
    obtain ⟨rfl, -, -, -, hy, hr⟩ := parts
    have hdepth := enclosing_branch here cond yes rest
    simp only [constructs, List.mem_cons, List.mem_append, Prod.mk.injEq] at hc
    rcases hc with ⟨rfl, rfl⟩ | hc | hc
    · exact ⟨_, branch_part h⟩
    · obtain ⟨part, hp⟩ := ihYes hy hc
      refine ⟨part, hp.of_inner (k := 1) hy.numbered hc fun line h1 h2 => ?_⟩
      have hrest : rest.enclosing line = 0 := enclosing_outside hr.numbered (by omega)
      rw [hdepth, hrest, if_pos (by omega)]
    · obtain ⟨part, hp⟩ := ih hr hc
      refine ⟨part, hp.of_inner (k := 0) hr.numbered hc fun line h1 h2 => ?_⟩
      have hyes : yes.enclosing line = 0 := enclosing_outside hy.numbered (by omega)
      rw [hdepth, hyes, if_neg (by omega)]
      omega
  | fork here cond yes no rest ihYes ihNo ih =>
    have parts := h
    obtain ⟨rfl, -, -, -, -, -, hy, ho, hr⟩ := parts
    have hdepth := enclosing_fork here cond yes no rest
    simp only [constructs, List.mem_cons, List.mem_append, Prod.mk.injEq] at hc
    rcases hc with ⟨rfl, rfl⟩ | (hc | hc) | hc
    · exact ⟨_, fork_part h⟩
    · obtain ⟨part, hp⟩ := ihYes hy hc
      refine ⟨part, hp.of_inner (k := 1) hy.numbered hc fun line h1 h2 => ?_⟩
      have hno : no.enclosing line = 0 := enclosing_outside ho.numbered (by omega)
      have hrest : rest.enclosing line = 0 := enclosing_outside hr.numbered (by omega)
      rw [hdepth, hno, hrest, if_pos (by omega)]
    · obtain ⟨part, hp⟩ := ihNo ho hc
      refine ⟨part, hp.of_inner (k := 1) ho.numbered hc fun line h1 h2 => ?_⟩
      have hyes : yes.enclosing line = 0 := enclosing_outside hy.numbered (by omega)
      have hrest : rest.enclosing line = 0 := enclosing_outside hr.numbered (by omega)
      rw [hdepth, hyes, hrest, if_pos (by omega)]
      omega
    · obtain ⟨part, hp⟩ := ih hr hc
      refine ⟨part, hp.of_inner (k := 0) hr.numbered hc fun line h1 h2 => ?_⟩
      have hyes : yes.enclosing line = 0 := enclosing_outside hy.numbered (by omega)
      have hno : no.enclosing line = 0 := enclosing_outside ho.numbered (by omega)
      rw [hdepth, hyes, hno, if_neg (by omega)]
      omega
  | loop here cond inside rest ihInside ih =>
    have parts := h
    obtain ⟨rfl, -, -, -, -, hi, hr⟩ := parts
    have hdepth := enclosing_loop here cond inside rest
    simp only [constructs, List.mem_cons, List.mem_append, Prod.mk.injEq] at hc
    rcases hc with ⟨rfl, rfl⟩ | hc | hc
    · exact ⟨_, loop_part h⟩
    · obtain ⟨part, hp⟩ := ihInside hi hc
      refine ⟨part, hp.of_inner (k := 1) hi.numbered hc fun line h1 h2 => ?_⟩
      have hrest : rest.enclosing line = 0 := enclosing_outside hr.numbered (by omega)
      rw [hdepth, hrest, if_pos (by omega)]
    · obtain ⟨part, hp⟩ := ih hr hc
      refine ⟨part, hp.of_inner (k := 0) hr.numbered hc fun line h1 h2 => ?_⟩
      have hinside : inside.enclosing line = 0 := enclosing_outside hi.numbered (by omega)
      rw [hdepth, hinside, if_neg (by omega)]
      omega

/-- A line that opens a branch or a loop opens a construct of the body. -/
theorem Body.Laid.exists_construct {b : Body} {n line : Nat} {s : Statement}
    (h : b.Laid lines flow n) (h1 : n ≤ line) (h2 : line < n + b.length)
    (hl : lines line = some s) (hs : s.opensBlock = true) :
    ∃ last, (line, last) ∈ b.constructs := by
  induction b generalizing n with
  | done =>
    simp only [length_done] at h2
    omega
  | line here simple rest ih =>
    obtain ⟨rfl, hsimple, hr⟩ := h
    simp only [length_line] at h2
    rcases Nat.eq_or_lt_of_le h1 with rfl | hlt
    · cases hl.symm.trans hsimple
      cases simple <;> cases hs
    · exact ih hr hlt (by omega)
  | branch here cond yes rest ihYes ih =>
    obtain ⟨rfl, -, he, -, hy, hr⟩ := h
    simp only [length_branch] at h2
    simp only [constructs, List.mem_cons, List.mem_append]
    rcases Nat.eq_or_lt_of_le h1 with rfl | hlt
    · exact ⟨_, Or.inl rfl⟩
    rcases Nat.lt_trichotomy line (here + yes.length + 1) with hin | rfl | hout
    · obtain ⟨last, hc⟩ := ihYes hy hlt (by omega)
      exact ⟨last, Or.inr (Or.inl hc)⟩
    · cases hl.symm.trans he
      cases hs
    · obtain ⟨last, hc⟩ := ih hr (by omega) (by omega)
      exact ⟨last, Or.inr (Or.inr hc)⟩
  | fork here cond yes no rest ihYes ihNo ih =>
    obtain ⟨rfl, -, hm, he, -, -, hy, ho, hr⟩ := h
    simp only [length_fork] at h2
    simp only [constructs, List.mem_cons, List.mem_append]
    rcases Nat.eq_or_lt_of_le h1 with rfl | hlt
    · exact ⟨_, Or.inl rfl⟩
    rcases Nat.lt_trichotomy line (here + yes.length + 1) with hin | rfl | hlate
    · obtain ⟨last, hc⟩ := ihYes hy hlt (by omega)
      exact ⟨last, Or.inr (Or.inl (Or.inl hc))⟩
    · cases hl.symm.trans hm
      cases hs
    rcases Nat.lt_trichotomy line (here + yes.length + no.length + 2) with hin | rfl | hout
    · obtain ⟨last, hc⟩ := ihNo ho (by omega) (by omega)
      exact ⟨last, Or.inr (Or.inl (Or.inr hc))⟩
    · cases hl.symm.trans he
      cases hs
    · obtain ⟨last, hc⟩ := ih hr (by omega) (by omega)
      exact ⟨last, Or.inr (Or.inr hc)⟩
  | loop here cond inside rest ihInside ih =>
    obtain ⟨rfl, -, he, -, -, hi, hr⟩ := h
    simp only [length_loop] at h2
    simp only [constructs, List.mem_cons, List.mem_append]
    rcases Nat.eq_or_lt_of_le h1 with rfl | hlt
    · exact ⟨_, Or.inl rfl⟩
    rcases Nat.lt_trichotomy line (here + inside.length + 1) with hin | rfl | hout
    · obtain ⟨last, hc⟩ := ihInside hi hlt (by omega)
      exact ⟨last, Or.inr (Or.inl hc)⟩
    · cases hl.symm.trans he
      cases hs
    · obtain ⟨last, hc⟩ := ih hr (by omega) (by omega)
      exact ⟨last, Or.inr (Or.inr hc)⟩

end

section

variable {p : Program} {t : Outline}

/-- What the lines of a construct are in the program: sites that lead to lines of the construct or
to the line behind it. They lie deeper than the line that opens it and the line behind it. -/
structure Outline.Construct (t : Outline) (p : Program) (first last : Nat) : Prop where
  lt : first < last
  opens : ∃ s, p.at? first = some s ∧ s.opensBlock = true
  site : ∀ line, first ≤ line → line ≤ last →
    ∃ s, p.at? line = some s ∧ Site p.flow t.enclosing first (last + 1) line s
  inside : ∀ line, first < line → line ≤ last → t.enclosing first < t.enclosing line
  behind : t.enclosing (last + 1) = t.enclosing first

theorem Outline.Charts.construct (ht : t.Charts p) {first last : Nat}
    (h : (first, last) ∈ t.constructs) : t.Construct p first last := by
  obtain ⟨r, hr, hc⟩ := List.mem_flatMap.mp h
  have hi := ht.installed r hr
  obtain ⟨h1, h2, h3⟩ := construct_bounds hi.body.numbered hc
  obtain ⟨part, hp⟩ := hi.body.part hc
  have hlast : r.lastLine = r.definition.line + r.body.length + 1 := rfl
  have hlength := hp.length
  have whole : ∀ line, first ≤ line → line ≤ last + 1 →
      t.enclosing line = r.body.enclosing line :=
    fun line hl hb => ht.enclosing r hr line (by omega) (by omega)
  have depth : ∀ line, first ≤ line → line ≤ last + 1 →
      t.enclosing line = part.enclosing line + t.enclosing first := by
    intro line hl hb
    rw [whole line hl hb, whole first (by omega) (by omega)]
    exact hp.depth line hl hb
  refine ⟨h2, hp.opens, fun line hl hb => ?_, fun line hl hb => ?_, ?_⟩
  · obtain ⟨s, hs, hsite⟩ := hp.laid.sited line hl (by omega)
    rw [hlength] at hsite
    exact ⟨s, hs, hsite.lift (t.enclosing first) hl (by omega) depth (Nat.le_refl _)
      (Nat.le_refl _)⟩
  · have hinside := hp.inside line hl hb
    have hline := depth line (by omega) (by omega)
    omega
  · have hout : part.enclosing (last + 1) = 0 :=
      enclosing_outside hp.laid.numbered (by omega)
    have hline := depth (last + 1) (by omega) (by omega)
    omega

theorem Nested.exists_construct (ht : t.Charts p) {line : Nat} {scopes : Scopes} {s : Statement}
    (h : Nested p t line scopes) (hat : p.at? line = some s) (hs : s.opensBlock = true) :
    ∃ last, (line, last) ∈ t.constructs := by
  obtain ⟨r, hr, -, here, hline, h1, h2, -⟩ := h.top
  cases Int.ofNat.inj hline
  have hi := ht.installed r hr
  have hlast : r.lastLine = r.definition.line + r.body.length + 1 := rfl
  rcases installed_line hi h1 h2 with ⟨-, hf⟩ | ⟨-, he⟩ | ⟨hin, -⟩
  · cases hat.symm.trans hf
    cases hs
  · cases hat.symm.trans he
    cases hs
  · rcases Nat.eq_or_lt_of_le h1 with rfl | hlt
    · cases hat.symm.trans hi.head
      cases hs
    · obtain ⟨last, hc⟩ := hi.body.exists_construct hlt (by omega) hat hs
      exact ⟨last, List.mem_flatMap.mpr ⟨r, hr, hc⟩⟩

end

end Brewin
