import Brewin.Proofs.OutlineProgram

namespace Brewin

/-- The branches and loops of a body, each with the lines that open and close it. -/
def Body.constructs : Body → List (Nat × Nat)
  | done => []
  | line _ _ rest => rest.constructs
  | branch here _ yes rest =>
    (here, here + yes.length + 1) :: (yes.constructs ++ rest.constructs)
  | fork here _ yes no rest =>
    (here, here + yes.length + no.length + 2) ::
      (yes.constructs ++ no.constructs ++ rest.constructs)
  | loop here _ inside rest =>
    (here, here + inside.length + 1) :: (inside.constructs ++ rest.constructs)

/-- A line is inside a construct from behind the line that opens it up to the one that closes
it. -/
def encloses (line : Nat) (construct : Nat × Nat) : Bool :=
  decide (construct.1 < line ∧ line ≤ construct.2)

/-- The number of constructs of the body around a line. -/
def Body.enclosing (b : Body) (line : Nat) : Nat :=
  b.constructs.countP (encloses line)

/-- The number of constructs of the program around a line. -/
def Outline.enclosing (t : Outline) (line : Nat) : Nat :=
  (t.routines.flatMap (·.body.constructs)).countP (encloses line)

theorem Body.Laid.numbered {lines : Nat → Option Statement} {flow : Flow} {b : Body} {n : Nat}
    (h : b.Laid lines flow n) : b.Numbered n := by
  induction b generalizing n with
  | done => trivial
  | line here simple rest ih => exact ⟨h.1, ih h.2.2⟩
  | branch here cond yes rest ihYes ih =>
    obtain ⟨hn, -, -, -, hy, hr⟩ := h
    exact ⟨hn, ihYes hy, ih hr⟩
  | fork here cond yes no rest ihYes ihNo ih =>
    obtain ⟨hn, -, -, -, -, -, hy, ho, hr⟩ := h
    exact ⟨hn, ihYes hy, ihNo ho, ih hr⟩
  | loop here cond inside rest ihInside ih =>
    obtain ⟨hn, -, -, -, -, hi, hr⟩ := h
    exact ⟨hn, ihInside hi, ih hr⟩

theorem countP_construct (line first last : Nat) (constructs : List (Nat × Nat)) :
    ((first, last) :: constructs).countP (encloses line) =
      constructs.countP (encloses line) + if first < line ∧ line ≤ last then 1 else 0 := by
  simp [List.countP_cons, encloses]

theorem Body.enclosing_branch (here : Nat) (cond : List String) (yes rest : Body) (line : Nat) :
    (branch here cond yes rest).enclosing line = yes.enclosing line + rest.enclosing line +
      if here < line ∧ line ≤ here + yes.length + 1 then 1 else 0 := by
  unfold enclosing
  rw [constructs, countP_construct, List.countP_append]

theorem Body.enclosing_fork (here : Nat) (cond : List String) (yes no rest : Body) (line : Nat) :
    (fork here cond yes no rest).enclosing line =
      yes.enclosing line + no.enclosing line + rest.enclosing line +
        if here < line ∧ line ≤ here + yes.length + no.length + 2 then 1 else 0 := by
  unfold enclosing
  rw [constructs, countP_construct, List.countP_append, List.countP_append]

theorem Body.enclosing_loop (here : Nat) (cond : List String) (inside rest : Body) (line : Nat) :
    (loop here cond inside rest).enclosing line =
      inside.enclosing line + rest.enclosing line +
        if here < line ∧ line ≤ here + inside.length + 1 then 1 else 0 := by
  unfold enclosing
  rw [constructs, countP_construct, List.countP_append]

/-- No construct of a body reaches beyond its lines. -/
theorem enclosing_outside {b : Body} {n line : Nat} (h : b.Numbered n)
    (hl : line ≤ n ∨ n + b.length ≤ line) : b.enclosing line = 0 := by
  induction b generalizing n with
  | done => rfl
  | line here simple rest ih =>
    simp only [Body.length_line] at hl
    exact ih h.2 (by omega)
  | branch here cond yes rest ihYes ih =>
    obtain ⟨rfl, hy, hr⟩ := h
    simp only [Body.length_branch] at hl
    rw [Body.enclosing_branch, ihYes hy (by omega), ih hr (by omega), if_neg (by omega)]
  | fork here cond yes no rest ihYes ihNo ih =>
    obtain ⟨rfl, hy, ho, hr⟩ := h
    simp only [Body.length_fork] at hl
    rw [Body.enclosing_fork, ihYes hy (by omega), ihNo ho (by omega), ih hr (by omega),
      if_neg (by omega)]
  | loop here cond inside rest ihInside ih =>
    obtain ⟨rfl, hi, hr⟩ := h
    simp only [Body.length_loop] at hl
    rw [Body.enclosing_loop, ihInside hi (by omega), ih hr (by omega), if_neg (by omega)]

/-- What a line of a body is, and how deep the lines lie to which it leads. -/
inductive Site (flow : Flow) (depth : Nat → Nat) (first last line : Nat) : Statement → Prop
  | simple (s : Simple) : depth (line + 1) = depth line →
      Site flow depth first last line s.statement
  | branch {cond : List String} {close : Nat} : flow.branch? line = some ⟨none, close⟩ →
      line < close → close < last → depth (line + 1) = depth line + 1 →
      depth (close + 1) = depth line → Site flow depth first last line (.ifThen cond)
  | fork {cond : List String} {middle close : Nat} :
      flow.branch? line = some ⟨some middle, close⟩ → line < middle → middle < last →
      depth (line + 1) = depth line + 1 → depth (middle + 1) = depth line + 1 →
      Site flow depth first last line (.ifThen cond)
  | orElse {close : Nat} : flow.elseEnd? line = some close → line < close → close < last →
      depth close = depth line → Site flow depth first last line .orElse
  | endIf : depth line = depth (line + 1) + 1 → Site flow depth first last line .endIf
  | loop {cond : List String} {close : Nat} : flow.loopPartner? line = some close →
      line < close → close < last → depth (line + 1) = depth line + 1 →
      depth (close + 1) = depth line → Site flow depth first last line (.whileDo cond)
  | endWhile {start : Nat} : flow.loopPartner? line = some start → first ≤ start →
      start < line → depth line = depth start + 1 → Site flow depth first last line .endWhile

/-- A site of a part is a site of the whole, where all lines of the part lie deeper by the same
amount. -/
theorem Site.lift {flow : Flow} {depth depth' : Nat → Nat} {first last first' last' line : Nat}
    {s : Statement} (h : Site flow depth first last line s) (k : Nat) (h1 : first ≤ line)
    (h2 : line < last) (hd : ∀ i, first ≤ i → i ≤ last → depth' i = depth i + k)
    (hf : first' ≤ first) (hl : last ≤ last') : Site flow depth' first' last' line s := by
  have here := hd line h1 (by omega)
  have next := hd (line + 1) (by omega) (by omega)
  cases h with
  | simple s h => exact .simple s (by omega)
  | @branch cond close hb hlt hle hin hout =>
    have := hd (close + 1) (by omega) (by omega)
    exact .branch hb hlt (by omega) (by omega) (by omega)
  | @fork cond middle close hb hlt hle hin helse =>
    have := hd (middle + 1) (by omega) (by omega)
    exact .fork hb hlt (by omega) (by omega) (by omega)
  | @orElse close he hlt hle hd' =>
    have := hd close (by omega) (by omega)
    exact .orElse he hlt (by omega) (by omega)
  | endIf h => exact .endIf (by omega)
  | @loop cond close hb hlt hle hin hout =>
    have := hd (close + 1) (by omega) (by omega)
    exact .loop hb hlt (by omega) (by omega) (by omega)
  | @endWhile start hb hle hlt hd' =>
    have := hd start (by omega) (by omega)
    exact .endWhile hb (by omega) hlt (by omega)

/-- Every line of the body is a site. -/
def Body.Sited (lines : Nat → Option Statement) (flow : Flow) (n : Nat) (b : Body) : Prop :=
  ∀ line, n ≤ line → line < n + b.length →
    ∃ s, lines line = some s ∧ Site flow b.enclosing n (n + b.length) line s

section

variable {lines : Nat → Option Statement} {flow : Flow}

theorem Body.Sited.part {part whole : Body} {n m k line : Nat} (h : part.Sited lines flow n)
    (hd : ∀ i, n ≤ i → i ≤ n + part.length → whole.enclosing i = part.enclosing i + k)
    (hf : m ≤ n) (hl : n + part.length ≤ m + whole.length) (h1 : n ≤ line)
    (h2 : line < n + part.length) :
    ∃ s, lines line = some s ∧ Site flow whole.enclosing m (m + whole.length) line s := by
  obtain ⟨s, hat, hsite⟩ := h line h1 h2
  exact ⟨s, hat, hsite.lift k h1 h2 hd hf hl⟩

theorem line_sited {here : Nat} {simple : Simple} {rest : Body}
    (h : (Body.line here simple rest).Laid lines flow here)
    (hrest : rest.Sited lines flow (here + 1)) :
    (Body.line here simple rest).Sited lines flow here := by
  obtain ⟨-, hs, hr⟩ := h
  have hdepth : ∀ i, (Body.line here simple rest).enclosing i = rest.enclosing i := fun _ => rfl
  have hlen := Body.length_line here simple rest
  intro line h1 h2
  rcases Nat.eq_or_lt_of_le h1 with rfl | hlt
  · refine ⟨_, hs, .simple simple ?_⟩
    rw [hdepth, hdepth, enclosing_outside hr.numbered (by omega),
      enclosing_outside hr.numbered (by omega)]
  · exact hrest.part (k := 0) (fun i _ _ => hdepth i) (by omega) (by omega) (by omega) (by omega)

theorem branch_sited {here : Nat} {cond : List String} {yes rest : Body}
    (h : (Body.branch here cond yes rest).Laid lines flow here)
    (hyes : yes.Sited lines flow (here + 1))
    (hrest : rest.Sited lines flow (here + yes.length + 2)) :
    (Body.branch here cond yes rest).Sited lines flow here := by
  obtain ⟨-, hs, he, hf, hy, hr⟩ := h
  have hdepth := Body.enclosing_branch here cond yes rest
  have hlen := Body.length_branch here cond yes rest
  have outY : ∀ i, i ≤ here + 1 ∨ here + 1 + yes.length ≤ i → yes.enclosing i = 0 :=
    fun i hi => enclosing_outside hy.numbered hi
  have outR : ∀ i, i ≤ here + yes.length + 2 → rest.enclosing i = 0 :=
    fun i hi => enclosing_outside hr.numbered (Or.inl hi)
  -- The lines of the branch that lie outside its body.
  have hedge : ∀ i, i ≤ here + 1 ∨ i = here + yes.length + 1 ∨ i = here + yes.length + 2 →
      (Body.branch here cond yes rest).enclosing i =
        if here < i ∧ i ≤ here + yes.length + 1 then 1 else 0 := by
    intro i hi
    rw [hdepth, outY _ (by omega), outR _ (by omega)]
    omega
  intro line h1 h2
  rcases Nat.eq_or_lt_of_le h1 with rfl | hlt
  · refine ⟨_, hs, .branch hf (by omega) (by omega) ?_ ?_⟩
    · rw [hedge _ (by omega), hedge _ (by omega), if_pos (by omega), if_neg (by omega)]
    · rw [hedge _ (by omega), hedge _ (by omega), if_neg (by omega), if_neg (by omega)]
  rcases Nat.lt_trichotomy line (here + yes.length + 1) with hin | rfl | hout
  · refine hyes.part (k := 1) (fun i _ _ => ?_) (by omega) (by omega) (by omega) (by omega)
    rw [hdepth, outR _ (by omega), if_pos (by omega)]
  · refine ⟨_, he, .endIf ?_⟩
    rw [hedge _ (by omega), hedge _ (by omega), if_pos (by omega), if_neg (by omega)]
  · refine hrest.part (k := 0) (fun i _ _ => ?_) (by omega) (by omega) (by omega) (by omega)
    rw [hdepth, outY _ (by omega), if_neg (by omega)]
    omega

theorem fork_sited {here : Nat} {cond : List String} {yes no rest : Body}
    (h : (Body.fork here cond yes no rest).Laid lines flow here)
    (hyes : yes.Sited lines flow (here + 1)) (hno : no.Sited lines flow (here + yes.length + 2))
    (hrest : rest.Sited lines flow (here + yes.length + no.length + 3)) :
    (Body.fork here cond yes no rest).Sited lines flow here := by
  obtain ⟨-, hs, hm, he, hf, hg, hy, ho, hr⟩ := h
  have hdepth := Body.enclosing_fork here cond yes no rest
  have hlen := Body.length_fork here cond yes no rest
  have outY : ∀ i, i ≤ here + 1 ∨ here + 1 + yes.length ≤ i → yes.enclosing i = 0 :=
    fun i hi => enclosing_outside hy.numbered hi
  have outN : ∀ i, i ≤ here + yes.length + 2 ∨ here + yes.length + 2 + no.length ≤ i →
      no.enclosing i = 0 :=
    fun i hi => enclosing_outside ho.numbered hi
  have outR : ∀ i, i ≤ here + yes.length + no.length + 3 → rest.enclosing i = 0 :=
    fun i hi => enclosing_outside hr.numbered (Or.inl hi)
  have hedge : ∀ i, i ≤ here + 1 ∨ i = here + yes.length + 1 ∨ i = here + yes.length + 2 ∨
      i = here + yes.length + no.length + 2 ∨ i = here + yes.length + no.length + 3 →
      (Body.fork here cond yes no rest).enclosing i =
        if here < i ∧ i ≤ here + yes.length + no.length + 2 then 1 else 0 := by
    intro i hi
    rw [hdepth, outY _ (by omega), outN _ (by omega), outR _ (by omega)]
    omega
  intro line h1 h2
  rcases Nat.eq_or_lt_of_le h1 with rfl | hlt
  · refine ⟨_, hs, .fork hf (by omega) (by omega) ?_ ?_⟩
    · rw [hedge _ (by omega), hedge _ (by omega), if_pos (by omega), if_neg (by omega)]
    · rw [hedge _ (by omega), hedge _ (by omega), if_pos (by omega), if_neg (by omega)]
  rcases Nat.lt_trichotomy line (here + yes.length + 1) with hin | rfl | hlate
  · refine hyes.part (k := 1) (fun i _ _ => ?_) (by omega) (by omega) (by omega) (by omega)
    rw [hdepth, outN _ (by omega), outR _ (by omega), if_pos (by omega)]
  · refine ⟨_, hm, .orElse hg (by omega) (by omega) ?_⟩
    rw [hedge _ (by omega), hedge _ (by omega), if_pos (by omega), if_pos (by omega)]
  rcases Nat.lt_trichotomy line (here + yes.length + no.length + 2) with hin | rfl | hout
  · refine hno.part (k := 1) (fun i _ _ => ?_) (by omega) (by omega) (by omega) (by omega)
    rw [hdepth, outY _ (by omega), outR _ (by omega), if_pos (by omega)]
    omega
  · refine ⟨_, he, .endIf ?_⟩
    rw [hedge _ (by omega), hedge _ (by omega), if_pos (by omega), if_neg (by omega)]
  · refine hrest.part (k := 0) (fun i _ _ => ?_) (by omega) (by omega) (by omega) (by omega)
    rw [hdepth, outY _ (by omega), outN _ (by omega), if_neg (by omega)]
    omega

theorem loop_sited {here : Nat} {cond : List String} {inside rest : Body}
    (h : (Body.loop here cond inside rest).Laid lines flow here)
    (hinside : inside.Sited lines flow (here + 1))
    (hrest : rest.Sited lines flow (here + inside.length + 2)) :
    (Body.loop here cond inside rest).Sited lines flow here := by
  obtain ⟨-, hs, he, hf, hg, hi, hr⟩ := h
  have hdepth := Body.enclosing_loop here cond inside rest
  have hlen := Body.length_loop here cond inside rest
  have outI : ∀ i, i ≤ here + 1 ∨ here + 1 + inside.length ≤ i → inside.enclosing i = 0 :=
    fun i h => enclosing_outside hi.numbered h
  have outR : ∀ i, i ≤ here + inside.length + 2 → rest.enclosing i = 0 :=
    fun i h => enclosing_outside hr.numbered (Or.inl h)
  have hedge : ∀ i, i ≤ here + 1 ∨ i = here + inside.length + 1 ∨
      i = here + inside.length + 2 → (Body.loop here cond inside rest).enclosing i =
        if here < i ∧ i ≤ here + inside.length + 1 then 1 else 0 := by
    intro i hi
    rw [hdepth, outI _ (by omega), outR _ (by omega)]
    omega
  intro line h1 h2
  rcases Nat.eq_or_lt_of_le h1 with rfl | hlt
  · refine ⟨_, hs, .loop hf (by omega) (by omega) ?_ ?_⟩
    · rw [hedge _ (by omega), hedge _ (by omega), if_pos (by omega), if_neg (by omega)]
    · rw [hedge _ (by omega), hedge _ (by omega), if_neg (by omega), if_neg (by omega)]
  rcases Nat.lt_trichotomy line (here + inside.length + 1) with hin | rfl | hout
  · refine hinside.part (k := 1) (fun i _ _ => ?_) (by omega) (by omega) (by omega) (by omega)
    rw [hdepth, outR _ (by omega), if_pos (by omega)]
  · refine ⟨_, he, .endWhile hg (by omega) (by omega) ?_⟩
    rw [hedge _ (by omega), hedge _ (by omega), if_pos (by omega), if_neg (by omega)]
  · refine hrest.part (k := 0) (fun i _ _ => ?_) (by omega) (by omega) (by omega) (by omega)
    rw [hdepth, outI _ (by omega), if_neg (by omega)]
    omega

/-- Every line of a body that stands in the program is a site. -/
theorem Body.Laid.sited {b : Body} {n : Nat} (h : b.Laid lines flow n) :
    b.Sited lines flow n := by
  induction b generalizing n with
  | done =>
    intro line h1 h2
    simp only [Body.length_done] at h2
    omega
  | line here simple rest ih =>
    have parts := h
    obtain ⟨rfl, -, hr⟩ := parts
    exact line_sited h (ih hr)
  | branch here cond yes rest ihYes ih =>
    have parts := h
    obtain ⟨rfl, -, -, -, hy, hr⟩ := parts
    exact branch_sited h (ihYes hy) (ih hr)
  | fork here cond yes no rest ihYes ihNo ih =>
    have parts := h
    obtain ⟨rfl, -, -, -, -, -, hy, ho, hr⟩ := parts
    exact fork_sited h (ihYes hy) (ihNo ho) (ih hr)
  | loop here cond inside rest ihInside ih =>
    have parts := h
    obtain ⟨rfl, -, -, -, -, hi, hr⟩ := parts
    exact loop_sited h (ihInside hi) (ih hr)

end

end Brewin
