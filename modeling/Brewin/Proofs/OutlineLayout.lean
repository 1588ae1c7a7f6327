import Brewin.Proofs.Outline

namespace Brewin

/-- Two flows send a line to the same places. -/
def Flow.AgreeAt (flow flow' : Flow) (line : Nat) : Prop :=
  flow'.branch? line = flow.branch? line ∧ flow'.elseEnd? line = flow.elseEnd? line ∧
    flow'.loopPartner? line = flow.loopPartner? line

theorem Flow.AgreeAt.trans {first second third : Flow} {line : Nat}
    (h : first.AgreeAt second line) (h' : second.AgreeAt third line) :
    first.AgreeAt third line :=
  ⟨h'.1.trans h.1, h'.2.1.trans h.2.1, h'.2.2.trans h.2.2⟩

/-- The tree stands in the program: from line `n` on the lines are its lines, and the flow joins
the lines that belong together. -/
def Body.Laid (lines : Nat → Option Statement) (flow : Flow) : Nat → Body → Prop
  | _, done => True
  | n, line here simple rest =>
    here = n ∧ lines n = some simple.statement ∧ rest.Laid lines flow (n + 1)
  | n, branch here cond yes rest =>
    here = n ∧ lines n = some (.ifThen cond) ∧ lines (n + yes.length + 1) = some .endIf ∧
      flow.branch? n = some ⟨none, n + yes.length + 1⟩ ∧
      yes.Laid lines flow (n + 1) ∧ rest.Laid lines flow (n + yes.length + 2)
  | n, fork here cond yes no rest =>
    here = n ∧ lines n = some (.ifThen cond) ∧ lines (n + yes.length + 1) = some .orElse ∧
      lines (n + yes.length + no.length + 2) = some .endIf ∧
      flow.branch? n = some ⟨some (n + yes.length + 1), n + yes.length + no.length + 2⟩ ∧
      flow.elseEnd? (n + yes.length + 1) = some (n + yes.length + no.length + 2) ∧
      yes.Laid lines flow (n + 1) ∧ no.Laid lines flow (n + yes.length + 2) ∧
      rest.Laid lines flow (n + yes.length + no.length + 3)
  | n, loop here cond inside rest =>
    here = n ∧ lines n = some (.whileDo cond) ∧ lines (n + inside.length + 1) = some .endWhile ∧
      flow.loopPartner? n = some (n + inside.length + 1) ∧
      flow.loopPartner? (n + inside.length + 1) = some n ∧
      inside.Laid lines flow (n + 1) ∧ rest.Laid lines flow (n + inside.length + 2)

theorem Body.Laid.congr {lines : Nat → Option Statement} {flow flow' : Flow} {b : Body} {n : Nat}
    (h : b.Laid lines flow n)
    (agree : ∀ l, n ≤ l → l < n + b.length → flow.AgreeAt flow' l) : b.Laid lines flow' n := by
  induction b generalizing n with
  | done => trivial
  | line here simple rest ih =>
    obtain ⟨hn, hs, hr⟩ := h
    simp only [length_line] at agree
    exact ⟨hn, hs, ih hr fun l hl hb => agree l (by omega) (by omega)⟩
  | branch here cond yes rest ihYes ih =>
    obtain ⟨hn, hs, he, hf, hy, hr⟩ := h
    simp only [length_branch] at agree
    refine ⟨hn, hs, he, ?_, ihYes hy fun l hl hb => agree l (by omega) (by omega),
      ih hr fun l hl hb => agree l (by omega) (by omega)⟩
    exact (agree n (by omega) (by omega)).1.trans hf
  | fork here cond yes no rest ihYes ihNo ih =>
    obtain ⟨hn, hs, hm, he, hf, hg, hy, ho, hr⟩ := h
    simp only [length_fork] at agree
    refine ⟨hn, hs, hm, he, ?_, ?_, ihYes hy fun l hl hb => agree l (by omega) (by omega),
      ihNo ho fun l hl hb => agree l (by omega) (by omega),
      ih hr fun l hl hb => agree l (by omega) (by omega)⟩
    · exact (agree n (by omega) (by omega)).1.trans hf
    · exact (agree _ (by omega) (by omega)).2.1.trans hg
  | loop here cond inside rest ihInside ih =>
    obtain ⟨hn, hs, he, hf, hg, hi, hr⟩ := h
    simp only [length_loop] at agree
    refine ⟨hn, hs, he, ?_, ?_, ihInside hi fun l hl hb => agree l (by omega) (by omega),
      ih hr fun l hl hb => agree l (by omega) (by omega)⟩
    · exact (agree n (by omega) (by omega)).2.2.trans hf
    · exact (agree _ (by omega) (by omega)).2.2.trans hg

/-- The statements stand in the program from line `n` on. -/
def Spelled (lines : Nat → Option Statement) (n : Nat) (ss : List Statement) : Prop :=
  ∀ i s, ss[i]? = some s → lines (n + i) = some s

theorem spelled_cons {lines : Nat → Option Statement} {n : Nat} {s : Statement}
    {ss : List Statement} :
    Spelled lines n (s :: ss) ↔ lines n = some s ∧ Spelled lines (n + 1) ss := by
  constructor
  · intro h
    refine ⟨h 0 s rfl, fun i x hx => ?_⟩
    have := h (i + 1) x hx
    rwa [show n + (i + 1) = n + 1 + i by omega] at this
  · rintro ⟨hs, h⟩ i x hx
    cases i with
    | zero => cases Option.some.inj hx; exact hs
    | succ i =>
      have := h i x hx
      rwa [show n + 1 + i = n + (i + 1) by omega] at this

theorem spelled_append {lines : Nat → Option Statement} {n : Nat} {ss ts : List Statement} :
    Spelled lines n (ss ++ ts) ↔ Spelled lines n ss ∧ Spelled lines (n + ss.length) ts := by
  induction ss generalizing n with
  | nil => simp [Spelled]
  | cons s ss ih =>
    rw [List.cons_append, spelled_cons, ih, spelled_cons, and_assoc, List.length_cons,
      show n + 1 + ss.length = n + (ss.length + 1) by omega]

namespace Matching

variable {tokens : List String} (m : Matching)

theorem advance_of_class {c : TokenClass} (h : leadingClass tokens = c) :
    m.advance tokens = { m.visit c with line := m.line + 1 } := by
  rw [advance, h]

/-- A line that starts with no word of a branch or a loop changes nothing. -/
theorem advance_plain {s : Statement} (hd : Statement.decode tokens = s)
    (h : ∀ k ∈ [Keyword.ifThen, .orElse, .endIf, .whileDo, .endWhile], s.keyword? ≠ some k) :
    m.advance tokens = { m with line := m.line + 1 } := by
  have hc : ∀ k ∈ [Keyword.ifThen, .orElse, .endIf, .whileDo, .endWhile],
      leadingClass tokens ≠ .keyword k :=
    fun k hk he => h k hk (hd ▸ keyword?_decode.mpr he)
  have hv : m.visit (leadingClass tokens) = m := by
    unfold visit
    split
    next he => exact absurd he (hc .ifThen (by simp))
    next he => exact absurd he (hc .orElse (by simp))
    next he => exact absurd he (hc .endIf (by simp))
    next he => exact absurd he (hc .whileDo (by simp))
    next he => exact absurd he (hc .endWhile (by simp))
    next => rfl
  rw [advance, hv]

theorem advance_ifThen {cond : List String} (h : Statement.decode tokens = .ifThen cond) :
    m.advance tokens = { m with ifs := ⟨m.line, []⟩ :: m.ifs, line := m.line + 1 } :=
  m.advance_of_class (keyword?_decode.mp (by rw [h]; rfl))

theorem advance_orElse (h : Statement.decode tokens = .orElse) {opened : OpenIf}
    {ifs : Stack OpenIf} (hi : m.ifs = opened :: ifs) :
    m.advance tokens =
      { m with
        ifs := ⟨opened.line, opened.elses ++ [m.line]⟩ :: ifs
        line := m.line + 1 } := by
  rw [m.advance_of_class (keyword?_decode.mp (by rw [h]; rfl))]
  simp only [visit, hi]

theorem advance_endIf (h : Statement.decode tokens = .endIf) {opened : OpenIf}
    {ifs : Stack OpenIf} (hi : m.ifs = opened :: ifs) :
    m.advance tokens = { m.closeIf opened ifs with line := m.line + 1 } := by
  rw [m.advance_of_class (keyword?_decode.mp (by rw [h]; rfl))]
  simp only [visit, hi]

theorem advance_whileDo {cond : List String} (h : Statement.decode tokens = .whileDo cond) :
    m.advance tokens = { m with whiles := m.line :: m.whiles, line := m.line + 1 } :=
  m.advance_of_class (keyword?_decode.mp (by rw [h]; rfl))

theorem advance_endWhile (h : Statement.decode tokens = .endWhile) {opened : Nat}
    {whiles : Stack Nat} (hw : m.whiles = opened :: whiles) :
    m.advance tokens = { m.closeWhile opened whiles with line := m.line + 1 } := by
  rw [m.advance_of_class (keyword?_decode.mp (by rw [h]; rfl))]
  simp only [visit, hw]

end Matching

end Brewin
