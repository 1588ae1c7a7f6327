import Mathlib.Data.Finset.Card
import Mathlib.Data.Finset.Dedup
import Brewin.Proofs.BracketPairs
import Brewin.Proofs.OutlineMatching

namespace Brewin

/-- Line `e` is an else inside the block from `i` to `n`, and outside of the ifs in between. -/
structure OwnElse (stream : List (List String)) (i n e : Nat) : Prop where
  behind : i < e
  before : e < n
  starts : Starts stream "else" e
  level : tally stream "if" (Finset.Ioo i e) = tally stream "endif" (Finset.Ioo i e)

/-- The branch is the one of the if line `i`: it ends at the endif of the line, and has an else
only if a single one belongs to the line. -/
structure IsBranch (stream : List (List String)) (i : Nat) (b : Branch) : Prop where
  opens : Starts stream "if" i
  closes : ifBrackets.Closes stream i b.endLine
  only : ∀ e, b.elseLine? = some e ↔ ∀ m, OwnElse stream i b.endLine m ↔ m = e

/-- Line `i` is a while line and line `n` its endwhile. -/
structure IsLoop (stream : List (List String)) (i n : Nat) : Prop where
  opens : Starts stream "while" i
  closes : loopBrackets.Closes stream i n

/-- The only else of an if, as far as it has been met. -/
def OpenIf.only? (o : OpenIf) : Option Nat :=
  match o.elses with
  | [e] => some e
  | _ => none

/-- The else lines noted for an if are those in front of line `n` that belong to it. -/
structure OpenIf.Gathers (stream : List (List String)) (n : Nat) (o : OpenIf) : Prop where
  nodup : o.elses.Nodup
  mem : ∀ e, e ∈ o.elses ↔ OwnElse stream o.line n e

/-- The branches that end in front of line `n` are recorded, each once, and no others. -/
structure Flow.BranchesUpTo (stream : List (List String)) (n : Nat) (flow : Flow) : Prop where
  branch : ∀ i b, flow.branch? i = some b ↔ b.endLine < n ∧ IsBranch stream i b
  elseEnd : ∀ e n', flow.elseEnd? e = some n' ↔ ∃ i, flow.branch? i = some ⟨some e, n'⟩
  branchKeys : (flow.branches.map Prod.fst).Nodup
  elseKeys : (flow.elses.map Prod.fst).Nodup

/-- The loops that end in front of line `n` are recorded in both directions, and no others. -/
structure Flow.LoopsUpTo (stream : List (List String)) (n : Nat) (flow : Flow) : Prop where
  partner : ∀ a c, flow.loopPartner? a = some c ↔
    (c < n ∧ IsLoop stream a c) ∨ (a < n ∧ IsLoop stream c a)
  loopKeys : (flow.loops.map Prod.fst).Nodup

/-- What the matching knows in front of its line. -/
structure Matching.Tracks (stream : List (List String)) (m : Matching) : Prop where
  ifs : ifBrackets.Waiting stream m.line (m.ifs.map (·.line))
  elses : ∀ o ∈ m.ifs, o.Gathers stream m.line
  whiles : loopBrackets.Waiting stream m.line m.whiles
  branches : m.flow.BranchesUpTo stream m.line
  loops : m.flow.LoopsUpTo stream m.line

section

variable {stream : List (List String)} {i j n e : Nat}

theorem excess_eq_zero_iff : ifBrackets.excess stream i e = 0 ↔
    tally stream "if" (Finset.Ioo i e) = tally stream "endif" (Finset.Ioo i e) := by
  show (tally stream "if" (Finset.Ioo i e) : Int) - tally stream "endif" (Finset.Ioo i e) = 0 ↔ _
  omega

/-- An else belongs to the innermost if that is open around it, and to no other. -/
theorem OwnElse.same {n' : Nat} (h : OwnElse stream i n e) (h' : OwnElse stream j n' e)
    (hi : ifBrackets.Pending stream i e) (hj : ifBrackets.Pending stream j e) : i = j := by
  have hzero := excess_eq_zero_iff.mpr h.level
  have hzero' := excess_eq_zero_iff.mpr h'.level
  rcases Nat.lt_trichotomy i j with hlt | heq | hgt
  · have hsplit := Brackets.excess_split hlt hj.before hj.opens
    have hpos := hi.enough j hlt (Nat.le_of_lt hj.before)
    omega
  · exact heq
  · have hsplit := Brackets.excess_split hgt hi.before hi.opens
    have hpos := hj.enough i hgt (Nat.le_of_lt hi.before)
    omega

theorem OwnElse.pending (h : OwnElse stream i n e) (hi : Starts stream "if" i)
    (henough : ∀ m, i < m → m ≤ n → 0 ≤ ifBrackets.excess stream i m) :
    ifBrackets.Pending stream i e := by
  have hbefore := h.before
  exact ⟨hi, h.behind, fun m him hme => henough m him (by omega)⟩

theorem ownElse_succ_iff : OwnElse stream i (n + 1) e ↔
    OwnElse stream i n e ∨ e = n ∧ OwnElse stream i (n + 1) n := by
  constructor
  · intro h
    by_cases he : e = n
    · subst he
      exact Or.inr ⟨rfl, h⟩
    · have hbefore := h.before
      exact Or.inl ⟨h.behind, by omega, h.starts, h.level⟩
  · rintro (h | ⟨rfl, h⟩)
    · exact ⟨h.behind, Nat.lt_succ_of_lt h.before, h.starts, h.level⟩
    · exact h

/-- The else at line `n` belongs to the if on top of the stack. -/
theorem Brackets.Waiting.ownElse_iff {ifs : Stack Nat} {depth : Nat}
    (h : ifBrackets.Waiting stream n ifs) (hd : ifs[depth]? = some i)
    (hn : Starts stream "else" n) : OwnElse stream i (n + 1) n ↔ depth = 0 := by
  have hpending := (h.mem i).mp (List.mem_of_getElem? hd)
  have hexcess := h.excess depth i hd
  constructor
  · intro hown
    have hzero := excess_eq_zero_iff.mpr hown.level
    omega
  · intro hzero
    refine ⟨hpending.before, Nat.lt_succ_self n, hn, excess_eq_zero_iff.mp ?_⟩
    omega

namespace OpenIf.Gathers

variable {o : OpenIf}

theorem pass (h : o.Gathers stream n) (hn : ¬ OwnElse stream o.line (n + 1) n) :
    o.Gathers stream (n + 1) := by
  refine ⟨h.nodup, fun e => ?_⟩
  rw [h.mem, ownElse_succ_iff]
  constructor
  · exact Or.inl
  · rintro (hown | ⟨-, hown⟩)
    · exact hown
    · exact absurd hown hn

theorem add (h : o.Gathers stream n) (hn : OwnElse stream o.line (n + 1) n) :
    OpenIf.Gathers stream (n + 1) { o with elses := o.elses ++ [n] } := by
  have hnew : n ∉ o.elses := by
    intro hmem
    exact absurd ((h.mem n).mp hmem).before (Nat.lt_irrefl n)
  refine ⟨?_, fun e => ?_⟩
  · apply List.nodup_append.mpr
    refine ⟨h.nodup, List.nodup_singleton n, ?_⟩
    rintro a ha c hc rfl
    cases List.mem_singleton.mp hc
    exact hnew ha
  · rw [List.mem_append, List.mem_singleton, h.mem, ownElse_succ_iff]
    constructor
    · rintro (hown | rfl)
      · exact Or.inl hown
      · exact Or.inr ⟨rfl, hn⟩
    · rintro (hown | ⟨rfl, -⟩)
      · exact Or.inl hown
      · exact Or.inr rfl

theorem opened (n : Nat) : OpenIf.Gathers stream (n + 1) { line := n } := by
  refine ⟨List.nodup_nil, fun e => ⟨by simp, fun hown => ?_⟩⟩
  have hbehind : n < e := hown.behind
  have hbefore := hown.before
  omega

theorem only?_eq_some_iff (h : o.Gathers stream n) :
    o.only? = some e ↔ ∀ m, OwnElse stream o.line n m ↔ m = e := by
  have hlist : o.only? = some e ↔ o.elses = [e] := by
    unfold OpenIf.only?
    split
    next found hfound => simp [hfound]
    next hother =>
      constructor
      · intro hnone
        cases hnone
      · intro hsingle
        exact absurd hsingle (hother e)
  rw [hlist]
  constructor
  · intro hsingle m
    rw [← h.mem, hsingle, List.mem_singleton]
  · intro hall
    apply List.perm_singleton.mp
    apply (List.perm_ext_iff_of_nodup h.nodup (List.nodup_singleton e)).mpr
    intro m
    rw [h.mem, hall, List.mem_singleton]

end OpenIf.Gathers

end

theorem notMem_keys {α : Type} {entries : List (Nat × α)} {key : Nat}
    (h : entries.lookup key = none) : key ∉ entries.map Prod.fst := by
  intro hmem
  obtain ⟨entry, hentry, rfl⟩ := List.mem_map.mp hmem
  have hne := List.lookup_eq_none_iff.mp h entry hentry
  simp at hne

namespace Matching

variable {stream : List (List String)} {m : Matching}

/-- What an endif records: the branch of its if, and the way from its else if it has only one. -/
theorem flow_closeIf (m : Matching) (o : OpenIf) (ifs : Stack OpenIf) :
    (m.closeIf o ifs).flow =
      { m.flow with
        branches := (o.line, ⟨o.only?, m.line⟩) :: m.flow.branches
        elses := (o.only?.map (·, m.line)).toList ++ m.flow.elses } := by
  unfold closeIf OpenIf.only?
  match o.elses with
  | [] => rfl
  | [_] => rfl
  | _ :: _ :: _ => rfl

theorem branch?_closeIf (m : Matching) (o : OpenIf) (ifs : Stack OpenIf) (i : Nat) :
    (m.closeIf o ifs).flow.branch? i =
      if i = o.line then some ⟨o.only?, m.line⟩ else m.flow.branch? i := by
  rw [flow_closeIf, Flow.branch?, List.lookup_cons]
  by_cases hi : i = o.line
  · simp [hi]
  · simp [hi, beq_eq_false_iff_ne.mpr hi, Flow.branch?]

theorem elseEnd?_closeIf (m : Matching) (o : OpenIf) (ifs : Stack OpenIf) (e : Nat) :
    (m.closeIf o ifs).flow.elseEnd? e =
      if o.only? = some e then some m.line else m.flow.elseEnd? e := by
  rw [flow_closeIf]
  unfold Flow.elseEnd?
  cases honly : o.only? with
  | none => simp
  | some found =>
    by_cases he : e = found
    · simp [he]
    · simp [List.lookup_cons, beq_eq_false_iff_ne.mpr he, Ne.symm he]

theorem loopPartner?_closeWhile (m : Matching) (opened : Nat) (whiles : Stack Nat) (a : Nat) :
    (m.closeWhile opened whiles).flow.loopPartner? a =
      if a = m.line then some opened
      else if a = opened then some m.line else m.flow.loopPartner? a := by
  unfold closeWhile Flow.loopPartner?
  by_cases hline : a = m.line
  · simp [hline]
  · by_cases hopened : a = opened
    · subst hopened
      simp [List.lookup_cons, beq_eq_false_iff_ne.mpr hline, hline]
    · simp [List.lookup_cons, beq_eq_false_iff_ne.mpr hline, beq_eq_false_iff_ne.mpr hopened,
        hline, hopened]

end Matching

namespace Flow

variable {stream : List (List String)} {n : Nat} {flow : Flow}

/-- A line that closes no if adds no branch. -/
theorem BranchesUpTo.pass (h : flow.BranchesUpTo stream n)
    (hn : ∀ i, Starts stream "if" i → ¬ ifBrackets.Closes stream i n) :
    flow.BranchesUpTo stream (n + 1) := by
  refine ⟨fun i b => ?_, h.elseEnd, h.branchKeys, h.elseKeys⟩
  rw [h.branch]
  constructor
  · rintro ⟨hlt, hb⟩
    exact ⟨Nat.lt_succ_of_lt hlt, hb⟩
  · rintro ⟨hlt, hb⟩
    have hne : b.endLine ≠ n := by
      intro heq
      exact hn i hb.opens (heq ▸ hb.closes)
    exact ⟨by omega, hb⟩

theorem LoopsUpTo.pass (h : flow.LoopsUpTo stream n) (hn : ∀ i, ¬ IsLoop stream i n) :
    flow.LoopsUpTo stream (n + 1) := by
  have hend : ∀ i l, l < n + 1 ∧ IsLoop stream i l ↔ l < n ∧ IsLoop stream i l := by
    intro i l
    constructor
    · rintro ⟨hlt, hloop⟩
      have hne : l ≠ n := by
        rintro rfl
        exact hn i hloop
      exact ⟨by omega, hloop⟩
    · rintro ⟨hlt, hloop⟩
      exact ⟨by omega, hloop⟩
  refine ⟨fun a c => ?_, h.loopKeys⟩
  rw [h.partner, hend, hend]

/-- An else line of a waiting if is not yet recorded. -/
theorem BranchesUpTo.no_else (h : flow.BranchesUpTo stream n) {i j e n' : Nat}
    (hpending : ifBrackets.Pending stream i n) (hown : OwnElse stream i n e) :
    flow.branch? j ≠ some ⟨some e, n'⟩ := by
  intro hbranch
  obtain ⟨hlt, hb⟩ := (h.branch j _).mp hbranch
  obtain ⟨hbehind, -, henough⟩ := Brackets.closes_iff.mp hb.closes
  have hown' : OwnElse stream j n' e := ((hb.only e).mp rfl e).mpr rfl
  have hij : i = j := hown.same hown' (hown.pending hpending.opens hpending.enough)
    (hown'.pending hb.opens henough)
  exact hpending.not_closed hlt (hij ▸ hb.closes)

theorem BranchesUpTo.no_branch (h : flow.BranchesUpTo stream n) {i : Nat}
    (hpending : ifBrackets.Pending stream i n) : flow.branch? i = none := by
  cases hbranch : flow.branch? i with
  | none => rfl
  | some b =>
    obtain ⟨hlt, hb⟩ := (h.branch i b).mp hbranch
    exact absurd hb.closes (hpending.not_closed hlt)

theorem BranchesUpTo.elseEnd_closeIf {m : Matching} {o : OpenIf}
    (h : m.flow.BranchesUpTo stream m.line)
    (hpending : ifBrackets.Pending stream o.line m.line) (ho : o.Gathers stream m.line)
    (ifs : Stack OpenIf) (e n' : Nat) :
    (m.closeIf o ifs).flow.elseEnd? e = some n' ↔
      ∃ i, (m.closeIf o ifs).flow.branch? i = some ⟨some e, n'⟩ := by
  have hnone := h.no_branch hpending
  rw [Matching.elseEnd?_closeIf]
  simp only [Matching.branch?_closeIf]
  by_cases honly : o.only? = some e
  · rw [if_pos honly]
    have hown := (ho.only?_eq_some_iff.mp honly e).mpr rfl
    constructor
    · intro hline
      cases hline
      exact ⟨o.line, by rw [if_pos rfl, honly]⟩
    · rintro ⟨i, hi⟩
      split at hi
      next => exact congrArg (some ·.endLine) (Option.some.inj hi)
      next => exact absurd hi (h.no_else hpending hown)
  · rw [if_neg honly, h.elseEnd]
    constructor
    · rintro ⟨i, hi⟩
      have hne : i ≠ o.line := by
        rintro rfl
        cases hnone.symm.trans hi
      exact ⟨i, by rw [if_neg hne, hi]⟩
    · rintro ⟨i, hi⟩
      split at hi
      next =>
        injection hi with hi
        injection hi with helse
        exact absurd helse honly
      next => exact ⟨i, hi⟩

theorem BranchesUpTo.elseKeys_closeIf {m : Matching} {o : OpenIf}
    (h : m.flow.BranchesUpTo stream m.line)
    (hpending : ifBrackets.Pending stream o.line m.line) (ho : o.Gathers stream m.line)
    (ifs : Stack OpenIf) : ((m.closeIf o ifs).flow.elses.map Prod.fst).Nodup := by
  rw [Matching.flow_closeIf]
  cases honly : o.only? with
  | none => exact h.elseKeys
  | some e =>
    have hown := (ho.only?_eq_some_iff.mp honly e).mpr rfl
    have hfree : m.flow.elseEnd? e = none := by
      cases hend : m.flow.elseEnd? e with
      | none => rfl
      | some n' =>
        obtain ⟨i, hi⟩ := (h.elseEnd e n').mp hend
        exact absurd hi (h.no_else hpending hown)
    exact List.nodup_cons.mpr ⟨notMem_keys hfree, h.elseKeys⟩

theorem BranchesUpTo.closeIf {m : Matching} {o : OpenIf} {ifs : Stack OpenIf}
    (h : m.flow.BranchesUpTo stream m.line)
    (hw : ifBrackets.Waiting stream m.line ((o :: ifs).map (·.line)))
    (ho : o.Gathers stream m.line) (hc : Starts stream "endif" m.line) :
    (m.closeIf o ifs).flow.BranchesUpTo stream (m.line + 1) := by
  have hpending : ifBrackets.Pending stream o.line m.line := (hw.mem o.line).mp (by simp)
  have hclosed : ifBrackets.Closes stream o.line m.line := ((hw.closes_top_iff hc).mpr rfl).2
  refine ⟨fun i b => ?_, h.elseEnd_closeIf hpending ho ifs, ?_,
    h.elseKeys_closeIf hpending ho ifs⟩
  · rw [Matching.branch?_closeIf]
    by_cases hi : i = o.line
    · subst hi
      rw [if_pos rfl]
      constructor
      · intro hb
        cases hb
        exact ⟨Nat.lt_succ_self _, hpending.opens, hclosed, fun e => ho.only?_eq_some_iff⟩
      · rintro ⟨-, hb⟩
        obtain ⟨elseLine?, endLine⟩ := b
        have hend : endLine = m.line := hb.closes.unique hclosed
        subst hend
        congr 2
        ext e
        rw [ho.only?_eq_some_iff, hb.only e]
    · rw [if_neg hi, h.branch]
      constructor
      · rintro ⟨hlt, hb⟩
        exact ⟨Nat.lt_succ_of_lt hlt, hb⟩
      · rintro ⟨hlt, hb⟩
        have hne : b.endLine ≠ m.line := by
          intro heq
          exact hi ((hw.closes_top_iff hc).mp ⟨hb.opens, heq ▸ hb.closes⟩)
        exact ⟨by omega, hb⟩
  · rw [Matching.flow_closeIf]
    exact List.nodup_cons.mpr ⟨notMem_keys (h.no_branch hpending), h.branchKeys⟩

theorem LoopsUpTo.closeWhile {m : Matching} {opened : Nat} {whiles : Stack Nat}
    (h : m.flow.LoopsUpTo stream m.line)
    (hw : loopBrackets.Waiting stream m.line (opened :: whiles))
    (hc : Starts stream "endwhile" m.line) :
    (m.closeWhile opened whiles).flow.LoopsUpTo stream (m.line + 1) := by
  have hpending : loopBrackets.Pending stream opened m.line := (hw.mem opened).mp (by simp)
  have hends : ∀ i, IsLoop stream i m.line ↔ i = opened := by
    intro i
    constructor
    · intro hloop
      exact (hw.closes_top_iff hc).mp ⟨hloop.opens, hloop.closes⟩
    · rintro rfl
      obtain ⟨hopens, hcloses⟩ := (hw.closes_top_iff hc).mpr rfl
      exact ⟨hopens, hcloses⟩
  have hloop := (hends opened).mpr rfl
  have hopener : ¬ Starts stream "while" m.line :=
    fun hs => Brackets.not_closer_of_opener (b := loopBrackets) hs hc
  have hcloser : ∀ i, ¬ IsLoop stream i opened :=
    fun i hl => Brackets.not_closer_of_opener (b := loopBrackets) hpending.opens hl.closes.closer
  have hlt := hpending.before
  refine ⟨fun a c => ?_, ?_⟩
  · rw [Matching.loopPartner?_closeWhile]
    by_cases hline : a = m.line
    · subst hline
      rw [if_pos rfl]
      constructor
      · intro heq
        cases heq
        exact Or.inr ⟨Nat.lt_succ_self _, hloop⟩
      · rintro (⟨-, hl⟩ | ⟨-, hl⟩)
        · exact absurd hl.opens hopener
        · rw [(hends c).mp hl]
    · rw [if_neg hline]
      by_cases hopened : a = opened
      · subst hopened
        rw [if_pos rfl]
        constructor
        · intro heq
          cases heq
          exact Or.inl ⟨Nat.lt_succ_self _, hloop⟩
        · rintro (⟨-, hl⟩ | ⟨-, hl⟩)
          · rw [hl.closes.unique hloop.closes]
          · exact absurd hl (hcloser c)
      · rw [if_neg hopened, h.partner]
        constructor
        · rintro (⟨hlt, hl⟩ | ⟨hlt, hl⟩)
          · exact Or.inl ⟨by omega, hl⟩
          · exact Or.inr ⟨by omega, hl⟩
        · rintro (⟨hlt, hl⟩ | ⟨hlt, hl⟩)
          · have hne : c ≠ m.line := by
              rintro rfl
              exact hopened ((hends a).mp hl)
            exact Or.inl ⟨by omega, hl⟩
          · exact Or.inr ⟨by omega, hl⟩
  · have hfreeLine : m.flow.loopPartner? m.line = none := by
      cases hp : m.flow.loopPartner? m.line with
      | none => rfl
      | some c =>
        rcases (h.partner _ c).mp hp with ⟨-, hl⟩ | ⟨hlt, -⟩
        · exact absurd hl.opens hopener
        · exact absurd hlt (Nat.lt_irrefl _)
    have hfreeOpened : m.flow.loopPartner? opened = none := by
      cases hp : m.flow.loopPartner? opened with
      | none => rfl
      | some c =>
        rcases (h.partner _ c).mp hp with ⟨hlt, hl⟩ | ⟨-, hl⟩
        · exact absurd hl.closes (hpending.not_closed hlt)
        · exact absurd hl (hcloser c)
    have hne : m.line ≠ opened := by omega
    apply List.nodup_cons.mpr
    refine ⟨?_, List.nodup_cons.mpr ⟨notMem_keys hfreeOpened, h.loopKeys⟩⟩
    rw [List.map_cons, List.mem_cons]
    rintro (heq | hmem)
    · exact hne heq
    · exact notMem_keys hfreeLine hmem

end Flow

end Brewin
