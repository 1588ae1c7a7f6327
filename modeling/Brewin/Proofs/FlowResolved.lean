import Brewin.Proofs.FlowBounds
import Brewin.Proofs.FlowPairs

namespace Brewin

namespace Matching.Tracks

variable {stream : List (List String)} {m : Matching}

theorem pass_branches (h : m.Tracks stream)
    (hn : ¬ Starts stream "endif" m.line ∨ m.ifs = []) :
    m.flow.BranchesUpTo stream (m.line + 1) := by
  apply h.branches.pass
  intro i hopens hcloses
  obtain ⟨hcloser, htop⟩ := h.ifs.closes_iff.mp ⟨hopens, hcloses⟩
  rcases hn with hn | hn
  · exact hn hcloser
  · rw [hn] at htop
    cases htop

theorem pass_loops (h : m.Tracks stream)
    (hn : ¬ Starts stream "endwhile" m.line ∨ m.whiles = []) :
    m.flow.LoopsUpTo stream (m.line + 1) := by
  apply h.loops.pass
  intro i hloop
  obtain ⟨hcloser, htop⟩ := h.whiles.closes_iff.mp ⟨hloop.opens, hloop.closes⟩
  rcases hn with hn | hn
  · exact hn hcloser
  · rw [hn] at htop
    cases htop

theorem pass_elses (h : m.Tracks stream) (hn : ¬ Starts stream "else" m.line) :
    ∀ o ∈ m.ifs, o.Gathers stream (m.line + 1) := by
  intro o ho
  exact (h.elses o ho).pass fun hown => hn hown.starts

/-- An else line joins the if on top, and no other if that waits. -/
theorem join_else (h : m.Tracks stream) (hn : Starts stream "else" m.line) {o : OpenIf}
    {ifs : Stack OpenIf} (hi : m.ifs = o :: ifs) :
    ∀ u ∈ { o with elses := o.elses ++ [m.line] } :: ifs, u.Gathers stream (m.line + 1) := by
  have hwaiting := h.ifs
  have helses := h.elses
  rw [hi] at hwaiting helses
  intro u hu
  rcases List.mem_cons.mp hu with rfl | hu
  · have htop : ((o :: ifs).map (·.line))[0]? = some o.line := rfl
    have hown := (hwaiting.ownElse_iff htop hn).mpr rfl
    exact (helses o (by simp)).add hown
  · obtain ⟨depth, hdepth⟩ := List.mem_iff_getElem?.mp hu
    have hline : ((o :: ifs).map (·.line))[depth + 1]? = some u.line := by
      rw [List.getElem?_map, List.getElem?_cons_succ, hdepth]
      rfl
    have hother : ¬ OwnElse stream u.line (m.line + 1) m.line := by
      rw [hwaiting.ownElse_iff hline hn]
      exact Nat.succ_ne_zero depth
    exact (helses u (List.mem_cons_of_mem o hu)).pass hother

/-- Taking in a line keeps what the matching knows. -/
theorem advance (h : m.Tracks stream) {tokens : List String}
    (hline : stream[m.line]? = some tokens) : (m.advance tokens).Tracks stream := by
  have hstarts : ∀ k : Keyword,
      Starts stream k.spelling m.line ↔ leadingClass tokens = .keyword k := by
    intro k
    rw [leadingClass_eq_keyword_iff, Starts, hline]
    rfl
  unfold Matching.advance visit
  split
  next hclass =>
    have hk : Starts stream "if" m.line := (hstarts .ifThen).mpr hclass
    refine ⟨h.ifs.opener hk, ?_, h.whiles.other (hk.excludes (by decide)) (hk.excludes (by decide)),
      h.pass_branches (.inl (hk.excludes (by decide))),
      h.pass_loops (.inl (hk.excludes (by decide)))⟩
    intro o ho
    rcases List.mem_cons.mp ho with rfl | ho
    · exact .opened m.line
    · exact h.pass_elses (hk.excludes (by decide)) o ho
  next hclass =>
    have hk : Starts stream "else" m.line := (hstarts .orElse).mpr hclass
    have hifs := h.ifs.other (hk.excludes (by decide)) (hk.excludes (by decide))
    have hwhiles := h.whiles.other (hk.excludes (by decide)) (hk.excludes (by decide))
    have hbranches := h.pass_branches (.inl (hk.excludes (by decide)))
    have hloops := h.pass_loops (.inl (hk.excludes (by decide)))
    split
    next hi => exact ⟨hifs, by simp [hi], hwhiles, hbranches, hloops⟩
    next o ifs hi =>
      rw [hi] at hifs
      exact ⟨hifs, h.join_else hk hi, hwhiles, hbranches, hloops⟩
  next hclass =>
    have hk : Starts stream "endif" m.line := (hstarts .endIf).mpr hclass
    have hifs := h.ifs.closer hk
    have helses := h.pass_elses (hk.excludes (by decide))
    have hwhiles := h.whiles.other (hk.excludes (by decide)) (hk.excludes (by decide))
    have hloops := h.pass_loops (.inl (hk.excludes (by decide)))
    split
    next hi =>
      have hbranches := h.pass_branches (.inr hi)
      rw [hi] at hifs
      exact ⟨by rw [hi]; exact hifs, helses, hwhiles, hbranches, hloops⟩
    next o ifs hi =>
      have hwaiting := h.ifs
      rw [hi] at hwaiting hifs
      have hbranches := h.branches.closeIf hwaiting (h.elses o (by simp [hi])) hk
      obtain ⟨hrest, hwhile, -⟩ := m.closeIf_rest o ifs
      refine ⟨by rw [hrest]; exact hifs, ?_, by rw [hwhile]; exact hwhiles, hbranches, ?_⟩
      · intro u hu
        rw [hrest] at hu
        exact helses u (by simp [hi, hu])
      · show (m.closeIf o ifs).flow.LoopsUpTo stream (m.line + 1)
        rw [flow_closeIf]
        exact ⟨hloops.partner, hloops.loopKeys⟩
  next hclass =>
    have hk : Starts stream "while" m.line := (hstarts .whileDo).mpr hclass
    exact ⟨h.ifs.other (hk.excludes (by decide)) (hk.excludes (by decide)),
      h.pass_elses (hk.excludes (by decide)), h.whiles.opener hk,
      h.pass_branches (.inl (hk.excludes (by decide))),
      h.pass_loops (.inl (hk.excludes (by decide)))⟩
  next hclass =>
    have hk : Starts stream "endwhile" m.line := (hstarts .endWhile).mpr hclass
    have hifs := h.ifs.other (hk.excludes (by decide)) (hk.excludes (by decide))
    have helses := h.pass_elses (hk.excludes (by decide))
    have hwhiles := h.whiles.closer hk
    have hbranches := h.pass_branches (.inl (hk.excludes (by decide)))
    split
    next hw =>
      have hloops := h.pass_loops (.inr hw)
      rw [hw] at hwhiles
      exact ⟨hifs, helses, by rw [hw]; exact hwhiles, hbranches, hloops⟩
    next opened whiles hw =>
      have hwaiting := h.whiles
      rw [hw] at hwaiting hwhiles
      have hloops := h.loops.closeWhile hwaiting hk
      exact ⟨hifs, helses, hwhiles,
        ⟨hbranches.branch, hbranches.elseEnd, hbranches.branchKeys, hbranches.elseKeys⟩, hloops⟩
  next hif helse hendIf hwhile hendWhile =>
    have hother : ∀ k : Keyword, leadingClass tokens ≠ .keyword k →
        ¬ Starts stream k.spelling m.line :=
      fun k hne hs => hne ((hstarts k).mp hs)
    have hends := hother .endIf hendIf
    have hloops := hother .endWhile hendWhile
    exact ⟨h.ifs.other (hother .ifThen hif) hends, h.pass_elses (hother .orElse helse),
      h.whiles.other (hother .whileDo hwhile) hloops, h.pass_branches (.inl hends),
      h.pass_loops (.inl hloops)⟩

theorem start (stream : List (List String)) : Matching.Tracks stream {} := by
  refine ⟨.start, by simp, .start, ⟨?_, ?_, List.nodup_nil, List.nodup_nil⟩,
    ⟨?_, List.nodup_nil⟩⟩
  · intro i b
    constructor
    · intro hb
      cases hb
    · rintro ⟨hlt, -⟩
      exact absurd hlt (Nat.not_lt_zero _)
  · intro e n
    constructor
    · intro he
      cases he
    · rintro ⟨i, hi⟩
      cases hi
  · intro a c
    constructor
    · intro hp
      cases hp
    · rintro (⟨hlt, -⟩ | ⟨hlt, -⟩)
      · exact absurd hlt (Nat.not_lt_zero _)
      · exact absurd hlt (Nat.not_lt_zero _)

theorem foldl (h : m.Tracks stream) {rest : List (List String)}
    (hrest : stream.drop m.line = rest) : (rest.foldl Matching.advance m).Tracks stream := by
  induction rest generalizing m with
  | nil => exact h
  | cons tokens rest ih =>
    have hline : stream[m.line]? = some tokens := by
      rw [← Nat.add_zero m.line, ← List.getElem?_drop, hrest]
      rfl
    have hnext : stream.drop (m.line + 1) = rest := by
      rw [← List.drop_drop, hrest]
      rfl
    exact ih (h.advance hline) hnext

end Matching.Tracks

namespace Flow

variable {stream : List (List String)}

theorem tracks_resolve (stream : List (List String)) :
    (Flow.resolve stream).BranchesUpTo stream stream.length ∧
      (Flow.resolve stream).LoopsUpTo stream stream.length := by
  have htracks : (stream.foldl Matching.advance {}).Tracks stream :=
    (Matching.Tracks.start stream).foldl rfl
  have hlength : (stream.foldl Matching.advance {}).line = stream.length := by
    simpa using Matching.line_foldl {} stream
  rw [← hlength]
  exact ⟨htracks.branches, htracks.loops⟩

theorem branch?_resolve_iff {i : Nat} {b : Branch} :
    (Flow.resolve stream).branch? i = some b ↔ IsBranch stream i b := by
  rw [(tracks_resolve stream).1.branch]
  exact ⟨fun h => h.2, fun h => ⟨h.closes.closer.lt_length, h⟩⟩

theorem elseEnd?_resolve_iff {e n : Nat} :
    (Flow.resolve stream).elseEnd? e = some n ↔
      ∃ i, (Flow.resolve stream).branch? i = some ⟨some e, n⟩ :=
  (tracks_resolve stream).1.elseEnd e n

theorem loopPartner?_resolve_iff {a c : Nat} :
    (Flow.resolve stream).loopPartner? a = some c ↔ IsLoop stream a c ∨ IsLoop stream c a := by
  rw [(tracks_resolve stream).2.partner]
  constructor
  · rintro (⟨-, hloop⟩ | ⟨-, hloop⟩)
    · exact Or.inl hloop
    · exact Or.inr hloop
  · rintro (hloop | hloop)
    · exact Or.inl ⟨hloop.closes.closer.lt_length, hloop⟩
    · exact Or.inr ⟨hloop.closes.closer.lt_length, hloop⟩

/-- The line has a recorded partner. -/
def Recorded (flow : Flow) (line : Nat) : Prop :=
  (flow.branch? line).isSome ∨ (flow.elseEnd? line).isSome ∨ (flow.loopPartner? line).isSome

instance (flow : Flow) : DecidablePred flow.Recorded :=
  fun _ => inferInstanceAs (Decidable (_ ∨ _ ∨ _))

theorem own_else_of_branch {i e n : Nat}
    (h : (Flow.resolve stream).branch? i = some ⟨some e, n⟩) : OwnElse stream i n e :=
  (((branch?_resolve_iff.mp h).only e).mp rfl e).mpr rfl

end Flow

theorem isSome_lookup_iff {α : Type} {entries : List (Nat × α)} {key : Nat} :
    (entries.lookup key).isSome ↔ key ∈ (entries.map Prod.fst).toFinset := by
  rw [List.mem_toFinset]
  constructor
  · intro h
    by_contra hnone
    have hlookup : entries.lookup key = none := by
      apply List.lookup_eq_none_iff.mpr
      intro entry hentry
      have hne : key ≠ entry.1 := by
        rintro rfl
        exact hnone (List.mem_map_of_mem hentry)
      simpa using hne
    rw [hlookup] at h
    cases h
  · intro h
    rw [Option.isSome_iff_ne_none]
    intro hnone
    exact notMem_keys hnone h

namespace Flow

variable {stream : List (List String)}

/-- The keys of the three tables start with different words, so that no line is counted twice. -/
theorem size_resolve (stream : List (List String)) :
    (Flow.resolve stream).size =
      ((Finset.range stream.length).filter (Flow.resolve stream).Recorded).card := by
  obtain ⟨hbranches, hloops⟩ := tracks_resolve stream
  generalize hflow : Flow.resolve stream = flow at hbranches hloops
  have hif : ∀ l, l ∈ (flow.branches.map Prod.fst).toFinset → Starts stream "if" l := by
    intro l hl
    obtain ⟨b, hb⟩ := Option.isSome_iff_exists.mp (isSome_lookup_iff.mpr hl)
    exact ((hbranches.branch l b).mp hb).2.opens
  have helse : ∀ l, l ∈ (flow.elses.map Prod.fst).toFinset → Starts stream "else" l := by
    intro l hl
    obtain ⟨n, hn⟩ := Option.isSome_iff_exists.mp (isSome_lookup_iff.mpr hl)
    obtain ⟨i, hi⟩ := (hbranches.elseEnd l n).mp hn
    exact ((((hbranches.branch i _).mp hi).2.only l).mp rfl l |>.mpr rfl).starts
  have hloop : ∀ l, l ∈ (flow.loops.map Prod.fst).toFinset →
      Starts stream "while" l ∨ Starts stream "endwhile" l := by
    intro l hl
    obtain ⟨c, hc⟩ := Option.isSome_iff_exists.mp (isSome_lookup_iff.mpr hl)
    rcases (hloops.partner l c).mp hc with ⟨-, h⟩ | ⟨-, h⟩
    · exact Or.inl h.opens
    · exact Or.inr h.closes.closer
  have hset : (Finset.range stream.length).filter flow.Recorded =
      (flow.branches.map Prod.fst).toFinset ∪
        ((flow.elses.map Prod.fst).toFinset ∪ (flow.loops.map Prod.fst).toFinset) := by
    ext l
    rw [Finset.mem_filter, Finset.mem_range, Finset.mem_union, Finset.mem_union]
    constructor
    · rintro ⟨-, hrecorded⟩
      exact hrecorded.imp isSome_lookup_iff.mp (Or.imp isSome_lookup_iff.mp isSome_lookup_iff.mp)
    · intro hl
      refine ⟨?_, hl.imp isSome_lookup_iff.mpr
        (Or.imp isSome_lookup_iff.mpr isSome_lookup_iff.mpr)⟩
      rcases hl with hl | hl | hl
      · exact (hif l hl).lt_length
      · exact (helse l hl).lt_length
      · exact (hloop l hl).elim Starts.lt_length Starts.lt_length
  have hlater : Disjoint (flow.elses.map Prod.fst).toFinset (flow.loops.map Prod.fst).toFinset := by
    apply Finset.disjoint_left.mpr
    intro l he hl
    rcases hloop l hl with hw | hw
    · exact (helse l he).excludes (by decide) hw
    · exact (helse l he).excludes (by decide) hw
  have hfirst : Disjoint (flow.branches.map Prod.fst).toFinset
      ((flow.elses.map Prod.fst).toFinset ∪ (flow.loops.map Prod.fst).toFinset) := by
    apply Finset.disjoint_left.mpr
    intro l hb hl
    rcases Finset.mem_union.mp hl with he | hl
    · exact (hif l hb).excludes (by decide) (helse l he)
    · rcases hloop l hl with hw | hw
      · exact (hif l hb).excludes (by decide) hw
      · exact (hif l hb).excludes (by decide) hw
  rw [hset, Finset.card_union_of_disjoint hfirst, Finset.card_union_of_disjoint hlater,
    List.toFinset_card_of_nodup hbranches.branchKeys,
    List.toFinset_card_of_nodup hbranches.elseKeys, List.toFinset_card_of_nodup hloops.loopKeys]
  simp only [List.length_map, Flow.size]
  omega

end Flow

/-- The flow of a stream is what counting the words of its lines says, whether or not its blocks
are balanced. -/
theorem resolve_iff_matching (stream : List (List String)) :
    (∀ i b, (Flow.resolve stream).branch? i = some b ↔ IsBranch stream i b) ∧
    (∀ e n, (Flow.resolve stream).elseEnd? e = some n ↔
      ∃ i, (Flow.resolve stream).branch? i = some ⟨some e, n⟩) ∧
    (∀ a c, (Flow.resolve stream).loopPartner? a = some c ↔
      IsLoop stream a c ∨ IsLoop stream c a) ∧
    (∀ i n, IsLoop stream i n → Starts stream "endwhile" n) ∧
    (∀ a c, (Flow.resolve stream).loopPartner? a = some c →
      (Flow.resolve stream).loopPartner? c = some a ∧ a ≠ c) ∧
    (∀ i j b c, (Flow.resolve stream).branch? i = some b →
      (Flow.resolve stream).branch? j = some c → i < j →
      c.endLine < b.endLine ∨ b.endLine < j) ∧
    (∀ i j n m, (Flow.resolve stream).loopPartner? i = some n → i < n →
      (Flow.resolve stream).loopPartner? j = some m → j < m → i < j → m < n ∨ n < j) ∧
    (∀ i b, (Flow.resolve stream).branch? i = some b → i < stream.length ∧
      b.endLine < stream.length ∧ ∀ e, b.elseLine? = some e → e < stream.length) ∧
    (∀ e n, (Flow.resolve stream).elseEnd? e = some n → e < stream.length ∧ n < stream.length) ∧
    (∀ a c, (Flow.resolve stream).loopPartner? a = some c →
      a < stream.length ∧ c < stream.length) ∧
    (Flow.resolve stream).size =
      ((Finset.range stream.length).filter (Flow.resolve stream).Recorded).card := by
  have hspan : ∀ {i n}, (Flow.resolve stream).loopPartner? i = some n → i < n →
      IsLoop stream i n := by
    intro i n hp hlt
    rcases Flow.loopPartner?_resolve_iff.mp hp with h | h
    · exact h
    · have := h.closes.behind
      omega
  refine ⟨fun i b => Flow.branch?_resolve_iff, fun e n => Flow.elseEnd?_resolve_iff,
    fun a c => Flow.loopPartner?_resolve_iff, fun i n h => h.closes.closer, ?_, ?_, ?_, ?_, ?_,
    ?_, Flow.size_resolve stream⟩
  · intro a c h
    have hboth := Flow.loopPartner?_resolve_iff.mp h
    refine ⟨Flow.loopPartner?_resolve_iff.mpr hboth.symm, ?_⟩
    rintro rfl
    rcases hboth with h | h
    · exact absurd h.closes.behind (Nat.lt_irrefl _)
    · exact absurd h.closes.behind (Nat.lt_irrefl _)
  · intro i j b c hb hc hij
    have hopen := Flow.branch?_resolve_iff.mp hb
    have hinner := Flow.branch?_resolve_iff.mp hc
    exact hopen.closes.nested hinner.closes hinner.opens hij
  · intro i j n m hi hin hj hjm hij
    have hinner := hspan hj hjm
    exact (hspan hi hin).closes.nested hinner.closes hinner.opens hij
  · intro i b h
    have hb := Flow.branch?_resolve_iff.mp h
    refine ⟨hb.opens.lt_length, hb.closes.closer.lt_length, fun e he => ?_⟩
    exact (((hb.only e).mp he e).mpr rfl).starts.lt_length
  · intro e n h
    obtain ⟨i, hi⟩ := Flow.elseEnd?_resolve_iff.mp h
    have hb := Flow.branch?_resolve_iff.mp hi
    exact ⟨(Flow.own_else_of_branch hi).starts.lt_length, hb.closes.closer.lt_length⟩
  · intro a c h
    rcases Flow.loopPartner?_resolve_iff.mp h with hl | hl
    · exact ⟨hl.opens.lt_length, hl.closes.closer.lt_length⟩
    · exact ⟨hl.closes.closer.lt_length, hl.opens.lt_length⟩

/-- A closer in front, two elses in one block, and two openers without an end. -/
example :
    let flow := Flow.resolve [["endif"], ["if", "True"], ["else"], ["else"], ["endif"],
      ["while", "True"], ["if", "True"]]
    flow.branch? 1 = some ⟨none, 4⟩ ∧ flow.branch? 6 = none ∧ flow.elseEnd? 2 = none ∧
      flow.loopPartner? 5 = none ∧ flow.size = 1 := by
  decide +kernel

end Brewin
