import Brewin.Proofs.Sharing

namespace Brewin

/-- The reference at one spot stands for the variable at the other. -/
def Scopes.Link (s : Scopes) (a b : Spot) : Prop :=
  ∃ slot g, s.slot? a = some slot ∧ slot.alias? = some b.name ∧ a.height = b.height + 1 ∧
    s.frameAt? b.height = some g ∧ g.level? b.name = some b.level

theorem linked_below {fs : List Frame} (h : Linked fs) {k : Nat} {f : Frame}
    (hf : fs.reverse[k]? = some f) {slot : Slot} (hb : f.Binds slot) {r : String}
    (hr : slot.alias? = some r) :
    r ≠ "" ∧ ∃ j g owner, k = j + 1 ∧ fs.reverse[j]? = some g ∧ g.find? r = some owner ∧
      owner.cell = slot.cell := by
  induction fs with
  | nil => simp at hf
  | cons top fs ih =>
    rw [List.reverse_cons] at hf ⊢
    by_cases hk : k < fs.reverse.length
    · rw [List.getElem?_append_left hk] at hf
      obtain ⟨hne, j, g, owner, hj, hg, ho⟩ := ih h.2 hf
      exact ⟨hne, j, g, owner, hj, by rwa [List.getElem?_append_left (by omega)], ho⟩
    · rw [List.getElem?_append_right (Nat.not_lt.mp hk)] at hf
      obtain ⟨hlt, -⟩ := List.getElem?_eq_some_iff.mp hf
      simp only [List.length_reverse, List.length_singleton] at hlt hk
      cases List.mem_singleton.mp (List.mem_of_getElem? hf)
      obtain ⟨hne, g, owner, hhead, ho⟩ := h.1 slot hb r hr
      obtain ⟨rest, rfl⟩ := List.head?_eq_some_iff.mp hhead
      simp only [List.length_cons] at hlt hk
      refine ⟨hne, rest.length, g, owner, by omega, ?_, ho⟩
      simp

section

variable {s : Scopes}

theorem Scopes.Tidy.resolves (h : s.Tidy) {a : Spot} {slot : Slot} {r : String}
    (hs : s.slot? a = some slot) (hr : slot.alias? = some r) :
    r ≠ "" ∧ ∃ height g owner, a.height = height + 1 ∧ s.frameAt? height = some g ∧
      g.find? r = some owner ∧ owner.cell = slot.cell := by
  obtain ⟨f, hf, hslot⟩ := Option.bind_eq_some_iff.mp hs
  obtain ⟨hne, height, g, owner, hh, hg, ho, hc⟩ :=
    linked_below h.linked hf (Frame.binds_of_slotAt? hslot) hr
  exact ⟨hne, height, g, owner, hh, hg, ho, hc⟩

/-- A reference leads to a slot with its cell. -/
theorem Scopes.Tidy.exists_link (h : s.Tidy) {a : Spot} {slot : Slot} {r : String}
    (hs : s.slot? a = some slot) (hr : slot.alias? = some r) :
    ∃ b owner, s.Link a b ∧ a.height = b.height + 1 ∧ s.slot? b = some owner ∧
      owner.cell = slot.cell := by
  obtain ⟨-, height, g, owner, hh, hg, ho, hc⟩ := h.resolves hs hr
  obtain ⟨level, hl⟩ := Frame.exists_level? ho
  refine ⟨⟨height, level, r⟩, owner, ⟨slot, g, hs, hr, hh, hg, hl⟩, hh, ?_, hc⟩
  rw [slot?, hg, ← ho, ← (Frame.slotAt?_level? hl).2]
  rfl

theorem Scopes.Tidy.cell_of_link (h : s.Tidy) {a b : Spot} (hl : s.Link a b) :
    (s.slot? a).map (·.cell) = (s.slot? b).map (·.cell) := by
  obtain ⟨slot, g, hs, hr, hh, hg, hlevel⟩ := hl
  obtain ⟨-, height, g', owner, hh', hg', ho, hc⟩ := h.resolves hs hr
  have hheight : height = b.height := by omega
  rw [hheight, hg] at hg'
  cases hg'
  have hb : s.slot? b = some owner := by
    rw [slot?, hg, ← ho, ← (Frame.slotAt?_level? hlevel).2]
    rfl
  rw [hs, hb]
  exact congrArg some hc.symm

theorem Scopes.Tidy.cell_of_chain (h : s.Tidy) {a b : Spot} (hl : Relation.EqvGen s.Link a b) :
    (s.slot? a).map (·.cell) = (s.slot? b).map (·.cell) := by
  induction hl with
  | rel a b hab => exact h.cell_of_link hab
  | refl a => rfl
  | symm a b _ ih => exact ih.symm
  | trans a b c _ _ ihab ihbc => exact ihab.trans ihbc

/-- From every slot a chain of references leads down to the owner of its cell. -/
theorem Scopes.Tidy.exists_owner (h : s.Tidy) {a : Spot} {slot : Slot}
    (hs : s.slot? a = some slot) :
    ∃ b owner, Relation.EqvGen s.Link a b ∧ s.slot? b = some owner ∧ owner.alias? = none ∧
      owner.cell = slot.cell := by
  -- Each reference leads to the frame below, so the height bounds the chain.
  induction hn : a.height generalizing a slot with
  | zero =>
    refine ⟨a, slot, .refl a, hs, ?_, rfl⟩
    cases hr : slot.alias? with
    | none => rfl
    | some r =>
      obtain ⟨-, height, -, -, hh, -⟩ := h.resolves hs hr
      omega
  | succ n ih =>
    cases hr : slot.alias? with
    | none => exact ⟨a, slot, .refl a, hs, hr, rfl⟩
    | some r =>
      obtain ⟨b, next, hl, hh, hb, hc⟩ := h.exists_link hs hr
      obtain ⟨c, owner, hchain, hown, hnone, hcell⟩ := ih hb (by omega)
      exact ⟨c, owner, .trans _ _ _ (.rel _ _ hl) hchain, hown, hnone, hcell.trans hc⟩

theorem Scopes.Tidy.existsUnique_owner (h : s.Tidy) {a : Spot} {slot : Slot}
    (hs : s.slot? a = some slot) :
    ∃! b, ∃ owner, s.slot? b = some owner ∧ owner.alias? = none ∧ owner.cell = slot.cell := by
  obtain ⟨b, owner, -, hb, hn, hc⟩ := h.exists_owner hs
  refine ⟨b, ⟨owner, hb, hn, hc⟩, ?_⟩
  rintro b' ⟨owner', hb', hn', hc'⟩
  exact h.separate b' b owner' owner hb' hb hn' hn (hc'.trans hc.symm)

/-- Two slots share a cell exactly if a chain of references connects them. -/
theorem Scopes.Tidy.cell_eq_iff (h : s.Tidy) {a b : Spot} {x y : Slot} (hx : s.slot? a = some x)
    (hy : s.slot? b = some y) : x.cell = y.cell ↔ Relation.EqvGen s.Link a b := by
  constructor
  · intro hc
    obtain ⟨a', x', ha, hx', hnx, hcx⟩ := h.exists_owner hx
    obtain ⟨b', y', hb, hy', hny, hcy⟩ := h.exists_owner hy
    have hab : a' = b' := h.separate a' b' x' y' hx' hy' hnx hny (by omega)
    subst hab
    exact .trans _ _ _ ha (.symm _ _ hb)
  · intro hl
    have := h.cell_of_chain hl
    rw [hx, hy] at this
    exact Option.some.inj this

end

/-- What a successful assignment does: it stores the value in the variable's innermost binding. -/
theorem assign_stores {p : Program} {o : Options} {st : State} {target : String}
    {expr : List String} (hat : p.at? st.ip = some (.assign target expr))
    (hrun : (st.step p o).signal = .running) :
    ∃ v slot, st.scopes.evaluate expr = .ok v ∧ st.scopes.frame.find? target = some slot ∧
      (st.step p o).state.scopes = st.scopes.store slot v := by
  rcases step_moves p o st with ⟨-, -, hs⟩ | ⟨here, statement, hip, hat', hm⟩
  · exact absurd hrun hs
  · rw [hip] at hat
    cases hat.symm.trans hat'
    generalize (st.step p o).state.scopes = s', (st.step p o).state.ip = ip' at hm ⊢
    cases hm with
    | @assign _ _ slot v ha =>
      obtain ⟨he, hf⟩ := Scopes.lookup?_of_assignment ha
      exact ⟨v, slot, he, hf, rfl⟩
    | leave _ hg => cases hg

/-- Cells are shared exactly along the chains of references, so an assignment reaches the slots
that are connected with its variable and no others. -/
theorem shares_iff_connected {source : List String} {o : Options} {console : Console} {st : State}
    (h : Reachable (Program.load source) o console st) :
    (∀ level name slot, st.scopes.slot? ⟨0, level, name⟩ = some slot → slot.alias? = none) ∧
    (∀ a slot r, st.scopes.slot? a = some slot → slot.alias? = some r →
      r ≠ "" ∧ ∃ height g owner, a.height = height + 1 ∧ st.scopes.frameAt? height = some g ∧
        g.find? r = some owner ∧ owner.cell = slot.cell) ∧
    (∀ a slot, st.scopes.slot? a = some slot →
      ∃! b, ∃ owner, st.scopes.slot? b = some owner ∧ owner.alias? = none ∧
        owner.cell = slot.cell) ∧
    (∀ a b x y, st.scopes.slot? a = some x → st.scopes.slot? b = some y →
      (x.cell = y.cell ↔ Relation.EqvGen st.scopes.Link a b)) ∧
    ∀ target expr, (Program.load source).at? st.ip = some (.assign target expr) →
      (st.step (Program.load source) o).signal = .running →
      ∃ v level, st.scopes.evaluate expr = .ok v ∧
        st.scopes.frame.level? target = some level ∧
        ∀ a, (st.step (Program.load source) o).state.scopes.slot? a = st.scopes.slot? a ∧
          ∀ slot, st.scopes.slot? a = some slot →
            (Relation.EqvGen st.scopes.Link a ⟨st.scopes.callers.length, level, target⟩ →
              (st.step (Program.load source) o).state.scopes.value slot = v) ∧
            (¬ Relation.EqvGen st.scopes.Link a ⟨st.scopes.callers.length, level, target⟩ →
              (st.step (Program.load source) o).state.scopes.value slot =
                st.scopes.value slot) := by
  have ht := h.tidy
  refine ⟨?_, fun _ _ _ hs hr => ht.resolves hs hr, fun _ _ hs => ht.existsUnique_owner hs,
    fun _ _ _ _ hx hy => ht.cell_eq_iff hx hy, ?_⟩
  · intro level name slot hs
    cases hr : slot.alias? with
    | none => rfl
    | some r =>
      obtain ⟨-, height, -, -, hh, -⟩ := ht.resolves hs hr
      simp at hh
  · intro target expr hat hrun
    obtain ⟨v, own, he, hf, hstore⟩ := assign_stores hat hrun
    obtain ⟨level, hl⟩ := Frame.exists_level? hf
    have hown : st.scopes.slot? ⟨st.scopes.callers.length, level, target⟩ = some own := by
      rw [Scopes.slot?_top rfl, ← hf]
      exact (Frame.slotAt?_level? hl).2
    have hlt := ht.bounded.cell_lt hown
    refine ⟨v, level, he, hl, fun a => ⟨by rw [hstore]; rfl, fun slot hs => ?_⟩⟩
    rw [hstore, Scopes.value_store _ _ _ _ hlt, ← ht.cell_eq_iff hs hown]
    exact ⟨fun hc => if_pos hc, fun hc => if_neg hc⟩

/-- The state of the sample in which `grow` is about to change the variable of its caller. -/
def twoRoundsGrow : State :=
  { ip := 14, steps := 8, workspace :=
      { scopes := ⟨⟨"grow", 9, ⟨[("n", ⟨0, some "x"⟩)]⟩, []⟩,
          [⟨"main", -1, ⟨[("x", ⟨0, none⟩)]⟩, [⟨[]⟩]⟩], #[.int 0]⟩
        console := { written := "start\n" } } }

theorem shares_iff_connected_twoRounds :
    Reachable (Program.load twoRounds) {} (.ofInput "") twoRoundsGrow ∧
      Relation.EqvGen twoRoundsGrow.scopes.Link ⟨0, 0, "x"⟩ ⟨1, 0, "n"⟩ ∧
      ∃ v, twoRoundsGrow.scopes.evaluate ["+", "n", "1"] = .ok v ∧
        (twoRoundsGrow.step (Program.load twoRounds) {}).state.scopes.value ⟨0, none⟩ = v := by
  have hst : Reachable (Program.load twoRounds) {} (.ofInput "") twoRoundsGrow := by
    rw [load_twoRounds]
    have hmain : (Program.ofStream twoRoundsTokens).functions.entryLine? mainFunction = some 0 := by
      decide +kernel
    have h := (reachable_main {} (.ofInput "") hmain).advance 8
    rwa [show (State.advance _ _ 8 _).state = twoRoundsGrow by decide +kernel] at h
  obtain ⟨-, -, -, hshare, hassign⟩ := shares_iff_connected hst
  have hx : twoRoundsGrow.scopes.slot? ⟨0, 0, "x"⟩ = some ⟨0, none⟩ := by decide
  have hn : twoRoundsGrow.scopes.slot? ⟨1, 0, "n"⟩ = some ⟨0, some "x"⟩ := by decide
  have hchain := (hshare _ _ _ _ hx hn).mp rfl
  obtain ⟨v, level, he, hl, hvalues⟩ := hassign "n" ["+", "n", "1"]
    (by rw [load_twoRounds]; decide +kernel) (by rw [load_twoRounds]; decide +kernel)
  cases (show some 0 = some level from hl)
  exact ⟨hst, hchain, v, he, ((hvalues ⟨0, 0, "x"⟩).2 _ hx).1 hchain⟩

end Brewin
