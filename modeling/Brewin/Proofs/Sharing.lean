import Mathlib.Logic.ExistsUnique
import Brewin.Proofs.Spots
import Brewin.Proofs.TokenText

namespace Brewin

/-- An alias of the frame stands for the variable of the calling frame that has its cell. -/
def Frame.RefersTo (f : Frame) (caller? : Option Frame) : Prop :=
  ∀ slot, f.Binds slot → ∀ r, slot.alias? = some r →
    r ≠ "" ∧ ∃ g owner, caller? = some g ∧ g.find? r = some owner ∧ owner.cell = slot.cell

/-- The aliases of all frames stand for variables of the frames below. -/
def Linked : List Frame → Prop
  | [] => True
  | f :: fs => f.RefersTo fs.head? ∧ Linked fs

/-- Slots that are no aliases have different cells. -/
def Scopes.Separate (s : Scopes) : Prop :=
  ∀ a b x y, s.slot? a = some x → s.slot? b = some y → x.alias? = none → y.alias? = none →
    x.cell = y.cell → a = b

/-- The cells are shared along the references only. -/
structure Scopes.Tidy (s : Scopes) : Prop where
  bounded : s.Bounded
  linked : Linked s.frames
  separate : s.Separate

section

variable {s s' : Scopes}

theorem Scopes.Separate.of_addsNothing (h : s.Separate) (ha : s.AddsNothing s') :
    s'.Separate :=
  fun a b x y hx hy => h a b x y (ha a x hx) (ha b y hy)

theorem Scopes.Separate.of_addsOnly (h : s.Separate) {spot : Spot} {slot : Slot}
    (ha : s.AddsOnly s' spot slot)
    (hn : slot.alias? = none → ∀ b y, s.slot? b = some y → y.cell ≠ slot.cell) :
    s'.Separate := by
  intro a b x y hx hy hax hay hc
  rcases ha a x hx with ⟨rfl, rfl⟩ | hx
  · rcases ha b y hy with ⟨rfl, -⟩ | hy
    · rfl
    · exact absurd hc.symm (hn hax b y hy)
  · rcases ha b y hy with ⟨rfl, rfl⟩ | hy
    · exact absurd hc (hn hay a x hx)
    · exact h a b x y hx hy hax hay hc

theorem Scopes.Bounded.cell_lt (h : s.Bounded) {a : Spot} {x : Slot} (hx : s.slot? a = some x) :
    x.cell < s.cells.size := by
  obtain ⟨f, hf, hb⟩ := binds_of_slot? hx
  exact h f hf x hb

/-- A slot of the running frame that is new and no alias changes nothing about the references. -/
theorem Linked.of_top {f g : Frame} {fs : List Frame} (h : Linked (f :: fs))
    (hs : ∀ slot, g.Binds slot → slot.alias? = none ∨ f.Binds slot) : Linked (g :: fs) := by
  refine ⟨fun slot hb r hr => ?_, h.2⟩
  rcases hs slot hb with hn | hb
  · cases hn.symm.trans hr
  · exact h.1 slot hb r hr

theorem Scopes.Tidy.bindFresh (h : s.Tidy) {level : Nat} {name : String} {f : Frame} (v : Value)
    (hf : ∀ l n, f.slotAt? l n =
      if l = level ∧ n = name then some (.fresh s.cells) else s.frame.slotAt? l n)
    (hs : ∀ slot, f.Binds slot → slot = .fresh s.cells ∨ s.frame.Binds slot)
    (hb : Scopes.Bounded { s with frame := f, cells := s.cells.push v }) :
    Scopes.Tidy { s with frame := f, cells := s.cells.push v } := by
  refine ⟨hb, h.linked.of_top fun slot hb => ?_, ?_⟩
  · rcases hs slot hb with rfl | hb
    · exact Or.inl rfl
    · exact Or.inr hb
  · refine h.separate.of_addsOnly (addsOnly_of_top rfl hf) fun _ b y hy => ?_
    have hlt := h.bounded.cell_lt hy
    exact Nat.ne_of_lt hlt

theorem Scopes.Tidy.edit (he : Edit s s') (h : s.Tidy) : s'.Tidy := by
  have hb := h.bounded.edit he
  cases he with
  | bind name v =>
    exact h.bindFresh v (s.frame.slotAt?_insert name _) (fun slot hb => hb.of_insert) hb
  | bindResult name v =>
    exact h.bindFresh v (s.frame.slotAt?_base_insert name _) (fun slot hb => hb.of_base_insert) hb
  | store v _ => exact ⟨hb, h.linked, h.separate⟩
  | pushBlock =>
    refine ⟨hb, h.linked.of_top fun slot hb => Or.inr hb.of_pushBlock, ?_⟩
    exact h.separate.of_addsNothing
      (addsNothing_of_top rfl fun _ _ _ hs => Frame.slotAt?_of_pushBlock hs)
  | popBlock hp =>
    obtain ⟨g, hg, rfl⟩ := frame_of_popBlock? hp
    refine ⟨hb, h.linked.of_top fun slot hb => Or.inr (.of_popBlock hg hb), ?_⟩
    exact h.separate.of_addsNothing
      (addsNothing_of_top rfl fun _ _ _ hs => Frame.slotAt?_of_popBlock hg hs)

theorem Scopes.Tidy.pushFrame (h : s.Tidy) (function : String) (resume : Int) :
    (s.pushFrame { function, resume }).Tidy := by
  refine ⟨h.bounded.pushFrame _ _, ⟨fun slot hb => ?_, h.linked⟩, ?_⟩
  · exact absurd hb (Frame.not_binds_new _ _)
  · exact h.separate.of_addsNothing (addsNothing_pushFrame _ _)

theorem Scopes.Tidy.bindAlias (h : s.Tidy) {caller : Frame} {callers : List Frame}
    (hc : s.callers = caller :: callers) {token : String} {owner : Slot}
    (ho : caller.find? token = some owner) (ht : token ≠ "") (name : String) :
    (s.bindAlias name owner token).Tidy := by
  have halias : (owner.aliasOf token).alias? = some token := by
    rw [Slot.aliasOf, if_neg ht]
  refine ⟨h.bounded.bindAlias hc ho name, ⟨fun slot hb r hr => ?_, h.linked.2⟩, ?_⟩
  · rcases hb.of_insert with rfl | hb
    · cases halias.symm.trans hr
      exact ⟨ht, caller, owner, congrArg List.head? hc, ho, rfl⟩
    · exact h.linked.1 slot hb r hr
  · refine h.separate.of_addsOnly (addsOnly_of_top rfl (s.frame.slotAt?_insert name _)) fun hn => ?_
    cases hn.symm.trans halias

theorem Scopes.Tidy.popFrame (h : s.Tidy) {caller : Frame} {callers : List Frame}
    (hc : s.callers = caller :: callers) : Scopes.Tidy ⟨caller, callers, s.cells⟩ := by
  have hl := h.linked.2
  rw [hc] at hl
  exact ⟨h.bounded.popFrame hc, hl, h.separate.of_addsNothing (addsNothing_popFrame hc)⟩

end

theorem Scopes.tidy_start (function : String) (resume : Int) : (start function resume).Tidy := by
  have hb : ∀ slot, ¬ (start function resume).frame.Binds slot :=
    fun slot => Frame.not_binds_new function resume
  have hs : ∀ a x, (start function resume).slot? a ≠ some x := by
    intro a x hx
    obtain ⟨f, hf, hbx⟩ := binds_of_slot? hx
    cases List.mem_singleton.mp hf
    exact hb x hbx
  refine ⟨fun f hf slot hbs => ?_, ⟨fun slot hbs => absurd hbs (hb slot), trivial⟩, ?_⟩
  · cases List.mem_singleton.mp hf
    exact absurd hbs (hb slot)
  · intro a _ x _ hx
    exact absurd hx (hs a x)

/-- In every reachable state cells are shared along the references only. -/
theorem Reachable.tidy {source : List String} {o : Options} {console : Console} {st : State}
    (h : Reachable (Program.load source) o console st) : st.scopes.Tidy := by
  refine h.scopes_induction (P := Scopes.Tidy) Scopes.tidy_start Scopes.Tidy.edit ?_ ?_
  · intro s name args f values resume line hat hs
    have hargs := ne_empty_of_call hat
    refine Scopes.enter_induction s f args values resume (hs.pushFrame _ _) ?_ ?_
    · intro t name v ht
      exact ht.edit (.bind name v)
    · intro t param token owner hc hmem _ ho ht
      exact ht.bindAlias hc ho (hargs token (List.of_mem_zip hmem).2) param.name
  · intro s caller callers hc hs
    exact hs.popFrame hc

end Brewin
