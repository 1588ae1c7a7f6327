import Brewin.Proofs.Bindings

namespace Brewin

/-- Where a binding stands: the height of its frame, the level of its block, and its name. -/
structure Spot where
  height : Nat
  level : Nat
  name : String
  deriving DecidableEq, Repr

namespace Frame

variable {f : Frame}

def slotAt? (f : Frame) (level : Nat) (name : String) : Option Slot :=
  (f.block? level).bind (·.find? name)

theorem block?_eq (f : Frame) (level : Nat) :
    f.block? level = (f.base :: f.inner.reverse)[level]? := by
  change f.blocks.reverse[level]? = _
  simp [blocks]

theorem binds_of_slotAt? {level : Nat} {name : String} {slot : Slot}
    (h : f.slotAt? level name = some slot) : f.Binds slot := by
  obtain ⟨b, hb, hs⟩ := Option.bind_eq_some_iff.mp h
  exact ⟨b, List.mem_reverse.mp (List.mem_of_getElem? hb), name, hs⟩

theorem slotAt?_base_insert (f : Frame) (name : String) (slot : Slot) (level : Nat)
    (other : String) :
    ({ f with base := f.base.insert name slot } : Frame).slotAt? level other =
      if level = 0 ∧ other = name then some slot else f.slotAt? level other := by
  unfold slotAt?
  rw [block?_eq, block?_eq]
  cases level with
  | zero => simp [Block.find?_insert]
  | succ level => simp

theorem slotAt?_insert (f : Frame) (name : String) (slot : Slot) (level : Nat) (other : String) :
    (f.insert name slot).slotAt? level other =
      if level = f.inner.length ∧ other = name then some slot else f.slotAt? level other := by
  unfold insert
  split
  next hi =>
    rw [slotAt?_base_insert, hi]
    rfl
  next b bs hi =>
    unfold slotAt?
    rw [block?_eq, block?_eq, hi]
    cases level with
    | zero => simp
    | succ level =>
      rcases Nat.lt_trichotomy level bs.length with hlt | rfl | hgt
      · have hne : ¬ (level + 1 = (b :: bs).length ∧ other = name) := by
          simp only [List.length_cons]
          omega
        rw [if_neg hne]
        simp [List.getElem?_append_left, hlt]
      · simp [Block.find?_insert]
      · have hne : ¬ (level + 1 = (b :: bs).length ∧ other = name) := by
          simp only [List.length_cons]
          omega
        rw [if_neg hne]
        simp [List.getElem?_append, Nat.not_lt.mpr (Nat.le_of_lt hgt), Nat.sub_ne_zero_of_lt hgt]

theorem slotAt?_of_pushBlock {level : Nat} {name : String} {slot : Slot}
    (h : f.pushBlock.slotAt? level name = some slot) : f.slotAt? level name = some slot := by
  unfold slotAt? at h ⊢
  rw [block?_eq] at h ⊢
  simp only [pushBlock, List.reverse_cons, ← List.cons_append] at h
  by_cases hl : level < (f.base :: f.inner.reverse).length
  · rwa [List.getElem?_append_left hl] at h
  · -- The block on top has no bindings.
    rw [List.getElem?_append_right (Nat.not_lt.mp hl)] at h
    obtain ⟨b, hb, hs⟩ := Option.bind_eq_some_iff.mp h
    cases List.mem_singleton.mp (List.mem_of_getElem? hb)
    cases hs

theorem slotAt?_of_popBlock {g : Frame} (hp : f.popBlock? = some g) {level : Nat} {name : String}
    {slot : Slot} (h : g.slotAt? level name = some slot) : f.slotAt? level name = some slot := by
  unfold popBlock? at hp
  split at hp
  next => cases hp
  next top rest hi =>
    cases hp
    obtain ⟨b, hb, hs⟩ := Option.bind_eq_some_iff.mp h
    refine Option.bind_eq_some_iff.mpr ⟨b, ?_, hs⟩
    rw [block?_eq] at hb ⊢
    rw [hi, List.reverse_cons, ← List.cons_append]
    exact (List.getElem?_append_left (List.getElem?_eq_some_iff.mp hb).1).trans hb

/-- The innermost binding of a name stands at the level of the name. -/
theorem slotAt?_level? {name : String} {level : Nat} (h : f.level? name = some level) :
    (f.find? name).isSome ∧ f.slotAt? level name = f.find? name := by
  obtain ⟨i, hi, rfl⟩ := Option.map_eq_some_iff.mp h
  obtain ⟨hlt, hbinds, hbefore⟩ := List.findIdx?_eq_some_iff_getElem.mp hi
  have hlen : f.blocks.length = f.inner.length + 1 := by simp [blocks]
  have hblock : f.block? (f.inner.length - i : Nat) = f.blocks[i]? := by
    change f.blocks.reverse[f.inner.length - i]? = _
    rw [List.getElem?_reverse (by omega), show f.blocks.length - 1 - (f.inner.length - i) = i by
      omega]
  have hfind : f.find? name = (f.blocks[i]).find? name := by
    obtain ⟨slot, hs⟩ := Option.isSome_iff_exists.mp hbinds
    rw [hs]
    refine List.findSome?_eq_some_iff.mpr ⟨f.blocks.take i, f.blocks[i], f.blocks.drop (i + 1), ?_,
      hs, fun b hb => ?_⟩
    · rw [← List.drop_eq_getElem_cons, List.take_append_drop]
    · obtain ⟨j, hj, rfl⟩ := List.mem_take_iff_getElem.mp hb
      simpa [Block.binds] using hbefore j (by omega)
  refine ⟨by rw [hfind]; exact hbinds, ?_⟩
  rw [slotAt?, hblock, List.getElem?_eq_getElem hlt, hfind]
  rfl

theorem exists_level? {name : String} {slot : Slot} (h : f.find? name = some slot) :
    ∃ level, f.level? name = some level := by
  obtain ⟨b, hb, hs⟩ := List.exists_of_findSome?_eq_some h
  have hbinds : b.binds name = true := by simp [Block.binds, hs]
  have hsome : (f.blocks.findIdx? (·.binds name)).isSome := by
    rw [List.findIdx?_isSome]
    exact List.any_eq_true.mpr ⟨b, hb, hbinds⟩
  obtain ⟨i, hi⟩ := Option.isSome_iff_exists.mp hsome
  exact ⟨f.inner.length - i, by rw [level?, hi]; rfl⟩

end Frame

namespace Scopes

variable {s s' : Scopes}

def slot? (s : Scopes) (a : Spot) : Option Slot :=
  (s.frameAt? a.height).bind (·.slotAt? a.level a.name)

theorem frameAt?_eq (s : Scopes) (height : Nat) :
    s.frameAt? height =
      if height = s.callers.length then some s.frame else s.callers.reverse[height]? := by
  change s.frames.reverse[height]? = _
  rw [frames, List.reverse_cons]
  by_cases h : height = s.callers.length
  · simp [h]
  · rw [if_neg h]
    have hlen : s.callers.reverse.length = s.callers.length := List.length_reverse
    by_cases hlt : height < s.callers.length
    · exact List.getElem?_append_left (by omega)
    · have hout : (s.callers.reverse ++ [s.frame]).length ≤ height := by
        rw [List.length_append, List.length_singleton]
        omega
      rw [List.getElem?_eq_none hout, List.getElem?_eq_none (by omega)]

theorem binds_of_slot? {a : Spot} {slot : Slot} (h : s.slot? a = some slot) :
    ∃ f ∈ s.frames, f.Binds slot := by
  obtain ⟨f, hf, hs⟩ := Option.bind_eq_some_iff.mp h
  exact ⟨f, List.mem_reverse.mp (List.mem_of_getElem? hf), Frame.binds_of_slotAt? hs⟩

/-- A binding after a change of the running frame is one of before, or one of the new frame. -/
theorem slot?_of_top (hc : s'.callers = s.callers) {a : Spot} {slot : Slot}
    (h : s'.slot? a = some slot) :
    (a.height = s.callers.length ∧ s'.frame.slotAt? a.level a.name = some slot) ∨
      a.height ≠ s.callers.length ∧ s.slot? a = some slot := by
  unfold slot? at h ⊢
  rw [frameAt?_eq, hc] at h
  rw [frameAt?_eq]
  by_cases ht : a.height = s.callers.length
  · rw [if_pos ht] at h
    exact Or.inl ⟨ht, h⟩
  · rw [if_neg ht] at h ⊢
    exact Or.inr ⟨ht, h⟩

theorem slot?_top {a : Spot} (ht : a.height = s.callers.length) :
    s.slot? a = s.frame.slotAt? a.level a.name := by
  rw [slot?, frameAt?_eq, if_pos ht]
  rfl

/-- All bindings of the new state are old ones, but for one slot at one spot. -/
def AddsOnly (s s' : Scopes) (spot : Spot) (slot : Slot) : Prop :=
  ∀ a x, s'.slot? a = some x → (a = spot ∧ x = slot) ∨ s.slot? a = some x

/-- All bindings of the new state are old ones. -/
def AddsNothing (s s' : Scopes) : Prop :=
  ∀ a x, s'.slot? a = some x → s.slot? a = some x

theorem addsOnly_of_top {level : Nat} {name : String} {slot : Slot}
    (hc : s'.callers = s.callers)
    (hf : ∀ l n, s'.frame.slotAt? l n =
      if l = level ∧ n = name then some slot else s.frame.slotAt? l n) :
    s.AddsOnly s' ⟨s.callers.length, level, name⟩ slot := by
  intro a x h
  rcases slot?_of_top hc h with ⟨ht, hs⟩ | ⟨-, h⟩
  · rw [hf] at hs
    split at hs
    next hspot =>
      left
      obtain ⟨height, l, n⟩ := a
      obtain ⟨hl, hn⟩ := hspot
      simp only at ht hl hn
      subst ht hl hn
      exact ⟨rfl, (Option.some.inj hs).symm⟩
    next => exact Or.inr ((slot?_top ht).trans hs)
  · exact Or.inr h

theorem addsNothing_of_top (hc : s'.callers = s.callers)
    (hf : ∀ l n x, s'.frame.slotAt? l n = some x → s.frame.slotAt? l n = some x) :
    s.AddsNothing s' := by
  intro a x h
  rcases slot?_of_top hc h with ⟨ht, hs⟩ | ⟨-, h⟩
  · exact (slot?_top ht).trans (hf _ _ _ hs)
  · exact h

theorem addsNothing_pushFrame (function : String) (resume : Int) :
    s.AddsNothing (s.pushFrame { function, resume }) := by
  intro a x h
  unfold slot? at h ⊢
  rw [frameAt?_eq] at h
  split at h
  next =>
    have hb := Frame.binds_of_slotAt? (show Frame.slotAt? _ a.level a.name = some x from h)
    exact absurd hb (Frame.not_binds_new _ _)
  next => exact h

theorem addsNothing_popFrame {caller : Frame} {callers : List Frame}
    (hc : s.callers = caller :: callers) : s.AddsNothing ⟨caller, callers, s.cells⟩ := by
  intro a x h
  obtain ⟨f, hf, hs⟩ := Option.bind_eq_some_iff.mp h
  refine Option.bind_eq_some_iff.mpr ⟨f, ?_, hs⟩
  have hlt : a.height < (caller :: callers).reverse.length :=
    (List.getElem?_eq_some_iff.mp hf).1
  change s.frames.reverse[a.height]? = some f
  rw [frames, hc, List.reverse_cons, List.getElem?_append_left hlt]
  exact hf

end Scopes

end Brewin
