import Mathlib.Data.List.Forall2
import Brewin.Proofs.Spots

namespace Brewin

/-- Cells of one storage stand for cells of another: each for a single one, and for one that holds
the same value. -/
structure Pairing (R : Nat → Nat → Prop) (cs ds : Array Value) : Prop where
  unique : ∀ {a b a' b' : Nat}, R a b → R a' b' → (a = a' ↔ b = b')
  value : ∀ {a b : Nat}, R a b → ∃ v, cs[a]? = some v ∧ ds[b]? = some v

/-- One pair more. -/
def withPair (R : Nat → Nat → Prop) (a b : Nat) : Nat → Nat → Prop :=
  fun x y => R x y ∨ (x = a ∧ y = b)

/-- The slots lead to cells of a pair. -/
def Slot.Like (R : Nat → Nat → Prop) (x y : Slot) : Prop :=
  R x.cell y.cell

/-- The blocks bind the same names, to cells of a pair. -/
def Block.Like (R : Nat → Nat → Prop) (b c : Block) : Prop :=
  ∀ name, Option.Rel (Slot.Like R) (b.find? name) (c.find? name)

/-- The frames agree but for their cells and for the line at which they go back. -/
structure Frame.Like (R : Nat → Nat → Prop) (f g : Frame) : Prop where
  function : f.function = g.function
  base : f.base.Like R g.base
  inner : List.Forall₂ (Block.Like R) f.inner g.inner

/-- The running frames agree but for their cells. -/
structure Scopes.Like (R : Nat → Nat → Prop) (s t : Scopes) : Prop where
  pairing : Pairing R s.cells t.cells
  frame : s.frame.Like R t.frame

/-- The running frames agree by these pairs and perhaps more. -/
def Scopes.LikeBeyond (R : Nat → Nat → Prop) (s t : Scopes) : Prop :=
  ∃ R', Subrelation R R' ∧ s.Like R' t

section

variable {R R' : Nat → Nat → Prop} {cs ds : Array Value}

theorem Pairing.getD (h : Pairing R cs ds) {a b : Nat} (hab : R a b) (v : Value) :
    cs.getD a v = ds.getD b v := by
  obtain ⟨w, hc, hd⟩ := h.value hab
  rw [Array.getD_eq_getD_getElem?, Array.getD_eq_getD_getElem?, hc, hd]

theorem Pairing.lt_size (h : Pairing R cs ds) {a b : Nat} (hab : R a b) :
    a < cs.size ∧ b < ds.size := by
  obtain ⟨w, hc, hd⟩ := h.value hab
  exact ⟨(Array.getElem?_eq_some_iff.mp hc).1, (Array.getElem?_eq_some_iff.mp hd).1⟩

/-- A store into both cells of a pair changes no other pair. -/
theorem Pairing.set (h : Pairing R cs ds) {a b : Nat} (hab : R a b) (v : Value) :
    Pairing R (cs.setIfInBounds a v) (ds.setIfInBounds b v) := by
  refine ⟨h.unique, fun {x y} hxy => ?_⟩
  obtain ⟨ha, hb⟩ := h.lt_size hab
  by_cases hx : a = x
  · have hy : b = y := (h.unique hab hxy).mp hx
    subst hx hy
    exact ⟨v, by simp [ha], by simp [hb]⟩
  · have hy : b ≠ y := fun hy => hx ((h.unique hab hxy).mpr hy)
    rw [Array.getElem?_setIfInBounds_ne hx, Array.getElem?_setIfInBounds_ne hy]
    exact h.value hxy

theorem subrelation_withPair (R : Nat → Nat → Prop) (a b : Nat) :
    Subrelation R (withPair R a b) :=
  fun hab => Or.inl hab

/-- The cells that come next make one pair more. -/
theorem Pairing.push (h : Pairing R cs ds) (v : Value) :
    Pairing (withPair R cs.size ds.size) (cs.push v) (ds.push v) := by
  constructor
  · -- All earlier pairs lie below both sizes.
    rintro a b a' b' (hab | ⟨rfl, rfl⟩) (hab' | ⟨rfl, rfl⟩)
    · exact h.unique hab hab'
    · have := h.lt_size hab
      omega
    · have := h.lt_size hab'
      omega
    · simp
  · rintro a b (hab | ⟨rfl, rfl⟩)
    · obtain ⟨ha, hb⟩ := h.lt_size hab
      obtain ⟨w, hc, hd⟩ := h.value hab
      refine ⟨w, ?_, ?_⟩
      · rw [Array.getElem?_push, if_neg (by omega), hc]
      · rw [Array.getElem?_push, if_neg (by omega), hd]
    · exact ⟨v, by simp, by simp⟩

theorem rel_mono {x? y? : Option Slot} (hr : Subrelation R R')
    (h : Option.Rel (Slot.Like R) x? y?) : Option.Rel (Slot.Like R') x? y? := by
  cases h with
  | some hxy => exact .some (hr hxy)
  | none => exact .none

theorem Block.Like.mono {b c : Block} (h : b.Like R c) (hr : Subrelation R R') : b.Like R' c :=
  fun name => rel_mono hr (h name)

theorem Block.Like.empty : Block.Like R {} {} :=
  fun _ => .none

theorem Block.Like.insert {b c : Block} (h : b.Like R c) (name : String) {x y : Slot}
    (hxy : x.Like R y) : (b.insert name x).Like R (c.insert name y) := by
  intro other
  rw [Block.find?_insert, Block.find?_insert]
  by_cases hn : other = name
  · rw [if_pos hn, if_pos hn]
    exact .some hxy
  · rw [if_neg hn, if_neg hn]
    exact h other

theorem Block.Like.binds {b c : Block} (h : b.Like R c) (name : String) :
    b.binds name = c.binds name := by
  have hr := h name
  unfold Block.binds
  generalize b.find? name = x?, c.find? name = y? at hr
  cases hr with
  | some => rfl
  | none => rfl

theorem rel_findSome? {bs cs : List Block} (h : List.Forall₂ (Block.Like R) bs cs)
    (name : String) :
    Option.Rel (Slot.Like R) (bs.findSome? (·.find? name)) (cs.findSome? (·.find? name)) := by
  induction h with
  | nil => exact .none
  | @cons b c bs cs hbc _ ih =>
    have hr := hbc name
    rw [List.findSome?_cons, List.findSome?_cons]
    generalize b.find? name = x?, c.find? name = y? at hr
    cases hr with
    | some hxy => exact .some hxy
    | none => exact ih

end

namespace Frame.Like

variable {R R' : Nat → Nat → Prop} {f g : Frame}

theorem mono (h : f.Like R g) (hr : Subrelation R R') : f.Like R' g :=
  ⟨h.function, h.base.mono hr, h.inner.imp fun _ _ hb => hb.mono hr⟩

theorem find? (h : f.Like R g) (name : String) :
    Option.Rel (Slot.Like R) (f.find? name) (g.find? name) :=
  rel_findSome? (List.rel_append h.inner (.cons h.base .nil)) name

theorem innermost (h : f.Like R g) : f.innermost.Like R g.innermost := by
  obtain ⟨-, hbase, hinner⟩ := h
  unfold Frame.innermost
  generalize f.inner = bs, g.inner = cs at hinner
  cases hinner with
  | nil => exact hbase
  | cons hbc _ => exact hbc

theorem insertBase (h : f.Like R g) (name : String) {x y : Slot} (hxy : x.Like R y) :
    Frame.Like R { f with base := f.base.insert name x } { g with base := g.base.insert name y } :=
  ⟨h.function, h.base.insert name hxy, h.inner⟩

theorem insert (h : f.Like R g) (name : String) {x y : Slot} (hxy : x.Like R y) :
    (f.insert name x).Like R (g.insert name y) := by
  obtain ⟨function, resume, base, inner⟩ := f
  obtain ⟨function', resume', base', inner'⟩ := g
  obtain ⟨hfun, hbase, hinner⟩ := h
  cases hinner with
  | nil => exact ⟨hfun, hbase.insert name hxy, .nil⟩
  | cons hbc hrest => exact ⟨hfun, hbase, .cons (hbc.insert name hxy) hrest⟩

theorem pushBlock (h : f.Like R g) : f.pushBlock.Like R g.pushBlock :=
  ⟨h.function, h.base, .cons .empty h.inner⟩

theorem popBlock (h : f.Like R g) : Option.Rel (Frame.Like R) f.popBlock? g.popBlock? := by
  obtain ⟨function, resume, base, inner⟩ := f
  obtain ⟨function', resume', base', inner'⟩ := g
  obtain ⟨hfun, hbase, hinner⟩ := h
  cases hinner with
  | nil => exact .none
  | cons _ hrest => exact .some ⟨hfun, hbase, hrest⟩

end Frame.Like

namespace Scopes

section

variable {s t : Scopes}

theorem operand_congr (h : s.valueOf? = t.valueOf?) : s.operand = t.operand := by
  funext token
  simp only [operand, h]

theorem reduce_congr (h : s.valueOf? = t.valueOf?) (expr : List String) :
    s.reduce expr = t.reduce expr := by
  induction expr with
  | nil => rfl
  | cons token rest ih =>
    have hr : s.reduceToken = t.reduceToken := by
      funext token operands
      simp only [reduceToken, operand_congr h]
    simp only [reduce, ih, hr]

/-- What an expression gives depends on the values that the names have, and on nothing else. -/
theorem evaluate_congr (h : s.valueOf? = t.valueOf?) : s.evaluate = t.evaluate := by
  funext expr
  simp only [evaluate, reduce_congr h]

theorem condition_congr (h : s.valueOf? = t.valueOf?) : s.condition = t.condition := by
  funext expr
  simp only [condition, evaluate_congr h]

theorem joined_congr (h : s.valueOf? = t.valueOf?) : s.joined = t.joined := by
  funext args
  simp only [joined, operands, operand_congr h]

theorem arguments_congr (h : s.valueOf? = t.valueOf?) : s.arguments = t.arguments := by
  funext f args
  simp only [arguments, operands, operand_congr h]

end

theorem LikeBeyond.mono {R R' : Nat → Nat → Prop} {s t : Scopes} (hr : Subrelation R R')
    (h : s.LikeBeyond R' t) : s.LikeBeyond R t := by
  obtain ⟨R'', hr', hl⟩ := h
  exact ⟨R'', fun hab => hr' (hr hab), hl⟩

namespace Like

variable {R : Nat → Nat → Prop} {s t : Scopes}

theorem beyond (h : s.Like R t) : s.LikeBeyond R t :=
  ⟨R, fun hab => hab, h⟩

theorem value (h : s.Like R t) {x y : Slot} (hxy : x.Like R y) : s.value x = t.value y :=
  h.pairing.getD hxy _

theorem valueOf? (h : s.Like R t) : s.valueOf? = t.valueOf? := by
  funext name
  have hr := h.frame.find? name
  unfold Scopes.valueOf? lookup?
  generalize s.frame.find? name = x?, t.frame.find? name = y? at hr
  cases hr with
  | some hxy => exact congrArg some (h.value hxy)
  | none => rfl

theorem store (h : s.Like R t) {x y : Slot} (hxy : x.Like R y) (v : Value) :
    (s.store x v).Like R (t.store y v) :=
  ⟨h.pairing.set hxy v, h.frame⟩

/-- A new variable on both sides, wherever the frames get it. -/
theorem bindFresh (h : s.Like R t) {f g : Frame} (v : Value)
    (hfg : Frame.Like (withPair R s.cells.size t.cells.size) f g) :
    LikeBeyond R { s with frame := f, cells := s.cells.push v }
      { t with frame := g, cells := t.cells.push v } :=
  ⟨_, subrelation_withPair R _ _, h.pairing.push v, hfg⟩

theorem fresh (R : Nat → Nat → Prop) (cs ds : Array Value) :
    (Slot.fresh cs).Like (withPair R cs.size ds.size) (.fresh ds) :=
  Or.inr ⟨rfl, rfl⟩

theorem bind (h : s.Like R t) (name : String) (v : Value) :
    (s.bind name v).LikeBeyond R (t.bind name v) :=
  h.bindFresh v ((h.frame.mono (subrelation_withPair R _ _)).insert name (fresh R _ _))

theorem bindAlias (h : s.Like R t) (name token : String) {x y : Slot} (hxy : x.Like R y) :
    (s.bindAlias name x token).Like R (t.bindAlias name y token) :=
  ⟨h.pairing, h.frame.insert name hxy⟩

theorem setResult (h : s.Like R t) (v : Value) :
    (s.setResult v).LikeBeyond R (t.setResult v) := by
  have hnew : ∀ name, LikeBeyond R
      { s with frame.base := s.frame.base.insert name (.fresh s.cells), cells := s.cells.push v }
      { t with frame.base := t.frame.base.insert name (.fresh t.cells), cells := t.cells.push v } :=
    fun name => h.bindFresh v
      ((h.frame.mono (subrelation_withPair R _ _)).insertBase name (fresh R _ _))
  unfold Scopes.setResult placeResult
  cases resultName? v.kind with
  | none => exact h.beyond
  | some name =>
    have hr := h.frame.base name
    dsimp only
    generalize s.frame.base.find? name = x?, t.frame.base.find? name = y? at hr
    cases hr with
    | none => exact hnew name
    | @some x y hxy =>
      -- The old values have one kind, so both sides overwrite them or neither does.
      simp only [h.pairing.getD hxy]
      by_cases hk : (t.cells.getD y.cell .unknown).kind = v.kind
      · simp only [if_pos hk]
        exact (h.store hxy v).beyond
      · simp only [if_neg hk]
        exact hnew name

theorem declareAll (h : s.Like R t) (v : Value) (names : List String) :
    (s.declareAll v names).2 = (t.declareAll v names).2 ∧
      (s.declareAll v names).1.LikeBeyond R (t.declareAll v names).1 := by
  induction names generalizing R s t with
  | nil => exact ⟨rfl, h.beyond⟩
  | cons name names ih =>
    unfold Scopes.declareAll
    rw [h.frame.innermost.binds name]
    split
    next => exact ⟨rfl, h.beyond⟩
    next =>
      obtain ⟨R', hr, hbound⟩ := h.bind name v
      obtain ⟨hproblem, hrest⟩ := ih hbound
      exact ⟨hproblem, hrest.mono hr⟩

theorem pushBlock (h : s.Like R t) : s.pushBlock.Like R t.pushBlock :=
  ⟨h.pairing, h.frame.pushBlock⟩

theorem popBlock (h : s.Like R t) : Option.Rel (Scopes.Like R) s.popBlock? t.popBlock? := by
  have hr := h.frame.popBlock
  unfold Scopes.popBlock?
  generalize s.frame.popBlock? = f?, t.frame.popBlock? = g? at hr
  cases hr with
  | some hfg => exact .some ⟨h.pairing, hfg⟩
  | none => exact .none

/-- An assignment fails with one problem on both sides, or stores one value in cells of a pair. -/
theorem assignment (h : s.Like R t) (target : String) (expr : List String) :
    (∃ problem, s.assignment target expr = .error problem ∧
      t.assignment target expr = .error problem) ∨
    ∃ x y v, x.Like R y ∧ s.assignment target expr = .ok (x, v) ∧
      t.assignment target expr = .ok (y, v) := by
  have hr := h.frame.find? target
  unfold Scopes.assignment
  rw [evaluate_congr h.valueOf?]
  cases t.evaluate expr with
  | error problem => exact Or.inl ⟨problem, rfl, rfl⟩
  | ok v =>
    simp only [lookup?]
    generalize s.frame.find? target = x?, t.frame.find? target = y? at hr
    cases hr with
    | none => exact Or.inl ⟨_, rfl, rfl⟩
    | @some x y hxy =>
      simp only [h.value hxy]
      by_cases hk : (t.value y).kind = v.kind
      · exact Or.inr ⟨x, y, v, hxy, if_pos hk, if_pos hk⟩
      · exact Or.inl ⟨_, if_neg hk, if_neg hk⟩

theorem bindParam (h : s.Like R t) {f g : Frame} (hfg : f.Like R g) (p : Param) (token : String)
    (v : Value) : (s.bindParam f p token v).LikeBeyond R (t.bindParam g p token v) := by
  have hr := hfg.find? token
  unfold Scopes.bindParam
  cases p.byRef with
  | false => exact h.bind p.name v
  | true =>
    simp only [↓reduceIte]
    generalize f.find? token = x?, g.find? token = y? at hr
    cases hr with
    | some hxy => exact (h.bindAlias p.name token hxy).beyond
    | none => exact h.bind p.name v

theorem bindParams (h : s.Like R t) {f g : Frame} (hfg : f.Like R g)
    (params : List (Param × String × Value)) :
    LikeBeyond R (params.foldl (fun s (p, token, v) => s.bindParam f p token v) s)
      (params.foldl (fun s (p, token, v) => s.bindParam g p token v) t) := by
  induction params generalizing R s t with
  | nil => exact h.beyond
  | cons entry params ih =>
    obtain ⟨p, token, v⟩ := entry
    obtain ⟨R', hr, hbound⟩ := h.bindParam hfg p token v
    exact (ih hbound (hfg.mono hr)).mono hr

theorem enter (h : s.Like R t) (f : Definition) (args : List String) (values : List Value)
    (resume resume' : Int) :
    (s.enter f args values resume).LikeBeyond R (t.enter f args values resume') := by
  have hnew : (s.pushFrame { function := f.name, resume }).Like R
      (t.pushFrame { function := f.name, resume := resume' }) :=
    ⟨h.pairing, rfl, .empty, .nil⟩
  exact hnew.bindParams h.frame (f.params.zip (args.zip values))

end Like

/-- The running frames agree but for the choice of their cells: their blocks bind the same names to
the same values, and the same bindings share a cell. -/
structure Alike (s t : Scopes) : Prop where
  function : s.frame.function = t.frame.function
  blocks : s.frame.blocks.length = t.frame.blocks.length
  values : ∀ level name,
    Option.Rel (fun x y => ∃ v, s.cells[x.cell]? = some v ∧ t.cells[y.cell]? = some v)
      (s.frame.slotAt? level name) (t.frame.slotAt? level name)
  sharing : ∀ {level level' name name' x x' y y'},
    s.frame.slotAt? level name = some x → t.frame.slotAt? level name = some y →
    s.frame.slotAt? level' name' = some x' → t.frame.slotAt? level' name' = some y' →
    (x.cell = x'.cell ↔ y.cell = y'.cell)

end Scopes

section

variable {R : Nat → Nat → Prop}

theorem forall₂_like_iff {bs cs : List Block} :
    List.Forall₂ (Block.Like R) bs cs ↔ bs.length = cs.length ∧ ∀ (i : Nat) name,
      Option.Rel (Slot.Like R) (bs[i]?.bind (·.find? name)) (cs[i]?.bind (·.find? name)) := by
  constructor
  · intro h
    induction h with
    | nil => exact ⟨rfl, fun _ _ => .none⟩
    | cons hbc _ ih =>
      refine ⟨congrArg (· + 1) ih.1, fun i name => ?_⟩
      cases i with
      | zero => exact hbc name
      | succ i => exact ih.2 i name
  · rintro ⟨hlen, hslots⟩
    induction bs generalizing cs with
    | nil =>
      cases List.length_eq_zero_iff.mp hlen.symm
      exact .nil
    | cons b bs ih =>
      obtain ⟨c, cs, rfl⟩ := List.exists_cons_of_length_eq_add_one hlen.symm
      refine .cons (fun name => hslots 0 name) (ih (Nat.succ.inj hlen) fun i name => ?_)
      exact hslots (i + 1) name

/-- Frames are alike exactly if their slots are, spot by spot. -/
theorem Frame.like_iff {f g : Frame} :
    f.Like R g ↔ f.function = g.function ∧ f.blocks.length = g.blocks.length ∧
      ∀ level name, Option.Rel (Slot.Like R) (f.slotAt? level name) (g.slotAt? level name) := by
  have hblocks : List.Forall₂ (Block.Like R) (f.base :: f.inner.reverse)
      (g.base :: g.inner.reverse) ↔
      f.base.Like R g.base ∧ List.Forall₂ (Block.Like R) f.inner g.inner := by
    rw [List.forall₂_cons, List.forall₂_reverse_iff]
  have hlen : ∀ h : Frame, (h.base :: h.inner.reverse).length = h.blocks.length := by
    intro h
    simp [Frame.blocks]
  simp only [Frame.slotAt?, Frame.block?_eq, ← hlen]
  rw [← forall₂_like_iff, hblocks]
  constructor
  · intro h
    exact ⟨h.function, h.base, h.inner⟩
  · rintro ⟨hfun, hbase, hinner⟩
    exact ⟨hfun, hbase, hinner⟩

/-- The running frames agree exactly if some pairing of cells leads from one to the other. -/
theorem Scopes.alike_iff {s t : Scopes} : s.Alike t ↔ ∃ R, s.Like R t := by
  constructor
  · intro h
    -- The pairs are the cells of the slots at one spot.
    refine ⟨fun a b => ∃ level name x y, s.frame.slotAt? level name = some x ∧
      t.frame.slotAt? level name = some y ∧ x.cell = a ∧ y.cell = b, ⟨?_, ?_⟩, ?_⟩
    · rintro _ _ _ _ ⟨level, name, x, y, hx, hy, rfl, rfl⟩
        ⟨level', name', x', y', hx', hy', rfl, rfl⟩
      exact h.sharing hx hy hx' hy'
    · rintro _ _ ⟨level, name, x, y, hx, hy, rfl, rfl⟩
      have hr := h.values level name
      rw [hx, hy] at hr
      cases hr with
      | some hv => exact hv
    · refine Frame.like_iff.mpr ⟨h.function, h.blocks, fun level name => ?_⟩
      have hr := h.values level name
      generalize hx : s.frame.slotAt? level name = x?, hy : t.frame.slotAt? level name = y? at hr
      cases hr with
      | some _ => exact .some ⟨level, name, _, _, hx, hy, rfl, rfl⟩
      | none => exact .none
  · rintro ⟨R, h⟩
    obtain ⟨hfun, hblocks, hslots⟩ := Frame.like_iff.mp h.frame
    have paired : ∀ {level name x y}, s.frame.slotAt? level name = some x →
        t.frame.slotAt? level name = some y → R x.cell y.cell := by
      intro level name x y hx hy
      have hr := hslots level name
      rw [hx, hy] at hr
      cases hr with
      | some hxy => exact hxy
    refine ⟨hfun, hblocks, fun level name => ?_, fun hx hy hx' hy' => ?_⟩
    · have hr := hslots level name
      generalize s.frame.slotAt? level name = x?, t.frame.slotAt? level name = y? at hr
      cases hr with
      | some hxy => exact .some (h.pairing.value hxy)
      | none => exact .none
    · exact h.pairing.unique (paired hx hy) (paired hx' hy')

end

end Brewin
