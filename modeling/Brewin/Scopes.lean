import Brewin.Value

namespace Brewin

/-- A binding: the cell that holds the value and, for an alias, the name of the variable in the
calling frame that it stands for. -/
structure Slot where
  cell : Nat
  alias? : Option String := none
  deriving DecidableEq, Repr

/-- A binding that shares the cell of another. Without a name to stand for it counts as an
ordinary one. -/
def Slot.aliasOf (owner : Slot) (name : String) : Slot :=
  ⟨owner.cell, if name = "" then none else some name⟩

/-- The variables of one nesting level; a name is bound at most once. -/
structure Block where
  slots : List (String × Slot) := []
  deriving DecidableEq, Repr

namespace Block

def find? (b : Block) (name : String) : Option Slot :=
  b.slots.lookup name

def binds (b : Block) (name : String) : Bool :=
  (b.find? name).isSome

/-- Binds a name, in place of any earlier binding of it. -/
def insert (b : Block) (name : String) (slot : Slot) : Block :=
  ⟨(name, slot) :: b.slots.filter (·.1 != name)⟩

/-- The bindings in the order of their names. -/
def sorted (b : Block) : List (String × Slot) :=
  b.slots.mergeSort fun x y => decide (¬ y.1 < x.1)

theorem find?_insert (b : Block) (name other : String) (slot : Slot) :
    (b.insert name slot).find? other = if other = name then some slot else b.find? other := by
  simp only [insert, find?, List.lookup_cons]
  by_cases h : other = name
  · simp [h]
  · simp only [h, beq_eq_false_iff_ne.mpr h, ↓reduceIte]
    induction b.slots with
    | nil => rfl
    | cons entry rest ih =>
      obtain ⟨key, bound⟩ := entry
      by_cases hk : key = name
      · simp [hk, ih, List.lookup_cons, beq_eq_false_iff_ne.mpr h]
      · simp [hk, ih, List.lookup_cons]

end Block

/-- One activation of a function: its name, the line at which its caller goes on, its
function-level block, and the blocks opened inside, innermost first. The function-level block has
a field of its own, so that no frame is without a block. -/
structure Frame where
  function : String
  resume : Int
  base : Block := {}
  inner : List Block := []
  deriving DecidableEq, Repr

namespace Frame

/-- The blocks, innermost first. -/
def blocks (f : Frame) : List Block :=
  f.inner ++ [f.base]

/-- The innermost binding of a name. -/
def find? (f : Frame) (name : String) : Option Slot :=
  f.blocks.findSome? (·.find? name)

/-- The level of the innermost block that binds a name; the function level is 0. -/
def level? (f : Frame) (name : String) : Option Nat :=
  (f.blocks.findIdx? (·.binds name)).map fun i => f.inner.length - i

/-- The block at a level. -/
def block? (f : Frame) : Int → Option Block
  | .ofNat n => f.blocks.reverse[n]?
  | .negSucc _ => none

def innermost (f : Frame) : Block :=
  f.inner.head?.getD f.base

/-- Binds a name in the innermost block. -/
def insert (f : Frame) (name : String) (slot : Slot) : Frame :=
  match f.inner with
  | [] => { f with base := f.base.insert name slot }
  | b :: bs => { f with inner := b.insert name slot :: bs }

def pushBlock (f : Frame) : Frame :=
  { f with inner := {} :: f.inner }

/-- Drops the innermost block; the function level stays. -/
def popBlock? (f : Frame) : Option Frame :=
  match f.inner with
  | [] => none
  | _ :: bs => some { f with inner := bs }

theorem find?_insert (f : Frame) (name other : String) (slot : Slot) :
    (f.insert name slot).find? other = if other = name then some slot else f.find? other := by
  unfold insert
  split
  next h => simp [find?, blocks, h, Block.find?_insert]
  next b bs h =>
    by_cases hn : other = name
    · simp [find?, blocks, Block.find?_insert, hn]
    · simp [find?, blocks, h, List.findSome?_cons, Block.find?_insert, hn]

theorem find?_pushBlock (f : Frame) (name : String) : f.pushBlock.find? name = f.find? name :=
  rfl

theorem popBlock?_pushBlock (f : Frame) : f.pushBlock.popBlock? = some f :=
  rfl

end Frame

/-- The variable in which a call leaves a result of a kind. -/
def resultName? : Kind → Option String
  | .int => some "resulti"
  | .string => some "results"
  | .bool => some "resultb"
  | .void | .unknown => none

/-- The storage of a run: the frame of the running function, the frames that wait, nearest first,
and the cells of all of them. The running frame has a field of its own, so that the stack of frames
is never empty. -/
structure Scopes where
  frame : Frame
  callers : List Frame := []
  cells : Array Value := #[]
  deriving DecidableEq, Repr

/-- The binding of the cell that comes next. -/
def Slot.fresh (cells : Array Value) : Slot :=
  ⟨cells.size, none⟩

namespace Scopes

/-- A single fresh frame. -/
def start (function : String) (resume : Int) : Scopes :=
  { frame := { function, resume } }

def depth (s : Scopes) : Nat :=
  s.callers.length + 1

/-- The frames, the running one first. -/
def frames (s : Scopes) : List Frame :=
  s.frame :: s.callers

/-- The frame at a height; the bottom has height 0. -/
def frameAt? (s : Scopes) : Int → Option Frame
  | .ofNat n => s.frames.reverse[n]?
  | .negSucc _ => none

def value (s : Scopes) (slot : Slot) : Value :=
  s.cells.getD slot.cell .unknown

def lookup? (s : Scopes) (name : String) : Option Slot :=
  s.frame.find? name

/-- The value that a name has in the running function. -/
def valueOf? (s : Scopes) (name : String) : Option Value :=
  (s.lookup? name).map s.value

/-- Stores a value in a cell, so that all bindings that share the cell see it. -/
def store (s : Scopes) (slot : Slot) (v : Value) : Scopes :=
  { s with cells := s.cells.setIfInBounds slot.cell v }

/-- Binds a name in the innermost block to a new cell. -/
def bind (s : Scopes) (name : String) (v : Value) : Scopes :=
  { s with
    frame := s.frame.insert name (.fresh s.cells)
    cells := s.cells.push v }

/-- Binds a name in the innermost block to the cell of another variable. -/
def bindAlias (s : Scopes) (name : String) (owner : Slot) (ownerName : String) : Scopes :=
  { s with frame := s.frame.insert name (owner.aliasOf ownerName) }

/-- Declares a variable, unless its block has the name already. -/
def declare? (s : Scopes) (name : String) (v : Value) : Option Scopes :=
  if s.frame.innermost.binds name then none else some (s.bind name v)

def slotAt? (s : Scopes) (level : Int) (name : String) : Option Slot :=
  (s.frame.block? level).bind (·.find? name)

def readAt? (s : Scopes) (level : Int) (name : String) : Option Value :=
  (s.slotAt? level name).map s.value

def writeAt? (s : Scopes) (level : Int) (name : String) (v : Value) : Option Scopes :=
  (s.slotAt? level name).map fun slot => s.store slot v

def pushBlock (s : Scopes) : Scopes :=
  { s with frame := s.frame.pushBlock }

def popBlock? (s : Scopes) : Option Scopes :=
  match s.frame.popBlock? with
  | some frame => some { s with frame }
  | none => none

/-- Leaves a result in a function-level block. A variable of the right kind that has the result's
name is overwritten, so that its aliases see the result; otherwise the name is bound anew. -/
def placeResult (frame : Frame) (cells : Array Value) (v : Value) : Frame × Array Value :=
  match resultName? v.kind with
  | none => (frame, cells)
  | some name =>
    match frame.base.find? name with
    | some slot =>
      if (cells.getD slot.cell .unknown).kind = v.kind then
        (frame, cells.setIfInBounds slot.cell v)
      else ({ frame with base := frame.base.insert name (.fresh cells) }, cells.push v)
    | none => ({ frame with base := frame.base.insert name (.fresh cells) }, cells.push v)

/-- Leaves a result in the running function. -/
def setResult (s : Scopes) (v : Value) : Scopes :=
  let (frame, cells) := placeResult s.frame s.cells v
  { s with frame, cells }

/-- Leaves a result in the caller of the running function. -/
def setCallerResult (s : Scopes) (v : Value) : Scopes :=
  match s.callers with
  | [] => s
  | caller :: callers =>
    let (caller, cells) := placeResult caller s.cells v
    { s with callers := caller :: callers, cells }

def pushFrame (s : Scopes) (frame : Frame) : Scopes :=
  { s with frame, callers := s.frame :: s.callers }

/-- Drops the running frame; the last one leaves nothing. -/
def popFrame? (s : Scopes) : Option Scopes :=
  match s.callers with
  | [] => none
  | caller :: callers => some { s with frame := caller, callers }

theorem popBlock?_pushBlock (s : Scopes) : s.pushBlock.popBlock? = some s :=
  rfl

theorem popFrame?_pushFrame (s : Scopes) (f : Frame) : (s.pushFrame f).popFrame? = some s :=
  rfl

theorem depth_pushFrame (s : Scopes) (f : Frame) : (s.pushFrame f).depth = s.depth + 1 :=
  rfl

theorem lookup?_bind (s : Scopes) (name other : String) (v : Value) :
    (s.bind name v).lookup? other =
      if other = name then some (.fresh s.cells) else s.lookup? other :=
  s.frame.find?_insert name other _

theorem value_bind_fresh (s : Scopes) (name : String) (v : Value) :
    (s.bind name v).value (.fresh s.cells) = v := by
  simp [value, bind, Slot.fresh]

theorem value_bind_of_lt (s : Scopes) (name : String) (v : Value) {slot : Slot}
    (h : slot.cell < s.cells.size) : (s.bind name v).value slot = s.value slot := by
  simp [value, bind, Array.getElem?_push, Nat.ne_of_lt h]

/-- A store is seen through every binding of the cell, and through no other. -/
theorem value_store (s : Scopes) (target slot : Slot) (v : Value)
    (h : target.cell < s.cells.size) :
    (s.store target v).value slot = if slot.cell = target.cell then v else s.value slot := by
  by_cases hc : target.cell = slot.cell
  · simp [value, store, hc, hc ▸ h]
  · simp [value, store, hc, Ne.symm hc]

end Scopes

end Brewin
