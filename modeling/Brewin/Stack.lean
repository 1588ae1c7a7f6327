namespace Brewin

/-- A stack, with its top in front. -/
abbrev Stack (α : Type) := List α

namespace Stack

variable {α : Type}

/-- The stack whose elements were pushed in the order of the list. -/
def ofPushes (xs : List α) : Stack α :=
  xs.reverse

/-- The elements in the order in which they were pushed. -/
def pushes (s : Stack α) : List α :=
  s.reverse

def push (s : Stack α) (x : α) : Stack α :=
  x :: s

def pop? : Stack α → Option (α × Stack α)
  | [] => none
  | x :: s => some (x, s)

def peek? (s : Stack α) : Option α :=
  s.head?

/-- Changes the top in place; an empty stack has none to change. -/
def modifyTop? (f : α → α) : Stack α → Option (Stack α)
  | [] => none
  | x :: s => some (f x :: s)

@[simp]
theorem pushes_ofPushes (xs : List α) : (ofPushes xs).pushes = xs :=
  List.reverse_reverse xs

@[simp]
theorem pushes_push (s : Stack α) (x : α) : (s.push x).pushes = s.pushes ++ [x] :=
  List.reverse_cons

end Stack

end Brewin
