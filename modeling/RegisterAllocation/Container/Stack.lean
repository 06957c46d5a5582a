import RegisterAllocation.Fault

/-!
# Stacks

The element that came last leaves first.
-/

namespace RegisterAllocation

/-- A stack; `items` starts with the top. -/
structure Stack (α : Type) where
  /-- The elements, the one that came last first. -/
  items : List α
deriving Repr

namespace Stack

variable {α : Type}

def empty : Stack α := ⟨[]⟩

def size (stack : Stack α) : Nat := stack.items.length

def isEmpty (stack : Stack α) : Bool := stack.items.isEmpty

def push (x : α) (stack : Stack α) : Stack α := ⟨x :: stack.items⟩

def pop (stack : Stack α) : Except Fault (α × Stack α) :=
  match stack.items with
  | [] => .error .popEmptyStack
  | x :: xs => .ok (x, ⟨xs⟩)

def top (stack : Stack α) : Except Fault α :=
  match stack.items with
  | [] => .error .topEmptyStack
  | x :: _ => .ok x

end Stack
end RegisterAllocation
