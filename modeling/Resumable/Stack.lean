/-!
# `Stack`: persistent stacks that keep their identity

Pushing and popping give new stacks and leave the old ones as they are, so that snapshots may be shared.
Stacks live in a heap of cells, and a stack is the place of its top cell; two stacks are the same when
they are one place. A cell of size 0 is empty, as is having no cell at all.
-/

namespace Resumable

/-- The top of a stack and what is below it. -/
structure StackCell where
  head : Int
  tail : Option Nat
  size : Nat
  deriving Repr, Inhabited

/-- Stacks by the places of their top cells. -/
structure StackHeap where
  cells : Array StackCell := #[]
  deriving Repr, Inhabited

/-- A stack in a heap; nothing is the empty stack. -/
abbrev StackRef := Option Nat

namespace StackHeap

/-- Puts a cell into the heap. -/
def add (h : StackHeap) (c : StackCell) : StackRef × StackHeap :=
  (some h.cells.size, ⟨h.cells.push c⟩)

/-- The top cell of a stack that is not empty. -/
def top? (h : StackHeap) (s : StackRef) : Option StackCell :=
  (s.bind fun i => h.cells[i]?).filter fun c => c.size != 0

/-- The number of elements. -/
def size (h : StackHeap) (s : StackRef) : Nat := ((h.top? s).map (·.size)).getD 0

/-- A stack with one more element. -/
def push (h : StackHeap) (s : StackRef) (v : Int) : StackRef × StackHeap :=
  h.add ⟨v, s, h.size s + 1⟩

/-- The stack below the top element; nothing when there is none. -/
def pop? (h : StackHeap) (s : StackRef) : Option StackRef := (h.top? s).map (·.tail)

/-- The top element. -/
def peek? (h : StackHeap) (s : StackRef) : Option Int := (h.top? s).map (·.head)

/-- The elements from the top, at most `fuel` of them. -/
def elemsAt (h : StackHeap) : Nat → StackRef → List Int
  | 0, _ => []
  | fuel + 1, s =>
    match h.top? s with
    | some c => c.head :: h.elemsAt fuel c.tail
    | none => []

/-- The elements from the top. -/
def elems (h : StackHeap) (s : StackRef) : List Int := h.elemsAt (h.size s) s

/-- Drops `n` elements. -/
def drop (h : StackHeap) : Nat → StackRef → StackRef
  | 0, s => s
  | n + 1, s =>
    match h.pop? s with
    | some t => h.drop n t
    | none => s

/-- Drops elements until at most `depth` remain. -/
def popTo (h : StackHeap) (s : StackRef) (depth : Nat) : StackRef := h.drop (h.size s - depth) s

end StackHeap

end Resumable
