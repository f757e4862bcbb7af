import Mathlib.Logic.Function.Basic

/-!
# Heaps of blocks

What a program sees of its allocator: blocks under their bases, and the byte
that a load of each index gives.  A block can lose bytes, and a load of a lost
one gives nothing.  A command says what one call does to the blocks.
-/

/-- A block: its size, and what the loads of its indices give. -/
structure Region (Byte : Type*) where
  size : Nat
  load : Nat → Option Byte

namespace Region

variable {Byte : Type*} {zero byte : Byte} {region : Region Byte}
  {size length index : Nat}

@[ext] theorem ext {left right : Region Byte} (size : left.size = right.size)
    (load : ∀ index, left.load index = right.load index) : left = right := by
  cases left
  cases right
  cases size
  exact congrArg _ (funext load)

/-- A new block. -/
def blank (zero : Byte) (size : Nat) : Region Byte where
  size := size
  load := fun index => if index < size then some zero else none

/-- The block gets another size, and its store a length.  What the store gains
is zero. -/
def resize (zero : Byte) (size length : Nat) (region : Region Byte) :
    Region Byte where
  size := size
  load := fun index =>
    if index < size ∧ index < length then
      some ((region.load index).getD zero)
    else none

/-- A lost byte stays lost. -/
def write (index : Nat) (byte : Byte) (region : Region Byte) : Region Byte :=
  { region with
    load := fun other =>
      if other = index then (region.load other).map fun _ => byte
      else region.load other }

end Region

/-- Blocks under their bases. -/
abbrev Heap (Byte : Type*) := Nat → Option (Region Byte)

namespace Heap

variable {Byte : Type*}

def empty : Heap Byte := fun _ => none

inductive Command (Byte : Type*) where
  | skip
  | make (base size : Nat)
  | drop (base : Nat)
  | resize (base newBase size length : Nat)
  | write (addr : Nat) (byte : Byte)

/-- What a command makes of a heap. -/
def Command.run (zero : Byte) : Command Byte → Heap Byte → Heap Byte
  | skip, heap => heap
  | make base size, heap =>
      Function.update heap base (some (.blank zero size))
  | drop base, heap => Function.update heap base none
  | resize base newBase size length, heap =>
      Function.update (Function.update heap base none) newBase
        ((heap base).map (Region.resize zero size length))
  | write addr byte, heap => fun base =>
      (heap base).map fun region =>
        if base ≤ addr then region.write (addr - base) byte else region

end Heap
