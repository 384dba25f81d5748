import CapLiveness.Analysis.Equations

/-!
# Reachable blocks

A breadth-first search over the blocks of a program. Control goes from a block to
its successors, and from a call site to the first blocks of the functions it may
call. The search starts at the entry function; when it is exhausted, it goes on
from the functions that can be entered from outside the program.

The search keeps the blocks it has not seen, the blocks it has reached and not
expanded, and the order in which blocks were reached. Reaching a block moves it
from the first list to the second, so their lengths together never grow
(`size_reachAll`), and expanding a block shortens the second. The first list stands
for the set of the blocks seen, in any representation: a block is in one of the two
(`Search.Divides`, in `CapLiveness.Proofs.BreadthFirst`), and all that is used of the
set is that inserting a block tells whether it is new.
-/

set_option autoImplicit false

namespace CapLiveness

/-- A block that a search has reached, and the block through which it came there. -/
structure Arrival where
  block : Nat
  via : Option Nat
deriving DecidableEq

/-- The state of a search. -/
structure Search where
  /-- The blocks that are not in the set of those seen. -/
  unseen : List Nat
  pending : List Nat
  /-- The blocks reached, in the order in which they were reached. -/
  arrivals : List Arrival

namespace Search

/-- Reaches a block, unless it was reached before. -/
def reach (via : Option Nat) (search : Search) (b : Nat) : Search :=
  if b ∈ search.unseen then
    { unseen := search.unseen.erase b
      pending := search.pending ++ [b]
      arrivals := search.arrivals ++ [⟨b, via⟩] }
  else search

/-- Reaches several blocks, in order. -/
def reachAll (via : Option Nat) (search : Search) (blocks : List Nat) : Search :=
  blocks.foldl (reach via) search

/-- The number of blocks that are not expanded. -/
def size (search : Search) : Nat := search.unseen.length + search.pending.length

theorem size_reach (via : Option Nat) (search : Search) (b : Nat) :
    (search.reach via b).size = search.size := by
  unfold reach
  split
  case isFalse => rfl
  case isTrue found =>
    have positive := List.length_pos_of_mem found
    simp only [size, List.length_erase_of_mem found, List.length_append, List.length_singleton]
    omega

/-- **Reaching blocks keeps the number of blocks that are not expanded.** -/
theorem size_reachAll (via : Option Nat) (search : Search) (blocks : List Nat) :
    (search.reachAll via blocks).size = search.size := by
  induction blocks generalizing search with
  | nil => rfl
  | cons first rest ih => exact (ih (search.reach via first)).trans (size_reach via search first)

/-- Expands pending blocks until none is left. -/
def exhaust (next : Nat → List Nat) (search : Search) : Search :=
  match search with
  | ⟨_, [], _⟩ => search
  | ⟨unseen, b :: pending, arrivals⟩ =>
    exhaust next (reachAll (some b) ⟨unseen, pending, arrivals⟩ (next b))
termination_by search.size
decreasing_by
  rw [size_reachAll]
  simp only [size, List.length_cons]
  omega

/-- The blocks on the way from a root of the search to a block. The arrivals are
given with the latest first, and what follows the block is already known. -/
def wayTo : List Arrival → Nat → List Nat → List Nat
  | [], _, rest => rest
  | arrival :: earlier, b, rest =>
    if arrival.block = b then
      match arrival.via with
      | some via => wayTo earlier via (b :: rest)
      | none => b :: rest
    else wayTo earlier b rest

/-- A chain of blocks that leads to a block from a root of the search, if the
block was reached. -/
def pathTo? (search : Search) (b : Nat) : Option (List Nat) :=
  if search.arrivals.any (·.block == b) then some (wayTo search.arrivals.reverse b [])
  else none

end Search

namespace Setting

/-- The first block of the function in a slot, if there is one. -/
def firstBlocks (s : Setting) (slot : Nat) : List Nat :=
  match s.program.functions[slot]? with
  | some f => (f.blocks.head?.filter (0 ≤ ·)).toList.map Int.toNat
  | none => []

/-- The first blocks of the functions that can be entered from outside. -/
def externalRoots (s : Setting) : List Nat := s.graph.external.flatMap s.firstBlocks

/-- The first blocks of the functions that a call may enter. -/
def calleeBlocks (s : Setting) (block : Block) : List Nat :=
  (s.callees block).flatMap fun slot =>
    if slot = s.graph.callsExternal then s.externalRoots else s.firstBlocks slot

/-- The blocks to which control may go from a block. -/
def nextBlocks (s : Setting) (b : Nat) : List Nat :=
  match s.block? b with
  | some block =>
    (block.successors.filter (0 ≤ ·)).map Int.toNat ++
      if block.kind = .call then s.calleeBlocks block else []
  | none => []

/-- The search from the entry function, then from outside the program. -/
def reachable (s : Setting) : Search :=
  let start : Search := ⟨List.range s.program.blocks.size, [], []⟩
  let fromEntry := (start.reachAll none (s.firstBlocks s.program.entry.toNat)).exhaust s.nextBlocks
  (fromEntry.reachAll none s.externalRoots).exhaust s.nextBlocks

/-- Whether the search may expand a block: its successors are blocks, apart from
the id that stands for none, and its call targets are ids of functions. -/
def isSearchableAt (s : Setting) (b : Nat) : Bool :=
  match s.block? b with
  | some block =>
    block.successors.all (fun successor =>
      successor == BlockId.absent || s.program.hasBlock successor) &&
      (block.kind != .call || block.target.targets.all (FunctionId.callingExternal ≤ ·))
  | none => true

/-- Whether the search may expand every block that it reaches. -/
def isSearchable (s : Setting) : Bool :=
  s.reachable.arrivals.all fun arrival => s.isSearchableAt arrival.block

end Setting

end CapLiveness
