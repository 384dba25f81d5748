import CapLiveness.Program.Basic

/-!
# The graph of a program

The analysis keeps one place for each function, called its slot. With `n`
functions, slots `0` to `n - 1` are the functions, slot `n` stands for code
outside the program that is called from inside it, and slot `n + 1` for callers
outside the program.

A graph records, for a program as it is at one moment, the control-flow
predecessors of each block, the call sites of each function, the call sites that
may enter each slot, and the functions that can be entered from outside. It is
data: a program that changes later keeps the graph it had.

What concerns blocks is collected in one pass over them (`BlockIndex.enter`): a
block is appended to a row of a table for each of its successors, for its function
and for each slot that its call may enter.
-/

set_option autoImplicit false

namespace CapLiveness

/-! ## Slots -/

/-- The slot of a function id among `n` functions, if the id has one. The two ids
for code outside the program have the last two slots. -/
def slotOf? (n : Nat) (f : FunctionId) : Option Nat :=
  if f = FunctionId.callsExternal then some n
  else if f = FunctionId.callingExternal then some (n + 1)
  else if 0 ≤ f ∧ f < n + 2 then some f.toNat
  else none

/-- The function id of a slot among `n` functions. -/
def functionOfSlot (n slot : Nat) : FunctionId :=
  if slot = n then FunctionId.callsExternal
  else if slot = n + 1 then FunctionId.callingExternal
  else Int.ofNat slot

/-- The slots that a call may enter, in increasing order and without repeats. The
slot of code outside the program stands for callees beyond the known targets. -/
def calleeSlots (n : Nat) (target : CallTarget) : List Nat :=
  let known := target.targets.filterMap (slotOf? n)
  let slots := if target.reachesExternal then known ++ [n] else known
  (slots.mergeSort (· ≤ ·)).eraseReps

/-! ## One pass over the blocks -/

/-- Whether a known function is the only callee of a call. -/
def CallTarget.isDirect : CallTarget → Bool
  | .direct _ => true
  | _ => false

/-- A table with one more entry at the end of a row. A number without a row adds
nothing. -/
def appendTo (rows : Array (List Nat)) (row : Int) (entry : Nat) : Array (List Nat) :=
  match row with
  | .ofNat i => rows.modify i (· ++ [entry])
  | .negSucc _ => rows

/-- What a pass over the blocks of a program collects. -/
structure BlockIndex where
  /-- For each block, the blocks that have it as a successor. -/
  predecessors : Array (List Nat)
  /-- For each slot, the call sites of its function. -/
  sites : Array (List Nat)
  /-- For each slot, the call sites that may enter it. -/
  callers : Array (List Nat)
  /-- The number of indirect calls. -/
  indirect : Nat
  /-- The number of indirect calls with a complete resolution. -/
  complete : Nat

namespace BlockIndex

/-- Nothing is collected for `n` functions and a number of blocks. -/
def empty (n blocks : Nat) : BlockIndex :=
  { predecessors := Array.replicate blocks []
    sites := Array.replicate (n + 2) []
    callers := Array.replicate (n + 2) []
    indirect := 0
    complete := 0 }

/-- Enters the call of the block at position `b`. -/
def enterCall (n : Nat) (index : BlockIndex) (block : Block) (b : Nat) : BlockIndex :=
  { index with
    sites := appendTo index.sites block.function b
    callers := (calleeSlots n block.target).foldl
      (fun rows slot => appendTo rows (Int.ofNat slot) b) index.callers
    indirect := if block.target.isDirect then index.indirect else index.indirect + 1
    complete :=
      if block.target.isDirect || block.target.reachesExternal then index.complete
      else index.complete + 1 }

/-- Enters a block with its position. -/
def enter (n : Nat) (index : BlockIndex) (entry : Block × Nat) : BlockIndex :=
  let followed := { index with
    predecessors := entry.1.successors.foldl (fun rows s => appendTo rows s entry.2)
      index.predecessors }
  if entry.1.kind = .call then followed.enterCall n entry.1 entry.2 else followed

end BlockIndex

namespace Program

/-- The blocks with their positions, in order. -/
def blockEntries (p : Program) : List (Block × Nat) := p.blocks.toList.zipIdx

/-- What a pass over the blocks collects. -/
def blockIndex (p : Program) : BlockIndex :=
  p.blockEntries.foldl (BlockIndex.enter p.functions.size)
    (BlockIndex.empty p.functions.size p.blocks.size)

/-- The functions that can be entered from outside the program: those with their
address taken, except the entry function. -/
def externalFunctions (p : Program) : List Nat :=
  p.functions.toList.zipIdx.filterMap fun entry =>
    if entry.1.addressTaken ∧ entry.1.id ≠ p.entry then some entry.2 else none

end Program

/-! ## Graphs -/

/-- The call graph and the control-flow graphs of a program. -/
structure Graph where
  /-- The number of functions. -/
  functionCount : Nat
  predecessors : Array (List Nat)
  sites : Array (List Nat)
  callers : Array (List Nat)
  external : List Nat
  /-- For each slot, whether its function can be entered from outside the program. -/
  externalSlots : Array Bool
  /-- The number of indirect calls. -/
  indirect : Nat
  /-- The number of indirect calls with a complete resolution. -/
  complete : Nat

namespace Graph

/-- The number of slots. -/
def slotCount (g : Graph) : Nat := g.functionCount + 2

/-- The slot of code outside the program that is called from inside it. -/
def callsExternal (g : Graph) : Nat := g.functionCount

/-- The slot of callers outside the program. -/
def callingExternal (g : Graph) : Nat := g.functionCount + 1

/-- Whether the function in a slot can be entered from outside the program. -/
def isExternal (g : Graph) (slot : Nat) : Bool := g.externalSlots.getD slot false

/-- The graph of a program. -/
def ofProgram (p : Program) : Graph :=
  let index := p.blockIndex
  { functionCount := p.functions.size
    predecessors := index.predecessors.map (·.mergeSort (· ≤ ·))
    sites := index.sites
    callers := index.callers
    external := p.externalFunctions
    externalSlots := p.externalFunctions.foldl (fun marks slot => marks.setIfInBounds slot true)
      (Array.replicate (p.functions.size + 2) false)
    indirect := index.indirect
    complete := index.complete }

/-- The control-flow predecessors of a block, in increasing order. -/
def predecessorsOf (g : Graph) (b : Nat) : List Nat := g.predecessors.getD b []

/-- The call sites of the function in a slot, in increasing order. -/
def sitesOf (g : Graph) (slot : Nat) : List Nat := g.sites.getD slot []

/-- The call sites that may enter a slot, in increasing order. -/
def callersOf (g : Graph) (slot : Nat) : List Nat := g.callers.getD slot []

end Graph

end CapLiveness
