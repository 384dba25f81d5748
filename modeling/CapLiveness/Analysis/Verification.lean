import CapLiveness.Analysis.Result

/-!
# Verification of a result

A result is checked against the properties it must have: the tables are a fixed
point of the equations, no block drops at its end what is live on exit from it,
whatever is live on exit from a block is live in each successor or dropped on
entry to it, and the entry drop contains nothing that the entry function needs.

The checks read the tables at the successors and call targets of the blocks as
they are now. They are meaningful when all of these have a place in the tables
(`Result.isClosed`).
-/

set_option autoImplicit false

namespace CapLiveness

/-- A way in which a result fails its checks. -/
inductive Violation where
  | unstableFunction (slot : Nat)
  | unstableBlock (index : Nat)
  | dropsLive (index : Nat) (kinds : CapSet)
  | lostOnEdge (index : Nat) (successor : BlockId) (kinds : CapSet)
  | entryDrop

/-- The text of a violation. -/
def Violation.message (p : Program) : Violation → String
  | .unstableFunction slot =>
    s!"function {p.functionName (functionOfSlot p.functions.size slot)}: sets are not a fixed point"
  | .unstableBlock b => s!"block {p.blockName (Int.ofNat b)}: sets are not a fixed point"
  | .dropsLive b kinds =>
    s!"block {p.blockName (Int.ofNat b)}: drops {kinds.text} at its end, which is live on exit"
  | .lostOnEdge b successor kinds =>
    s!"edge {p.blockName (Int.ofNat b)} -> {p.blockName successor}: " ++
      s!"{kinds.text} neither live nor dropped"
  | .entryDrop => s!"entry drop overlaps the requirement of {p.functionName p.entry}"

namespace Setting

/-- Whether visiting an entity would change nothing. -/
def isStable (s : Setting) (t : Tables) (entity : Entity) : Bool :=
  (s.transfer t entity).all fun demand => demand.2.subsetOf (t.get demand.1)

/-- The entities that would change if they were visited, opaque ones left out. -/
def unstable (s : Setting) (t : Tables) : List Violation :=
  (s.openSlots.filter fun slot => !s.isStable t (.function slot)).map .unstableFunction ++
    ((s.openBlocks.map (·.2)).filter fun b => !s.isStable t (.block b)).map .unstableBlock

/-- Whether the successors of a block have a place in the tables, and its callees too. -/
def isClosedAt (s : Setting) (block : Block) : Bool :=
  block.successors.all s.program.hasBlock &&
    (block.kind != .call ||
      block.target.targets.all fun f => (slotOf? s.graph.functionCount f).isSome)

end Setting

namespace Result

/-- Whether every successor and every call target of a block of a function that is
not opaque has a place in the tables. -/
def isClosed (r : Result) : Bool :=
  r.setting.openBlocks.all fun entry => r.setting.isClosedAt entry.1

/-- What a block drops at its end and is live on exit from it. -/
def dropViolations (r : Result) (b : Nat) : List Violation :=
  let kinds := r.dropEnd.get (Int.ofNat b) ∩ r.tables.get ⟨.liveOut, b⟩
  if kinds.isEmpty then [] else [.dropsLive b kinds]

/-- What is live on exit from a block and lost on the way to a successor. -/
def edgeViolations (r : Result) (b : Nat) (successor : BlockId) : List Violation :=
  let kinds := r.tables.get ⟨.liveOut, b⟩ \
    (r.tables.get ⟨.liveIn, successor.toNat⟩ ∪ r.dropStart.get successor)
  if kinds.isEmpty then [] else [.lostOnEdge b successor kinds]

/-- The entry drop, if it meets what the entry function needs. -/
def entryViolations (r : Result) : List Violation :=
  let kinds := r.entryDrop ∩ r.setting.requirement r.tables r.program.entry
  if kinds.isEmpty then [] else [.entryDrop]

/-- All violations, in the order in which they are reported. -/
def violations (r : Result) : List Violation :=
  r.setting.unstable r.tables ++
    (r.setting.openBlocks.flatMap fun entry =>
      r.dropViolations entry.2 ++ entry.1.successors.flatMap (r.edgeViolations entry.2)) ++
    r.entryViolations

/-- The violations as one problem, if there are any. -/
def verify (r : Result) : Option Problem :=
  Problem.ofCauses (r.violations.map fun violation => .plain (violation.message r.program))

/-- Whether solving the equations again would change nothing. -/
def converged (r : Result) : Bool := (r.setting.unstable r.tables).isEmpty

end Result

end CapLiveness
