import CapLiveness.Proofs.LivenessPaths
import CapLiveness.Proofs.Plans

/-!
# Executions of planned programs

A machine runs a program into which the calls of a plan have been inserted. It keeps
the call sites that have not returned and the capabilities that it still holds, and it
never gets back what was revoked.

A block is entered, loses what the plan revokes at its start, does its work, loses what
the plan revokes at its end, and is left (`Control`). A block that calls enters one of
the functions that it may enter, or comes to its end at once: when the function is a
declaration, or when the callee is outside the program and calls nothing back. Control
leaves a block to any successor or, from the block in which a function returns, to the
end of the call site that entered it (`Step`). An execution is a chain of steps from
the first block of the entry function, with everything held (`Reached`); it may stop
anywhere.

The stack of a machine that started in a function is a chain of calls from there (`Chain`,
`Machine.Runs`). A reached machine started in the entry function
(`WellFormed.runs_of_reached`).
-/

set_option autoImplicit false

namespace CapLiveness

/-- How far a block has run. -/
inductive Control where
  | entering (b : BlockId)
  /-- The calls at the start of the block are done, and the block does its work. -/
  | inside (b : BlockId)
  /-- The block has done its work, and the calls at its end are to come. -/
  | ending (b : BlockId)
  | leaving (b : BlockId)

/-- The end of the block that is next. -/
def Control.point : Control → Point
  | entering b | inside b => .entry b
  | ending b | leaving b => .exit b

/-- The state of an execution. -/
structure Machine where
  control : Control
  /-- The call sites that have not returned, the latest first. -/
  stack : List BlockId
  held : CapSet

/-- **One step of an execution.** -/
inductive Step (p : Program) (plan : Plan) : Machine → Machine → Prop where
  | enter {b : BlockId} {stack : List BlockId} {held : CapSet} :
      Step p plan ⟨.entering b, stack, held⟩
        ⟨.inside b, stack, held \ plan.revoked [.processStart, .blockStart] b⟩
  | work {b : BlockId} {block : Block} {stack : List BlockId} {held : CapSet}
      (found : p.block? b = some block) (noCall : block.kind ≠ .call) :
      Step p plan ⟨.inside b, stack, held⟩ ⟨.ending b, stack, held⟩
  | call {c first : BlockId} {site : Block} {f : FunctionId} {function : Function}
      {stack : List BlockId} {held : CapSet} (found : p.block? c = some site)
      (enters : p.MayEnter site f) (callee : p.function? f = some function)
      (isFirst : function.blocks.head? = some first) :
      Step p plan ⟨.inside c, stack, held⟩ ⟨.entering first, c :: stack, held⟩
  | callDeclaration {c : BlockId} {site : Block} {f : FunctionId} {function : Function}
      {stack : List BlockId} {held : CapSet} (found : p.block? c = some site)
      (enters : p.MayEnter site f) (callee : p.function? f = some function)
      (isDeclaration : function.blocks = []) :
      Step p plan ⟨.inside c, stack, held⟩ ⟨.ending c, stack, held⟩
  | callOutside {c : BlockId} {site : Block} {stack : List BlockId} {held : CapSet}
      (found : p.block? c = some site) (isCall : site.kind = .call)
      (outside : site.target.reachesExternal = true) :
      Step p plan ⟨.inside c, stack, held⟩ ⟨.ending c, stack, held⟩
  | finish {b : BlockId} {stack : List BlockId} {held : CapSet} :
      Step p plan ⟨.ending b, stack, held⟩
        ⟨.leaving b, stack, held \ plan.revoked [.blockEnd] b⟩
  | jump {b next : BlockId} {block : Block} {stack : List BlockId} {held : CapSet}
      (found : p.block? b = some block) (successor : next ∈ block.successors) :
      Step p plan ⟨.leaving b, stack, held⟩ ⟨.entering next, stack, held⟩
  | back {b c : BlockId} {block : Block} {stack : List BlockId} {held : CapSet}
      (found : p.block? b = some block) (returns : block.exit = .return) :
      Step p plan ⟨.leaving b, c :: stack, held⟩ ⟨.ending c, stack, held⟩

/-- The states that executions reach. -/
inductive Reached (p : Program) (plan : Plan) : Machine → Prop where
  | start {function : Function} {first : BlockId}
      (isEntry : p.function? p.entry = some function)
      (isFirst : function.blocks.head? = some first) :
      Reached p plan ⟨.entering first, [], p.enumeration.all⟩
  | step {m n : Machine} (reached : Reached p plan m) (step : Step p plan m n) :
      Reached p plan n

/-! ## What is held -/

/-- What the next step revokes. -/
def Control.revoked (plan : Plan) : Control → CapSet
  | entering b => plan.revoked [.processStart, .blockStart] b
  | ending b => plan.revoked [.blockEnd] b
  | inside _ | leaving _ => ∅

/-- A step loses exactly what the plan revokes there. -/
theorem Step.mem_held_iff {p : Program} {plan : Plan} {m n : Machine} (step : Step p plan m n)
    {k : Nat} : k ∈ n.held ↔ k ∈ m.held ∧ k ∉ m.control.revoked plan := by
  cases step with
  | enter | finish => exact CapSet.mem_sdiff
  | work | call | callDeclaration | callOutside | jump | back =>
    exact ⟨fun member => ⟨member, CapSet.not_mem_empty k⟩, fun member => member.1⟩

/-- Only kinds of the enumeration are held. -/
theorem Reached.held_subset {p : Program} {plan : Plan} {m : Machine}
    (reached : Reached p plan m) : m.held ⊆ p.enumeration.all := by
  induction reached with
  | start => exact fun _ member => member
  | step _ step ih => exact fun k member => ih k (step.mem_held_iff.mp member).1

/-! ## Chains of calls -/

/-- A chain of calls from a function to the one that runs. -/
inductive Chain (p : Program) (f : FunctionId) : FunctionId → List BlockId → Prop where
  | refl : Chain p f f []
  | call {c : BlockId} {site : Block} {g : FunctionId} {stack : List BlockId}
      (found : p.block? c = some site) (enters : p.MayEnter site g)
      (below : Chain p f site.function stack) : Chain p f g (c :: stack)

theorem Chain.exists_site {p : Program} {f g : FunctionId} {c : BlockId} {stack : List BlockId}
    (chain : Chain p f g (c :: stack)) :
    ∃ site, p.block? c = some site ∧ p.MayEnter site g ∧ Chain p f site.function stack := by
  cases chain with
  | call found enters below => exact ⟨_, found, enters, below⟩

theorem Chain.eq {p : Program} {f g : FunctionId} (chain : Chain p f g []) : g = f := by
  cases chain
  rfl

/-- Whether the machine is in a block of the function that its stack leads to from the given
one. -/
def Machine.Runs (p : Program) (f : FunctionId) (m : Machine) : Prop :=
  ∃ block, p.block? m.control.point.block = some block ∧ Chain p f block.function m.stack

namespace Program.WellFormed

variable {p : Program} (wf : p.WellFormed) {plan : Plan} {f : FunctionId}
include wf

/-- The first block of a function is one of its blocks. -/
theorem exists_first {f : FunctionId} {function : Function} {first : BlockId}
    (found : p.function? f = some function) (isFirst : function.blocks.head? = some first) :
    ∃ block, p.block? first = some block ∧ block.function = f :=
  wf.exists_listed found (List.mem_of_head? isFirst)

theorem runs_entering {g : FunctionId} {function : Function} {first : BlockId}
    {stack : List BlockId} {held : CapSet} (callee : p.function? g = some function)
    (isFirst : function.blocks.head? = some first) (chain : Chain p f g stack) :
    Machine.Runs p f ⟨.entering first, stack, held⟩ := by
  obtain ⟨block, found, owner⟩ := wf.exists_first callee isFirst
  refine ⟨block, found, ?_⟩
  rw [owner]
  exact chain

theorem runs_step {m n : Machine} (runs : m.Runs p f) (step : Step p plan m n) : n.Runs p f := by
  obtain ⟨block, found, chain⟩ := runs
  cases step with
  | enter | work | callDeclaration | callOutside | finish => exact ⟨block, found, chain⟩
  | call foundSite enters callee isFirst =>
    obtain rfl := Option.some.inj (found.symm.trans foundSite)
    exact wf.runs_entering callee isFirst (.call foundSite enters chain)
  | jump foundBlock successor =>
    obtain rfl := Option.some.inj (found.symm.trans foundBlock)
    obtain ⟨next, foundNext, owner⟩ := (wf.block found).successors _ successor
    refine ⟨next, foundNext, ?_⟩
    rw [owner]
    exact chain
  | back =>
    obtain ⟨site, foundSite, _, below⟩ := chain.exists_site
    exact ⟨site, foundSite, below⟩

/-- **Reached machines run what their stack leads to.** -/
theorem runs_of_reached {m : Machine} (reached : Reached p plan m) : m.Runs p p.entry := by
  induction reached with
  | start isEntry isFirst => exact wf.runs_entering isEntry isFirst .refl
  | step _ step ih => exact wf.runs_step ih step

end Program.WellFormed

end CapLiveness
