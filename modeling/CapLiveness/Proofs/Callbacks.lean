import CapLiveness.Proofs.RevocationSafety

/-!
# Executions with repeated callbacks

Code outside the program may call back more than once before it returns to its call
site: when a callback returns, the next one may be entered (`Callbacks.Step`).

Executions start in any function, with an empty stack and everything held. A run of a
function by itself can be put on top of any execution that enters the function
(`Reached.lift`), so what callbacks do by themselves is what they do in the program.
What is live where an execution stands and at the end of all calls on its stack was so
before every step (`Callbacks.lasts_of_step`), also where a callback follows another.
-/

set_option autoImplicit false

namespace CapLiveness

namespace Program

/-- Whether a block calls code outside the program. -/
structure LeavesAt (p : Program) (c : BlockId) (site : Block) : Prop where
  found : p.block? c = some site
  isCall : site.kind = .call
  outside : site.target.reachesExternal = true

theorem LeavesAt.mayEnter {p : Program} {c : BlockId} {site : Block} (leaves : p.LeavesAt c site)
    {f : FunctionId} (external : p.IsExternal f) : p.MayEnter site f :=
  ⟨leaves.isCall, .inr ⟨leaves.outside, external⟩⟩

end Program

namespace Callbacks

/-! ## Executions -/

/-- **One step of an execution with repeated callbacks.** When a function returns that code
outside may enter, to a call site that leads outside, another one may follow it. It makes
no difference whether the first was called by the site itself: code outside might have
called it as well. -/
inductive Step (p : Program) (plan : Plan) : Machine → Machine → Prop where
  | plain {m n : Machine} (step : CapLiveness.Step p plan m n) : Step p plan m n
  | again {b c first : BlockId} {block site : Block} {f : FunctionId} {function : Function}
      {stack : List BlockId} {held : CapSet} (found : p.block? b = some block)
      (returns : block.exit = .return) (callback : p.IsExternal block.function)
      (leaves : p.LeavesAt c site) (external : p.IsExternal f)
      (callee : p.function? f = some function) (isFirst : function.blocks.head? = some first) :
      Step p plan ⟨.leaving b, c :: stack, held⟩ ⟨.entering first, c :: stack, held⟩

/-- The states that executions of a function reach, with everything held at first. The
executions of a program are those of its entry function. -/
inductive Reached (p : Program) (plan : Plan) (f : FunctionId) : Machine → Prop where
  | start {function : Function} {first : BlockId} (callee : p.function? f = some function)
      (isFirst : function.blocks.head? = some first) :
      Reached p plan f ⟨.entering first, [], p.enumeration.all⟩
  | step {m n : Machine} (reached : Reached p plan f m) (step : Step p plan m n) :
      Reached p plan f n

variable {p : Program} {plan : Plan} {f : FunctionId} {k : Nat}

theorem Step.mem_held_iff {m n : Machine} (step : Step p plan m n) :
    k ∈ n.held ↔ k ∈ m.held ∧ k ∉ m.control.revoked plan := by
  cases step with
  | plain step => exact step.mem_held_iff
  | again => exact ⟨fun member => ⟨member, CapSet.not_mem_empty k⟩, fun member => member.1⟩

theorem Reached.held_subset {m : Machine} (reached : Reached p plan f m) :
    m.held ⊆ p.enumeration.all := by
  induction reached with
  | start => exact fun _ member => member
  | step _ step ih => exact fun k member => ih k (step.mem_held_iff.mp member).1

/-- The calls on the stack of an execution were reached by it. -/
theorem Reached.exists_inside {m : Machine} (reached : Reached p plan f m) {c : BlockId}
    (onStack : c ∈ m.stack) : ∃ stack held, Reached p plan f ⟨.inside c, stack, held⟩ := by
  induction reached with
  | start => cases onStack
  | step reached step ih =>
    cases step with
    | plain step =>
      cases step with
      | enter | work | callDeclaration | callOutside | finish | jump => exact ih onStack
      | back => exact ih (List.mem_cons_of_mem _ onStack)
      | call =>
        rcases List.mem_cons.mp onStack with rfl | onStack
        · exact ⟨_, _, reached⟩
        · exact ih onStack
    | again => exact ih onStack

/-! ## Runs on top of each other -/

/-- What can be done with a stack can be done with more below it. -/
theorem Step.lift {m n : Machine} (step : Step p plan m n) (base : List BlockId) (held : CapSet) :
    ∃ after,
      Step p plan ⟨m.control, m.stack ++ base, held⟩ ⟨n.control, n.stack ++ base, after⟩ := by
  cases step with
  | plain step =>
    cases step with
    | enter => exact ⟨_, .plain .enter⟩
    | work found noCall => exact ⟨_, .plain (.work found noCall)⟩
    | call found enters callee isFirst => exact ⟨_, .plain (.call found enters callee isFirst)⟩
    | callDeclaration found enters callee isDeclaration =>
      exact ⟨_, .plain (.callDeclaration found enters callee isDeclaration)⟩
    | callOutside found isCall outside => exact ⟨_, .plain (.callOutside found isCall outside)⟩
    | finish => exact ⟨_, .plain .finish⟩
    | jump found successor => exact ⟨_, .plain (.jump found successor)⟩
    | back found returns => exact ⟨_, .plain (.back found returns)⟩
  | again found returns callback leaves external callee isFirst =>
    exact ⟨_, .again found returns callback leaves external callee isFirst⟩

/-- **Runs on top of each other.** Where an execution enters a function, it can go on as the
function does by itself. It then holds what both hold. -/
theorem Reached.lift {g : FunctionId} {base : List BlockId} {held : CapSet}
    (entered : ∀ {function : Function} {first : BlockId}, p.function? f = some function →
      function.blocks.head? = some first → Reached p plan g ⟨.entering first, base, held⟩)
    {m : Machine} (reached : Reached p plan f m) :
    ∃ after, Reached p plan g ⟨m.control, m.stack ++ base, after⟩ ∧
      ∀ k, k ∈ after ↔ k ∈ held ∧ k ∈ m.held := by
  induction reached with
  | start callee isFirst =>
    have start := entered callee isFirst
    exact ⟨held, start, fun k => ⟨fun member => ⟨member, start.held_subset k member⟩, And.left⟩⟩
  | @step m n _ step ih =>
    obtain ⟨before, reached, both⟩ := ih
    obtain ⟨after, lifted⟩ := step.lift base before
    refine ⟨after, reached.step lifted, fun k => ?_⟩
    rw [lifted.mem_held_iff, step.mem_held_iff, both, and_assoc]

theorem Reached.call {g : FunctionId} {c : BlockId} {site : Block} {stack : List BlockId}
    {held : CapSet} (reached : Reached p plan g ⟨.inside c, stack, held⟩)
    (found : p.block? c = some site) (enters : p.MayEnter site f) {m : Machine}
    (run : Reached p plan f m) :
    ∃ after, Reached p plan g ⟨m.control, m.stack ++ c :: stack, after⟩ ∧
      ∀ k, k ∈ after ↔ k ∈ held ∧ k ∈ m.held :=
  run.lift fun callee isFirst => reached.step (.plain (.call found enters callee isFirst))

section Stack

variable (wf : p.WellFormed)
include wf

/-- Executions of a function run what their stack leads to. -/
theorem Reached.runs {m : Machine} (reached : Reached p plan f m) : m.Runs p f := by
  induction reached with
  | start callee isFirst => exact wf.runs_entering callee isFirst .refl
  | step _ step ih =>
    cases step with
    | plain step => exact wf.runs_step ih step
    | again _ _ _ leaves external callee isFirst =>
      obtain ⟨_, _, chain⟩ := ih
      obtain ⟨site, foundSite, _, below⟩ := chain.exists_site
      obtain rfl := Option.some.inj (leaves.found.symm.trans foundSite)
      exact wf.runs_entering callee isFirst (.call foundSite (leaves.mayEnter external) below)

/-! ## What lasts -/

/-- Whether a kind is live where the machine stands and at the end of every call on its
stack. -/
def Lasts (p : Program) (k : Nat) (m : Machine) : Prop :=
  p.LiveAt m.control.point k ∧ ∀ c ∈ m.stack, p.LiveAt (.exit c) k

/-- What lasts after a step did so before it. -/
theorem lasts_of_step {m n : Machine} (reached : Reached p plan f m) (step : Step p plan m n)
    (lasts : Lasts p k n) : Lasts p k m := by
  obtain ⟨live, calls⟩ := lasts
  cases step with
  | plain step =>
    cases step with
    | enter | finish => exact ⟨live, calls⟩
    | work found | callDeclaration found | callOutside found =>
      exact ⟨wf.flows_of_leads (.through found) live, calls⟩
    | jump found successor => exact ⟨wf.flows_of_leads (.successor found successor) live, calls⟩
    | call found =>
      obtain ⟨liveAfter, calls⟩ := List.forall_mem_cons.mp calls
      exact ⟨wf.flows_of_leads (.through found) liveAfter, calls⟩
    | back found returns =>
      obtain ⟨block, foundBlock, chain⟩ := reached.runs wf
      obtain rfl := Option.some.inj (found.symm.trans foundBlock)
      obtain ⟨site, foundSite, enters, _⟩ := chain.exists_site
      exact ⟨wf.liveAt_return found returns foundSite enters live,
        List.forall_mem_cons.mpr ⟨live, calls⟩⟩
  | again found returns callback leaves =>
    have liveAfter := calls _ List.mem_cons_self
    exact ⟨wf.liveAt_return found returns leaves.found (leaves.mayEnter callback) liveAfter, calls⟩

end Stack

end Callbacks

end CapLiveness
