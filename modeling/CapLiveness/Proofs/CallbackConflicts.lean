import CapLiveness.Proofs.Callbacks

/-!
# Conflicts between callbacks

The analysis takes what is live after a callback to be what is live after the calls
that lead outside. It leaves out what the next callback requires. So a plan may revoke
inside a callback what the same callback uses when it is entered again
(`callbacks_unsafe`).

This is the only way in which an execution can lack what a block uses. It happens to a
kind exactly if the program can come to a call that leads outside, some callback, run by
itself, can return without the kind, and some callback, run by itself, can come to use
it (`Result.Conflict`, `callbacks_safe_iff`). In one direction, the run of the first
callback is followed by the run of the second. For the other, a ledger is kept along an
execution: whatever is needed and not held was lost by a callback that has returned, and
a later callback is running (`Callbacks.Accounted`, `Callbacks.Ledger`).
-/

set_option autoImplicit false

namespace CapLiveness

namespace Callbacks

variable {p : Program} {plan : Plan} {f : FunctionId} {k : Nat}

/-! ## The ledger -/

/-- Whether some callback can return without a kind when it is run by itself. -/
def Loses (p : Program) (plan : Plan) (k : Nat) : Prop :=
  ∃ f b block held, p.IsExternal f ∧ Reached p plan f ⟨.leaving b, [], held⟩ ∧
    p.block? b = some block ∧ block.exit = .return ∧ k ∉ held

/-- Whether the machine runs a callback, on top of a call that leads outside and after which
the kind is not live. -/
def InCallback (p : Program) (plan : Plan) (k : Nat) (m : Machine) : Prop :=
  ∃ f c site stack below held, p.IsExternal f ∧ p.LeavesAt c site ∧ ¬ p.LiveAt (.exit c) k ∧
    m.stack = stack ++ c :: below ∧ Reached p plan f ⟨m.control, stack, held⟩

/-- Whether what is needed is held or lost by callbacks, one of which runs. -/
def Accounted (p : Program) (plan : Plan) (k : Nat) (m : Machine) : Prop :=
  p.Needed k m → k ∈ m.held ∨ Loses p plan k ∧ InCallback p plan k m

/-- **The ledger of an execution.** For every call on the stack, the kind was accounted for
when it was made. What was held then, and is not lost by the function that runs now, is
still held, or lost by callbacks. -/
inductive Ledger (p : Program) (plan : Plan) (k : Nat) : Machine → Prop where
  | bottom {control : Control} {held : CapSet} : Ledger p plan k ⟨control, [], held⟩
  | call {c : BlockId} {f : FunctionId} {stack : List BlockId} {control : Control}
      {before alone held : CapSet} (below : Ledger p plan k ⟨.inside c, stack, before⟩)
      (accounted : Accounted p plan k ⟨.inside c, stack, before⟩)
      (run : Reached p plan f ⟨control, [], alone⟩)
      (kept : k ∈ before → k ∈ alone → k ∈ held ∨ Loses p plan k) :
      Ledger p plan k ⟨control, c :: stack, held⟩

/-- A callback goes on, is followed by another, or returns to a call after which the kind is
not live. -/
theorem InCallback.step {m n : Machine} (inCallback : InCallback p plan k m)
    (step : Step p plan m n) : InCallback p plan k n ∨ ¬ p.LiveAt n.control.point k := by
  obtain ⟨control, whole, held⟩ := m
  obtain ⟨f, c, site, stack, below, alone, external, leaves, dead, isStack, run⟩ := inCallback
  -- A step that leaves the call site alone is one of the callback by itself.
  have goesOn : ∀ {next : Control} {after : CapSet} (above : List BlockId),
      Step p plan ⟨control, stack, alone⟩ ⟨next, above, after⟩ →
      n.control = next → n.stack = above ++ c :: below → InCallback p plan k n := by
    rintro next after above step rfl isStack
    exact ⟨f, c, site, above, below, after, external, leaves, dead, isStack, run.step step⟩
  cases step with
  | plain step =>
    cases step with
    | enter => exact .inl (goesOn stack (.plain .enter) rfl isStack)
    | work found noCall => exact .inl (goesOn stack (.plain (.work found noCall)) rfl isStack)
    | call found enters callee isFirst =>
      refine .inl (goesOn (_ :: stack) (.plain (.call found enters callee isFirst)) rfl ?_)
      exact congrArg (List.cons _) isStack
    | callDeclaration found enters callee isDeclaration =>
      exact .inl (goesOn stack (.plain (.callDeclaration found enters callee isDeclaration)) rfl
        isStack)
    | callOutside found isCall outside =>
      exact .inl (goesOn stack (.plain (.callOutside found isCall outside)) rfl isStack)
    | finish => exact .inl (goesOn stack (.plain .finish) rfl isStack)
    | jump found successor =>
      exact .inl (goesOn stack (.plain (.jump found successor)) rfl isStack)
    | back found returns =>
      cases stack with
      | nil =>
        obtain ⟨rfl, rfl⟩ := List.cons.inj isStack
        exact .inr dead
      | cons top stack =>
        obtain ⟨rfl, rfl⟩ := List.cons.inj isStack
        exact .inl (goesOn stack (.plain (.back found returns)) rfl rfl)
  | @again _ _ _ _ _ g _ _ _ found returns callback leavesTop another callee isFirst =>
    cases stack with
    | nil =>
      exact .inl ⟨g, c, site, [], below, _, another, leaves, dead, isStack, .start callee isFirst⟩
    | cons top stack =>
      obtain ⟨rfl, rfl⟩ := List.cons.inj isStack
      exact .inl (goesOn (_ :: stack)
        (.again found returns callback leavesTop another callee isFirst) rfl rfl)

/-- A step that does not touch the stack keeps the ledger. -/
theorem Ledger.local {control next : Control} {stack : List BlockId} {held after : CapSet}
    (ledger : Ledger p plan k ⟨control, stack, held⟩)
    (steps : ∀ stack held, ∃ after, Step p plan ⟨control, stack, held⟩ ⟨next, stack, after⟩)
    (step : Step p plan ⟨control, stack, held⟩ ⟨next, stack, after⟩) :
    Ledger p plan k ⟨next, stack, after⟩ := by
  cases ledger with
  | bottom => exact .bottom
  | @call _ _ _ _ _ alone _ below accounted run kept =>
    obtain ⟨aloneAfter, alone⟩ := steps [] alone
    refine .call below accounted (run.step alone) ?_
    intro before member
    obtain ⟨member, notRevoked⟩ := alone.mem_held_iff.mp member
    exact (kept before member).imp_left fun member => step.mem_held_iff.mpr ⟨member, notRevoked⟩

section Ledger

variable (wf : p.WellFormed)
include wf

/-- The ledger when a function returns to the call that has entered it. -/
theorem Ledger.back {b c : BlockId} {block site : Block} {stack : List BlockId} {held : CapSet}
    (ledger : Ledger p plan k ⟨.leaving b, c :: stack, held⟩) (found : p.block? b = some block)
    (returns : block.exit = .return) (foundSite : p.block? c = some site)
    (enters : p.MayEnter site block.function) : Ledger p plan k ⟨.ending c, stack, held⟩ := by
  obtain _ | ⟨below, _, run, kept⟩ := ledger
  cases below with
  | bottom => exact .bottom
  | call below accounted caller keptBelow =>
    obtain ⟨other, foundOther, chain⟩ := run.runs wf
    obtain rfl := Option.some.inj (found.symm.trans foundOther)
    rw [chain.eq] at enters
    -- The caller by itself may go through the same call, and loses what the callee loses.
    obtain ⟨after, reached, both⟩ := caller.call foundSite enters run
    refine .call below accounted (reached.step (.plain (.back found returns))) ?_
    intro before member
    obtain ⟨inCaller, alone⟩ := (both k).mp member
    rcases keptBelow before inCaller with before | loses
    · exact kept before alone
    · exact .inr loses

/-- What was held at a call that leads outside is held when a callback returns to it, or lost
by callbacks. -/
theorem Ledger.kept_return {b c : BlockId} {block : Block} {stack : List BlockId} {held : CapSet}
    (ledger : Ledger p plan k ⟨.leaving b, c :: stack, held⟩) (found : p.block? b = some block)
    (returns : block.exit = .return) (callback : p.IsExternal block.function) :
    ∃ before, Ledger p plan k ⟨.inside c, stack, before⟩ ∧
      Accounted p plan k ⟨.inside c, stack, before⟩ ∧
        (k ∈ before → k ∈ held ∨ Loses p plan k) := by
  obtain _ | @⟨_, f, _, _, before, alone, _, below, accounted, run, kept⟩ := ledger
  refine ⟨before, below, accounted, fun member => ?_⟩
  by_cases inRun : k ∈ alone
  · exact kept member inRun
  · obtain ⟨other, foundOther, chain⟩ := run.runs wf
    obtain rfl := Option.some.inj (found.symm.trans foundOther)
    exact .inr ⟨f, b, block, alone, chain.eq ▸ callback, run, found, returns, inRun⟩

theorem ledger_step {m n : Machine} (reached : Reached p plan p.entry m)
    (ledger : Ledger p plan k m) (accounted : Accounted p plan k m) (step : Step p plan m n) :
    Ledger p plan k n := by
  cases id step with
  | plain plain =>
    cases plain with
    | enter => exact ledger.local (fun _ _ => ⟨_, .plain .enter⟩) step
    | work found noCall => exact ledger.local (fun _ _ => ⟨_, .plain (.work found noCall)⟩) step
    | callDeclaration found enters callee isDeclaration =>
      exact ledger.local
        (fun _ _ => ⟨_, .plain (.callDeclaration found enters callee isDeclaration)⟩) step
    | callOutside found isCall outside =>
      exact ledger.local (fun _ _ => ⟨_, .plain (.callOutside found isCall outside)⟩) step
    | finish => exact ledger.local (fun _ _ => ⟨_, .plain .finish⟩) step
    | jump found successor =>
      exact ledger.local (fun _ _ => ⟨_, .plain (.jump found successor)⟩) step
    | call found enters callee isFirst =>
      exact .call ledger accounted (.start callee isFirst) fun member _ => .inl member
    | back found returns =>
      obtain ⟨block, foundBlock, chain⟩ := reached.runs wf
      obtain rfl := Option.some.inj (found.symm.trans foundBlock)
      obtain ⟨site, foundSite, enters, _⟩ := chain.exists_site
      exact ledger.back wf found returns foundSite enters
  | again found returns callback leaves external callee isFirst =>
    obtain ⟨before, below, accounted, kept⟩ := ledger.kept_return wf found returns callback
    exact .call below accounted (.start callee isFirst) fun member _ => kept member

/-- What a callback requires is needed before a call that leads outside. -/
theorem needed_at_site {c : BlockId} {site : Block} (leaves : p.LeavesAt c site)
    (external : p.IsExternal f) (required : p.Requires f k) {stack : List BlockId}
    {held : CapSet} : p.Needed k ⟨.inside c, stack, held⟩ := by
  have enters := leaves.mayEnter external
  exact ⟨site, leaves.found, wf.liveAt_of_mayEnter leaves.found enters required,
    .here (wf.requires_of_mayEnter leaves.found enters required)⟩

/-- What a callback needs that follows another was accounted for before the call or when
the other returned. -/
theorem accounted_again {b c first : BlockId} {block site : Block} {g : FunctionId}
    {function : Function} {stack : List BlockId} {held : CapSet}
    (ledger : Ledger p plan k ⟨.leaving b, c :: stack, held⟩)
    (accounted : Accounted p plan k ⟨.leaving b, c :: stack, held⟩)
    (found : p.block? b = some block) (returns : block.exit = .return)
    (callback : p.IsExternal block.function) (leaves : p.LeavesAt c site)
    (external : p.IsExternal g) (callee : p.function? g = some function)
    (isFirst : function.blocks.head? = some first) :
    Accounted p plan k ⟨.entering first, c :: stack, held⟩ := by
  rintro ⟨next, foundNext, live, protects⟩
  obtain ⟨other, foundOther, owner⟩ := wf.exists_first callee isFirst
  obtain rfl := Option.some.inj (foundNext.symm.trans foundOther)
  rw [owner] at protects
  by_cases liveAfter : p.LiveAt (.exit c) k
  · -- What is live after the call is needed by the callback that returns, too.
    have protectsSite : p.Protects k site.function stack := by
      cases protects with
      | here required =>
        exact .here (wf.requires_of_mayEnter leaves.found (leaves.mayEnter external) required)
      | caller foundSite _ protects =>
        obtain rfl := Option.some.inj (leaves.found.symm.trans foundSite)
        exact protects
    have liveHere :=
      wf.liveAt_return found returns leaves.found (leaves.mayEnter callback) liveAfter
    rcases accounted ⟨block, found, liveHere, .caller leaves.found liveAfter protectsSite⟩ with
      member | ⟨loses, inCallback⟩
    · exact .inl member
    · have next := inCallback.step (.again found returns callback leaves external callee isFirst)
      exact .inr ⟨loses, next.resolve_right (not_not.mpr live)⟩
  · have required : p.Requires g k := by
      cases protects with
      | here required => exact required
      | caller _ live _ => exact absurd live liveAfter
    obtain ⟨before, _, accounted, kept⟩ := ledger.kept_return wf found returns callback
    rcases accounted (needed_at_site wf leaves external required) with
      member | ⟨loses, inCallback⟩
    · refine (kept member).imp_right fun loses => ⟨loses, ?_⟩
      exact ⟨g, c, site, [], stack, _, external, leaves, liveAfter, rfl, .start callee isFirst⟩
    · have next := inCallback.step
        (.plain (.call leaves.found (leaves.mayEnter external) callee isFirst))
      exact .inr ⟨loses, next.resolve_right (not_not.mpr live)⟩

end Ledger

end Callbacks

namespace Result.IsSolved

open Callbacks

variable {r : Result} {p : Program} (solved : r.IsSolved p) {options : PlanOptions} {k : Nat}
  {m n : Machine}
include solved

theorem accounted_step (reached : Callbacks.Reached p (Plan.ofResult r options) p.entry m)
    (ledger : Ledger p (Plan.ofResult r options) k m)
    (accounted : Accounted p (Plan.ofResult r options) k m)
    (step : Callbacks.Step p (Plan.ofResult r options) m n) :
    Accounted p (Plan.ofResult r options) k n := by
  have wf := solved.wellFormed
  cases id step with
  | again found returns callback leaves external callee isFirst =>
    exact accounted_again wf ledger accounted found returns callback leaves external callee isFirst
  | plain plain =>
    intro needed
    have runs := reached.runs wf
    have before := wf.needed_of_step runs plain needed
    rcases accounted before with member | ⟨loses, inCallback⟩
    · exact .inl (step.mem_held_iff.mpr ⟨member, solved.not_mem_revoked runs before⟩)
    · obtain ⟨_, _, live, _⟩ := needed
      exact .inr ⟨loses, (inCallback.step step).resolve_right (not_not.mpr live)⟩

/-- **What is needed is accounted for,** in every state that executions with repeated
callbacks reach. -/
theorem accounted (reached : Callbacks.Reached p (Plan.ofResult r options) p.entry m) :
    Ledger p (Plan.ofResult r options) k m ∧ Accounted p (Plan.ofResult r options) k m := by
  induction reached with
  | start =>
    refine ⟨.bottom, fun needed => .inl ?_⟩
    obtain ⟨_, _, live, _⟩ := needed
    exact Program.mem_all_of_flows live
  | step reached step ih =>
    obtain ⟨ledger, accounted⟩ := ih
    exact ⟨ledger_step solved.wellFormed reached ledger accounted step,
      solved.accounted_step reached ledger accounted step⟩

/-- A callback by itself returns with what lasts. -/
theorem mem_held_of_lasts {f : FunctionId} (required : p.Requires p.entry k)
    (reached : Callbacks.Reached p (Plan.ofResult r options) f m) (lasts : Lasts p k m) :
    k ∈ m.held := by
  induction reached with
  | start => exact Program.mem_all_of_flows lasts.1
  | step reached step ih =>
    have before := lasts_of_step solved.wellFormed reached step lasts
    obtain ⟨block, found, _⟩ := reached.runs solved.wellFormed
    refine step.mem_held_iff.mpr ⟨ih before, ?_⟩
    exact solved.not_mem_revoked_of_requires found before.1 required

end Result.IsSolved

/-! ## Conflicts -/

/-- **A conflict between callbacks**: the program can come to a call that leads outside, some
callback by itself can return without the kind, and some callback by itself can come to
use it. -/
structure Result.Conflict (r : Result) (plan : Plan) (k : Nat) : Prop where
  leaves : ∃ c site stack held, r.program.LeavesAt c site ∧
    Callbacks.Reached r.program plan r.program.entry ⟨.inside c, stack, held⟩
  loses : Callbacks.Loses r.program plan k
  uses : ∃ f b used stack held, r.program.IsExternal f ∧
    Callbacks.Reached r.program plan f ⟨.inside b, stack, held⟩ ∧
      r.localUses? b = some used ∧ k ∈ used

/-- In a conflict, an execution can come to lack the kind where a block uses it: the callback
that returns without the kind is followed by the one that uses it. -/
theorem Result.Conflict.exists_lacking {r : Result} (wf : r.program.WellFormed) {plan : Plan}
    {k : Nat} (conflict : r.Conflict plan k) :
    ∃ b used stack held, Callbacks.Reached r.program plan r.program.entry ⟨.inside b, stack, held⟩ ∧
      r.localUses? b = some used ∧ k ∈ used ∧ k ∉ held := by
  obtain ⟨c, site, stack, before, leaves, atSite⟩ := conflict.leaves
  obtain ⟨g, b, block, alone, external, run, found, returns, lost⟩ := conflict.loses
  obtain ⟨f, user, used, above, _, another, uses, isUsed, member⟩ := conflict.uses
  obtain ⟨held, returning, both⟩ := atSite.call leaves.found (leaves.mayEnter external) run
  have callback : r.program.IsExternal block.function := by
    obtain ⟨other, foundOther, chain⟩ := run.runs wf
    obtain rfl := Option.some.inj (found.symm.trans foundOther)
    rw [chain.eq]
    exact external
  obtain ⟨after, lacking, fewer⟩ := uses.lift fun callee isFirst =>
    returning.step (.again found returns callback leaves another callee isFirst)
  refine ⟨user, used, _, after, lacking, isUsed, member, fun held => lost ?_⟩
  exact ((both k).mp ((fewer k).mp held).1).2

namespace Result.IsSolved

variable {r : Result} {p : Program} (solved : r.IsSolved p) {options : PlanOptions} {k : Nat}
  {m : Machine}
include solved

/-- A kind is in conflict if an execution lacks it where a block uses it. -/
theorem conflict_of_lacking {b : BlockId} {used : CapSet}
    (reached : Callbacks.Reached p (Plan.ofResult r options) p.entry m)
    (inside : m.control = .inside b) (isUsed : r.localUses? b = some used) (member : k ∈ used)
    (lacking : k ∉ m.held) : r.Conflict (Plan.ofResult r options) k := by
  obtain ⟨control, stack, held⟩ := m
  obtain rfl : control = .inside b := inside
  have wf := solved.wellFormed
  rw [solved.localUses?_eq, Option.map_eq_some_iff] at isUsed
  obtain ⟨block, found, rfl⟩ := isUsed
  have needed : p.Needed k ⟨.inside b, stack, held⟩ := by
    refine ⟨block, found, ?_, .here (wf.requires_of_uses found member)⟩
    obtain ⟨i, rfl, _⟩ := entryAt?_eq_some_iff.mp found
    exact Program.WellFormed.flows_liveIn_of_uses found member
  obtain ⟨loses, f, c, site, above, below, alone, external, leaves, _, isStack, run⟩ :=
    ((solved.accounted reached).2 needed).resolve_left lacking
  have onStack : c ∈ stack := by
    rw [show stack = above ++ c :: below from isStack]
    exact List.mem_append_right _ List.mem_cons_self
  obtain ⟨belowSite, before, atSite⟩ := reached.exists_inside onStack
  have isUsed := solved.localUses?_of_found found
  rw [← solved.program_eq] at leaves loses external run atSite
  exact ⟨⟨c, site, belowSite, before, leaves, atSite⟩, loses,
    ⟨f, b, _, above, alone, external, run, isUsed, member⟩⟩

/-- A kind in conflict is required by the callbacks, and not live after any call that leads
outside. -/
theorem not_liveAfter_of_conflict (conflict : r.Conflict (Plan.ofResult r options) k) :
    (∃ f, p.IsExternal f ∧ p.Requires f k) ∧
      ∀ c site, p.LeavesAt c site → ¬ p.LiveAt (.exit c) k := by
  have wf := solved.wellFormed
  obtain ⟨⟨c, site, stack, before, leaves, atSite⟩, loses, uses⟩ := conflict
  rw [solved.program_eq] at leaves atSite loses uses
  obtain ⟨f, user, used, _, _, another, uses, isUsed, member⟩ := uses
  rw [solved.localUses?_eq, Option.map_eq_some_iff] at isUsed
  obtain ⟨block, found, rfl⟩ := isUsed
  have required : p.Requires f k := by
    obtain ⟨other, foundOther, chain⟩ := uses.runs wf
    obtain rfl := Option.some.inj (found.symm.trans foundOther)
    exact wf.requires_of_chain chain (wf.requires_of_uses found member)
  refine ⟨⟨f, another, required⟩, fun c' site' leaves' live => ?_⟩
  have requiredAtEntry : p.Requires p.entry k := by
    obtain ⟨other, foundOther, chain⟩ := atSite.runs wf
    obtain rfl := Option.some.inj (leaves.found.symm.trans foundOther)
    exact wf.requires_of_chain chain
      (wf.requires_of_mayEnter leaves.found (leaves.mayEnter another) required)
  -- What is live after some call that leads outside is live where the callback returns that
  -- loses the kind, and a plan revokes nothing on the way there.
  obtain ⟨g, b, block, alone, external, run, found, returns, lost⟩ := loses
  obtain ⟨other, foundOther, chain⟩ := run.runs wf
  obtain rfl := Option.some.inj (found.symm.trans foundOther)
  have enters : p.MayEnter site' block.function := leaves'.mayEnter (chain.eq ▸ external)
  have liveHere := wf.liveAt_return found returns leaves'.found enters live
  exact lost (solved.mem_held_of_lasts requiredAtEntry run ⟨liveHere, by simp⟩)

end Result.IsSolved

/-! ## The sets of outside code -/

namespace Program.WellFormed

variable {p : Program} (wf : p.WellFormed) {k : Nat}
include wf

theorem leavesAt_of_mem_callersOf {c : Nat}
    (caller : c ∈ p.setting.graph.callersOf p.setting.graph.callsExternal) :
    ∃ site, p.LeavesAt (Int.ofNat c) site := by
  obtain ⟨_, site, found, isCall, callee⟩ := mem_callersOf.mp caller
  rcases (wf.mem_calleeSlots_iff found isCall).mp callee with target | ⟨outside, _⟩
  · obtain ⟨_, callee⟩ := exists_of_hasFunction (wf.hasFunction_of_mem_targets found isCall target)
    exact absurd (lt_of_function? callee) (Nat.lt_irrefl _)
  · exact ⟨site, found, isCall, outside⟩

/-- What is live after code outside returns is live after some call that leads there. -/
theorem exists_leavesAt_of_flows
    (flows : p.setting.Flows k ⟨.returnLive, p.setting.graph.callsExternal⟩) :
    ∃ c site, p.LeavesAt c site ∧ p.LiveAt (.exit c) k := by
  cases flows with
  | all givenUp _ => cases givenUp
  | own _ member => exact absurd member (CapSet.not_mem_empty k)
  | source _ reads flows =>
    rcases mem_sources_returnLive.mp reads with ⟨c, caller, rfl⟩ | ⟨isExternal, _⟩
    · obtain ⟨site, leaves⟩ := wf.leavesAt_of_mem_callersOf caller
      exact ⟨_, site, leaves, flows⟩
    · obtain ⟨_, _, found, _⟩ := wf.isExternal_iff.mp isExternal
      exact absurd (lt_of_function? found) (Nat.lt_irrefl _)

theorem flows_of_isExternal {f : FunctionId} (external : p.IsExternal f)
    (required : p.Requires f k) :
    p.setting.Flows k ⟨.requiredIn, p.setting.graph.callingExternal⟩ := by
  obtain ⟨_, _, found, _⟩ := id external
  obtain ⟨i, rfl, _⟩ := entryAt?_eq_some_iff.mp found
  exact wf.flows_of_standsFor callingExternal_lt (standsFor_callingExternal.mpr external) required

end Program.WellFormed

/-- Blocks use nothing by a skipped result. -/
theorem Program.localUses?_skippedResult {p : Program} {b : BlockId} {used : CapSet}
    (isUsed : p.bareSetting.skippedResult.localUses? b = some used) : used = ∅ := by
  obtain ⟨i, rfl, inside⟩ := entryAt?_eq_some_iff.mp isUsed
  exact (Array.getElem?_eq_some_iff.mp inside).2.symm.trans (Array.getElem_replicate ..)

/-- **Repeated callbacks are safe exactly for kinds that are not in conflict.** Take any
analysis with a result and any restriction of the plan. In every execution with repeated
callbacks, the blocks that use a kind hold it, if and only if the kind is not in conflict.
Kinds in conflict are required by callbacks, and not live after any call that leads
outside. -/
theorem callbacks_safe_iff {p : Program} {config : Config} {r : Result}
    (analyzed : (p.analyze config).outcome = .ok r) (options : PlanOptions) :
    r.program = p ∧
      (∀ m b, Callbacks.Reached p (Plan.ofResult r options) p.entry m → m.control = .inside b →
        ∃ used, r.localUses? b = some used) ∧
      (∀ k, (∀ m b used, Callbacks.Reached p (Plan.ofResult r options) p.entry m →
          m.control = .inside b → r.localUses? b = some used → k ∈ used → k ∈ m.held) ↔
        ¬ r.Conflict (Plan.ofResult r options) k) ∧
      ∃ required after, r.requiredIn? FunctionId.callingExternal = some required ∧
        r.returnLive? FunctionId.callsExternal = some after ∧
        ∀ k, r.Conflict (Plan.ofResult r options) k → k ∈ required ∧ k ∉ after := by
  have covers := Program.covers_of_outcome analyzed
  refine ⟨covers.program, ?_, fun k => ⟨?_, ?_⟩, _, _, covers.requiredIn?_callingExternal,
    covers.returnLive?_callsExternal, ?_⟩
  · intro m b reached inside
    obtain ⟨block, found, _⟩ := reached.runs covers.wellFormed
    rw [inside] at found
    rcases Program.solved_or_skipped analyzed with solved | ⟨_, rfl⟩
    · exact ⟨_, solved.localUses?_of_found found⟩
    · obtain ⟨i, rfl, _⟩ := entryAt?_eq_some_iff.mp found
      obtain ⟨used, isUsed, _⟩ := (Result.safe_of_skipped found).uses
      exact ⟨used, isUsed⟩
  · intro safe conflict
    obtain ⟨b, used, stack, held, reached, isUsed, member, lacking⟩ :=
      conflict.exists_lacking (covers.program.symm ▸ covers.wellFormed)
    rw [covers.program] at reached
    exact lacking (safe _ b used reached rfl isUsed member)
  · intro noConflict m b used reached inside isUsed member
    rcases Program.solved_or_skipped analyzed with solved | ⟨_, rfl⟩
    · refine by_contra fun lacking => ?_
      exact noConflict (solved.conflict_of_lacking reached inside isUsed member lacking)
    · rw [Program.localUses?_skippedResult isUsed] at member
      exact absurd member (CapSet.not_mem_empty k)
  · intro k conflict
    rcases Program.solved_or_skipped analyzed with solved | ⟨_, rfl⟩
    · obtain ⟨⟨f, external, required⟩, dead⟩ := solved.not_liveAfter_of_conflict conflict
      refine ⟨solved.mem_get.mpr (covers.wellFormed.flows_of_isExternal external required), ?_⟩
      intro member
      obtain ⟨c, site, leaves, live⟩ :=
        covers.wellFormed.exists_leavesAt_of_flows (solved.mem_get.mp member)
      exact dead c site leaves live
    · obtain ⟨_, _, used, _, _, _, _, isUsed, member⟩ := conflict.uses
      rw [Program.localUses?_skippedResult isUsed] at member
      exact absurd member (CapSet.not_mem_empty k)

/-! ## A callback that is entered twice -/

/-- A program that calls code outside, which may call it back. The callback raises kind
`0`; the parameter says what the program uses after the call. -/
def callbackProgram (later : List Argument) : Program where
  capabilities := some (.ofFaultless ["CAP_NET_RAW"] none (by decide) (by decide +kernel))
  functions := #[
    { id := 0, name := "main", blocks := [0, 1], exit := 1 },
    { id := 1, name := "callback", blocks := [2], exit := 2, addressTaken := true }]
  blocks := #[
    { id := 0, function := 0, kind := .call, target := .unresolved, successors := [1] },
    { id := 1, function := 0, uses := later, exit := .return },
    { id := 2, function := 1, kind := .raise, raised := [.constant 0], exit := .return }]
  entry := 0

theorem callbackProgram_isExternal (later : List Argument) :
    (callbackProgram later).IsExternal 1 := by
  refine ⟨?_, _, rfl, rfl⟩
  show ¬ (1 : Int) = 0
  decide

/-- The callback may be entered a second time, without what the plan revokes at its end. -/
theorem callbackProgram_reached (later : List Argument) (plan : Plan) :
    ∃ held, Callbacks.Reached (callbackProgram later) plan 0 ⟨.inside 2, [0], held⟩ ∧
      ∀ k ∈ plan.revoked [.blockEnd] 2, k ∉ held := by
  have external := callbackProgram_isExternal later
  have leaves : (callbackProgram later).LeavesAt 0 _ := ⟨rfl, rfl, rfl⟩
  have noCall : BlockKind.raise ≠ .call := by decide
  have atSite : Callbacks.Reached (callbackProgram later) plan 0 _ := .start rfl rfl
  have atCallback := (atSite.step (.plain .enter)).step
    (.plain (.call (f := 1) rfl (leaves.mayEnter external) rfl rfl))
  have inCallback := atCallback.step (.plain .enter)
  have returning := (inCallback.step (.plain (.work rfl noCall))).step (.plain .finish)
  have again := returning.step (.again (f := 1) rfl rfl external leaves external rfl rfl)
  refine ⟨_, again.step (.plain .enter), ?_⟩
  intro k revoked held
  exact (CapSet.mem_sdiff.mp (CapSet.mem_sdiff.mp held).1).2 revoked

/-- If the program uses kind `0` after the call too, it is not in conflict, and the callback
holds it also when it is entered for the second time. -/
theorem callbacks_safe_iff_outlasted :
    ∃ r held, ((callbackProgram [.constant 0]).analyze sampleConfig).outcome = .ok r ∧
      Callbacks.Reached (callbackProgram [.constant 0]) (Plan.ofResult r ⟨"revoke", none⟩) 0
        ⟨.inside 2, [0], held⟩ ∧ r.localUses? 2 = some (.singleton 0) ∧ 0 ∈ held := by
  obtain ⟨r, analyzed, notSkipped⟩ : ∃ r,
      ((callbackProgram [.constant 0]).analyze sampleConfig).outcome = .ok r ∧
        r.skipped = false := Program.exists_result rfl rfl rfl
  have solved := Program.isSolved_of_outcome analyzed notSkipped
  have later : (callbackProgram [.constant 0]).setting.Flows 0 ⟨.liveIn, 1⟩ :=
    Program.WellFormed.flows_liveIn_of_uses (b := 1) rfl (by decide +kernel)
  have afterCall : (callbackProgram [.constant 0]).setting.Flows 0 ⟨.liveOut, 0⟩ :=
    .source (by decide +kernel) (by decide +kernel) later
  have afterOutside : (callbackProgram [.constant 0]).setting.Flows 0 ⟨.returnLive, 2⟩ :=
    .source (by decide +kernel) (by decide +kernel) afterCall
  obtain ⟨_, _, safe, _, after, _, isAfter, contained⟩ :=
    callbacks_safe_iff analyzed ⟨"revoke", none⟩
  have noConflict : ¬ r.Conflict (Plan.ofResult r ⟨"revoke", none⟩) 0 := by
    intro conflict
    obtain rfl := Option.some.inj (solved.covers.returnLive?_callsExternal.symm.trans isAfter)
    exact (contained 0 conflict).2 (solved.mem_get.mpr afterOutside)
  obtain ⟨held, reached, _⟩ := callbackProgram_reached [.constant 0]
    (Plan.ofResult r ⟨"revoke", none⟩)
  have ofBlock : r.localUses? 2 = some (.singleton 0) :=
    (solved.localUses?_of_found (b := 2) rfl).trans (by decide +kernel)
  have holds := (safe 0).mpr noConflict _ _ _ reached rfl ofBlock (by decide)
  exact ⟨r, held, analyzed, reached, ofBlock, holds⟩

/-- The cells on which it depends what is live at the end of the callback. -/
def cellsAfterCallback : List Cell :=
  [⟨.liveOut, 2⟩, ⟨.returnLive, 1⟩, ⟨.returnLive, 2⟩, ⟨.liveOut, 0⟩, ⟨.liveIn, 1⟩,
    ⟨.liveOut, 1⟩, ⟨.returnLive, 0⟩]

/-- If the program uses nothing after the call, the callback lacks what it raises when it is
entered for the second time. -/
theorem callbacks_unsafe :
    ∃ r held, ((callbackProgram []).analyze sampleConfig).outcome = .ok r ∧
      Callbacks.Reached (callbackProgram []) (Plan.ofResult r ⟨"revoke", none⟩) 0
        ⟨.inside 2, [0], held⟩ ∧ r.localUses? 2 = some (.singleton 0) ∧ 0 ∉ held := by
  obtain ⟨r, analyzed, notSkipped⟩ : ∃ r,
      ((callbackProgram []).analyze sampleConfig).outcome = .ok r ∧
        r.skipped = false := Program.exists_result rfl rfl rfl
  have solved := Program.isSolved_of_outcome analyzed notSkipped
  have found : (callbackProgram []).block? (Int.ofNat 2) = some _ := rfl
  have live : (callbackProgram []).setting.Flows 0 ⟨.liveIn, 2⟩ :=
    Program.WellFormed.flows_liveIn_of_uses found (by decide +kernel)
  have dead : ¬ (callbackProgram []).setting.Flows 0 ⟨.liveOut, 2⟩ := by
    refine Setting.not_flows_of_closed cellsAfterCallback ?_ List.mem_cons_self
    decide +kernel
  have isOpen : (callbackProgram []).setting.isOpaqueBlock 2 = false := by decide +kernel
  have dropped := (solved.mem_dropEnd_iff found).mpr ⟨isOpen, live, dead⟩
  obtain ⟨held, reached, lacks⟩ := callbackProgram_reached [] (Plan.ofResult r ⟨"revoke", none⟩)
  refine ⟨r, held, analyzed, reached, ?_, lacks 0 ?_⟩
  · exact (solved.localUses?_of_found found).trans (by decide +kernel)
  · have foundHere := (congrArg (·.block? (Int.ofNat 2)) solved.program_eq).trans found
    exact Plan.mem_revoked_of_dropEnd rfl foundHere dropped

end CapLiveness
