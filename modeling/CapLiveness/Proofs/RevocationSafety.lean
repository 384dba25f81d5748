import CapLiveness.Proofs.Execution
import CapLiveness.Proofs.Levels

/-!
# Revocation is safe

Under the plan of an analysis, no execution ever lacks what it uses.

What is live where an execution stands need not be held. The analysis does not tell
the callers of a function apart, and what only one of them needs afterwards may have
been revoked on the way from another. What is held is what is live and protected by
the stack: required by the function that runs, or live at the end of the call that
entered it and protected there (`Protects`).

Whatever is needed in this sense after a step was needed before it
(`WellFormed.needed_of_step`), and a plan revokes nothing that is needed
(`Result.IsSolved.not_mem_revoked`). So what is needed is held
(`Result.IsSolved.mem_held`). A block needs what it uses, since it is live on entry to
the block and required by its function (`revocations_safe`).
-/

set_option autoImplicit false

namespace CapLiveness

namespace Program

variable {p : Program} {plan : Plan} {k : Nat}

/-! ## What the stack protects -/

/-- **What the stack protects**: what the running function requires, and what is live at
the end of the call that entered it and protected there. -/
inductive Protects (p : Program) (k : Nat) : FunctionId → List BlockId → Prop where
  | here {f : FunctionId} {stack : List BlockId} (required : p.Requires f k) :
      Protects p k f stack
  | caller {f : FunctionId} {c : BlockId} {site : Block} {stack : List BlockId}
      (found : p.block? c = some site) (live : p.LiveAt (.exit c) k)
      (protects : Protects p k site.function stack) : Protects p k f (c :: stack)

/-- What is live where the machine stands and protected by its stack. -/
def Needed (p : Program) (k : Nat) (m : Machine) : Prop :=
  ∃ block, p.block? m.control.point.block = some block ∧ p.LiveAt m.control.point k ∧
    Protects p k block.function m.stack

namespace WellFormed

variable (wf : p.WellFormed)
include wf

/-- A function requires what the functions require to which calls lead from it. -/
theorem requires_of_chain {f g : FunctionId} {stack : List BlockId} (chain : Chain p f g stack)
    (required : p.Requires g k) : p.Requires f k := by
  induction chain with
  | refl => exact required
  | call found enters _ ih => exact ih (wf.requires_of_mayEnter found enters required)

/-- What the stack protects is required by the function at its bottom. -/
theorem requires_of_protects {f g : FunctionId} {stack : List BlockId}
    (protects : Protects p k g stack) (chain : Chain p f g stack) : p.Requires f k := by
  induction protects with
  | here required => exact wf.requires_of_chain chain required
  | caller found _ _ ih =>
    obtain ⟨site, foundSite, _, below⟩ := chain.exists_site
    obtain rfl := Option.some.inj (found.symm.trans foundSite)
    exact ih below

/-- What is live at the end of a call is live where the functions return that it may enter. -/
theorem liveAt_return {b c : BlockId} {block site : Block} (found : p.block? b = some block)
    (returns : block.exit = .return) (foundSite : p.block? c = some site)
    (enters : p.MayEnter site block.function) (live : p.LiveAt (.exit c) k) :
    p.LiveAt (.exit b) k := by
  obtain ⟨function, foundFunction, exits⟩ := (wf.block found).returns.mp returns
  exact wf.flows_of_leads (.back found foundFunction exits foundSite enters) live

/-- **What is needed after a step was needed before it.** -/
theorem needed_of_step {f : FunctionId} {m n : Machine} (runs : m.Runs p f)
    (step : Step p plan m n) (needed : p.Needed k n) : p.Needed k m := by
  obtain ⟨next, foundNext, live, protects⟩ := needed
  cases step with
  | enter => exact ⟨next, foundNext, live, protects⟩
  | finish => exact ⟨next, foundNext, live, protects⟩
  | work => exact ⟨next, foundNext, wf.flows_of_leads (.through foundNext) live, protects⟩
  | callDeclaration =>
    exact ⟨next, foundNext, wf.flows_of_leads (.through foundNext) live, protects⟩
  | callOutside =>
    exact ⟨next, foundNext, wf.flows_of_leads (.through foundNext) live, protects⟩
  | jump found successor =>
    obtain ⟨other, foundOther, owner⟩ := (wf.block found).successors _ successor
    obtain rfl := Option.some.inj (foundNext.symm.trans foundOther)
    rw [owner] at protects
    exact ⟨_, found, wf.flows_of_leads (.successor found successor) live, protects⟩
  | call found enters callee isFirst =>
    obtain ⟨other, foundOther, owner⟩ := wf.exists_first callee isFirst
    obtain rfl := Option.some.inj (foundNext.symm.trans foundOther)
    rw [owner] at protects
    -- What the callee requires is live on entry to the call and required by the caller;
    -- what it protects for the caller was live after the call, and so also before it.
    cases protects with
    | here required =>
      exact ⟨_, found, wf.liveAt_of_mayEnter found enters required,
        .here (wf.requires_of_mayEnter found enters required)⟩
    | caller foundSite liveAfter protects =>
      obtain rfl := Option.some.inj (found.symm.trans foundSite)
      exact ⟨_, found, wf.flows_of_leads (.through found) liveAfter, protects⟩
  | back found returns =>
    obtain ⟨block, foundBlock, chain⟩ := runs
    obtain rfl := Option.some.inj (found.symm.trans foundBlock)
    obtain ⟨site, foundSite, enters, _⟩ := chain.exists_site
    exact ⟨_, found, wf.liveAt_return found returns foundSite enters live,
      .caller foundNext live protects⟩

end WellFormed

end Program

/-! ## What is needed is held -/

namespace Result.IsSolved

variable {r : Result} {p : Program} (solved : r.IsSolved p) {options : PlanOptions} {k : Nat}
  {m : Machine}
include solved

/-- The plan of a solved result revokes nothing that is live and required by the entry
function. -/
theorem not_mem_revoked_of_requires {block : Block}
    (found : p.block? m.control.point.block = some block) (live : p.LiveAt m.control.point k)
    (required : p.Requires p.entry k) : k ∉ m.control.revoked (Plan.ofResult r options) := by
  obtain ⟨control, stack, held⟩ := m
  cases control with
  | entering b =>
    obtain ⟨_, isEntry, _⟩ := solved.wellFormed.entry
    obtain ⟨entry, entryEq, inside⟩ := entryAt?_eq_some_iff.mp isEntry
    rw [Program.Requires, entryEq] at required
    obtain ⟨b, rfl, _⟩ := entryAt?_eq_some_iff.mp found
    exact solved.not_mem_revoked_start live entryEq (Program.lt_of_function? inside)
      required
  | ending b =>
    obtain ⟨b, rfl, _⟩ := entryAt?_eq_some_iff.mp found
    exact solved.not_mem_revoked_end live
  | inside b => exact CapSet.not_mem_empty k
  | leaving b => exact CapSet.not_mem_empty k

/-- The plan of a solved result revokes nothing that is needed. -/
theorem not_mem_revoked (runs : m.Runs p p.entry) (needed : p.Needed k m) :
    k ∉ m.control.revoked (Plan.ofResult r options) := by
  obtain ⟨block, found, live, protects⟩ := needed
  obtain ⟨other, foundOther, chain⟩ := runs
  obtain rfl := Option.some.inj (found.symm.trans foundOther)
  have required := solved.wellFormed.requires_of_protects protects chain
  exact solved.not_mem_revoked_of_requires found live required

/-- **What is needed is held,** in every state that executions reach. -/
theorem mem_held (reached : Reached p (Plan.ofResult r options) m) (needed : p.Needed k m) :
    k ∈ m.held := by
  induction reached with
  | start =>
    obtain ⟨_, _, live, _⟩ := needed
    exact Program.mem_all_of_flows live
  | step reached step ih =>
    have runs := solved.wellFormed.runs_of_reached reached
    have before := solved.wellFormed.needed_of_step runs step needed
    exact step.mem_held_iff.mpr ⟨ih before, solved.not_mem_revoked runs before⟩

end Result.IsSolved

/-- Everything stays held after a skipped analysis. -/
theorem Reached.held_of_skipped {p : Program} {s : Setting} {options : PlanOptions} {m : Machine}
    (reached : Reached p (Plan.ofResult s.skippedResult options) m) :
    m.held = p.enumeration.all := by
  apply CapSet.ext_mem
  intro k
  refine ⟨reached.held_subset k, ?_⟩
  intro member
  induction reached with
  | start => exact member
  | @step m n _ step ih =>
    refine step.mem_held_iff.mpr ⟨ih, ?_⟩
    cases m.control with
    | entering b => exact Plan.not_mem_revoked_of_skipped
    | ending b => exact Plan.not_mem_revoked_of_skipped
    | inside b => exact CapSet.not_mem_empty k
    | leaving b => exact CapSet.not_mem_empty k

/-- What a block inside which an execution may come is promised to hold, by a result: what
it uses, what is live on entry to it and required by its function, and everything if the
function is opaque. -/
structure Result.Safe (r : Result) (block : Block) (b : BlockId) (held : CapSet) : Prop where
  uses : ∃ used, r.localUses? b = some used ∧ used ⊆ held
  arguments : block.localUses r.program.enumeration ⊆ held
  live : ∀ live required, r.liveIn? b = some live → r.requiredIn? block.function = some required →
    live ∩ required ⊆ held
  all : r.isOpaque? block.function = some true → held = r.program.enumeration.all

/-- In a solved result, a block is safe when it holds what is live on entry to it and
required by its function. -/
theorem Result.IsSolved.safe {r : Result} {p : Program} (solved : r.IsSolved p) {b : Nat}
    {block : Block} (found : p.block? (Int.ofNat b) = some block) {held : CapSet}
    (heldSubset : held ⊆ p.enumeration.all)
    (holds : ∀ k, p.LiveAt (.entry (Int.ofNat b)) k → p.Requires block.function k → k ∈ held) :
    r.Safe block (Int.ofNat b) held := by
  have wf := solved.wellFormed
  have uses : block.localUses p.enumeration ⊆ held := by
    intro k used
    exact holds k (Program.WellFormed.flows_liveIn_of_uses found used)
      (wf.requires_of_uses found used)
  obtain ⟨i, _, names, bound, _⟩ := wf.exists_owner found
  refine ⟨⟨_, solved.localUses?_of_found found, uses⟩, ?_, ?_, ?_⟩
  · rw [solved.program_eq]
    exact uses
  · intro live required isLive isRequired k member
    rw [solved.covers.liveIn?_ofNat found] at isLive
    rw [names, solved.covers.requiredIn?_ofNat bound] at isRequired
    obtain rfl := Option.some.inj isLive
    obtain rfl := Option.some.inj isRequired
    obtain ⟨inLive, inRequired⟩ := CapSet.mem_inter.mp member
    refine holds k (solved.mem_get.mp inLive) ?_
    rw [Program.Requires, names]
    exact solved.mem_get.mp inRequired
  · intro isOpaque
    rw [names, solved.isOpaque?_ofNat bound, Option.some.injEq] at isOpaque
    rw [solved.program_eq]
    apply CapSet.ext_mem
    intro k
    refine ⟨heldSubset k, ?_⟩
    intro member
    have givenUp : p.setting.isOpaqueBlock b = true := by
      rw [Program.isOpaqueBlock_eq found, names]
      exact isOpaque
    exact holds k (.all givenUp member)
      (wf.requires_of_isOpaque found (by rw [names]; exact isOpaque) member)

/-- After a skipped analysis, a block that holds everything is safe. -/
theorem Result.safe_of_skipped {p : Program} {b : Nat} {block : Block}
    (found : p.block? (Int.ofNat b) = some block) :
    p.bareSetting.skippedResult.Safe block (Int.ofNat b) p.enumeration.all := by
  have empty : entryAt? (Array.replicate p.blocks.size (∅ : CapSet)) (Int.ofNat b) = some ∅ :=
    Array.getElem?_replicate.trans (if_pos (Program.lt_of_block? found))
  refine ⟨⟨∅, empty, ?_⟩, ?_, ?_, fun _ => rfl⟩
  · intro k member
    exact absurd member (CapSet.not_mem_empty k)
  · intro k used
    exact (Block.mem_localUses.mp used).2
  · intro live required isLive _ k member
    obtain rfl : ∅ = live := Option.some.inj (empty.symm.trans isLive)
    exact absurd (CapSet.mem_inter.mp member).1 (CapSet.not_mem_empty k)

/-- **Revocation is safe.** Take any analysis with a result, any restriction of the plan,
and any state that executions of the planned program reach. Inside a block, when the
calls at its start are done, the execution still holds what the block uses. It holds
whatever is live on entry to the block and required by its function, and everything if
the function is opaque. -/
theorem revocations_safe {p : Program} {config : Config} {r : Result}
    (analyzed : (p.analyze config).outcome = .ok r) (options : PlanOptions) {m : Machine}
    (reached : Reached p (Plan.ofResult r options) m) {b : BlockId}
    (inside : m.control = .inside b) :
    r.program = p ∧ ∃ block, p.block? b = some block ∧ r.Safe block b m.held := by
  obtain ⟨wf, skipped | solvedBy⟩ := Program.outcome_cases analyzed
  · obtain ⟨_, rfl⟩ := skipped
    obtain ⟨block, found, _⟩ := wf.runs_of_reached reached
    rw [inside] at found
    obtain ⟨b, rfl, _⟩ := entryAt?_eq_some_iff.mp found
    rw [reached.held_of_skipped]
    exact ⟨rfl, block, found, Result.safe_of_skipped found⟩
  · have notSkipped : r.skipped = false := by rw [solvedBy.2]; rfl
    have solved := Program.isSolved_of_outcome analyzed notSkipped
    obtain ⟨block, found, _⟩ := wf.runs_of_reached reached
    rw [inside] at found
    obtain ⟨b, rfl, _⟩ := entryAt?_eq_some_iff.mp found
    refine ⟨solved.program_eq, block, found, solved.safe found reached.held_subset ?_⟩
    intro k live required
    refine solved.mem_held reached ⟨block, ?_, ?_, .here required⟩
    · rw [inside]
      exact found
    · rw [inside]
      exact live

/-- In the sample program, the entry function calls code outside of the program, which calls
back, and the callback calls the worker: inside its first block, the worker holds the
kind that the block raises. -/
theorem revocations_safe_sample :
    ∃ r, (sampleProgram.analyze sampleConfig).outcome = .ok r ∧
      ∃ m, Reached sampleProgram (Plan.ofResult r ⟨"revoke", none⟩) m ∧
        m.control = .inside 5 ∧ m.stack = [8, 2] ∧ 0 ∈ m.held := by
  obtain ⟨r, analyzed, _⟩ := sampleProgram_analyzed
  have callsBack : sampleProgram.IsExternal 2 := by
    refine ⟨?_, _, rfl, rfl⟩
    decide
  have toUnknown : (2 : BlockId) ∈ [1, 2] := by decide
  have atFirst : Reached sampleProgram (Plan.ofResult r ⟨"revoke", none⟩)
      ⟨.entering 0, [], sampleProgram.enumeration.all⟩ := .start rfl rfl
  have atBranch := (atFirst.step .enter).step (.work rfl (by decide))
  have atUnknown := (atBranch.step .finish).step (.jump rfl toUnknown)
  have atCallback := (atUnknown.step .enter).step
    (.call (f := 2) rfl ⟨rfl, .inr ⟨rfl, callsBack⟩⟩ rfl rfl)
  have atWorker := (atCallback.step .enter).step
    (.call (f := 1) rfl ⟨rfl, .inl (by decide)⟩ rfl rfl)
  have inside := atWorker.step .enter
  refine ⟨r, analyzed, _, inside, rfl, rfl, ?_⟩
  obtain ⟨isProgram, block, found, safe⟩ := revocations_safe analyzed _ inside rfl
  apply safe.arguments
  obtain rfl := Option.some.inj found
  rw [isProgram]
  decide

end CapLiveness
