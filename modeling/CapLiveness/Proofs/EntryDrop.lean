import CapLiveness.Proofs.CallbackConflicts
import CapLiveness.Proofs.WitnessPaths

/-!
# The entry drop and detached callbacks

There are two notions of what can run. What is dropped when the process starts is what the
entry function does not require, and requirements follow the calls from there. The search
for reachable blocks goes on from the functions that can be entered from outside, also if
no call of the program leads outside.

Control stays among the functions to which calls lead (`WellFormed.exists_calls_of_steps`),
so a function requires whatever is used on the way from its first block
(`WellFormed.requires_of_steps`). Hence the two notions agree on what can be reached from the
entry function. They part on the kinds that callbacks use and nothing uses to which calls
lead from the entry function (`Result.Detached`): exactly these are dropped at the start
although reachable blocks use them (`entryDrop_spares_iff`, `entryDrop_strips`).
-/

set_option autoImplicit false

namespace CapLiveness

open Relation (ReflTransGen)

namespace Program.WellFormed

variable {p : Program} (wf : p.WellFormed) {k : Nat}
include wf

/-! ## Control and calls -/

/-- Control stays in a function, or goes where the function may call. -/
theorem exists_call_of_step {b c : BlockId} {block : Block} (found : p.block? b = some block)
    (step : p.StepsTo b c) :
    ∃ next, p.block? c = some next ∧ ReflTransGen p.MayCall block.function next.function := by
  obtain ⟨other, foundOther, successor | ⟨f, enters, function, foundFunction, isFirst⟩⟩ := step
  · obtain rfl := Option.some.inj (found.symm.trans foundOther)
    obtain ⟨next, foundNext, sameFunction⟩ := (wf.block found).successors c successor
    exact ⟨next, foundNext, sameFunction ▸ .refl⟩
  · obtain rfl := Option.some.inj (found.symm.trans foundOther)
    obtain ⟨next, foundNext, owner⟩ := wf.exists_listed foundFunction (List.mem_of_head? isFirst)
    exact ⟨next, foundNext, .single ⟨b, block, found, rfl, owner ▸ enters⟩⟩

/-- **Control stays among the functions to which calls lead.** -/
theorem exists_calls_of_steps {b c : BlockId} {block : Block} (found : p.block? b = some block)
    (steps : ReflTransGen p.StepsTo b c) :
    ∃ next, p.block? c = some next ∧ ReflTransGen p.MayCall block.function next.function := by
  induction steps with
  | refl => exact ⟨block, found, .refl⟩
  | tail _ step ih =>
    obtain ⟨before, foundBefore, calls⟩ := ih
    obtain ⟨next, foundNext, call⟩ := wf.exists_call_of_step foundBefore step
    exact ⟨next, foundNext, calls.trans call⟩

theorem exists_block_of_steps {f : FunctionId} {start b : BlockId}
    (isFirst : p.IsFirstBlock f start) (steps : ReflTransGen p.StepsTo start b) :
    ∃ block, p.block? b = some block ∧ ReflTransGen p.MayCall f block.function := by
  obtain ⟨function, foundFunction, isHead⟩ := isFirst
  obtain ⟨first, found, owner⟩ := wf.exists_listed foundFunction (List.mem_of_head? isHead)
  rw [← owner]
  exact wf.exists_calls_of_steps found steps

/-- **A function requires whatever is used on the way from its first block.** -/
theorem requires_of_steps {f : FunctionId} {start b : BlockId} {block : Block}
    (isFirst : p.IsFirstBlock f start) (steps : ReflTransGen p.StepsTo start b)
    (found : p.block? b = some block) (used : k ∈ block.localUses p.enumeration) :
    p.Requires f k := by
  obtain ⟨other, foundOther, calls⟩ := wf.exists_block_of_steps isFirst steps
  obtain rfl := Option.some.inj (found.symm.trans foundOther)
  exact wf.requires_of_calls calls (wf.requires_of_uses found used)

end Program.WellFormed

/-! ## Reachable blocks -/

/-- The search has a path to exactly the blocks to which steps lead from its roots. -/
theorem Result.Covers.exists_path_iff {r : Result} {p : Program} (covers : r.Covers p)
    {b : BlockId} :
    (∃ path, r.pathTo? b = some path) ↔
      ∃ start, (p.IsEntryBlock start ∨ p.IsExternalBlock start) ∧
        ReflTransGen p.StepsTo start b := by
  obtain ⟨_, ways, reached⟩ := covers.wellFormed.reachable_exact covers.program covers.graph
  constructor
  · rintro ⟨path, isPath⟩
    cases b with
    | negSucc i => cases isPath
    | ofNat i =>
      rw [r.pathTo?_ofNat] at isPath
      have member : i ∈ r.setting.reachable.order := by
        by_contra missing
        rw [if_neg missing] at isPath
        cases isPath
      rcases ways i member with early | ⟨_, late⟩
      · obtain ⟨start, isRoot, steps⟩ := early.route.reachable
        exact ⟨start, .inl isRoot, steps⟩
      · obtain ⟨start, isRoot, steps⟩ := late.route.reachable
        exact ⟨start, .inr isRoot, steps⟩
  · rintro ⟨start, isRoot, steps⟩
    have routes : ∃ path, Route p.StepsTo p.IsEntryBlock path b ∨
        Route p.StepsTo p.IsExternalBlock path b := by
      rcases isRoot with entry | external
      · exact (exists_route entry steps).imp fun _ => .inl
      · exact (exists_route external steps).imp fun _ => .inr
    obtain ⟨path, route⟩ := routes
    obtain ⟨i, member, rfl⟩ := reached path b route
    exact ⟨_, (r.pathTo?_ofNat i).trans (if_pos member)⟩

/-! ## What the entry drop spares -/

/-- Whether nothing that a block uses is dropped when the process starts. -/
def Result.Spares (r : Result) (b : BlockId) : Prop :=
  ∃ used, r.localUses? b = some used ∧ ∀ k ∈ used, k ∉ r.entryDrop

/-- **Detached kinds**: control can come from a function that can be entered from outside to a
block that uses the kind, and no function uses it to which calls lead from the entry
function. -/
structure Result.Detached (r : Result) (k : Nat) : Prop where
  used : ∃ start b used, r.program.IsExternalBlock start ∧
    ReflTransGen r.program.StepsTo start b ∧ r.localUses? b = some used ∧ k ∈ used
  unused : ∀ g, ReflTransGen r.program.MayCall r.program.entry g → ¬ r.UsesItself g k

namespace Result.IsSolved

variable {r : Result} {p : Program} (solved : r.IsSolved p) {k : Nat}
include solved

theorem requires_entry_iff :
    p.Requires p.entry k ↔ ∃ g, ReflTransGen p.MayCall p.entry g ∧ r.UsesItself g k := by
  obtain ⟨_, found, _⟩ := solved.wellFormed.entry
  obtain ⟨i, isEntry, inside⟩ := entryAt?_eq_some_iff.mp found
  rw [Program.Requires, isEntry, ← solved.mem_requiredIn_iff (Program.lt_of_function? inside)]
  exact solved.mem_get.symm

theorem mem_entryDrop_iff :
    k ∈ r.entryDrop ↔ k ∈ p.enumeration.all ∧ ¬ p.Requires p.entry k := by
  obtain ⟨_, found, _⟩ := solved.wellFormed.entry
  obtain ⟨i, isEntry, inside⟩ := entryAt?_eq_some_iff.mp found
  rw [solved.entryDrop_eq isEntry (Program.lt_of_function? inside), CapSet.mem_sdiff,
    solved.mem_get, Program.Requires, isEntry]
  rfl

/-- What control can reach from the entry function is spared. -/
theorem spares_of_entry {start b : BlockId} (isEntry : p.IsEntryBlock start)
    (steps : ReflTransGen p.StepsTo start b) : r.Spares b := by
  obtain ⟨block, found, _⟩ := solved.wellFormed.exists_block_of_steps isEntry steps
  refine ⟨_, solved.localUses?_of_found found, fun k used dropped => ?_⟩
  exact (solved.mem_entryDrop_iff.mp dropped).2
    (solved.wellFormed.requires_of_steps isEntry steps found used)

/-- A kind that is dropped at the start, and yet used on the way from a function that can be
entered from outside, is detached. -/
theorem detached_of_mem_entryDrop {start b : BlockId} {used : CapSet}
    (isExternal : p.IsExternalBlock start) (steps : ReflTransGen p.StepsTo start b)
    (isUsed : r.localUses? b = some used) (member : k ∈ used) (dropped : k ∈ r.entryDrop) :
    r.Detached k := by
  rw [← solved.program_eq] at isExternal steps
  refine ⟨⟨start, b, used, isExternal, steps, isUsed, member⟩, fun g calls uses => ?_⟩
  rw [solved.program_eq] at calls
  exact (solved.mem_entryDrop_iff.mp dropped).2 (solved.requires_entry_iff.mpr ⟨g, calls, uses⟩)

/-- **Detached kinds are dropped at the start**, although callbacks require them. Where they
are, no call that leads outside can be reached by calls from the entry function. -/
theorem dropped_of_detached (detached : r.Detached k) :
    k ∈ r.entryDrop ∧ (∃ f, p.IsExternal f ∧ p.Requires f k) ∧
      ∀ c site, p.LeavesAt c site → ¬ ReflTransGen p.MayCall p.entry site.function := by
  have wf := solved.wellFormed
  obtain ⟨⟨start, b, used, ⟨f, external, isFirst⟩, steps, isUsed, member⟩, unused⟩ := detached
  rw [solved.program_eq] at external isFirst steps unused
  rw [solved.localUses?_eq, Option.map_eq_some_iff] at isUsed
  obtain ⟨block, found, rfl⟩ := isUsed
  have unrequired : ¬ p.Requires p.entry k := by
    intro required
    obtain ⟨g, calls, uses⟩ := solved.requires_entry_iff.mp required
    exact unused g calls uses
  have required := wf.requires_of_steps isFirst steps found member
  refine ⟨solved.mem_entryDrop_iff.mpr ⟨(Block.mem_localUses.mp member).2, unrequired⟩,
    ⟨f, external, required⟩, fun c site leaves calls => unrequired ?_⟩
  exact wf.requires_of_calls calls
    (wf.requires_of_mayEnter leaves.found (leaves.mayEnter external) required)

/-- **Reachable blocks are spared exactly if no kind is detached.** -/
theorem spares_iff : (∀ b path, r.pathTo? b = some path → r.Spares b) ↔ ∀ k, ¬ r.Detached k := by
  constructor
  · intro spares k detached
    obtain ⟨⟨start, b, used, external, steps, isUsed, member⟩, _⟩ := id detached
    rw [solved.program_eq] at external steps
    obtain ⟨path, isPath⟩ := solved.covers.exists_path_iff.mpr ⟨start, .inr external, steps⟩
    obtain ⟨other, isOther, kept⟩ := spares b path isPath
    obtain rfl := Option.some.inj (isUsed.symm.trans isOther)
    exact kept k member (solved.dropped_of_detached detached).1
  · intro attached b path isPath
    obtain ⟨start, entry | external, steps⟩ := solved.covers.exists_path_iff.mp ⟨path, isPath⟩
    · exact solved.spares_of_entry entry steps
    · obtain ⟨f, _, isFirst⟩ := id external
      obtain ⟨block, found, _⟩ := solved.wellFormed.exists_block_of_steps isFirst steps
      have isUsed := solved.localUses?_of_found found
      refine ⟨_, isUsed, fun k member dropped => attached k ?_⟩
      exact solved.detached_of_mem_entryDrop external steps isUsed member dropped

end Result.IsSolved

namespace Program

variable {p : Program}

/-- A skipped result drops nothing. -/
theorem spares_skippedResult {b : BlockId} {block : Block} (found : p.block? b = some block) :
    p.bareSetting.skippedResult.Spares b := by
  obtain ⟨i, rfl, _⟩ := entryAt?_eq_some_iff.mp found
  obtain ⟨used, isUsed, _⟩ := (Result.safe_of_skipped found).uses
  exact ⟨used, isUsed, fun k _ => CapSet.not_mem_empty k⟩

theorem not_detached_skippedResult (k : Nat) : ¬ p.bareSetting.skippedResult.Detached k := by
  rintro ⟨⟨_, _, used, _, _, isUsed, member⟩, _⟩
  rw [localUses?_skippedResult isUsed] at member
  exact CapSet.not_mem_empty k member

end Program

/-- **The entry drop spares what reachable blocks use exactly if no kind is detached.** Take any
analysis with a result. Nothing that a reachable block uses is dropped when the process
starts, if and only if no kind is detached. Blocks that can be reached from the entry
function are spared in any case. Detached kinds are dropped, although the callers outside
require them, and they occur only where no call that leads outside can be reached by calls
from the entry function. -/
theorem entryDrop_spares_iff {p : Program} {config : Config} {r : Result}
    (analyzed : (p.analyze config).outcome = .ok r) :
    r.program = p ∧
      ((∀ b path, r.pathTo? b = some path → r.Spares b) ↔ ∀ k, ¬ r.Detached k) ∧
      (∀ start b, p.IsEntryBlock start → ReflTransGen p.StepsTo start b → r.Spares b) ∧
      ∃ required, r.requiredIn? FunctionId.callingExternal = some required ∧
        ∀ k, r.Detached k → k ∈ r.entryDrop ∧ k ∈ required ∧
          ∀ c site, p.LeavesAt c site → ¬ ReflTransGen p.MayCall p.entry site.function := by
  have covers := Program.covers_of_outcome analyzed
  have wf := covers.wellFormed
  refine ⟨covers.program, ?_⟩
  rcases Program.solved_or_skipped analyzed with solved | ⟨_, rfl⟩
  · refine ⟨solved.spares_iff, fun start b isEntry steps => solved.spares_of_entry isEntry steps,
      _, covers.requiredIn?_callingExternal, fun k detached => ?_⟩
    obtain ⟨dropped, ⟨f, external, required⟩, never⟩ := solved.dropped_of_detached detached
    exact ⟨dropped, solved.mem_get.mpr (wf.flows_of_isExternal external required), never⟩
  · have spares : ∀ f start b, p.IsFirstBlock f start → ReflTransGen p.StepsTo start b →
        p.bareSetting.skippedResult.Spares b := by
      intro f start b isFirst steps
      obtain ⟨block, found, _⟩ := wf.exists_block_of_steps isFirst steps
      exact Program.spares_skippedResult found
    refine ⟨⟨fun _ => Program.not_detached_skippedResult, ?_⟩,
      fun start b isEntry steps => spares _ start b isEntry steps,
      _, covers.requiredIn?_callingExternal,
      fun k detached => absurd detached (Program.not_detached_skippedResult k)⟩
    intro _ b path isPath
    obtain ⟨start, entry | ⟨f, _, isFirst⟩, steps⟩ := covers.exists_path_iff.mp ⟨path, isPath⟩
    · exact spares _ start b entry steps
    · exact spares f start b isFirst steps

/-! ## A callback that is called, and one that is not -/

/-- The entry function of the sample program calls outside code. So the callback is not
detached, and what the worker raises, which the callback calls, is not dropped. -/
theorem entryDrop_spares_iff_sample :
    ∃ r, (sampleProgram.analyze sampleConfig).outcome = .ok r ∧
      r.pathTo? 8 = some [0, 2, 8] ∧ (∀ k, ¬ r.Detached k) ∧
      r.Spares 5 ∧ r.localUses? 5 = some (.singleton 0) ∧ 0 ∉ r.entryDrop := by
  obtain ⟨r, analyzed, notSkipped⟩ := sampleProgram_analyzed
  have solved := Program.isSolved_of_outcome analyzed notSkipped
  obtain ⟨_, sparesIff, _, _, _, detached⟩ := entryDrop_spares_iff analyzed
  have attached : ∀ k, ¬ r.Detached k := by
    intro k isDetached
    have leaves : sampleProgram.LeavesAt 2 _ := ⟨rfl, rfl, rfl⟩
    exact (detached k isDetached).2.2 2 _ leaves .refl
  have path : ∀ b, r.pathTo? b = if 0 ≤ b then
      sampleProgram.setting.reachable.pathTo? b.toNat else none := by
    intro b
    rw [Result.pathTo?, solved.setting]
  have isUsed : r.localUses? 5 = some (.singleton 0) :=
    (solved.localUses?_of_found (b := 5) rfl).trans (by decide +kernel)
  have spares : r.Spares 5 := by
    refine sparesIff.mpr attached 5 [0, 1, 5] ?_
    rw [path]
    decide +kernel
  refine ⟨r, analyzed, ?_, attached, spares, isUsed, ?_⟩
  · rw [path]
    decide +kernel
  · obtain ⟨used, isOther, kept⟩ := spares
    obtain rfl := Option.some.inj (isUsed.symm.trans isOther)
    exact kept 0 (by decide)

/-- A program that waits for a signal and never calls outside code. The handler of the signal
raises kind `0`. -/
def signalProgram : Program where
  capabilities := some rawEnumeration
  functions := #[
    { id := 0, name := "main", blocks := [0], exit := 0 },
    { id := 1, name := "on_signal", blocks := [1], exit := 1, addressTaken := true }]
  blocks := #[
    { id := 0, function := 0, name := "idle", exit := .return },
    { id := 1, function := 1, name := "raise", kind := .raise, raised := [.constant 0],
      exit := .return }]
  entry := 0

/-- The handler is reachable, and what it raises is dropped when the process starts. -/
theorem entryDrop_strips :
    ∃ r, (signalProgram.analyze sampleConfig).outcome = .ok r ∧ r.pathTo? 1 = some [1] ∧
      r.localUses? 1 = some (.singleton 0) ∧ 0 ∈ r.entryDrop ∧ ¬ r.Spares 1 := by
  obtain ⟨r, analyzed, notSkipped⟩ : ∃ r, (signalProgram.analyze sampleConfig).outcome = .ok r ∧
      r.skipped = false := Program.exists_result rfl rfl rfl
  have solved := Program.isSolved_of_outcome analyzed notSkipped
  have path : r.pathTo? 1 = some [1] := by
    rw [Result.pathTo?, solved.setting]
    decide +kernel
  have isUsed : r.localUses? 1 = some (.singleton 0) :=
    (solved.localUses?_of_found (b := 1) rfl).trans (by decide +kernel)
  have unrequired : ¬ signalProgram.Requires 0 0 := by
    refine Setting.not_flows_of_closed [⟨.requiredIn, 0⟩] ?_ List.mem_cons_self
    decide +kernel
  have dropped : 0 ∈ r.entryDrop := solved.mem_entryDrop_iff.mpr ⟨by decide, unrequired⟩
  refine ⟨r, analyzed, path, isUsed, dropped, ?_⟩
  rintro ⟨used, isOther, kept⟩
  obtain rfl := Option.some.inj (isUsed.symm.trans isOther)
  exact kept 0 (by decide) dropped

end CapLiveness
