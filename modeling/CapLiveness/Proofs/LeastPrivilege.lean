import CapLiveness.Proofs.Execution
import CapLiveness.Proofs.Levels
import Mathlib.Data.List.Chain

/-!
# Nothing is held past its last use

Along the edges of control, what is live stays live until it is dropped: at the end of
the block that no longer needs what it was entered with, or at the start of a successor
that does not need what was left with (`Result.IsSolved.live_or_dropped`).

So an execution holds no more than what is live. The argument is about the outermost
activation. While a call runs, the entry function stands inside its call site
(`Control.outermost`), whatever happens above it on the stack can only lose kinds, and
the call site comes to its end with no more than it was entered with. What may be held
there is said by `Program.Allows`; it is preserved by every step
(`Result.IsSolved.allows_step`), and holds at the start because what is not dropped then
is required by the entry function, and so live on entry to it if all of its blocks can be
reached (`Result.IsSolved.allows_of_reached`). Where a function returns that nothing
calls, nothing is live (`WellFormed.not_liveAt_exit_of_returns`).
-/

set_option autoImplicit false

namespace CapLiveness

open Relation (ReflTransGen)

/-! ## Paths -/

namespace Program.WellFormed

variable {p : Program} (wf : p.WellFormed)
include wf

theorem exists_last {first : BlockId} {block : Block} {rest : List BlockId}
    (found : p.block? first = some block) (path : (first :: rest).IsChain p.Edge) :
    ∃ last, p.block? (rest.getLastD first) = some last := by
  induction rest generalizing first block with
  | nil => exact ⟨block, found⟩
  | cons next rest ih =>
    obtain ⟨⟨other, foundOther, successor⟩, path⟩ := List.isChain_cons_cons.mp path
    obtain ⟨after, foundNext, _⟩ := (wf.block foundOther).successors next successor
    rw [List.getLastD_cons]
    exact ih foundNext path

end Program.WellFormed

namespace Result.IsSolved

variable {r : Result} {p : Program} (solved : r.IsSolved p) {k : Nat}
include solved

/-- **What is live at the start of a path is live at its end or dropped on the way.** -/
theorem live_or_dropped {first : BlockId} {block : Block} {rest : List BlockId}
    (found : p.block? first = some block) (path : (first :: rest).IsChain p.Edge)
    (live : p.LiveAt (.entry first) k) :
    p.LiveAt (.exit (rest.getLastD first)) k ∨ (∃ b ∈ first :: rest, k ∈ r.dropEnd.get b) ∨
      ∃ b ∈ rest, k ∈ r.dropStart.get b := by
  induction rest generalizing first block with
  | nil =>
    obtain ⟨b, rfl, _⟩ := entryAt?_eq_some_iff.mp found
    rcases solved.liveOut_or_dropEnd found live with after | dropped
    · exact .inl after
    · exact .inr (.inl ⟨_, List.mem_singleton.mpr rfl, dropped⟩)
  | cons next rest ih =>
    obtain ⟨⟨other, foundOther, successor⟩, pathRest⟩ := List.isChain_cons_cons.mp path
    obtain ⟨after, foundNext, _⟩ := (solved.wellFormed.block foundOther).successors next successor
    obtain ⟨b, rfl, _⟩ := entryAt?_eq_some_iff.mp found
    obtain ⟨c, rfl, _⟩ := entryAt?_eq_some_iff.mp foundNext
    rw [List.getLastD_cons]
    rcases solved.liveOut_or_dropEnd found live with after | dropped
    · rcases solved.liveIn_or_dropStart foundOther successor after with liveNext | dropped
      · rcases ih foundNext pathRest liveNext with
          atEnd | ⟨b, member, dropped⟩ | ⟨b, member, dropped⟩
        · exact .inl atEnd
        · exact .inr (.inl ⟨b, List.mem_cons_of_mem _ member, dropped⟩)
        · exact .inr (.inr ⟨b, List.mem_cons_of_mem _ member, dropped⟩)
      · exact .inr (.inr ⟨_, List.mem_cons_self, dropped⟩)
    · exact .inr (.inl ⟨_, List.mem_cons_self, dropped⟩)

end Result.IsSolved

/-! ## The outermost activation -/

/-- How far the outermost activation has run: it is inside the call site at the bottom of
the stack, if there is one. -/
def Control.outermost (control : Control) : List BlockId → Control
  | [] => control
  | c :: stack => outermost (.inside c) stack

theorem Control.outermost_imp {holds : Control → Prop} {before after : Control}
    (step : holds before → holds after) {stack : List BlockId} :
    holds (before.outermost stack) → holds (after.outermost stack) := by
  cases stack with
  | nil => exact step
  -- Above a call site, the innermost activation is not the outermost one.
  | cons c stack => exact id

namespace Program

/-- **Where a kind may be held.** On entry to a block it is live or about to be revoked, up
to the end of the block it is live on entry, and afterwards it is live on exit. -/
def Allows (p : Program) (plan : Plan) (k : Nat) : Control → Prop
  | .entering b => k ∈ plan.revoked [.processStart, .blockStart] b ∨ p.LiveAt (.entry b) k
  | .inside b | .ending b => p.LiveAt (.entry b) k
  | .leaving b => p.LiveAt (.exit b) k

/-- A block comes to its end with no more than it was entered with. -/
theorem Allows.ending {p : Program} {plan : Plan} {k : Nat} {b : BlockId} {stack : List BlockId}
    (allows : p.Allows plan k (Control.outermost (.inside b) stack)) :
    p.Allows plan k (Control.outermost (.ending b) stack) := by
  cases stack <;> exact allows

end Program

namespace Result.IsSolved

variable {r : Result} {p : Program} (solved : r.IsSolved p) {options : PlanOptions}
  (unrestricted : options.only = none) {k : Nat}
include solved unrestricted

/-- **A step keeps what is held allowed.** -/
theorem allows_step {m n : Machine} (runs : m.Runs p p.entry)
    (step : Step p (Plan.ofResult r options) m n) (held : k ∈ n.held)
    (allows : p.Allows (Plan.ofResult r options) k (m.control.outermost m.stack)) :
    p.Allows (Plan.ofResult r options) k (n.control.outermost n.stack) := by
  have program := solved.program_eq
  have kept := (step.mem_held_iff.mp held).2
  cases step with
  | enter => exact Control.outermost_imp (fun allowed => allowed.resolve_left kept) allows
  | work | callDeclaration | callOutside => exact allows.ending
  | call => exact allows
  | back =>
    -- While the call ran, its activation stood inside the call site.
    exact Program.Allows.ending allows
  | finish =>
    obtain ⟨block, found, _⟩ := runs
    refine Control.outermost_imp (fun live => ?_) allows
    obtain ⟨b, rfl, _⟩ := entryAt?_eq_some_iff.mp found
    refine (solved.liveOut_or_dropEnd found live).resolve_right fun dropped => kept ?_
    rw [← program] at found
    exact Plan.mem_revoked_of_dropEnd unrestricted found dropped
  | jump found successor =>
    refine Control.outermost_imp (fun live => ?_) allows
    obtain ⟨next, foundNext, _⟩ := (solved.wellFormed.block found).successors _ successor
    obtain ⟨b, rfl, _⟩ := entryAt?_eq_some_iff.mp found
    obtain ⟨c, rfl, _⟩ := entryAt?_eq_some_iff.mp foundNext
    rw [← program] at foundNext
    rcases solved.liveIn_or_dropStart found successor live with needed | dropped
    · exact .inr needed
    · exact .inl (Plan.mem_revoked_of_dropStart unrestricted foundNext dropped)

theorem allows_start {function : Function} {first : BlockId}
    (isEntry : p.function? p.entry = some function)
    (isFirst : function.blocks.head? = some first) (reaches : p.ReachesAll function first)
    (member : k ∈ p.enumeration.all) :
    p.Allows (Plan.ofResult r options) k (.entering first) := by
  have wf := solved.wellFormed
  by_cases required : p.Requires p.entry k
  · exact .inr ((wf.liveAt_first_iff isEntry isFirst reaches).mpr (.inl required))
  · obtain ⟨block, found, _⟩ := wf.exists_first isEntry isFirst
    obtain ⟨entry, isSlot, inside⟩ := entryAt?_eq_some_iff.mp isEntry
    have dropped : k ∈ r.entryDrop := by
      rw [solved.entryDrop_eq isSlot (Program.lt_of_function? inside), CapSet.mem_sdiff,
        solved.mem_get]
      rw [Program.Requires, isSlot] at required
      exact ⟨member, required⟩
    rw [← solved.program_eq] at isEntry found
    exact .inl (Plan.mem_revoked_of_entryDrop unrestricted found isEntry isFirst dropped)

/-- **Executions hold only what is allowed.** -/
theorem allows_of_reached {function : Function} {first : BlockId}
    (isEntry : p.function? p.entry = some function)
    (isFirst : function.blocks.head? = some first) (reaches : p.ReachesAll function first)
    {m : Machine} (reached : Reached p (Plan.ofResult r options) m) (held : k ∈ m.held) :
    p.Allows (Plan.ofResult r options) k (m.control.outermost m.stack) := by
  induction reached with
  | start otherEntry otherFirst =>
    obtain rfl := Option.some.inj (isEntry.symm.trans otherEntry)
    obtain rfl := Option.some.inj (isFirst.symm.trans otherFirst)
    exact solved.allows_start unrestricted isEntry isFirst reaches held
  | step reached step ih =>
    have runs := solved.wellFormed.runs_of_reached reached
    exact solved.allows_step unrestricted runs step held (ih (step.mem_held_iff.mp held).1)

theorem liveAt_of_leaving {function : Function} {first : BlockId}
    (isEntry : p.function? p.entry = some function)
    (isFirst : function.blocks.head? = some first) (reaches : p.ReachesAll function first)
    {m : Machine} (reached : Reached p (Plan.ofResult r options) m) {b : BlockId}
    (bottom : m.stack = []) (leaving : m.control = .leaving b) (held : k ∈ m.held) :
    p.LiveAt (.exit b) k := by
  have allows := solved.allows_of_reached unrestricted isEntry isFirst reaches reached held
  rw [leaving, bottom] at allows
  exact allows

end Result.IsSolved

/-! ## Returning -/

namespace Program.WellFormed

variable {p : Program} (wf : p.WellFormed) {k : Nat}
include wf

/-- Nothing is live after the entry function returns, if no call may enter it. -/
theorem not_liveAfter_entry
    (uncalled : ∀ c site, p.block? c = some site → ¬ p.MayEnter site p.entry) :
    ¬ p.LiveAfter p.entry k := by
  obtain ⟨function, isEntry, _⟩ := wf.entry
  obtain ⟨i, isSlot, inside⟩ := entryAt?_eq_some_iff.mp isEntry
  intro live
  cases live with
  | all givenUp _ => cases givenUp
  | own _ member => exact absurd member (CapSet.not_mem_empty k)
  | source _ reads _ =>
    rw [isSlot] at reads
    rcases mem_sources_returnLive.mp reads with ⟨c, caller, _⟩ | ⟨isExternal, _⟩
    · obtain ⟨_, site, found, call, callee⟩ := mem_callersOf.mp caller
      refine uncalled _ site found ((wf.mayEnter_iff found).mpr ⟨call, i, callee, ?_⟩)
      exact (standsFor_function (lt_of_function? inside)).mpr isSlot
    · exact (wf.isExternal_iff.mp isExternal).1 isSlot.symm

/-- Nothing is live where the entry function returns, if it is not opaque and no call may
enter it. -/
theorem not_liveAt_exit_of_returns {b : BlockId} {block : Block}
    (found : p.block? b = some block) (owner : block.function = p.entry)
    (returns : block.exit = .return)
    (isOpen : p.setting.uses.isOpaque p.entry.toNat = false)
    (uncalled : ∀ c site, p.block? c = some site → ¬ p.MayEnter site p.entry) :
    ¬ p.LiveAt (.exit b) k := by
  obtain ⟨i, rfl, _⟩ := entryAt?_eq_some_iff.mp found
  intro live
  cases live with
  | all givenUp _ =>
    have isOpaque := (isOpaqueBlock_eq found).symm.trans givenUp
    rw [owner, isOpen] at isOpaque
    cases isOpaque
  | own _ member => exact absurd member (CapSet.not_mem_empty k)
  | source _ reads flows =>
    rcases mem_exitSources.mp ((mem_sources_liveOut found).mp reads) with
      ⟨next, successor, _⟩ | ⟨_, rfl⟩
    · have ends : block.exit ≠ .none := by
        rw [returns]
        decide
      rw [(wf.block found).continues.mpr ends] at successor
      cases successor
    · rw [owner] at flows
      exact wf.not_liveAfter_entry uncalled flows

end Program.WellFormed

/-- **No capability leaks past its last use.** In the result of an analysis, along every path
of control, what is live on entry to the first block is live on exit from the last or
dropped on the way. An execution of the unrestricted plan therefore never leaves a block
of the outermost activation holding more than is live there, if every block of the entry
function can be reached from the first and the analysis was not skipped. If moreover the
entry function is not opaque and no call may enter it, the program returns with nothing
held. -/
theorem nothing_leaks {p : Program} {config : Config} {r : Result}
    (analyzed : (p.analyze config).outcome = .ok r) :
    r.program = p ∧
      (∀ first block rest, p.block? first = some block → (first :: rest).IsChain p.Edge →
        ∃ live after, r.liveIn? first = some live ∧
          r.liveOut? (rest.getLastD first) = some after ∧
          live ⊆ after ∪ unionOf (first :: rest) r.dropEnd.get ∪ unionOf rest r.dropStart.get) ∧
      (r.skipped = false → ∀ primitive function first, p.function? p.entry = some function →
        function.blocks.head? = some first → p.ReachesAll function first →
        ∀ m b, Reached p (Plan.ofResult r ⟨primitive, none⟩) m → m.stack = [] →
          m.control = .leaving b →
          ∃ block after, p.block? b = some block ∧ r.liveOut? b = some after ∧ m.held ⊆ after ∧
            (r.isOpaque? p.entry = some false →
              (∀ c site, p.block? c = some site → ¬ p.MayEnter site p.entry) →
              block.exit = .return → m.held = ∅)) := by
  have covers := Program.covers_of_outcome analyzed
  have wf := covers.wellFormed
  refine ⟨covers.program, ?_, ?_⟩
  · intro first block rest found path
    obtain ⟨last, foundLast⟩ := wf.exists_last found path
    obtain ⟨b, rfl, _⟩ := entryAt?_eq_some_iff.mp found
    obtain ⟨c, isLast, _⟩ := entryAt?_eq_some_iff.mp foundLast
    rw [isLast] at foundLast ⊢
    refine ⟨_, _, covers.liveIn?_ofNat found, covers.liveOut?_ofNat foundLast, ?_⟩
    rcases Program.solved_or_skipped analyzed with solved | ⟨_, rfl⟩
    · intro k live
      have dropped := solved.live_or_dropped found path (solved.mem_get.mp live)
      rw [isLast] at dropped
      rw [CapSet.mem_union, CapSet.mem_union, mem_unionOf, mem_unionOf, solved.mem_get, or_assoc]
      exact dropped
    · rw [Program.get_skippedResult]
      exact CapSet.empty_subset _
  · intro notSkipped primitive function first isEntry isFirst reaches m b reached bottom leaving
    have solved := Program.isSolved_of_outcome analyzed notSkipped
    have live : ∀ k ∈ m.held, p.LiveAt (.exit b) k := fun k =>
      solved.liveAt_of_leaving rfl isEntry isFirst reaches reached bottom leaving
    obtain ⟨block, found, chain⟩ := wf.runs_of_reached reached
    rw [leaving] at found
    rw [bottom] at chain
    obtain ⟨c, rfl, _⟩ := entryAt?_eq_some_iff.mp found
    refine ⟨block, _, found, solved.covers.liveOut?_ofNat found, ?_, ?_⟩
    · intro k held
      exact solved.mem_get.mpr (live k held)
    · intro isOpen uncalled returns
      obtain ⟨entry, isSlot, inside⟩ := entryAt?_eq_some_iff.mp isEntry
      rw [isSlot, solved.isOpaque?_ofNat (Program.lt_of_function? inside),
        Option.some.injEq] at isOpen
      apply CapSet.isEmpty_iff.mp
      apply CapSet.isEmpty_iff_forall.mpr
      intro k held
      refine wf.not_liveAt_exit_of_returns found chain.eq returns ?_ uncalled (live k held)
      rw [isSlot]
      exact isOpen

/-! ## A sample -/

theorem sampleProgram_edges :
    sampleProgram.Edge 0 1 ∧ sampleProgram.Edge 0 2 ∧ sampleProgram.Edge 2 3 ∧
      sampleProgram.Edge 1 4 ∧ sampleProgram.Edge 5 7 :=
  ⟨⟨_, rfl, by decide⟩, ⟨_, rfl, by decide⟩, ⟨_, rfl, by decide⟩, ⟨_, rfl, by decide⟩,
    ⟨_, rfl, by decide⟩⟩

theorem sampleProgram_reachesAll {function : Function}
    (isEntry : sampleProgram.function? sampleProgram.entry = some function) :
    sampleProgram.ReachesAll function 0 := by
  obtain ⟨toCall, toUnknown, toRaise, toReturn, _⟩ := sampleProgram_edges
  obtain rfl := Option.some.inj isEntry
  intro b listed
  change b ∈ ([0, 1, 2, 3, 4] : List BlockId) at listed
  simp only [List.mem_cons, List.not_mem_nil, or_false] at listed
  rcases listed with rfl | rfl | rfl | rfl | rfl
  · exact .refl
  · exact .single toCall
  · exact .single toUnknown
  · exact (ReflTransGen.single toUnknown).tail toRaise
  · exact (ReflTransGen.single toCall).tail toReturn

theorem sampleProgram_uncalled (c : BlockId) (site : Block)
    (found : sampleProgram.block? c = some site) :
    ¬ sampleProgram.MayEnter site sampleProgram.entry := by
  have notTarget : ∀ site ∈ sampleProgram.blocks, site.kind = .call →
      sampleProgram.entry ∉ site.target.targets := by decide
  obtain ⟨i, _, inside⟩ := entryAt?_eq_some_iff.mp found
  rintro ⟨call, target | ⟨_, external⟩⟩
  · exact notTarget site (Array.mem_of_getElem? inside) call target
  · exact external.1 rfl

theorem sampleProgram_returns (plan : Plan) :
    ∃ held, Reached sampleProgram plan ⟨.leaving 4, [], held⟩ := by
  obtain ⟨⟨_, found0, toCall⟩, _, _, ⟨_, found1, toReturn⟩, ⟨_, found5, toEnd⟩⟩ :=
    sampleProgram_edges
  have atFirst : Reached sampleProgram plan ⟨.entering 0, [], sampleProgram.enumeration.all⟩ :=
    .start rfl rfl
  have atBranch := (atFirst.step .enter).step (.work rfl (by decide))
  have atCall := (atBranch.step .finish).step (.jump found0 toCall)
  have atWorker := (atCall.step .enter).step
    (.call (f := 1) rfl ⟨rfl, .inl (by decide)⟩ rfl rfl)
  have raised := (atWorker.step .enter).step (.work rfl (by decide))
  have atEnd := (raised.step .finish).step (.jump found5 toEnd)
  have workerEnds := ((atEnd.step .enter).step (.work rfl (by decide))).step .finish
  have called := (workerEnds.step (.back rfl rfl)).step .finish
  have atLast := called.step (.jump found1 toReturn)
  exact ⟨_, ((atLast.step .enter).step (.work rfl (by decide))).step .finish⟩

/-- The two privileges that are live at the start of the sample program, and where the first
branch of its entry function drops them. -/
theorem sampleProgram_dropped {r : Result} (solved : r.IsSolved sampleProgram) :
    0 ∈ r.tables.get ⟨.liveIn, 0⟩ ∧ 1 ∈ r.tables.get ⟨.liveIn, 0⟩ ∧
      1 ∈ r.dropStart.get (Int.ofNat 1) ∧ 0 ∈ r.dropEnd.get (Int.ofNat 1) := by
  have worker : sampleProgram.setting.Flows 0 ⟨.requiredIn, 1⟩ :=
    .own (by decide +kernel) (by decide +kernel)
  have calls : sampleProgram.setting.Flows 0 ⟨.liveIn, 1⟩ :=
    .source (by decide +kernel) (by decide +kernel) worker
  have raises : sampleProgram.setting.Flows 1 ⟨.liveIn, 3⟩ :=
    .own (by decide +kernel) (by decide +kernel)
  have later : sampleProgram.setting.Flows 1 ⟨.liveIn, 2⟩ :=
    .source (by decide +kernel) (by decide +kernel) raises
  -- After the call the entry function only returns, and the worker does not raise kind 1.
  have called : ¬ sampleProgram.setting.Flows 0 ⟨.liveOut, 1⟩ := by
    refine Setting.not_flows_of_closed
      [⟨.liveOut, 1⟩, ⟨.liveIn, 4⟩, ⟨.returnLive, 0⟩] ?_ List.mem_cons_self
    decide +kernel
  have unused : ¬ sampleProgram.setting.Flows 1 ⟨.liveIn, 1⟩ := by
    refine Setting.not_flows_of_closed
      [⟨.liveIn, 1⟩, ⟨.liveIn, 4⟩, ⟨.returnLive, 0⟩, ⟨.requiredIn, 1⟩] ?_ List.mem_cons_self
    decide +kernel
  refine ⟨solved.mem_get.mpr (.source (by decide +kernel) (by decide +kernel) calls),
    solved.mem_get.mpr (.source (by decide +kernel) (by decide +kernel) later), ?_, ?_⟩
  · refine (solved.mem_dropStart_iff (b := 1) rfl).mpr ⟨unused, 0, _, rfl, ?_, ?_, ?_⟩
    · decide
    · decide +kernel
    · exact .source (by decide +kernel) (by decide +kernel) later
  · exact (solved.mem_dropEnd_iff (b := 1) rfl).mpr ⟨by decide +kernel, calls, called⟩

/-- The entry function of the sample program is not opaque, and nothing calls it. It may call
the worker, which raises a privilege, and return: nothing is held then. What the other branch
raises is dropped before the call, and what the worker raises after it. -/
theorem nothing_leaks_sample :
    ∃ r, (sampleProgram.analyze sampleConfig).outcome = .ok r ∧ r.skipped = false ∧
      (∃ live after, r.liveIn? 0 = some live ∧ r.liveOut? 4 = some after ∧
        live ⊆ after ∪ unionOf [0, 1, 4] r.dropEnd.get ∪ unionOf [1, 4] r.dropStart.get ∧
        0 ∈ live ∧ 1 ∈ live) ∧
      1 ∈ r.dropStart.get 1 ∧ 0 ∈ r.dropEnd.get 1 ∧
      ∃ m, Reached sampleProgram (Plan.ofResult r ⟨"revoke", none⟩) m ∧
        m.stack = [] ∧ m.control = .leaving 4 ∧ m.held = ∅ := by
  obtain ⟨r, analyzed, notSkipped⟩ := sampleProgram_analyzed
  obtain ⟨toCall, _, _, toReturn, _⟩ := sampleProgram_edges
  obtain ⟨_, paths, executions⟩ := nothing_leaks analyzed
  have solved := Program.isSolved_of_outcome analyzed notSkipped
  obtain ⟨kept0, kept1, started, ended⟩ := sampleProgram_dropped solved
  refine ⟨r, analyzed, notSkipped, ?_, started, ended, ?_⟩
  · obtain ⟨live, after, isLive, isAfter, contained⟩ :=
      paths 0 _ [1, 4] rfl (.cons_cons toCall (.cons_cons toReturn (.singleton 4)))
    have found : sampleProgram.block? (Int.ofNat 0) = some _ := rfl
    obtain rfl := Option.some.inj ((solved.covers.liveIn?_ofNat found).symm.trans isLive)
    exact ⟨_, after, isLive, isAfter, contained, kept0, kept1⟩
  · obtain ⟨held, reached⟩ := sampleProgram_returns (Plan.ofResult r ⟨"revoke", none⟩)
    obtain ⟨block, _, found, _, _, returnsEmpty⟩ := executions notSkipped "revoke" _ 0 rfl rfl
      (sampleProgram_reachesAll rfl) _ 4 reached rfl rfl
    obtain rfl := Option.some.inj found
    refine ⟨_, reached, rfl, rfl, returnsEmpty ?_ sampleProgram_uncalled rfl⟩
    exact (solved.isOpaque?_ofNat (by decide)).trans (by decide +kernel)

end CapLiveness
