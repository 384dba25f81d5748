import CapLiveness.Proofs.LivenessPaths

/-!
# The two levels agree

Requirements belong to functions and are collected along calls, in no order;
liveness belongs to points and follows the edges of control. The two are one account.
Whatever is live inside a function is required by it or live after it returns
(`WellFormed.neededFrom_of_flows`). Conversely, what a function requires is needed at
one of its blocks, and what its callers still need is live where it returns; both are
live where the function is entered if every block can be reached from there
(`WellFormed.liveAt_first_iff`).
-/

set_option autoImplicit false

namespace CapLiveness

open Relation (ReflTransGen)

namespace Program

variable {p : Program} {k : Nat}

/-! ## Requirements and liveness by id -/

/-- Whether a kind is required by a function. -/
def Requires (p : Program) (f : FunctionId) (k : Nat) : Prop :=
  p.setting.Flows k ⟨.requiredIn, f.toNat⟩

/-- Whether a kind is live after a function returns. -/
def LiveAfter (p : Program) (f : FunctionId) (k : Nat) : Prop :=
  p.setting.Flows k ⟨.returnLive, f.toNat⟩

/-- Whether a kind is live at a point. -/
def LiveAt (p : Program) (x : Point) (k : Nat) : Prop := p.setting.Flows k x.cell

namespace WellFormed

variable (wf : p.WellFormed)
include wf

theorem requires_of_mayEnter {c : BlockId} {site : Block} {f : FunctionId}
    (found : p.block? c = some site) (enters : p.MayEnter site f) (required : p.Requires f k) :
    p.Requires site.function k := by
  obtain ⟨_, callee⟩ := wf.exists_function_of_mayEnter found enters
  obtain ⟨j, rfl, _⟩ := entryAt?_eq_some_iff.mp callee
  obtain ⟨i, _, names, _⟩ := wf.exists_owner found
  rw [Requires, names]
  exact wf.flows_of_mayCall ⟨c, site, found, names, enters⟩ required

theorem requires_of_calls {f g : FunctionId} (calls : ReflTransGen p.MayCall f g)
    (required : p.Requires g k) : p.Requires f k := by
  induction calls using ReflTransGen.head_induction_on with
  | refl => exact required
  | head call _ ih =>
    obtain ⟨b, site, found, owner, enters⟩ := call
    rw [← owner]
    exact wf.requires_of_mayEnter found enters ih

theorem liveAt_of_mayEnter {c : BlockId} {site : Block} {f : FunctionId}
    (found : p.block? c = some site) (enters : p.MayEnter site f) (required : p.Requires f k) :
    p.LiveAt (.entry c) k := by
  obtain ⟨_, callee⟩ := wf.exists_function_of_mayEnter found enters
  obtain ⟨j, rfl, _⟩ := entryAt?_eq_some_iff.mp callee
  obtain ⟨i, rfl, _⟩ := entryAt?_eq_some_iff.mp found
  exact wf.flows_liveIn_of_mayEnter found enters required

/-- An opaque function requires everything. -/
theorem requires_of_isOpaque {b : BlockId} {block : Block} (found : p.block? b = some block)
    (isOpaque : p.setting.uses.isOpaque block.function.toNat = true)
    (member : k ∈ p.setting.program.enumeration.all) : p.Requires block.function k := by
  obtain ⟨i, function, names, bound, inside, _⟩ := wf.exists_owner found
  rw [names] at isOpaque
  rw [Requires, names]
  refine .own (Setting.slot_mem_initialEntities (Nat.lt_add_right 2 bound)) ?_
  refine mem_own_requiredIn.mpr ⟨function, inside, ?_⟩
  rw [if_pos isOpaque]
  exact member

/-- A function requires what its blocks use. -/
theorem requires_of_uses {b : BlockId} {block : Block} (found : p.block? b = some block)
    (used : k ∈ block.localUses p.enumeration) : p.Requires block.function k := by
  obtain ⟨i, function, names, bound, inside, foundFunction⟩ := wf.exists_owner found
  rw [Requires, names]
  refine .own (Setting.slot_mem_initialEntities (Nat.lt_add_right 2 bound)) ?_
  refine mem_own_requiredIn.mpr ⟨function, inside, ?_⟩
  split
  · exact (Block.mem_localUses.mp used).2
  · have listed := (wf.listed_iff foundFunction found).mpr names
    exact mem_functionUses.mpr ⟨b, listed, block, found, used⟩

end WellFormed

/-! ## From points to functions -/

/-- Whether a kind may be needed once a function is entered: by the function or, if it
returns, by its callers afterwards. -/
def NeededFrom (p : Program) (f : FunctionId) (k : Nat) : Prop :=
  p.Requires f k ∨
    (∃ function, p.function? f = some function ∧ function.exit ≠ BlockId.absent) ∧ p.LiveAfter f k

namespace WellFormed

variable (wf : p.WellFormed)
include wf

/-- What is live on exit from a block is needed from its function on, if the same holds
for the blocks that its equation reads. -/
theorem neededFrom_of_exitSources {b : Nat} {block : Block} {source : Cell}
    (found : p.block? (Int.ofNat b) = some block) (reads : source ∈ p.setting.exitSources b block)
    (flows : p.setting.Flows k source)
    (ih : ∀ {c : Nat} {next : Block}, source.entity = .block c →
      p.block? (Int.ofNat c) = some next → p.NeededFrom next.function k) :
    p.NeededFrom block.function k := by
  rcases mem_exitSources.mp reads with
    ⟨next, listed, rfl⟩ | ⟨⟨function, foundFunction, exits⟩, rfl⟩
  · obtain ⟨other, foundNext, same⟩ := (wf.block found).successors _ listed
    rw [← same]
    exact ih rfl foundNext
  · refine .inr ⟨⟨function, foundFunction, ?_⟩, flows⟩
    rw [exits]
    exact (nomatch ·)

/-- **Whatever is live inside a function is required by it or live after it returns.** -/
theorem neededFrom_of_flows {cell : Cell} (flows : p.setting.Flows k cell) {b : Nat}
    {block : Block} (ofBlock : cell.entity = .block b)
    (found : p.block? (Int.ofNat b) = some block) : p.NeededFrom block.function k := by
  induction flows generalizing b block with
  | all givenUp member =>
    rw [ofBlock] at givenUp
    have isOpaque := (isOpaqueBlock_eq found).symm.trans givenUp
    exact .inl (wf.requires_of_isOpaque found isOpaque member)
  | @own cell _ member =>
    obtain ⟨field, index⟩ := cell
    cases field with
    | requiredIn | requiredOut | returnLive => cases ofBlock
    | liveOut => exact absurd member (CapSet.not_mem_empty k)
    | liveIn =>
      cases ofBlock
      rw [own_liveIn found] at member
      exact .inl (wf.requires_of_uses found member)
  | @source cell source _ reads flows ih =>
    obtain ⟨field, index⟩ := cell
    cases field with
    | requiredIn | requiredOut | returnLive => cases ofBlock
    | liveOut =>
      cases ofBlock
      exact wf.neededFrom_of_exitSources found ((mem_sources_liveOut found).mp reads) flows ih
    | liveIn =>
      cases ofBlock
      rcases (mem_sources_liveIn found).mp reads with exit | ⟨call, callee, isCallee, rfl⟩
      · exact wf.neededFrom_of_exitSources found exit flows ih
      · obtain ⟨i, _, names, _⟩ := wf.exists_owner found
        rw [names]
        exact .inl (wf.flows_of_mem_callees found call names isCallee flows)

/-! ## From functions to points -/

theorem exists_liveAt_of_requires {f : FunctionId} {function : Function} {first : BlockId}
    (foundFunction : p.function? f = some function) (listed : first ∈ function.blocks)
    (required : p.Requires f k) : ∃ b ∈ function.blocks, p.LiveAt (.entry b) k := by
  obtain ⟨i, rfl, inside⟩ := entryAt?_eq_some_iff.mp foundFunction
  cases required with
  | all givenUp _ => cases givenUp
  | own _ member =>
    obtain ⟨other, otherInside, uses⟩ := mem_own_requiredIn.mp member
    obtain rfl := Option.some.inj (inside.symm.trans otherInside)
    split at uses
    case isTrue isOpaque =>
      -- In an opaque function everything is live everywhere, so any block will do.
      obtain ⟨block, found, owner⟩ := wf.exists_listed foundFunction listed
      obtain ⟨b, rfl, _⟩ := entryAt?_eq_some_iff.mp found
      refine ⟨_, listed, .all ?_ uses⟩
      refine (isOpaqueBlock_eq found).trans ?_
      rw [owner]
      exact isOpaque
    case isFalse =>
      obtain ⟨b, listedUse, block, found, used⟩ := mem_functionUses.mp uses
      obtain ⟨b, rfl, _⟩ := entryAt?_eq_some_iff.mp found
      exact ⟨_, listedUse, flows_liveIn_of_uses found used⟩
  | source _ reads flows =>
    obtain ⟨callee, entered, rfl⟩ := List.mem_map.mp reads
    obtain ⟨c, site, found, call, owner, isCallee⟩ :=
      exists_site_of_mem_slotCallees (lt_of_function? foundFunction) entered
    have listedSite := (wf.listed_iff foundFunction found).mpr owner
    exact ⟨_, listedSite, flows_liveIn_of_mem_callees found call isCallee flows⟩

theorem liveAt_exit_of_liveAfter {f : FunctionId} {function : Function}
    (foundFunction : p.function? f = some function) (returns : function.exit ≠ BlockId.absent)
    (live : p.LiveAfter f k) :
    function.exit ∈ function.blocks ∧ p.LiveAt (.exit function.exit) k := by
  have listed := (wf.function foundFunction).exit.resolve_left returns
  obtain ⟨block, found, _⟩ := wf.exists_listed foundFunction listed
  obtain ⟨b, isExit, _⟩ := entryAt?_eq_some_iff.mp found
  obtain ⟨i, rfl, _⟩ := entryAt?_eq_some_iff.mp foundFunction
  rw [isExit] at found
  refine ⟨listed, ?_⟩
  rw [LiveAt, isExit]
  exact wf.flows_liveOut_of_returnLive found foundFunction isExit live

end WellFormed

/-- The edges of control inside functions: from a block to its successors. -/
def Edge (p : Program) (b next : BlockId) : Prop :=
  ∃ block, p.block? b = some block ∧ next ∈ block.successors

/-- Whether every block of a function can be reached from one of them. -/
def ReachesAll (p : Program) (function : Function) (first : BlockId) : Prop :=
  ∀ b ∈ function.blocks, ReflTransGen p.Edge first b

namespace WellFormed

variable (wf : p.WellFormed)
include wf

theorem liveAt_of_edges {b c : BlockId} (path : ReflTransGen p.Edge b c)
    (live : p.LiveAt (.entry c) k) : p.LiveAt (.entry b) k := by
  induction path using ReflTransGen.head_induction_on with
  | refl => exact live
  | head edge _ ih =>
    obtain ⟨block, found, successor⟩ := edge
    exact wf.flows_of_leads (.through found) (wf.flows_of_leads (.successor found successor) ih)

/-- **Where a function is entered, exactly what is needed from there on is live,** if its
blocks can all be reached. -/
theorem liveAt_first_iff {f : FunctionId} {function : Function} {first : BlockId}
    (foundFunction : p.function? f = some function) (isFirst : function.blocks.head? = some first)
    (reaches : p.ReachesAll function first) : p.LiveAt (.entry first) k ↔ p.NeededFrom f k := by
  have listed := List.mem_of_head? isFirst
  constructor
  · intro live
    obtain ⟨block, found, owner⟩ := wf.exists_listed foundFunction listed
    obtain ⟨b, rfl, _⟩ := entryAt?_eq_some_iff.mp found
    rw [← owner]
    exact wf.neededFrom_of_flows live rfl found
  · rintro (required | ⟨⟨other, foundOther, returns⟩, after⟩)
    · obtain ⟨b, listedNeed, live⟩ := wf.exists_liveAt_of_requires foundFunction listed required
      exact wf.liveAt_of_edges (reaches b listedNeed) live
    · obtain rfl := Option.some.inj (foundFunction.symm.trans foundOther)
      obtain ⟨listedExit, live⟩ := wf.liveAt_exit_of_liveAfter foundFunction returns after
      obtain ⟨block, found, _⟩ := wf.exists_listed foundFunction listedExit
      exact wf.liveAt_of_edges (reaches _ listedExit) (wf.flows_of_leads (.through found) live)

end WellFormed

end Program

/-! ## The result of an analysis -/

namespace Result.IsSolved

variable {r : Result} {p : Program} (solved : r.IsSolved p)
include solved

theorem live_subset_levels {b i : Nat} {block : Block} {cell : Cell}
    (found : p.block? (Int.ofNat b) = some block) (owner : block.function = Int.ofNat i)
    (ofBlock : cell.entity = .block b) :
    r.tables.get cell ⊆ r.tables.get ⟨.requiredIn, i⟩ ∪ r.tables.get ⟨.returnLive, i⟩ := by
  intro k live
  have needed := solved.wellFormed.neededFrom_of_flows (solved.mem_get.mp live) ofBlock found
  rw [owner] at needed
  rw [CapSet.mem_union, solved.mem_get, solved.mem_get]
  exact needed.imp_right And.right

theorem liveIn_first {b i : Nat} {function : Function}
    (foundFunction : p.function? (Int.ofNat i) = some function)
    (isFirst : function.blocks.head? = some (Int.ofNat b))
    (reaches : p.ReachesAll function (Int.ofNat b)) :
    r.tables.get ⟨.liveIn, b⟩ =
      if function.exit = BlockId.absent then r.tables.get ⟨.requiredIn, i⟩
      else r.tables.get ⟨.requiredIn, i⟩ ∪ r.tables.get ⟨.returnLive, i⟩ := by
  apply CapSet.ext_mem
  intro k
  have needed := solved.wellFormed.liveAt_first_iff (k := k) foundFunction isFirst reaches
  refine solved.mem_get.trans (needed.trans ?_)
  simp only [Program.NeededFrom, foundFunction, Option.some.injEq, exists_eq_left']
  split
  case isTrue absent => simp [absent, solved.mem_get, Program.Requires]
  case isFalse returns => simp [returns, solved.mem_get, Program.Requires, Program.LiveAfter]

end Result.IsSolved

/-- **The two levels agree.** In the result of an analysis, what is live on entry to or on
exit from a block is required by its function or live after the function returns. If
every block of a function can be reached from the first, then what is live on entry to
the first is exactly what the function requires and, if it returns, what is live after
that. -/
theorem levels_agree {p : Program} {config : Config} {r : Result}
    (analyzed : (p.analyze config).outcome = .ok r) :
    r.program = p ∧ ∀ f function, p.function? f = some function →
      ∃ required after, r.requiredIn? f = some required ∧ r.returnLive? f = some after ∧
        (∀ b ∈ function.blocks, ∃ liveIn liveOut,
          r.liveIn? b = some liveIn ∧ r.liveOut? b = some liveOut ∧
            liveIn ⊆ required ∪ after ∧ liveOut ⊆ required ∪ after) ∧
        ∀ first, function.blocks.head? = some first → p.ReachesAll function first →
          r.liveIn? first =
            some (if function.exit = BlockId.absent then required else required ∪ after) := by
  have covers := Program.covers_of_outcome analyzed
  have wf := covers.wellFormed
  refine ⟨covers.program, ?_⟩
  intro f function foundFunction
  obtain ⟨i, rfl, inside⟩ := entryAt?_eq_some_iff.mp foundFunction
  have bound := Program.lt_of_function? foundFunction
  refine ⟨_, _, covers.requiredIn?_ofNat bound, covers.returnLive?_ofNat bound, ?_, ?_⟩
  · intro b listed
    obtain ⟨block, found, owner⟩ := wf.exists_listed foundFunction listed
    obtain ⟨b, rfl, _⟩ := entryAt?_eq_some_iff.mp found
    refine ⟨_, _, covers.liveIn?_ofNat found, covers.liveOut?_ofNat found, ?_⟩
    rcases Program.solved_or_skipped analyzed with solved | ⟨_, rfl⟩
    · exact ⟨solved.live_subset_levels found owner rfl, solved.live_subset_levels found owner rfl⟩
    · simp [Program.get_skippedResult]
  · intro first isFirst reaches
    obtain ⟨block, found, _⟩ := wf.exists_listed foundFunction (List.mem_of_head? isFirst)
    obtain ⟨b, rfl, _⟩ := entryAt?_eq_some_iff.mp found
    rw [covers.liveIn?_ofNat found]
    rcases Program.solved_or_skipped analyzed with solved | ⟨_, rfl⟩
    · rw [solved.liveIn_first foundFunction isFirst reaches]
    · simp [Program.get_skippedResult]

/-- The worker of the sample program returns, and each of its blocks can be reached from the
first. It requires what it raises, and leaves what the entry function raises later. -/
theorem levels_agree_worker :
    ∃ r, (sampleProgram.analyze sampleConfig).outcome = .ok r ∧
      ∃ required after, r.requiredIn? 1 = some required ∧ r.returnLive? 1 = some after ∧
        0 ∈ required ∧ 1 ∈ after ∧
        r.liveIn? 5 = some (required ∪ after) ∧
        ∃ liveOut, r.liveOut? 6 = some liveOut ∧ liveOut ⊆ required ∪ after := by
  obtain ⟨r, analyzed, notSkipped⟩ := sampleProgram_analyzed
  have solved := Program.isSolved_of_outcome analyzed notSkipped
  obtain ⟨_, functions⟩ := levels_agree analyzed
  obtain ⟨required, after, isRequired, isAfter, blocks, first⟩ := functions 1 _ rfl
  have bound : 1 < sampleProgram.functions.size := by decide
  obtain rfl := Option.some.inj ((solved.covers.requiredIn?_ofNat bound).symm.trans isRequired)
  obtain rfl := Option.some.inj ((solved.covers.returnLive?_ofNat bound).symm.trans isAfter)
  refine ⟨r, analyzed, _, _, isRequired, isAfter, solved.mem_get.mpr ?_, solved.mem_get.mpr ?_,
    first 5 rfl ?_, ?_⟩
  · exact .own (by decide +kernel) (by decide +kernel)
  · exact sampleProgram_flows_back.1
  · intro b listed
    rcases List.mem_cons.mp listed with rfl | successor
    · exact .refl
    · exact .single ⟨_, rfl, successor⟩
  · obtain ⟨_, liveOut, _, isLive, _, contained⟩ := blocks 6 (by decide)
    exact ⟨liveOut, isLive, contained⟩

end CapLiveness
