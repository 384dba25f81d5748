import CapLiveness.Proofs.Requirements

/-!
# Liveness as paths

What is live at a point of a program is what may be needed on the way from there.
Control passes through a block, from a block to its successors, and from the block
in which a function returns to the end of any call that may have entered it
(`Program.Leads`). A kind is needed where a block uses it, where a call may enter a
function that requires it, and anywhere in an opaque function (`Result.Needs`).

Liveness flows against control (`WellFormed.flows_of_leads`), and whatever is live
has a path to a need (`Result.IsSolved.explained_of_flows`). So a kind is live
exactly when a need for it lies ahead (`liveness_paths`). A return may lead to the
end of a call other than the one that was made: the paths are those of the program
without its stack.
-/

set_option autoImplicit false

namespace CapLiveness

open Relation (ReflTransGen)

/-- The two ends of a block. -/
inductive Point where
  | entry (b : BlockId)
  | exit (b : BlockId)

namespace Point

def block : Point → BlockId
  | entry b => b
  | exit b => b

/-- The cell of what is live at a point. -/
def cell : Point → Cell
  | entry b => ⟨.liveIn, b.toNat⟩
  | exit b => ⟨.liveOut, b.toNat⟩

theorem entity_cell (x : Point) : x.cell.entity = .block x.block.toNat := by
  cases x <;> rfl

end Point

namespace Program

/-- **Where control may pass next,** if calls are taken as one step and returns lead to
any call that may have entered the function. -/
inductive Leads (p : Program) : Point → Point → Prop where
  | through {b : BlockId} {block : Block} (found : p.block? b = some block) :
      Leads p (.entry b) (.exit b)
  | successor {b next : BlockId} {block : Block} (found : p.block? b = some block)
      (member : next ∈ block.successors) : Leads p (.exit b) (.entry next)
  | back {b c : BlockId} {f : FunctionId} {block site : Block} {function : Function}
      (found : p.block? b = some block) (foundFunction : p.function? f = some function)
      (exits : function.exit = b) (foundSite : p.block? c = some site)
      (enters : p.MayEnter site f) : Leads p (.exit b) (.exit c)

variable {p : Program}

namespace WellFormed

variable (wf : p.WellFormed)

/-! ## Liveness flows against control -/

/-- Whatever flows into the block if it is solved for, flows there: everything flows
into the blocks of opaque functions. -/
theorem flows_of_solved {k b : Nat} {block : Block} {cell : Cell}
    (found : p.block? (Int.ofNat b) = some block) (ofBlock : cell.entity = .block b)
    (member : k ∈ p.setting.program.enumeration.all)
    (flows : cell.entity ∈ p.setting.initialEntities → p.setting.Flows k cell) :
    p.setting.Flows k cell := by
  cases givenUp : p.setting.isOpaqueBlock b with
  | true =>
    refine .all ?_ member
    rw [ofBlock]
    exact givenUp
  | false =>
    apply flows
    rw [ofBlock]
    exact Setting.block_mem_initialEntities.mpr ⟨lt_of_block? found, givenUp⟩

/-- What a block uses is live on entry to it. -/
theorem flows_liveIn_of_uses {k b : Nat} {block : Block}
    (found : p.block? (Int.ofNat b) = some block) (used : k ∈ block.localUses p.enumeration) :
    p.setting.Flows k ⟨.liveIn, b⟩ := by
  refine flows_of_solved found rfl (Block.mem_localUses.mp used).2 fun solved => .own solved ?_
  rw [own_liveIn found]
  exact used

/-- What a slot requires is live on entry to the calls that enter it. -/
theorem flows_liveIn_of_mem_callees {k c slot : Nat} {site : Block}
    (found : p.block? (Int.ofNat c) = some site) (call : site.kind = .call)
    (callee : slot ∈ p.setting.callees site) (flows : p.setting.Flows k ⟨.requiredIn, slot⟩) :
    p.setting.Flows k ⟨.liveIn, c⟩ := by
  refine flows_of_solved found rfl (mem_all_of_flows flows) fun solved => .source solved ?_ flows
  exact (mem_sources_liveIn found).mpr (.inr ⟨call, slot, callee, rfl⟩)

include wf

/-- What a function requires is live on entry to the calls that may enter it. -/
theorem flows_liveIn_of_mayEnter {k c i : Nat} {site : Block}
    (found : p.block? (Int.ofNat c) = some site) (enters : p.MayEnter site (Int.ofNat i))
    (flows : p.setting.Flows k ⟨.requiredIn, i⟩) : p.setting.Flows k ⟨.liveIn, c⟩ := by
  obtain ⟨call, slot, callee, stands⟩ := (wf.mayEnter_iff found).mp enters
  have bound := wf.lt_of_mem_callees found call callee
  exact flows_liveIn_of_mem_callees found call callee (wf.flows_of_standsFor bound stands flows)

/-- What is live at the end of a call is live after the functions return that it may
enter. -/
theorem flows_returnLive_of_mayEnter {k c i : Nat} {site : Block}
    (found : p.block? (Int.ofNat c) = some site) (enters : p.MayEnter site (Int.ofNat i))
    (flows : p.setting.Flows k ⟨.liveOut, c⟩) : p.setting.Flows k ⟨.returnLive, i⟩ := by
  obtain ⟨function, foundFunction⟩ := wf.exists_function_of_mayEnter found enters
  have small := Nat.lt_add_right 2 (lt_of_function? foundFunction)
  have ofCallee : ∀ slot ∈ p.setting.callees site, slot < p.functions.size + 2 →
      p.setting.Flows k ⟨.returnLive, slot⟩ := by
    intro slot callee bound
    have caller := wf.mem_callersOf_of_mem_callees found enters.1 callee
    refine .source (Setting.slot_mem_initialEntities bound) ?_ flows
    exact mem_sources_returnLive.mpr (.inl ⟨c, caller, rfl⟩)
  rcases enters with ⟨call, target | ⟨outside, external⟩⟩
  · exact ofCallee i ((wf.mem_calleeSlots_iff found call).mpr (.inl target)) small
  · have callee := (wf.mem_calleeSlots_iff found call).mpr (.inr ⟨outside, rfl⟩)
    have afterOutside := ofCallee p.setting.graph.callsExternal callee callsExternal_lt
    refine .source (Setting.slot_mem_initialEntities small) ?_ afterOutside
    exact mem_sources_returnLive.mpr (.inr ⟨wf.isExternal_iff.mpr external, rfl⟩)

/-- The block in which a function returns belongs to the function. -/
theorem function_of_exit {b : BlockId} {f : FunctionId} {block : Block} {function : Function}
    (found : p.block? b = some block) (foundFunction : p.function? f = some function)
    (exits : function.exit = b) : block.function = f := by
  rcases (wf.function foundFunction).exit with absent | listed
  · rw [← exits, absent] at found
    cases found
  · rw [exits] at listed
    exact (wf.listed_iff foundFunction found).mp listed

/-- What the callers of a function need after it returns is live where it returns. -/
theorem flows_liveOut_of_returnLive {k b i : Nat} {block : Block} {function : Function}
    (found : p.block? (Int.ofNat b) = some block)
    (foundFunction : p.function? (Int.ofNat i) = some function)
    (exits : function.exit = Int.ofNat b) (flows : p.setting.Flows k ⟨.returnLive, i⟩) :
    p.setting.Flows k ⟨.liveOut, b⟩ := by
  have owner := wf.function_of_exit found foundFunction exits
  refine flows_of_solved found rfl (mem_all_of_flows flows) fun solved => .source solved ?_ flows
  refine (mem_sources_liveOut found).mpr (mem_exitSources.mpr (.inr ⟨⟨function, ?_, exits⟩, ?_⟩))
  · rw [owner]
    exact foundFunction
  · rw [owner]
    rfl

/-- **What is live at a point is live wherever control comes from.** -/
theorem flows_of_leads {k : Nat} {x y : Point} (leads : p.Leads x y)
    (flows : p.setting.Flows k y.cell) : p.setting.Flows k x.cell := by
  have member := mem_all_of_flows flows
  cases leads with
  | through found =>
    obtain ⟨b, rfl, _⟩ := entryAt?_eq_some_iff.mp found
    cases flows with
    | all givenUp member => exact .all givenUp member
    | own _ used => exact absurd used (CapSet.not_mem_empty k)
    | source solved reads flows =>
      have exit := (mem_sources_liveOut found).mp reads
      exact .source solved ((mem_sources_liveIn found).mpr (.inl exit)) flows
  | successor found listed =>
    obtain ⟨other, foundNext, _⟩ := (wf.block found).successors _ listed
    obtain ⟨b, rfl, _⟩ := entryAt?_eq_some_iff.mp found
    obtain ⟨next, rfl, _⟩ := entryAt?_eq_some_iff.mp foundNext
    refine flows_of_solved found rfl member fun solved => .source solved ?_ flows
    exact (mem_sources_liveOut found).mpr (mem_exitSources.mpr (.inl ⟨next, listed, rfl⟩))
  | back found foundFunction exits foundSite enters =>
    obtain ⟨b, rfl, _⟩ := entryAt?_eq_some_iff.mp found
    obtain ⟨c, rfl, _⟩ := entryAt?_eq_some_iff.mp foundSite
    obtain ⟨i, rfl, _⟩ := entryAt?_eq_some_iff.mp foundFunction
    have afterReturn := wf.flows_returnLive_of_mayEnter foundSite enters flows
    exact wf.flows_liveOut_of_returnLive found foundFunction exits afterReturn

end WellFormed

end Program

/-! ## Needs ahead -/

namespace Result

/-- Whether a point belongs to a function that is opaque, or to one that is not. -/
def OpaqueAt (r : Result) (x : Point) (isOpaque : Bool) : Prop :=
  ∃ block, r.program.block? x.block = some block ∧ r.isOpaque? block.function = some isOpaque

/-- Where a kind is needed: on entry to a block that uses it, on entry to a call that
may enter a function that requires it, and everywhere in opaque functions. -/
inductive Needs (r : Result) (k : Nat) : Point → Prop where
  | uses {b : BlockId} {used : CapSet} (isUsed : r.localUses? b = some used)
      (member : k ∈ used) : Needs r k (.entry b)
  | calls {c : BlockId} {site : Block} {f : FunctionId} {required : CapSet}
      (found : r.program.block? c = some site) (enters : r.program.MayEnter site f)
      (isRequired : r.requiredIn? f = some required) (member : k ∈ required) :
      Needs r k (.entry c)
  | givenUp {x : Point} (isOpaque : r.OpaqueAt x true)
      (member : k ∈ r.program.enumeration.all) : Needs r k x

/-- Where control may pass next from a point of a function that is not opaque. -/
def Passes (r : Result) (x y : Point) : Prop := r.OpaqueAt x false ∧ r.program.Leads x y

/-- Whether control may pass from a point to a need for the kind. -/
def NeedsAhead (r : Result) (k : Nat) (x : Point) : Prop :=
  ∃ y, ReflTransGen r.Passes x y ∧ r.Needs k y

theorem NeedsAhead.of_passes {r : Result} {k : Nat} {x y : Point} (passes : r.Passes x y)
    (ahead : r.NeedsAhead k y) : r.NeedsAhead k x := by
  obtain ⟨z, path, needs⟩ := ahead
  exact ⟨z, .head passes path, needs⟩

/-- The reason why a kind is in a cell of liveness: a need ahead of the point or, for
what is live after the functions of a slot return, ahead of the end of a call that may
enter all of them. -/
def Explained (r : Result) (p : Program) (k : Nat) (cell : Cell) : Prop :=
  match cell.field with
  | .liveIn => r.NeedsAhead k (.entry (Int.ofNat cell.index))
  | .liveOut => r.NeedsAhead k (.exit (Int.ofNat cell.index))
  | .returnLive =>
    ∃ c site, p.block? c = some site ∧ (∀ f, p.StandsFor cell.index f → p.MayEnter site f) ∧
      r.NeedsAhead k (.exit c)
  | .requiredIn | .requiredOut => True

namespace IsSolved

variable {r : Result} {p : Program} (solved : r.IsSolved p)
include solved

theorem opaqueAt_iff {x : Point} {b : Nat} (atBlock : x.block = Int.ofNat b) {isOpaque : Bool} :
    r.OpaqueAt x isOpaque ↔
      b < p.blocks.size ∧ p.setting.isOpaqueBlock b = isOpaque := by
  unfold OpaqueAt
  rw [solved.program_eq, atBlock]
  constructor
  · rintro ⟨block, found, isOpaque⟩
    obtain ⟨owner, _, names, bound, _⟩ := solved.wellFormed.exists_owner found
    rw [names, solved.isOpaque?_ofNat bound, Option.some.injEq] at isOpaque
    rw [Program.isOpaqueBlock_eq found, names]
    exact ⟨Program.lt_of_block? found, isOpaque⟩
  · rintro ⟨inside, isOpaque⟩
    have found : p.block? (Int.ofNat b) = some p.blocks[b] := Array.getElem?_eq_getElem inside
    obtain ⟨owner, _, names, bound, _⟩ := solved.wellFormed.exists_owner found
    rw [Program.isOpaqueBlock_eq found, names] at isOpaque
    refine ⟨_, found, ?_⟩
    rw [names, solved.isOpaque?_ofNat bound, Option.some.injEq]
    exact isOpaque

/-- What is needed at a point is live there. -/
theorem flows_of_needs {k : Nat} {x : Point} (needs : r.Needs k x) :
    p.setting.Flows k x.cell := by
  have wf := solved.wellFormed
  cases needs with
  | uses isUsed member =>
    rw [solved.localUses?_eq, Option.map_eq_some_iff] at isUsed
    obtain ⟨block, found, rfl⟩ := isUsed
    obtain ⟨b, rfl, _⟩ := entryAt?_eq_some_iff.mp found
    exact Program.WellFormed.flows_liveIn_of_uses found member
  | calls found enters isRequired member =>
    rw [solved.program_eq] at found enters
    obtain ⟨function, foundFunction⟩ := wf.exists_function_of_mayEnter found enters
    obtain ⟨c, rfl, _⟩ := entryAt?_eq_some_iff.mp found
    obtain ⟨i, rfl, inside⟩ := entryAt?_eq_some_iff.mp foundFunction
    rw [solved.covers.requiredIn?_ofNat (Program.lt_of_function? inside)] at isRequired
    obtain rfl := Option.some.inj isRequired
    exact wf.flows_liveIn_of_mayEnter found enters (solved.mem_get.mp member)
  | @givenUp x isOpaque member =>
    obtain ⟨block, found, _⟩ := id isOpaque
    obtain ⟨b, atBlock, _⟩ := entryAt?_eq_some_iff.mp found
    refine .all ?_ (solved.program_eq ▸ member)
    rw [x.entity_cell, atBlock]
    exact ((solved.opaqueAt_iff atBlock).mp isOpaque).2

/-- What is needed ahead of a point is live there. -/
theorem flows_of_needsAhead {k : Nat} {x : Point} (ahead : r.NeedsAhead k x) :
    p.setting.Flows k x.cell := by
  obtain ⟨y, path, needs⟩ := ahead
  induction path using ReflTransGen.head_induction_on with
  | refl => exact solved.flows_of_needs needs
  | head passes _ flows =>
    obtain ⟨_, leads⟩ := passes
    rw [solved.program_eq] at leads
    exact solved.wellFormed.flows_of_leads leads flows

/-- A need that explains what is live on exit from a block lies ahead of the exit. -/
theorem needsAhead_exit {k b : Nat} {block : Block} {source : Cell}
    (found : p.block? (Int.ofNat b) = some block) (isOpen : p.setting.isOpaqueBlock b = false)
    (reads : source ∈ p.setting.exitSources b block) (explained : r.Explained p k source) :
    r.NeedsAhead k (.exit (Int.ofNat b)) := by
  have inside := Program.lt_of_block? found
  have leaves : r.OpaqueAt (.exit (Int.ofNat b)) false :=
    (solved.opaqueAt_iff rfl).mpr ⟨inside, isOpen⟩
  rcases Program.mem_exitSources.mp reads with
    ⟨next, listed, rfl⟩ | ⟨⟨function, foundFunction, exits⟩, rfl⟩
  · refine NeedsAhead.of_passes ⟨leaves, ?_⟩ explained
    rw [solved.program_eq]
    exact .successor found listed
  · obtain ⟨owner, _, names, bound, _⟩ := solved.wellFormed.exists_owner found
    rw [names] at explained foundFunction
    obtain ⟨c, site, foundSite, enters, ahead⟩ := explained
    have entered := enters (Int.ofNat owner) ((Program.standsFor_function bound).mpr rfl)
    refine NeedsAhead.of_passes ⟨leaves, ?_⟩ ahead
    rw [solved.program_eq]
    exact .back found foundFunction exits foundSite entered

/-- What the functions require that a call may enter is needed on entry to it. -/
theorem needs_call {k c slot : Nat} {site : Block} (found : p.block? (Int.ofNat c) = some site)
    (call : site.kind = .call) (callee : slot ∈ p.setting.callees site)
    (flows : p.setting.Flows k ⟨.requiredIn, slot⟩) : r.Needs k (.entry (Int.ofNat c)) := by
  have bound := solved.wellFormed.lt_of_mem_callees found call callee
  obtain ⟨f, required, stands, isRequired, member⟩ :=
    (solved.mem_requiredIn_iff_standsFor bound).mp (solved.mem_get.mpr flows)
  have enters : p.MayEnter site f :=
    (solved.wellFormed.mayEnter_iff found).mpr ⟨call, slot, callee, stands⟩
  rw [← solved.program_eq] at found enters
  exact .calls found enters isRequired member

theorem needsAhead_of_isOpaqueBlock {k b : Nat} {x : Point} (atBlock : x.block = Int.ofNat b)
    (givenUp : p.setting.isOpaqueBlock b = true)
    (member : k ∈ p.setting.program.enumeration.all) : r.NeedsAhead k x := by
  obtain ⟨_, found⟩ := Program.exists_block_of_isOpaqueBlock givenUp
  have isOpaque := (solved.opaqueAt_iff atBlock).mpr ⟨Program.lt_of_block? found, givenUp⟩
  refine ⟨x, .refl, .givenUp isOpaque ?_⟩
  rw [solved.program_eq]
  exact member

/-- What comes from the sources of a cell is explained by what explains them. -/
theorem explained_of_source {k : Nat} {cell source : Cell}
    (isSolved : cell.entity ∈ p.setting.initialEntities) (reads : source ∈ p.setting.sources cell)
    (flows : p.setting.Flows k source) (explained : r.Explained p k source) :
    r.Explained p k cell := by
  obtain ⟨field, index⟩ := cell
  cases field with
  | requiredIn => trivial
  | requiredOut => trivial
  | liveOut =>
    obtain ⟨block, found, isOpen⟩ := Program.exists_block_of_solved isSolved
    have exit := (Program.mem_sources_liveOut found).mp reads
    exact solved.needsAhead_exit found isOpen exit explained
  | liveIn =>
    obtain ⟨block, found, isOpen⟩ := Program.exists_block_of_solved isSolved
    rcases (Program.mem_sources_liveIn found).mp reads with exit | ⟨call, slot, callee, rfl⟩
    · have through : r.Passes (.entry (Int.ofNat index)) (.exit (Int.ofNat index)) := by
        refine ⟨(solved.opaqueAt_iff rfl).mpr ⟨Program.lt_of_block? found, isOpen⟩, ?_⟩
        rw [solved.program_eq]
        exact .through found
      exact .of_passes through (solved.needsAhead_exit found isOpen exit explained)
    · exact ⟨_, .refl, solved.needs_call found call callee flows⟩
  | returnLive =>
    rcases Program.mem_sources_returnLive.mp reads with ⟨c, caller, rfl⟩ | ⟨isExternal, rfl⟩
    · obtain ⟨_, site, found, call, callee⟩ := Program.mem_callersOf.mp caller
      refine ⟨_, site, found, ?_, explained⟩
      intro f stands
      exact (solved.wellFormed.mayEnter_iff found).mpr ⟨call, index, callee, stands⟩
    · have external := solved.wellFormed.isExternal_iff.mp isExternal
      obtain ⟨c, site, found, enters, ahead⟩ := explained
      refine ⟨c, site, found, ?_, ahead⟩
      intro f stands
      apply enters
      obtain ⟨_, _, foundFunction, _⟩ := id external
      rw [Program.standsFor_function (Program.lt_of_function? foundFunction)] at stands
      rw [stands]
      exact Program.standsFor_callsExternal.mpr external

/-- **Nothing is live without a reason.** -/
theorem explained_of_flows {k : Nat} {cell : Cell} (flows : p.setting.Flows k cell) :
    r.Explained p k cell := by
  induction flows with
  | @all cell givenUp member =>
    obtain ⟨field, index⟩ := cell
    cases field with
    | requiredIn => trivial
    | requiredOut => trivial
    | returnLive => cases givenUp
    | liveOut => exact solved.needsAhead_of_isOpaqueBlock rfl givenUp member
    | liveIn => exact solved.needsAhead_of_isOpaqueBlock rfl givenUp member
  | @own cell isSolved member =>
    obtain ⟨field, index⟩ := cell
    cases field with
    | requiredIn => trivial
    | requiredOut => trivial
    | returnLive => exact absurd member (CapSet.not_mem_empty k)
    | liveOut => exact absurd member (CapSet.not_mem_empty k)
    | liveIn =>
      obtain ⟨block, found, _⟩ := Program.exists_block_of_solved isSolved
      rw [Program.own_liveIn found] at member
      exact ⟨_, .refl, .uses (solved.localUses?_of_found found) member⟩
  | source isSolved reads flows explained =>
    exact solved.explained_of_source isSolved reads flows explained

/-- **What is live at a point is what is needed ahead of it.** -/
theorem flows_cell_iff {k b : Nat} :
    (p.setting.Flows k ⟨.liveIn, b⟩ ↔ r.NeedsAhead k (.entry (Int.ofNat b))) ∧
      (p.setting.Flows k ⟨.liveOut, b⟩ ↔ r.NeedsAhead k (.exit (Int.ofNat b))) := by
  constructor
  · exact ⟨fun flows => solved.explained_of_flows flows, solved.flows_of_needsAhead⟩
  · exact ⟨fun flows => solved.explained_of_flows flows, solved.flows_of_needsAhead⟩

end IsSolved

end Result

/-- **Liveness is exact.** In the result of an analysis that was not skipped, a kind is live
on entry to a block exactly when control may pass from there, through points of
functions that are not opaque, to a point where it is needed: to a block that uses it,
to a call that may enter a function that requires it, or to a point of an opaque
function. The same holds for what is live on exit. -/
theorem liveness_paths {p : Program} {config : Config} {r : Result}
    (analyzed : (p.analyze config).outcome = .ok r) (notSkipped : r.skipped = false) :
    r.program = p ∧ ∀ b block, p.block? b = some block →
      (∃ live, r.liveIn? b = some live ∧ ∀ k, k ∈ live ↔ r.NeedsAhead k (.entry b)) ∧
        ∃ live, r.liveOut? b = some live ∧ ∀ k, k ∈ live ↔ r.NeedsAhead k (.exit b) := by
  have solved := Program.isSolved_of_outcome analyzed notSkipped
  refine ⟨solved.program_eq, ?_⟩
  intro b block found
  obtain ⟨b, rfl, _⟩ := entryAt?_eq_some_iff.mp found
  constructor
  · refine ⟨_, solved.covers.liveIn?_ofNat found, fun k => ?_⟩
    exact solved.mem_get.trans solved.flows_cell_iff.1
  · refine ⟨_, solved.covers.liveOut?_ofNat found, fun k => ?_⟩
    exact solved.mem_get.trans solved.flows_cell_iff.2

/-- In the sample program the worker returns to the callback, the callback to whatever
called it from outside, and the entry function then raises a privilege: kind `1` is live
where the worker returns. -/
theorem liveness_paths_sample :
    ∃ r, (sampleProgram.analyze sampleConfig).outcome = .ok r ∧ r.skipped = false ∧
      ∃ live, r.liveOut? 7 = some live ∧ 1 ∈ live ∧
        ∀ k, k ∈ live ↔ r.NeedsAhead k (.exit 7) := by
  obtain ⟨r, analyzed, notSkipped⟩ := sampleProgram_analyzed
  obtain ⟨isProgram, blocks⟩ := liveness_paths analyzed notSkipped
  obtain ⟨live, isLive, liveIff⟩ := (blocks 7 _ rfl).2
  refine ⟨r, analyzed, notSkipped, live, isLive, (liveIff 1).mpr ?_, liveIff⟩
  have solved := Program.isSolved_of_outcome analyzed notSkipped
  have isOpen : ∀ b : Nat, b < 10 ∧ sampleProgram.setting.isOpaqueBlock b = false →
      r.OpaqueAt (.exit (Int.ofNat b)) false := fun b => (solved.opaqueAt_iff rfl).mpr
  have toCallback : sampleProgram.Leads (.exit 7) (.exit 8) := by
    refine .back (f := 1) rfl rfl rfl rfl ⟨rfl, .inl ?_⟩
    decide
  have toEntry : sampleProgram.Leads (.exit 8) (.exit 2) := by
    refine .back (f := 2) rfl rfl rfl rfl ⟨rfl, .inr ⟨rfl, ?_, _, rfl, rfl⟩⟩
    decide
  have toRaise : sampleProgram.Leads (.exit 2) (.entry 3) := by
    refine .successor rfl ?_
    decide
  rw [← isProgram] at toCallback toEntry toRaise
  have raises : r.Needs 1 (.entry 3) := by
    refine .uses (solved.localUses?_of_found rfl) ?_
    decide
  refine .of_passes ⟨isOpen 7 (by decide +kernel), toCallback⟩ ?_
  refine .of_passes ⟨isOpen 8 (by decide +kernel), toEntry⟩ ?_
  refine .of_passes ⟨isOpen 2 (by decide +kernel), toRaise⟩ ?_
  exact ⟨_, .refl, raises⟩

/-- What the entry function raises after it has called outside code is live where the worker
returns: the code may call back, and the callback calls the worker. -/
theorem sampleProgram_flows_back :
    sampleProgram.setting.Flows 1 ⟨.returnLive, 1⟩ ∧
      sampleProgram.setting.Flows 1 ⟨.returnLive, 2⟩ := by
  have raised : sampleProgram.setting.Flows 1 ⟨.liveIn, 3⟩ :=
    .own (by decide +kernel) (by decide +kernel)
  have outside : sampleProgram.setting.Flows 1 ⟨.liveOut, 2⟩ :=
    .source (by decide +kernel) (by decide +kernel) raised
  have called : sampleProgram.setting.Flows 1
      ⟨.returnLive, sampleProgram.setting.graph.callsExternal⟩ :=
    .source (by decide +kernel) (by decide +kernel) outside
  have callback : sampleProgram.setting.Flows 1 ⟨.returnLive, 2⟩ :=
    .source (by decide +kernel) (by decide +kernel) called
  have callbackEnds : sampleProgram.setting.Flows 1 ⟨.liveOut, 8⟩ :=
    .source (by decide +kernel) (by decide +kernel) callback
  exact ⟨.source (by decide +kernel) (by decide +kernel) callbackEnds, callback⟩

end CapLiveness
