import CapLiveness.Program.Builder
import CapLiveness.Proofs.OrderlyPrograms

/-!
# Effects of builder calls

A builder is driven by calls, each of which may return the id of a function or block
(`Builder.Call`, `Builder.perform`). A call that is given functions and blocks that exist
succeeds, and it has one of four effects on the program (`Builder.exists_effect`), the four edits
that keep programs orderly. Whatever is to be known of calls follows from their effects: what
exists afterwards, what the functions list, which exits are new and what is declared.
-/

set_option autoImplicit false

namespace CapLiveness

namespace Builder

/-! ## Calls -/

/-- The calls of a builder. -/
inductive Call where
  | addFunction (name : String)
  | chooseEntry (f : FunctionId)
  | takeAddress (f : FunctionId)
  | declareSymbol (symbol : String)
  | nameRaisePrimitive (symbol : String)
  | addPlain (f : FunctionId) (name : String)
  | addRaise (f : FunctionId) (name : String) (arguments : List Argument)
  | addCall (f : FunctionId) (name : String) (target : CallTarget)
  | addUses (b : BlockId) (arguments : List Argument)
  | setSize (b : BlockId) (size : Int)
  | addEdges (b : BlockId) (successors : List BlockId)
  | addChain (blocks : List BlockId)
  | markReturn (b : BlockId)
  | markUnreachable (b : BlockId)
  | markUnwind (b : BlockId)
deriving DecidableEq

/-- What a call returns. -/
inductive Answer where
  | function (f : FunctionId)
  | block (b : BlockId)
  | done
deriving DecidableEq

/-- Makes a call. -/
def perform (builder : Builder) : Call → Attempt Answer
  | .addFunction name =>
    let (f, builder) := builder.addFunction name
    (builder, some (.function f))
  | .chooseEntry f => (builder.chooseEntry f, some .done)
  | .takeAddress f => andThen (builder.takeAddress f) done
  | .declareSymbol symbol => (builder.declareSymbol symbol, some .done)
  | .nameRaisePrimitive symbol => (builder.nameRaisePrimitive symbol, some .done)
  | .addPlain f name => andThen (builder.addPlain f name) added
  | .addRaise f name arguments => andThen (builder.addRaise f name arguments) added
  | .addCall f name target => andThen (builder.addCall f name target) added
  | .addUses b arguments => andThen (builder.addUses b arguments) done
  | .setSize b size => andThen (builder.setSize b size) done
  | .addEdges b successors => andThen (builder.addEdges b successors) done
  | .addChain blocks => andThen (builder.addChain blocks) done
  | .markReturn b => andThen (builder.markReturn b) done
  | .markUnreachable b => andThen (builder.markUnreachable b) done
  | .markUnwind b => andThen (builder.markUnwind b) done
where
  done (_ : Unit) (builder : Builder) : Attempt Answer := (builder, some .done)
  added (b : BlockId) (builder : Builder) : Attempt Answer := (builder, some (.block b))

namespace Call

/-- The functions that a call is to change. -/
def functions : Call → List FunctionId
  | takeAddress f | addPlain f _ | addRaise f _ _ | addCall f _ _ => [f]
  | _ => []

/-- The blocks that a call is to change. -/
def blocks : Call → List BlockId
  | addUses b _ | setSize b _ | addEdges b _ | markReturn b | markUnreachable b | markUnwind b =>
    [b]
  | addChain blocks => blocks.dropLast
  | _ => []

/-- The function to which a call adds a block. -/
def addsTo? : Call → Option FunctionId
  | addPlain f _ | addRaise f _ _ | addCall f _ _ => some f
  | _ => none

/-- The block that a call with a given answer has added to a function. -/
def addedBlock? (call : Call) (answer : Option Answer) (f : FunctionId) : Option BlockId :=
  match answer with
  | some (.block b) => if call.addsTo? = some f then some b else none
  | _ => none

/-- Whether a call adds a block that raises privileges. -/
def isRaise : Call → Bool
  | addRaise _ _ _ => true
  | _ => false

/-- Whether what the call is to change exists. -/
structure Fits (call : Call) (p : Program) : Prop where
  functions : ∀ f ∈ call.functions, p.hasFunction f = true
  blocks : ∀ b ∈ call.blocks, p.hasBlock b = true

end Call

/-! ## Effects -/

/-- **The effects of calls on the program.** -/
inductive Effect (p : Program) : Call → Answer → Program → Prop where
  | function {name : String} {q : Program} (rest : (p.withFunction name).Retouches q) :
    Effect p (.addFunction name) (.function (Int.ofNat p.functions.size)) q
  | block {call : Call} {f : FunctionId} {name : String} {kind : BlockKind} {q : Program}
    (adds : call.addsTo? = some f) (has : p.hasFunction f = true)
    (known : kind ∈ [.plain, .raise, .call]) (rest : (p.withBlock f name kind).Retouches q)
    (declares : call.isRaise = true → p.primitive ∈ q.declared) :
    Effect p call (.block (Int.ofNat p.blocks.size)) q
  | exit {b : BlockId} {block : Block} {q : Program} (found : p.block? b = some block)
    (rest : (p.withExit block.function b).Retouches q) :
    Effect p (.markReturn b) .done q
  | other {call : Call} {q : Program} (adds : call.addsTo? = none) (rest : p.Retouches q) :
    Effect p call .done q

variable {builder : Builder}

theorem exists_changeFunction {f : FunctionId} (has : builder.program.hasFunction f = true)
    (change : Function → Function) :
    ∃ after, builder.changeFunction f change = (after, some ()) ∧
      after.program = { builder.program with
        functions := builder.program.functions.modify f.toNat change } := by
  refine ⟨{ builder with program := { builder.program with
    functions := builder.program.functions.modify f.toNat change } }, ?_, rfl⟩
  simp [changeFunction, Program.changeFunction?, has, changed]

theorem exists_addBlock {f : FunctionId} (has : builder.program.hasFunction f = true)
    (name : String) (kind : BlockKind) :
    ∃ after, builder.addBlock f name kind =
        (after, some (Int.ofNat builder.program.blocks.size)) ∧
      after.program = builder.program.withBlock f name kind := by
  simp only [addBlock]
  generalize isPushed : ({ builder with program := _ } : Builder) = pushed
  have hasStill : pushed.program.hasFunction f = true := by
    rw [← isPushed]
    exact has
  obtain ⟨after, changes, isAfter⟩ := exists_changeFunction hasStill _
  refine ⟨after, by rw [changes]; rfl, isAfter.trans ?_⟩
  rw [← isPushed]
  rfl

theorem retouches_declareSymbol (symbol : String) :
    builder.program.Retouches (builder.declareSymbol symbol).program := by
  unfold declareSymbol
  split
  case isTrue => exact .refl _
  case isFalse new =>
    refine ⟨rfl, fun _ => rfl, fun _ => rfl, List.subset_append_left _ _, fun nodup => ?_⟩
    refine List.nodup_append.mpr ⟨nodup, List.nodup_singleton _, ?_⟩
    intro other member symbol isSymbol same
    rw [List.mem_singleton.mp isSymbol] at same
    exact new (List.contains_iff_mem.mpr (same ▸ member))

theorem mem_declareSymbol (symbol : String) :
    symbol ∈ (builder.declareSymbol symbol).program.declared := by
  unfold declareSymbol
  split
  case isTrue known => exact List.contains_iff_mem.mp known
  case isFalse => exact List.mem_append_right _ (List.mem_singleton_self _)

/-- A block changed in its own shape. -/
theorem exists_changeBlock {b : BlockId} (has : builder.program.hasBlock b = true)
    (change : Block → Block)
    (keeps : ∀ block, builder.program.block? b = some block → (change block).shape = block.shape) :
    ∃ after, builder.changeBlock b change = (after, some ()) ∧
      builder.program.Retouches after.program ∧
      after.program.primitive = builder.program.primitive := by
  refine ⟨{ builder with program := { builder.program with
    blocks := builder.program.blocks.modify b.toNat change } }, ?_,
    .modifyBlock has change keeps, rfl⟩
  simp [changeBlock, Program.changeBlock?, has, changed]

/-- A chain adds edges to the blocks that are not its last. -/
theorem exists_addChain {blocks : List BlockId}
    (has : ∀ b ∈ blocks.dropLast, builder.program.hasBlock b = true) :
    ∃ after, builder.addChain blocks = (after, some ()) ∧
      builder.program.Retouches after.program := by
  induction blocks generalizing builder with
  | nil => exact ⟨builder, rfl, .refl _⟩
  | cons first rest ih =>
    cases rest with
    | nil => exact ⟨builder, rfl, .refl _⟩
    | cons second rest =>
      rw [List.dropLast_cons_cons] at has
      obtain ⟨hasFirst, hasRest⟩ := List.forall_mem_cons.mp has
      obtain ⟨between, added, toBetween, _⟩ : ∃ between, builder.addEdges first [second] =
          (between, some ()) ∧ _ := exists_changeBlock hasFirst _ fun _ _ => rfl
      obtain ⟨after, chained, toAfter⟩ := ih fun b member =>
        (toBetween.hasBlock_eq b).trans (hasRest b member)
      refine ⟨after, ?_, toBetween.trans toAfter⟩
      rw [addChain, added]
      exact chained

/-- The changes of a block that has just been added keep the shape that its kind gives it. -/
theorem exists_addBlock_changeBlock {f : FunctionId} (has : builder.program.hasFunction f = true)
    (name : String) (kind : BlockKind) (change : Block → Block)
    (keeps : ∀ block, block.kind = kind → (change block).shape = block.shape) :
    ∃ added after,
      builder.addBlock f name kind = (added, some (Int.ofNat builder.program.blocks.size)) ∧
      added.changeBlock (Int.ofNat builder.program.blocks.size) change = (after, some ()) ∧
      (builder.program.withBlock f name kind).Retouches after.program ∧
      after.program.primitive = builder.program.primitive := by
  obtain ⟨added, adds, isAdded⟩ := exists_addBlock has name kind
  have found := builder.program.block?_withBlock f name kind (Int.ofNat builder.program.blocks.size)
  rw [if_pos rfl, ← isAdded] at found
  have hasNew : added.program.hasBlock (Int.ofNat builder.program.blocks.size) = true := by
    rw [← Program.isSome_block?, found]
    rfl
  obtain ⟨after, changes, retouches, same⟩ := exists_changeBlock hasNew change (by
    intro block isNew
    obtain rfl := Option.some.inj (found.symm.trans isNew)
    exact keeps _ rfl)
  rw [isAdded] at retouches same
  exact ⟨added, after, adds, changes, retouches, same⟩

/-! ### Every call has an effect -/

/-- A call that changes a block in its own shape. -/
theorem exists_effect_changeBlock {call : Call} (adds : call.addsTo? = none) {b : BlockId}
    (has : builder.program.hasBlock b = true) {change : Block → Block}
    (performs : builder.perform call = andThen (builder.changeBlock b change) perform.done)
    (keeps : ∀ block, (change block).shape = block.shape) :
    ∃ after answer, builder.perform call = (after, some answer) ∧
      Effect builder.program call answer after.program := by
  obtain ⟨after, changed, retouches, _⟩ := exists_changeBlock has change fun block _ => keeps block
  refine ⟨after, .done, ?_, .other adds retouches⟩
  rw [performs, changed]
  rfl

/-- **A call that is given what exists succeeds, and has one of the effects.** -/
theorem exists_effect (orderly : builder.program.IsOrderly) {call : Call}
    (fits : call.Fits builder.program) :
    ∃ after answer, builder.perform call = (after, some answer) ∧
      Effect builder.program call answer after.program := by
  cases call with
  | addFunction name =>
    exact ⟨_, _, rfl, .function (.of_entries rfl rfl rfl rfl)⟩
  | chooseEntry f =>
    exact ⟨_, _, rfl, .other rfl (.of_entries rfl rfl rfl rfl)⟩
  | takeAddress f =>
    have has := fits.functions f List.mem_cons_self
    obtain ⟨after, changes, isAfter⟩ := exists_changeFunction has
      fun function => { function with addressTaken := true }
    refine ⟨after, .done, ?_, .other rfl (isAfter ▸ .modifyFunction has _ fun _ => rfl)⟩
    rw [perform, takeAddress, changes]
    rfl
  | declareSymbol symbol => exact ⟨_, _, rfl, .other rfl (retouches_declareSymbol symbol)⟩
  | nameRaisePrimitive symbol =>
    exact ⟨_, _, rfl, .other rfl (.of_entries rfl rfl rfl rfl)⟩
  | addPlain f name =>
    have has := fits.functions f List.mem_cons_self
    obtain ⟨after, adds, isAfter⟩ := exists_addBlock has name .plain
    have rest : (builder.program.withBlock f name .plain).Retouches after.program := by
      rw [isAfter]
      exact .refl _
    refine ⟨after, _, ?_, .block rfl has (by decide) rest
      fun isRaise => absurd isRaise Bool.false_ne_true⟩
    rw [perform, addPlain, adds]
    rfl
  | addRaise f name arguments =>
    have has := fits.functions f List.mem_cons_self
    obtain ⟨added, after, adds, changes, retouches, same⟩ := exists_addBlock_changeBlock has name
      .raise (fun block => { block with raised := arguments }) (by
        intro block isRaise
        simp [Block.shape, Block.stray, isRaise])
    refine ⟨after.declareSymbol after.program.primitive, _, ?_, .block rfl has (by decide)
      (retouches.trans (retouches_declareSymbol _)) fun _ => ?_⟩
    · rw [perform, addRaise, adds]
      simp only [andThen, changes]
      rfl
    · rw [← same]
      exact mem_declareSymbol _
  | addCall f name target =>
    have has := fits.functions f List.mem_cons_self
    obtain ⟨added, after, adds, changes, retouches, _⟩ := exists_addBlock_changeBlock has name
      .call (fun block => { block with target := target }) fun _ _ => rfl
    refine ⟨after, _, ?_, .block rfl has (by decide) retouches
      fun isRaise => absurd isRaise Bool.false_ne_true⟩
    rw [perform, addCall, adds]
    simp only [andThen, changes]
    rfl
  | addUses b arguments =>
    exact exists_effect_changeBlock rfl (fits.blocks b List.mem_cons_self) rfl fun _ => rfl
  | setSize b size =>
    exact exists_effect_changeBlock rfl (fits.blocks b List.mem_cons_self) rfl fun _ => rfl
  | addEdges b successors =>
    exact exists_effect_changeBlock rfl (fits.blocks b List.mem_cons_self) rfl fun _ => rfl
  | addChain blocks =>
    obtain ⟨after, chained, retouches⟩ := exists_addChain fits.blocks
    refine ⟨after, .done, ?_, .other rfl retouches⟩
    rw [perform, chained]
    rfl
  | markReturn b =>
    have hasBlock := fits.blocks b List.mem_cons_self
    obtain ⟨between, marks, retouches, _⟩ : ∃ between,
        builder.setExit b .return = (between, some ()) ∧ _ :=
      exists_changeBlock hasBlock _ fun _ _ => rfl
    obtain ⟨block, found⟩ := Program.exists_of_hasBlock
      ((retouches.hasBlock_eq b).trans hasBlock)
    obtain ⟨old, foundOld, same⟩ := retouches.exists_block found
    have names : old.function = block.function := congrArg (·.2.1) same
    have has := (orderly.block foundOld).owner
    have hasStill := (retouches.hasFunction_eq old.function).trans has
    obtain ⟨after, changes, isAfter⟩ := exists_changeFunction hasStill
      fun function => { function with exit := b }
    refine ⟨after, .done, ?_, .exit foundOld (isAfter ▸ retouches.setExit has b)⟩
    rw [perform, markReturn, marks]
    simp only [andThen, found, ← names, changes]
    rfl
  | markUnreachable b =>
    exact exists_effect_changeBlock rfl (fits.blocks b List.mem_cons_self) rfl fun _ => rfl
  | markUnwind b =>
    exact exists_effect_changeBlock rfl (fits.blocks b List.mem_cons_self) rfl fun _ => rfl

/-! ## What effects do -/

namespace Effect

variable {p q : Program} {call : Call} {answer : Answer} (effect : Effect p call answer q)
include effect

theorem isOrderly (orderly : p.IsOrderly) : q.IsOrderly := by
  cases effect with
  | function rest => exact (orderly.addFunction _).retouch rest
  | block _ has known rest _ => exact (orderly.addBlock has _ known).retouch rest
  | exit found rest => exact (orderly.setExit found).retouch rest
  | other _ rest => exact orderly.retouch rest

theorem capabilities_eq : q.capabilities = p.capabilities := by
  cases effect with
  | function rest => exact rest.capabilities
  | block _ _ _ rest _ => exact rest.capabilities
  | exit _ rest => exact rest.capabilities
  | other _ rest => exact rest.capabilities

theorem declared_subset : p.declared ⊆ q.declared := by
  cases effect with
  | function rest => exact rest.declared
  | block _ _ _ rest _ => exact rest.declared
  | exit _ rest => exact rest.declared
  | other _ rest => exact rest.declared

/-- A raise declares the primitive in force. -/
theorem primitive_mem_declared (isRaise : call.isRaise = true) : p.primitive ∈ q.declared := by
  cases effect with
  | function => cases isRaise
  | block _ _ _ _ declares => exact declares isRaise
  | exit => cases isRaise
  | other adds _ => cases call <;> cases isRaise; cases adds

/-- The functions are those that exist already and the one answered. -/
theorem hasFunction_iff {f : FunctionId} :
    q.hasFunction f = true ↔ p.hasFunction f = true ∨ answer = .function f := by
  cases effect with
  | function rest =>
    rw [rest.hasFunction_eq, Program.hasFunction_withFunction, Answer.function.injEq]
  | block _ _ _ rest _ => simp [rest.hasFunction_eq, Program.hasFunction_withBlock]
  | exit _ rest => simp [rest.hasFunction_eq, Program.hasFunction_withExit]
  | other _ rest => simp [rest.hasFunction_eq]

/-- The blocks are those that exist already and the one answered. -/
theorem hasBlock_iff {b : BlockId} :
    q.hasBlock b = true ↔ p.hasBlock b = true ∨ answer = .block b := by
  cases effect with
  | function rest =>
    have same : q.hasBlock b = p.hasBlock b := rest.hasBlock_eq b
    simp [same]
  | block _ _ _ rest _ => rw [rest.hasBlock_eq, Program.hasBlock_withBlock, Answer.block.injEq]
  | exit _ rest =>
    have same : q.hasBlock b = p.hasBlock b := rest.hasBlock_eq b
    simp [same]
  | other _ rest => simp [rest.hasBlock_eq]

/-- The block added stands at the end of its function's list. -/
theorem listOf_eq (orderly : p.IsOrderly) (f : FunctionId) :
    q.listOf f = p.listOf f ++ (call.addedBlock? (some answer) f).toList := by
  cases effect with
  | function rest =>
    rw [rest.listOf_eq, Program.listOf_withFunction]
    exact (List.append_nil _).symm
  | block adds has _ rest _ =>
    rw [rest.listOf_eq, Program.listOf_withBlock has, Call.addedBlock?, adds]
    simp
  | exit found rest =>
    rw [rest.listOf_eq, Program.listOf_withExit (orderly.block found).owner]
    exact (List.append_nil _).symm
  | other _ rest =>
    rw [rest.listOf_eq]
    exact (List.append_nil _).symm

/-- An exit is new only by a mark. -/
theorem exit_cases (orderly : p.IsOrderly) {f : FunctionId} {function : Function}
    (found : q.function? f = some function) (exits : function.exit ≠ BlockId.absent) :
    call = .markReturn function.exit ∨
      ∃ old, p.function? f = some old ∧ old.exit = function.exit := by
  cases effect with
  | function rest =>
    obtain ⟨old, foundOld, same⟩ := rest.exists_exit found
    rw [Program.function?_withFunction] at foundOld
    split at foundOld
    case isTrue =>
      cases foundOld
      exact absurd same.symm exits
    case isFalse => exact .inr ⟨old, foundOld, same⟩
  | block _ has _ rest _ =>
    obtain ⟨old, foundOld, same⟩ := rest.exists_exit found
    rw [Program.function?_withBlock has] at foundOld
    split at foundOld
    case isTrue =>
      obtain ⟨older, foundOlder, rfl⟩ := Option.map_eq_some_iff.mp foundOld
      exact .inr ⟨older, foundOlder, same⟩
    case isFalse => exact .inr ⟨old, foundOld, same⟩
  | exit foundBlock rest =>
    obtain ⟨old, foundOld, same⟩ := rest.exists_exit found
    rw [Program.function?_withExit (orderly.block foundBlock).owner] at foundOld
    split at foundOld
    case isTrue =>
      obtain ⟨older, _, rfl⟩ := Option.map_eq_some_iff.mp foundOld
      exact .inl (congrArg Call.markReturn same)
    case isFalse => exact .inr ⟨old, foundOld, same⟩
  | other _ rest => exact .inr (rest.exists_exit found)

end Effect

end Builder

end CapLiveness
