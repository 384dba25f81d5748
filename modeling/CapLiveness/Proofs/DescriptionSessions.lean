import CapLiveness.Proofs.BlockMeaning
import CapLiveness.Proofs.BuilderScripts

/-!
# Descriptions are built by sessions

The program of a description is built call by call (`Description.script`): the primitive and
the symbols, then all functions, the entry function, and the blocks of each function.

Each call of the script is about what earlier calls have answered, and in the end the builder
has the draft of the description (`Description.builds_script`). Two choices of the draft are made
on the way by the builder itself. The entry function is the one called `main`, or the first,
unless it is given. The primitive is declared when the first block that raises is added, which is
after all symbols that the description declares.
-/

set_option autoImplicit false

namespace CapLiveness

namespace Description

open Builder (Call Session Makes IsSegment blockCalls exitAfter foldl_exitAfter declareFor
  declareOnce)

/-- The calls that add a function. -/
def functionCalls (entry : FunctionDescription × Nat) : List Call :=
  .addFunction entry.1.name ::
    if entry.1.addressTaken then [.takeAddress (Int.ofNat entry.2)] else []

/-- **The calls that build the program of a description.** -/
def script (d : Description) (p : Program) : List Call :=
  (if d.raisePrimitive = "" then [] else [.nameRaisePrimitive d.raisePrimitive]) ++
    (d.declared.map .declareSymbol ++ (d.functions.zipIdx.flatMap functionCalls ++
      ((if d.entry = "" then [] else [.chooseEntry p.entry]) ++
        p.functions.toList.flatMap fun f => blockCalls (f.blocks.filterMap p.block?))))

/-- A function before its blocks are added. -/
def emptyFunction (entry : FunctionDescription × Nat) : Function where
  id := Int.ofNat entry.2
  name := entry.1.name
  addressTaken := entry.1.addressTaken

/-- A function with its blocks. -/
def filledFunction (entry : FunctionDescription × Nat) (segment : List Block) : Function :=
  { emptyFunction entry with
    blocks := segment.map (·.id)
    exit := segment.foldl exitAfter BlockId.absent }

/-- What is known of the entry function when functions are added. -/
def afterFunctions (builder : Builder) (entries : List (FunctionDescription × Nat)) : Builder :=
  entries.foldl (fun builder entry => builder.afterFunction entry.2 entry.1.name) builder

theorem makes_functionCalls {builder : Builder} (done : List Function) {blocks : List Block}
    {declared : List String} (functions : List FunctionDescription) :
    Makes (builder.withLists done blocks declared)
      ((functions.zipIdx done.length).flatMap functionCalls)
      ((afterFunctions builder (functions.zipIdx done.length)).withLists
        (done ++ (functions.zipIdx done.length).map emptyFunction) blocks declared) := by
  induction functions generalizing builder done with
  | nil =>
    rw [List.zipIdx_nil, List.map_nil, List.append_nil]
    exact .nil
  | cons f rest ih =>
    rw [List.zipIdx_cons, List.flatMap_cons, List.map_cons]
    have added : Makes (builder.withLists done blocks declared) (functionCalls (f, done.length))
        ((builder.afterFunction done.length f.name).withLists
          (done ++ [emptyFunction (f, done.length)]) blocks declared) := by
      refine .cons (Builder.fits_none rfl rfl) ?_
      simp only [Builder.perform, Builder.addFunction_withLists]
      cases taken : f.addressTaken with
      | false =>
        rw [emptyFunction, taken]
        exact .nil
      | true =>
        refine .cons (Builder.fits_function rfl rfl) ?_
        simp only [Builder.perform, Builder.takeAddress, Builder.changeFunction_between,
          Builder.andThen, Builder.perform.done]
        rw [emptyFunction, taken]
        exact .nil
    have more := @ih (builder.afterFunction done.length f.name)
      (done ++ [emptyFunction (f, done.length)])
    rw [List.length_append, List.length_singleton, List.append_assoc] at more
    exact added.append more

/-- The entry function is the first called `main`, unless it was chosen before. -/
theorem program_afterFunctions (builder : Builder) (number : Nat)
    (functions : List FunctionDescription) :
    (afterFunctions builder (functions.zipIdx number)).program = { builder.program with
      entry := if builder.entryChosen then builder.program.entry else
        ((functions.findIdx? (·.name == "main")).map fun i => Int.ofNat (number + i)).getD
          builder.program.entry } := by
  induction functions generalizing builder number with
  | nil => simp [afterFunctions]
  | cons f rest ih =>
    rw [List.zipIdx_cons, afterFunctions, List.foldl_cons]
    refine (ih _ _).trans ?_
    cases chosen : builder.entryChosen with
    | true => simp [Builder.afterFunction, chosen]
    | false =>
      by_cases isMain : f.name = "main"
      · simp [Builder.afterFunction, chosen, isMain, List.findIdx?_cons]
      · have shift : ∀ i, number + 1 + i = number + (i + 1) := fun i => by omega
        simp [Builder.afterFunction, chosen, isMain, List.findIdx?_cons, Option.map_map,
          Function.comp_def, shift]

/-! ## All blocks -/

/-- The blocks of functions, function by function, numbered from `first`. -/
inductive Segments : Nat → Nat → List FunctionDescription → List (List Block) → Prop where
  | nil {first index : Nat} : Segments first index [] []
  | cons {first index : Nat} {f : FunctionDescription} {functions : List FunctionDescription}
      {segment : List Block} {segments : List (List Block)}
      (length : segment.length = f.blocks.length) (isSegment : IsSegment index first segment)
      (rest : Segments (first + segment.length) (index + 1) functions segments) :
      Segments first index (f :: functions) (segment :: segments)

theorem ExitWord.ne_unknown {word : String} {exit : ExitKind} (isWord : ExitWord word exit)
    (code : Int) : exit ≠ .unknown code := by
  cases isWord <;> exact ExitKind.noConfusion

theorem Acts.isMakeable {d : Description} {b : BlockDescription} {block : Block}
    (acts : d.Acts b block.raised block.kind block.target) (exit : ExitWord b.exit block.exit) :
    block.IsMakeable := by
  have known := exit.ne_unknown
  generalize isKind : block.kind = kind, isTarget : block.target = target at acts
  cases acts with
  | plain _ nothing => exact ⟨.inl isKind, fun _ => nothing, fun _ => isTarget, known⟩
  | raise => exact ⟨.inr (.inl isKind), fun other => absurd isKind other, fun _ => isTarget, known⟩
  | call _ nothing =>
    exact ⟨.inr (.inr isKind), fun _ => nothing, fun other => absurd isKind other, known⟩

theorem isSegment_of_means {d : Description} {caps : Enumeration} {first function n : Nat}
    {next : String → BlockId → Prop} {written : List BlockDescription} {segment : List Block}
    (means : List.Forall₂ (fun entry block => d.Means caps (first + entry.2) function next entry.1
      block) (written.zipIdx n) segment) : IsSegment function (first + n) segment := by
  induction written generalizing n segment with
  | nil =>
    rw [List.zipIdx_nil, List.forall₂_nil_left_iff] at means
    rw [means]
    trivial
  | cons b rest ih =>
    rw [List.zipIdx_cons, List.forall₂_cons_left_iff] at means
    obtain ⟨block, others, here, later, rfl⟩ := means
    exact ⟨here.id, here.function, here.acts.isMakeable here.exit, ih later⟩

theorem exists_segments {d : Description} (distinct : (d.functions.map (·.name)).Nodup)
    {caps : Enumeration} {first index : Nat} {functions : List FunctionDescription}
    {blocks : List Block} (areBlocks : d.allBlocks caps first index functions = .ok blocks) :
    ∃ segments, Segments first index functions segments ∧ segments.flatten = blocks := by
  induction functions generalizing first index blocks with
  | nil =>
    cases areBlocks
    exact ⟨[], .nil, rfl⟩
  | cons f rest ih =>
    rw [allBlocks] at areBlocks
    simp only [bind_eq_ok_iff, pure_eq_ok_iff, functionBlocks_eq_ok_iff distinct] at areBlocks
    obtain ⟨segment, ⟨_, means⟩, others, areOthers, rfl⟩ := areBlocks
    have length : segment.length = f.blocks.length := by
      rw [← means.length_eq, List.length_zipIdx]
    rw [← length] at areOthers
    obtain ⟨segments, isRest, rfl⟩ := ih areOthers
    exact ⟨segment :: segments, .cons length (isSegment_of_means means) isRest, rfl⟩

/-- **The blocks of all functions.** -/
theorem makes_segments {builder : Builder} (done : List Function) (blocks : List Block)
    {declared : List String} {functions : List FunctionDescription} {segments : List (List Block)}
    (isAll : Segments blocks.length done.length functions segments) :
    Makes (builder.withLists (done ++ (functions.zipIdx done.length).map emptyFunction) blocks
        declared) (segments.flatMap blockCalls)
      (builder.withLists
        (done ++ (functions.zipIdx done.length).zipWith filledFunction segments)
        (blocks ++ segments.flatten)
        (segments.flatten.foldl (declareFor builder.program.primitive) declared)) := by
  generalize isFirst : blocks.length = first, isIndex : done.length = index at isAll
  induction isAll generalizing done blocks declared with
  | nil =>
    simp only [List.zipIdx_nil, List.map_nil, List.zipWith_nil_left, List.flatten_nil,
      List.append_nil]
    exact .nil
  | @cons first index f functions segment segments _ isSegment _ ih =>
    subst isFirst isIndex
    rw [List.flatten_cons, List.foldl_append, ← List.append_assoc]
    refine (Builder.makes_blockCalls isSegment).append ?_
    have more := @ih (done ++ [filledFunction (f, done.length) segment]) (blocks ++ segment)
      (segment.foldl (declareFor builder.program.primitive) declared)
      List.length_append (by rw [List.length_append, List.length_singleton])
    rw [List.append_assoc, List.append_assoc] at more
    exact more

/-! ## The draft -/

theorem Segments.length_eq {first index : Nat} {functions : List FunctionDescription}
    {segments : List (List Block)} (isAll : Segments first index functions segments) :
    segments.length = functions.length := by
  induction isAll with
  | nil => rfl
  | cons _ _ _ ih => exact congrArg Nat.succ ih

theorem Segments.le_function {first index : Nat} {functions : List FunctionDescription}
    {segments : List (List Block)} (isAll : Segments first index functions segments) :
    ∀ block ∈ segments.flatten, (index : Int) ≤ block.function := by
  induction isAll with
  | nil => exact fun _ member => absurd member List.not_mem_nil
  | cons _ isSegment _ ih =>
    intro block member
    rcases List.mem_append.mp (List.flatten_cons ▸ member) with own | later
    · exact Int.le_of_eq (isSegment.function_eq block own).symm
    · have bound := ih block later
      omega

/-- Drafted functions are those that calls fill. -/
theorem Segments.functionEntries_eq {first index : Nat} {functions : List FunctionDescription}
    {segments : List (List Block)} (isAll : Segments first index functions segments)
    (before : List Block) (earlier : ∀ block ∈ before, block.function < (index : Int)) :
    functionEntries (before ++ segments.flatten) index first functions =
      (functions.zipIdx index).zipWith filledFunction segments := by
  -- Drafting looks for returns among all blocks; those of other functions stand around.
  induction isAll generalizing before with
  | nil => rfl
  | @cons first index f functions segment segments length isSegment rest ih =>
    have others : ∀ block ∈ before ++ segments.flatten, block.function ≠ Int.ofNat index := by
      intro block member
      rcases List.mem_append.mp member with inBefore | inLater
      · exact Int.ne_of_lt (earlier block inBefore)
      · have bound := rest.le_function block inLater
        exact Int.ne_of_gt (Int.lt_of_lt_of_le (Int.lt_succ index) bound)
    have upTo : ∀ block ∈ before ++ segment, block.function < ((index + 1 : Nat) : Int) := by
      intro block member
      rcases List.mem_append.mp member with inBefore | inSegment
      · exact Int.lt_trans (earlier block inBefore) (Int.lt_succ index)
      · rw [isSegment.function_eq block inSegment]
        exact Int.lt_succ index
    have later := ih (before ++ segment) upTo
    rw [List.append_assoc, ← List.flatten_cons, length] at later
    rw [functionEntries, List.zipIdx_cons, List.zipWith_cons_cons, later, List.flatten_cons,
      isSegment.filter_returning others, filledFunction, foldl_exitAfter, isSegment.map_id, length]
    rfl

theorem Segments.flatMap_blockCalls {p : Program} {first index : Nat}
    {functions : List FunctionDescription} {segments : List (List Block)}
    (isAll : Segments first index functions segments) (before : List Block)
    (isFirst : before.length = first) (blocks : p.blocks = (before ++ segments.flatten).toArray) :
    ((functions.zipIdx index).zipWith filledFunction segments).flatMap
      (fun f => blockCalls (f.blocks.filterMap p.block?)) = segments.flatMap blockCalls := by
  induction isAll generalizing before with
  | nil => rfl
  | @cons first index f functions segment segments _ isSegment _ ih =>
    subst isFirst
    rw [List.flatten_cons, ← List.append_assoc] at blocks
    rw [List.zipIdx_cons, List.zipWith_cons_cons, List.flatMap_cons, List.flatMap_cons,
      ih _ List.length_append blocks]
    congr 2
    exact isSegment.filterMap_block? blocks

theorem functionId?_nonneg {d : Description} {name : String} {f : FunctionId}
    (found : d.functionId? name = some f) : 0 ≤ f := by
  obtain ⟨i, _, rfl⟩ := Option.map_eq_some_iff.mp found
  exact Int.natCast_nonneg i

/-- The function that is entered without a choice is the entry of the draft. -/
theorem entry_eq_of_entryId {d : Description} {f : FunctionId} (isEntry : d.entryId = .ok f)
    {given : FunctionId}
    (isGiven : given = if d.entry = "" then (d.functionId? "main").getD (-1) else f) :
    (if given < 0 ∧ 0 < d.functions.length then 0 else given) = f := by
  have kept : ∀ {name g}, d.functionId? name = some g →
      (if g < 0 ∧ 0 < d.functions.length then 0 else g) = g := by
    intro name g found
    exact if_neg fun negative => absurd negative.1 (Int.not_lt.mpr (functionId?_nonneg found))
  rw [entryId] at isEntry
  split at isEntry
  case isTrue notGiven =>
    rw [isGiven, if_pos notGiven, ← Except.ok.inj isEntry]
    cases found : d.functionId? "main" with
    | none => cases d.functions <;> rfl
    | some g =>
      have nonempty : ¬ d.functions.isEmpty = true := by
        intro empty
        rw [functionId?, List.isEmpty_iff.mp empty] at found
        cases found
      rw [if_neg nonempty]
      exact kept found
  case isFalse named =>
    rw [isGiven, if_neg named]
    cases found : d.functionId? d.entry with
    | none =>
      rw [found] at isEntry
      cases isEntry
    | some g =>
      rw [found] at isEntry
      obtain rfl := Except.ok.inj isEntry
      exact kept found

theorem foldl_declareFor_eq_symbols (d : Description) (blocks : List Block) :
    blocks.foldl (declareFor (if d.raisePrimitive = "" then defaultRaisePrimitive
      else d.raisePrimitive)) (d.declared.foldl declareOnce []) = d.symbols blocks := by
  have once : d.declared.foldl declareOnce [] = d.declared.eraseDups :=
    Builder.foldl_declareOnce [] d.declared
  rw [once, Builder.foldl_declareFor]
  rfl

/-- The builder after the primitive is named. -/
def opened (d : Description) (caps : Enumeration) : Builder where
  program := { capabilities := some caps, entry := -1, raisePrimitive := d.raisePrimitive }

theorem makes_opened (d : Description) (caps : Enumeration) :
    Makes (Builder.new (some caps))
      (if d.raisePrimitive = "" then [] else [.nameRaisePrimitive d.raisePrimitive])
      ((d.opened caps).withLists [] [] []) := by
  split
  case isTrue notGiven =>
    rw [opened, notGiven]
    exact .nil
  case isFalse =>
    exact .cons (Builder.fits_none rfl rfl) .nil

/-- The entry function is chosen if it is given. -/
theorem exists_chosen (d : Description) (caps : Enumeration) (f : FunctionId)
    (functions : List Function) (declared : List String) :
    ∃ chosen : Builder, chosen.program = { (d.opened caps).program with
        entry := if d.entry = "" then (d.functionId? "main").getD (-1) else f } ∧
      Makes ((afterFunctions (d.opened caps) d.functions.zipIdx).withLists functions [] declared)
        (if d.entry = "" then [] else [.chooseEntry f])
        (chosen.withLists functions [] declared) := by
  -- A name for the entry function overrides what was chosen while functions were added.
  have added := program_afterFunctions (d.opened caps) 0 d.functions
  by_cases notGiven : d.entry = ""
  · refine ⟨_, added.trans ?_, ?_⟩
    · simp only [opened, notGiven, functionId?, Nat.zero_add]
      rfl
    · rw [if_pos notGiven]
      exact .nil
  · refine ⟨⟨{ (afterFunctions (d.opened caps) d.functions.zipIdx).program with entry := f },
      true⟩, ?_, ?_⟩
    · rw [if_neg notGiven, added]
    · rw [if_neg notGiven]
      exact .cons (Builder.fits_none rfl rfl) .nil

/-- What the script of a description makes. -/
theorem exists_makes_script {d : Description} (caps : Enumeration) {p : Program}
    {segments : List (List Block)} (isAll : Segments 0 0 d.functions segments)
    (functions : p.functions.toList = d.functions.zipIdx.zipWith filledFunction segments)
    (blocks : p.blocks = segments.flatten.toArray) :
    ∃ chosen : Builder, chosen.program = { (d.opened caps).program with
        entry := if d.entry = "" then (d.functionId? "main").getD (-1) else p.entry } ∧
      Makes (Builder.new (some caps)) (d.script p)
        (chosen.withLists p.functions.toList segments.flatten (d.symbols segments.flatten)) := by
  obtain ⟨chosen, isChosen, chooses⟩ := d.exists_chosen caps p.entry
    (d.functions.zipIdx.map emptyFunction) (d.declared.foldl declareOnce [])
  refine ⟨chosen, isChosen, ?_⟩
  have primitive : chosen.program.primitive =
      if d.raisePrimitive = "" then defaultRaisePrimitive else d.raisePrimitive := by
    rw [isChosen]
    rfl
  rw [script, functions, isAll.flatMap_blockCalls [] rfl blocks,
    ← foldl_declareFor_eq_symbols, ← primitive]
  refine (d.makes_opened caps).append ?_
  refine (Builder.makes_declareSymbol d.declared).append ?_
  refine (makes_functionCalls [] d.functions).append ?_
  exact chooses.append (makes_segments [] [] isAll)

/-- **The draft of a description is built by a proper session.** -/
theorem builds_script {d : Description} (distinct : (d.functions.map (·.name)).Nodup)
    {caps : Enumeration} {blocks : List Block} {p : Program} (isEntry : d.entryId = .ok p.entry)
    (areBlocks : d.allBlocks caps 0 0 d.functions = .ok blocks)
    (isProgram : p = { capabilities := some caps,
                       functions := (functionEntries blocks 0 0 d.functions).toArray,
                       blocks := blocks.toArray, entry := p.entry,
                       raisePrimitive := d.raisePrimitive, declared := d.symbols blocks }) :
    (Session.start (some caps)).Proper (d.script p) ∧
      ((Session.start (some caps)).run (d.script p)).builder.current = p := by
  obtain ⟨segments, isAll, rfl⟩ := exists_segments distinct areBlocks
  have functions : p.functions.toList = d.functions.zipIdx.zipWith filledFunction segments := by
    rw [isProgram]
    exact isAll.functionEntries_eq [] fun _ member => absurd member List.not_mem_nil
  obtain ⟨chosen, isChosen, makes⟩ :=
    exists_makes_script caps isAll functions (congrArg Program.blocks isProgram)
  obtain ⟨proper, isLast⟩ := Makes.proper (s := Session.start (some caps)) (.new (some caps)) makes
  refine ⟨proper, ?_⟩
  have size : p.functions.toList.length = d.functions.length := by
    rw [functions, List.length_zipWith, List.length_zipIdx, isAll.length_eq, Nat.min_self]
  have entry : (if chosen.program.entry < 0 ∧ 0 < p.functions.toList.toArray.size then 0
      else chosen.program.entry) = p.entry := by
    rw [List.size_toArray, size]
    exact entry_eq_of_entryId isEntry (congrArg Program.entry isChosen)
  rw [isLast, Builder.current_eq entry]
  simp only [Builder.withLists]
  rw [isChosen, Array.toArray_toList, congrArg Program.functions isProgram]
  exact isProgram.symm

end Description

end CapLiveness
