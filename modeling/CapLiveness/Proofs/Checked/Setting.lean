import CapLiveness.Proofs.Checked.Lookup
import CapLiveness.Proofs.Solved

/-!
# The graph and the local uses, with checked lookups

The graph and the local uses of a program are tables. Here they are filled in step by
step, block after block and function after function, and whatever is read or written must
have a place. In a well-formed program nothing fails, and the tables are those of the graph
and of the local uses (`graph_eq_some`, `extract_eq_some`).
-/

set_option autoImplicit false

namespace CapLiveness.Checked

/-! ## Callees -/

/-- The slots that a call may enter, if all its targets have one. -/
def calleeSlots (n : Nat) (target : CallTarget) : Option (List Nat) := do
  let known ← target.targets.mapM (slotOf? n)
  let slots := if target.reachesExternal then known ++ [n] else known
  some (slots.mergeSort (· ≤ ·)).eraseReps

variable {p : Program}

theorem calleeSlots_eq_some (wf : p.WellFormed) {b : BlockId} {block : Block}
    (found : p.block? b = some block) (call : block.kind = .call) :
    calleeSlots p.functions.size block.target =
      some (CapLiveness.calleeSlots p.functions.size block.target) := by
  have slots : ∀ f ∈ block.target.targets, (slotOf? p.functions.size f).isSome = true := by
    intro f target
    obtain ⟨function, callee⟩ :=
      Program.exists_of_hasFunction (wf.hasFunction_of_mem_targets found call target)
    obtain ⟨i, rfl, inside⟩ := entryAt?_eq_some_iff.mp callee
    rw [slotOf?_ofNat (Program.lt_of_function? inside)]
    rfl
  rw [calleeSlots, mapM_eq_filterMap slots]
  rfl

/-! ## Graphs -/

/-- The calls of a program with the slots that they may enter. -/
def calls (p : Program) : Option (List (Block × List Nat)) :=
  (p.blocks.toList.filter (·.kind = .call)).mapM fun block =>
    (calleeSlots p.functions.size block.target).map (block, ·)

/-- The graph of a program, filled in block by block. -/
def graph (p : Program) : Option Graph := do
  let slots := p.functions.size + 2
  let calls ← calls p
  let predecessors ← (p.blocks.toList.flatMap fun block =>
    block.successors.map (·, block.id.toNat)).foldlM put (Array.replicate p.blocks.size [])
  let sites ← (calls.map fun call => (call.1.function, call.1.id.toNat)).foldlM put
    (Array.replicate slots [])
  let callers ← (calls.flatMap fun call => call.2.map (Int.ofNat ·, call.1.id.toNat)).foldlM put
    (Array.replicate slots [])
  let marks ← (p.externalFunctions.map (Int.ofNat ·, true)).foldlM write
    (Array.replicate slots false)
  some
    { functionCount := p.functions.size
      predecessors := predecessors
      sites := sites
      callers := callers
      external := p.externalFunctions
      externalSlots := marks
      indirect := p.blockIndex.indirect
      complete := p.blockIndex.complete }

/-- Blocks and their positions, in terms of ids. -/
theorem blockEntries_eq (wf : p.WellFormed) :
    p.blockEntries = p.blocks.toList.map fun block => (block, block.id.toNat) := by
  have ids : ∀ entry ∈ p.blockEntries, entry = (entry.1, entry.1.id.toNat) := by
    rintro ⟨block, b⟩ member
    rw [(wf.block (Program.mem_blockEntries.mp member)).id]
    rfl
  have firsts : p.blocks.toList = p.blockEntries.map (·.1) := (List.zipIdx_map_fst 0 _).symm
  rw [firsts, List.map_map]
  exact (List.map_id _).symm.trans (List.map_congr_left ids)

theorem exists_position {block : Block} (member : block ∈ p.blocks.toList) :
    ∃ b : Nat, p.block? (Int.ofNat b) = some block :=
  Array.getElem?_of_mem (Array.mem_toList_iff.mp member)

theorem calls_eq_some (wf : p.WellFormed) :
    calls p = some ((p.blocks.toList.filter (·.kind = .call)).map fun block =>
      (block, CapLiveness.calleeSlots p.functions.size block.target)) := by
  refine mapM_eq_some ?_
  intro block member
  obtain ⟨listed, call⟩ := List.mem_filter.mp member
  obtain ⟨b, found⟩ := exists_position listed
  rw [calleeSlots_eq_some wf found (of_decide_eq_true call)]
  rfl

theorem predecessors_eq (wf : p.WellFormed) (b : Nat) :
    ((p.blocks.toList.flatMap fun block => block.successors.map (·, block.id.toNat)).filter
      (·.1 == Int.ofNat b)).map (·.2) = predecessorsIn p.blockEntries b := by
  rw [predecessorsIn, blockEntries_eq wf, List.flatMap_map, List.filter_flatMap,
    List.map_flatMap]
  congr 1
  funext block
  rw [List.filter_map, List.map_map, List.count_eq_length_filter, ← List.map_const']
  rfl

theorem sites_eq (wf : p.WellFormed) (slot : Nat) :
    (((p.blocks.toList.filter (·.kind = .call)).map fun block =>
      (block.function, block.id.toNat)).filter (·.1 == Int.ofNat slot)).map (·.2) =
        sitesIn p.blockEntries slot := by
  rw [sitesIn, positionsOf, blockEntries_eq wf]
  induction p.blocks.toList with
  | nil => rfl
  | cons block rest ih =>
    by_cases call : block.kind = .call <;> by_cases owner : block.function = Int.ofNat slot <;>
      simp_all

/-- A number that is put into several rows, each once, is once in each of them. -/
theorem filter_map_of_nodup {rows : List Nat} (nodup : rows.Nodup) (row x : Nat) :
    ((rows.map (Int.ofNat ·, x)).filter (·.1 == Int.ofNat row)).map (·.2) =
      if row ∈ rows then [x] else [] := by
  induction rows with
  | nil => rfl
  | cons first rest ih =>
    obtain ⟨fresh, nodupRest⟩ := List.nodup_cons.mp nodup
    have rest := ih nodupRest
    by_cases same : first = row
    · subst same
      simp_all
    · have different : ¬ (first : Int) = row := fun equal => same (Int.ofNat.inj equal)
      simp_all [Ne.symm same]

theorem callers_eq (wf : p.WellFormed) (slot : Nat) :
    (((p.blocks.toList.filter (·.kind = .call)).flatMap fun block =>
      (CapLiveness.calleeSlots p.functions.size block.target).map
        (Int.ofNat ·, block.id.toNat)).filter (·.1 == Int.ofNat slot)).map (·.2) =
          callersIn p.functions.size p.blockEntries slot := by
  rw [callersIn, positionsOf, blockEntries_eq wf]
  induction p.blocks.toList with
  | nil => rfl
  | cons block rest ih =>
    by_cases call : block.kind = .call
    · rw [List.filter_cons_of_pos (by simpa using call), List.flatMap_cons, List.filter_append,
        List.map_append, ih, filter_map_of_nodup (nodup_calleeSlots _ _)]
      by_cases callee : slot ∈ CapLiveness.calleeSlots p.functions.size block.target <;>
        simp [call, callee]
    · rw [List.filter_cons_of_neg (by simpa using call), ih]
      simp [call]

theorem puts_predecessors (wf : p.WellFormed) :
    (p.blocks.toList.flatMap fun block => block.successors.map (·, block.id.toNat)).foldlM put
      (Array.replicate p.blocks.size []) = some (Graph.ofProgram p).predecessors := by
  rw [puts_eq_some, funext (predecessors_eq wf), Graph.predecessors_ofProgram]
  · intro entry member
    obtain ⟨block, listed, successors⟩ := List.mem_flatMap.mp member
    obtain ⟨successor, follows, rfl⟩ := List.mem_map.mp successors
    obtain ⟨b, found⟩ := exists_position listed
    obtain ⟨next, foundNext, _⟩ := (wf.block found).successors successor follows
    obtain ⟨i, same, inside⟩ := entryAt?_eq_some_iff.mp foundNext
    exact ⟨i, Program.lt_of_block? inside, same⟩

theorem puts_sites (wf : p.WellFormed) :
    ((p.blocks.toList.filter (·.kind = .call)).map fun block =>
      (block.function, block.id.toNat)).foldlM put (Array.replicate (p.functions.size + 2) []) =
        some (Graph.ofProgram p).sites := by
  rw [puts_eq_some, funext (sites_eq wf), Graph.sites_ofProgram]
  · intro entry member
    obtain ⟨block, listed, rfl⟩ := List.mem_map.mp member
    obtain ⟨b, found⟩ := exists_position (List.mem_filter.mp listed).1
    obtain ⟨owner, foundOwner⟩ := wf.owner found
    obtain ⟨i, same, inside⟩ := entryAt?_eq_some_iff.mp foundOwner
    exact ⟨i, Nat.lt_add_right 2 (Program.lt_of_function? inside), same⟩

theorem puts_callers (wf : p.WellFormed) :
    ((p.blocks.toList.filter (·.kind = .call)).flatMap fun block =>
      (CapLiveness.calleeSlots p.functions.size block.target).map
        (Int.ofNat ·, block.id.toNat)).foldlM put (Array.replicate (p.functions.size + 2) []) =
          some (Graph.ofProgram p).callers := by
  rw [puts_eq_some, funext (callers_eq wf), Graph.callers_ofProgram]
  · intro entry member
    obtain ⟨block, listed, slots⟩ := List.mem_flatMap.mp member
    obtain ⟨slot, callee, rfl⟩ := List.mem_map.mp slots
    obtain ⟨inProgram, call⟩ := List.mem_filter.mp listed
    obtain ⟨b, found⟩ := exists_position inProgram
    exact ⟨slot, wf.lt_of_mem_callees found (of_decide_eq_true call) callee, rfl⟩

theorem writes_external (p : Program) :
    (p.externalFunctions.map (Int.ofNat ·, true)).foldlM write
      (Array.replicate (p.functions.size + 2) false) =
        some (Graph.ofProgram p).externalSlots := by
  rw [List.foldlM_map]
  refine foldlM_eq_some (fun marks => marks.size = p.functions.size + 2) ?_ (by simp)
  intro marks sized slot external
  have bound : slot < marks.size := by
    rw [sized]
    exact Nat.lt_add_right 2 (Graph.lt_of_mem_externalFunctions p external)
  exact ⟨write_ofNat bound true, Array.size_setIfInBounds.trans sized⟩

/-- **The graph of a well-formed program is built without a failing lookup.** -/
theorem graph_eq_some (wf : p.WellFormed) : graph p = some (Graph.ofProgram p) := by
  simp only [graph, calls_eq_some wf, Option.bind_eq_bind, Option.bind_some, List.map_map,
    List.flatMap_map, Function.comp_def]
  simp only [puts_predecessors wf, puts_sites wf, puts_callers wf, writes_external,
    Option.bind_some]
  rfl

/-! ## Local uses -/

/-- The functions of a program with the blocks that they list, if all of these exist. -/
def bodies (p : Program) : Option (List (Function × List (BlockId × Block))) :=
  p.functions.toList.mapM fun f =>
    (f.blocks.mapM fun b => (p.block? b).map (b, ·)).map (f, ·)

/-- The structural errors of a function, given its blocks. -/
def problemsOf (p : Program) (body : Function × List (BlockId × Block)) : List Problem :=
  body.2.flatMap fun entry => p.blockProblems entry.2

/-- What a function uses itself, given its blocks. -/
def usesOf (p : Program) (body : Function × List (BlockId × Block)) : CapSet :=
  if !(problemsOf p body).isEmpty then p.enumeration.all
  else body.2.foldl (fun used entry => used ∪ entry.2.localUses p.enumeration) ∅

/-- What every block and function uses itself, filled in function by function. -/
def uses (p : Program) : Option Uses := do
  let slots := p.functions.size + 2
  let bodies ← bodies p
  let ofBlock ← (bodies.flatMap fun body => body.2.map fun entry =>
    (entry.1, entry.2.localUses p.enumeration)).foldlM write (Array.replicate p.blocks.size ∅)
  let ofSlot ← (bodies.zipIdx.map fun entry => (Int.ofNat entry.2, usesOf p entry.1)).foldlM write
    (Array.replicate slots ∅)
  let opaqueSlots ← ((bodies.zipIdx.filter fun entry => !(problemsOf p entry.1).isEmpty).map
    fun entry => (Int.ofNat entry.2, true)).foldlM write (Array.replicate slots false)
  let findings := (bodies.map fun body => (body.1, problemsOf p body)).filter (!·.2.isEmpty)
  some ⟨ofSlot, ofBlock, opaqueSlots, findings⟩

/-- Extracts the local uses. -/
def extract (strictness : Strictness) (p : Program) : Option (Except Problem Uses) :=
  (uses p).map fun uses =>
    match strictness, uses.findings with
    | .run, (_, problems) :: _ => .error (.join problems)
    | _, _ => .ok uses

/-- A function with those of the blocks that it lists that exist. -/
def bodyOf (p : Program) (f : Function) : Function × List (BlockId × Block) :=
  (f, f.blocks.filterMap fun b => (p.block? b).map (b, ·))

theorem mem_bodyOf {f : Function} {b : BlockId} {block : Block} :
    (b, block) ∈ (bodyOf p f).2 ↔ b ∈ f.blocks ∧ p.block? b = some block := by
  simp only [bodyOf, List.mem_filterMap, Option.map_eq_some_iff, Prod.mk.injEq]
  constructor
  · rintro ⟨_, listed, _, found, rfl, rfl⟩
    exact ⟨listed, found⟩
  · rintro ⟨listed, found⟩
    exact ⟨b, listed, block, found, rfl, rfl⟩

theorem blocks_bodyOf (f : Function) : (bodyOf p f).2.map (·.2) = f.blocks.filterMap p.block? := by
  rw [bodyOf, List.map_filterMap]
  simp [Function.comp_def]

theorem problemsOf_bodyOf (f : Function) : problemsOf p (bodyOf p f) = p.functionProblems f := by
  rw [Program.functionProblems, ← blocks_bodyOf, List.flatMap_map]
  rfl

theorem usesOf_bodyOf (f : Function) :
    usesOf p (bodyOf p f) =
      if !(p.functionProblems f).isEmpty then p.enumeration.all else p.functionUses f := by
  rw [usesOf, problemsOf_bodyOf, Program.functionUses, ← blocks_bodyOf, List.foldl_map]

theorem bodies_eq_some (wf : p.WellFormed) :
    bodies p = some (p.functions.toList.map (bodyOf p)) := by
  refine mapM_eq_some ?_
  intro f member
  obtain ⟨i, found⟩ := Array.getElem?_of_mem (Array.mem_toList_iff.mp member)
  have exists_block : ∀ b ∈ f.blocks, ((p.block? b).map (b, ·)).isSome = true := by
    intro b listed
    obtain ⟨block, foundBlock, _⟩ := wf.exists_listed (f := Int.ofNat i) found listed
    rw [foundBlock]
    rfl
  rw [mapM_eq_filterMap exists_block]
  rfl

/-- Tables with an entry for each block. -/
theorem writes_blocks {α : Type} (content : Block → α) {default : α} {entries : List (Int × α)}
    (written : ∀ entry ∈ entries, ∃ block, p.block? entry.1 = some block ∧
      content block = entry.2)
    (others : ∀ b block, p.block? (Int.ofNat b) = some block → content block ≠ default →
      ∃ entry ∈ entries, entry.1 = Int.ofNat b) :
    entries.foldlM write (Array.replicate p.blocks.size default) =
      some (p.blocks.map content) := by
  refine writes_eq_some (by simp) ?_ ?_
  · intro entry member
    obtain ⟨block, found, same⟩ := written entry member
    rw [entryAt?_map, ← same]
    exact congrArg (Option.map content) found
  · intro b
    rw [Array.getElem?_map]
    cases found : p.blocks[b]? with
    | none =>
      have outside := Array.getElem?_eq_none_iff.mp found
      exact .inl (by simp [outside])
    | some block =>
      by_cases isDefault : content block = default
      · have bound := (Array.getElem?_eq_some_iff.mp found).1
        exact .inl (by simp [bound, isDefault])
      · exact .inr (others b block found isDefault)

theorem writes_ofBlock (wf : p.WellFormed) :
    ((p.functions.toList.map (bodyOf p)).flatMap fun body => body.2.map fun entry =>
      (entry.1, entry.2.localUses p.enumeration)).foldlM write (Array.replicate p.blocks.size ∅) =
        some (Uses.ofProgram p).ofBlock := by
  refine writes_blocks (·.localUses p.enumeration) ?_ ?_
  · intro entry member
    simp only [List.mem_flatMap, List.mem_map, exists_exists_and_eq_and] at member
    obtain ⟨f, _, ⟨b, block⟩, inBody, rfl⟩ := member
    exact ⟨block, (mem_bodyOf.mp inBody).2, rfl⟩
  · intro b block found _
    -- Every block is listed by the function that it names.
    obtain ⟨owner, foundOwner⟩ := wf.owner found
    have listed := (wf.listed_iff foundOwner found).mpr rfl
    obtain ⟨i, _, inside⟩ := entryAt?_eq_some_iff.mp foundOwner
    have member := Array.mem_toList_iff.mpr (Array.mem_of_getElem? inside)
    simp only [List.mem_flatMap, List.mem_map, exists_exists_and_eq_and]
    exact ⟨_, ⟨owner, member, _, mem_bodyOf.mpr ⟨listed, found⟩, rfl⟩, rfl⟩

/-- Tables with an entry for each function, and defaults for outside code. -/
theorem writes_slots {α : Type} (content : Function → α) {default : α} {entries : List (Int × α)}
    (written : ∀ entry ∈ entries, ∃ i f, p.functions[i]? = some f ∧
      entry = (Int.ofNat i, content f))
    (others : ∀ i f, p.functions[i]? = some f → content f ≠ default →
      ∃ entry ∈ entries, entry.1 = Int.ofNat i) :
    entries.foldlM write (Array.replicate (p.functions.size + 2) default) =
      some (p.functions.map content ++ #[default, default]) := by
  refine writes_eq_some (by simp) ?_ ?_
  · intro entry member
    obtain ⟨i, f, found, rfl⟩ := written entry member
    have bound : i < (p.functions.map content).size := by
      rw [Array.size_map]
      exact (Array.getElem?_eq_some_iff.mp found).1
    simp [entryAt?, Array.getElem?_append_left bound, found]
  · intro i
    cases found : p.functions[i]? with
    | none =>
      left
      have outside := Array.getElem?_eq_none_iff.mp found
      obtain ⟨j, rfl⟩ := Nat.exists_eq_add_of_le outside
      rw [Array.getElem?_append_right (by simp)]
      rcases j with _ | _ | j <;> simp
    | some f =>
      by_cases isDefault : content f = default
      · left
        have bound := (Array.getElem?_eq_some_iff.mp found).1
        rw [Array.getElem?_append_left (by simpa using bound), Array.getElem?_map, found,
          Array.getElem?_replicate, if_pos (Nat.lt_add_right 2 bound), Option.map_some, isDefault]
      · exact .inr (others i f found isDefault)

theorem mem_bodies_zipIdx {body : Function × List (BlockId × Block)} {i : Nat} :
    (body, i) ∈ (p.functions.toList.map (bodyOf p)).zipIdx ↔
      ∃ f, p.functions[i]? = some f ∧ body = bodyOf p f := by
  rw [List.mk_mem_zipIdx_iff_getElem?, List.getElem?_map, Array.getElem?_toList,
    Option.map_eq_some_iff]
  exact exists_congr fun f => and_congr_right fun _ => eq_comm

theorem writes_ofSlot (p : Program) :
    ((p.functions.toList.map (bodyOf p)).zipIdx.map fun entry =>
      (Int.ofNat entry.2, usesOf p entry.1)).foldlM write
        (Array.replicate (p.functions.size + 2) ∅) = some (Uses.ofProgram p).ofSlot := by
  rw [writes_slots fun f => usesOf p (bodyOf p f), funext usesOf_bodyOf]
  · rfl
  · intro entry member
    obtain ⟨⟨body, i⟩, inside, rfl⟩ := List.mem_map.mp member
    obtain ⟨f, found, rfl⟩ := mem_bodies_zipIdx.mp inside
    exact ⟨i, f, found, rfl⟩
  · intro i f found _
    exact ⟨_, List.mem_map_of_mem (mem_bodies_zipIdx.mpr ⟨f, found, rfl⟩), rfl⟩

theorem writes_opaqueSlots (p : Program) :
    (((p.functions.toList.map (bodyOf p)).zipIdx.filter fun entry =>
      !(problemsOf p entry.1).isEmpty).map fun entry => (Int.ofNat entry.2, true)).foldlM write
        (Array.replicate (p.functions.size + 2) false) = some (Uses.ofProgram p).opaqueSlots := by
  rw [writes_slots fun f => !(p.functionProblems f).isEmpty]
  · rfl
  · intro entry member
    obtain ⟨⟨body, i⟩, kept, rfl⟩ := List.mem_map.mp member
    obtain ⟨inside, nonempty⟩ := List.mem_filter.mp kept
    obtain ⟨f, found, rfl⟩ := mem_bodies_zipIdx.mp inside
    rw [problemsOf_bodyOf] at nonempty
    exact ⟨i, f, found, by rw [nonempty]⟩
  · intro i f found nonempty
    refine ⟨_, List.mem_map_of_mem (List.mem_filter.mpr
      ⟨mem_bodies_zipIdx.mpr ⟨f, found, rfl⟩, ?_⟩), rfl⟩
    rw [problemsOf_bodyOf]
    exact (Bool.not_eq_false _).mp nonempty

theorem findings_eq (p : Program) :
    ((p.functions.toList.map (bodyOf p)).map fun body => (body.1, problemsOf p body)).filter
      (!·.2.isEmpty) = Uses.findingsOf p := by
  have pairs : ∀ f, ((bodyOf p f).1, problemsOf p (bodyOf p f)) = (f, p.functionProblems f) :=
    fun f => congrArg (f, ·) (problemsOf_bodyOf f)
  rw [Uses.findingsOf, List.map_map]
  exact congrArg _ (List.map_congr_left fun f _ => pairs f)

/-- **The local uses of a well-formed program are extracted without a failing lookup.** -/
theorem extract_eq_some (wf : p.WellFormed) (strictness : Strictness) :
    extract strictness p = some (Uses.extract strictness p) := by
  have uses : uses p = some (Uses.ofProgram p) := by
    simp only [uses, bodies_eq_some wf, Option.bind_eq_bind, Option.bind_some, writes_ofBlock wf,
      writes_ofSlot, writes_opaqueSlots, findings_eq]
    rfl
  rw [extract, uses]
  rfl

end CapLiveness.Checked
