import CapLiveness.Proofs.Solved
import Mathlib.Data.List.Forall2

/-!
# Structural errors by place

A structural error has a place: a function, a block in the list of the function, and a part of
the block, which is its exit or one of its arguments. What is wrong at a place is said here in
terms of the program alone (`Block.Fault`, `Program.FaultIn`).

Extraction reports the errors in the order of their places, and every place with an error
exactly once. This is a notion of its own (`Lists`), which is built up as the reports are: from
the parts of a block (`lists_blockProblems`) by way of the blocks of a function
(`WellFormed.lists_functionProblems`) to the diagnostics of a program
(`WellFormed.lists_diagnostics`).
-/

set_option autoImplicit false

namespace CapLiveness

/-! ## Lists in the order of places -/

section Lists

variable {ι κ α β : Type} {before : ι → ι → Prop} {holds : ι → β → Prop} {entries : List β}

/-- **A list of the entries of a relation**, in the order of their places: there is one entry for
each place at which the relation has any. -/
def Lists (before : ι → ι → Prop) (holds : ι → β → Prop) (entries : List β) : Prop :=
  ∃ places : List ι, places.Pairwise before ∧ (∀ i, i ∈ places ↔ ∃ x, holds i x) ∧
    List.Forall₂ holds places entries

namespace Lists

theorem empty (none : ∀ i x, ¬ holds i x) : Lists before holds [] :=
  ⟨[], .nil, by simp [none], .nil⟩

theorem single {i : ι} {x : β} (only : ∀ j y, holds j y ↔ j = i ∧ y = x) :
    Lists before holds [x] :=
  ⟨[i], List.pairwise_singleton _ _, by simp [only], .cons ((only i x).mpr ⟨rfl, rfl⟩) .nil⟩

theorem congr {other : ι → β → Prop} (lists : Lists before holds entries)
    (same : ∀ i x, holds i x ↔ other i x) : Lists before other entries := by
  have equal : holds = other := funext fun i => funext fun x => propext (same i x)
  rwa [equal] at lists

theorem append {first second : ι → β → Prop} {later : List β} (lists : Lists before first entries)
    (listsLater : Lists before second later)
    (ordered : ∀ i x j y, first i x → second j y → before i j)
    (either : ∀ i x, holds i x ↔ first i x ∨ second i x) :
    Lists before holds (entries ++ later) := by
  obtain ⟨places, pairwise, complete, matched⟩ := lists
  obtain ⟨laterPlaces, laterPairwise, laterComplete, laterMatched⟩ := listsLater
  refine ⟨places ++ laterPlaces, List.pairwise_append.mpr ⟨pairwise, laterPairwise, ?_⟩, ?_, ?_⟩
  · intro i member j laterMember
    obtain ⟨x, isFirst⟩ := (complete i).mp member
    obtain ⟨y, isSecond⟩ := (laterComplete j).mp laterMember
    exact ordered i x j y isFirst isSecond
  · intro i
    rw [List.mem_append, complete, laterComplete, ← exists_or]
    exact exists_congr fun x => (either i x).symm
  · exact List.rel_append (matched.imp fun i x isFirst => (either i x).mpr (.inl isFirst))
      (laterMatched.imp fun i x isSecond => (either i x).mpr (.inr isSecond))

theorem map {outer : κ → κ → Prop} (place : ι → κ)
    (keeps : ∀ {i j}, before i j → outer (place i) (place j)) (lists : Lists before holds entries) :
    Lists outer (fun k x => ∃ i, k = place i ∧ holds i x) entries := by
  obtain ⟨places, pairwise, complete, matched⟩ := lists
  refine ⟨places.map place, pairwise.map place fun _ _ => keeps, ?_, ?_⟩
  · intro k
    simp only [List.mem_map, complete]
    constructor
    · rintro ⟨i, ⟨x, atPlace⟩, rfl⟩
      exact ⟨x, i, rfl, atPlace⟩
    · rintro ⟨x, i, rfl, atPlace⟩
      exact ⟨i, ⟨x, atPlace⟩, rfl⟩
  · exact List.forall₂_map_left_iff.mpr (matched.imp fun i x atPlace => ⟨i, rfl, atPlace⟩)

/-- The first entry stands at the first place. -/
theorem head {x : β} (lists : Lists before holds (x :: entries)) :
    ∃ i, holds i x ∧ ∀ j y, holds j y → j = i ∨ before i j := by
  obtain ⟨places, pairwise, complete, matched⟩ := lists
  cases matched with
  | @cons i _ places _ atPlace _ =>
    refine ⟨i, atPlace, fun j y there => ?_⟩
    rcases List.mem_cons.mp ((complete j).mpr ⟨y, there⟩) with same | later
    · exact .inl same
    · exact .inr ((List.pairwise_cons.mp pairwise).1 j later)

/-- Where a place has at most one entry, the list has exactly the entries of the relation. -/
theorem mem_iff (lists : Lists before holds entries)
    (unique : ∀ i x y, holds i x → holds i y → x = y) {x : β} :
    x ∈ entries ↔ ∃ i, holds i x := by
  obtain ⟨places, _, complete, matched⟩ := lists
  obtain ⟨sameLength, each⟩ := List.forall₂_iff_get.mp matched
  constructor
  · intro member
    obtain ⟨n, rfl⟩ := List.get_of_mem member
    exact ⟨_, each n (by omega) n.isLt⟩
  · rintro ⟨i, atPlace⟩
    obtain ⟨n, rfl⟩ := List.get_of_mem ((complete i).mpr ⟨x, atPlace⟩)
    rw [unique _ x _ atPlace (each n n.isLt (by omega))]
    exact List.get_mem _ _

/-- What is picked from a list by number, in the order of the numbers. -/
theorem filterMap (numbered : Nat → β → Prop) (pick : α × Nat → Option β) (items : List α)
    (n : Nat)
    (each : ∀ entry ∈ items.zipIdx n, ∀ x, numbered entry.2 x ↔ pick entry = some x) :
    Lists (· < ·) (fun i x => n ≤ i ∧ i < n + items.length ∧ numbered i x)
      ((items.zipIdx n).filterMap pick) := by
  induction items generalizing n with
  | nil => exact .empty fun i x ⟨le, lt, _⟩ => absurd lt (Nat.not_lt.mpr le)
  | cons first rest ih =>
    rw [List.zipIdx_cons] at each ⊢
    have here := each (first, n) List.mem_cons_self
    have listsRest := ih (n + 1) fun entry member => each entry (List.mem_cons_of_mem _ member)
    have listsFirst : Lists (· < ·) (fun i x => i = n ∧ numbered i x) (pick (first, n)).toList := by
      cases picked : pick (first, n) with
      | none =>
        refine .empty fun i x ⟨same, atPlace⟩ => ?_
        rw [same, here, picked] at atPlace
        cases atPlace
      | some x =>
        refine .single (i := n) fun j y => and_congr_right fun same => ?_
        rw [same, here, picked, Option.some.injEq, eq_comm]
    have entries : ((first, n) :: rest.zipIdx (n + 1)).filterMap pick =
        (pick (first, n)).toList ++ (rest.zipIdx (n + 1)).filterMap pick := by
      rw [List.filterMap_cons]
      cases pick (first, n) <;> rfl
    rw [entries]
    refine listsFirst.append listsRest ?_ ?_
    · rintro i x j y ⟨rfl, _⟩ ⟨le, _⟩
      exact le
    · intro i x
      rw [List.length_cons]
      grind

/-- The entries that numbered items contribute, item after item. -/
theorem flatMap (numbered : Nat → ι → β → Prop) (contribute : α → List β) (items : List α)
    (n : Nat)
    (each : ∀ entry ∈ items.zipIdx n, Lists before (numbered entry.2) (contribute entry.1)) :
    Lists (Prod.Lex (· < ·) before)
      (fun place x => n ≤ place.1 ∧ place.1 < n + items.length ∧ numbered place.1 place.2 x)
      (items.flatMap contribute) := by
  induction items generalizing n with
  | nil => exact .empty fun i x ⟨le, lt, _⟩ => absurd lt (Nat.not_lt.mpr le)
  | cons first rest ih =>
    rw [List.zipIdx_cons] at each
    have listsRest := ih (n + 1) fun entry member => each entry (List.mem_cons_of_mem _ member)
    have listsFirst : Lists (Prod.Lex (· < ·) before) _ (contribute first) :=
      (each (first, n) List.mem_cons_self).map (Prod.mk n) (.right n)
    rw [List.flatMap_cons]
    refine listsFirst.append listsRest ?_ ?_
    · rintro _ x ⟨m, j⟩ y ⟨i, rfl, _⟩ ⟨le, _⟩
      exact .left i j le
    · rintro ⟨m, i⟩ x
      rw [List.length_cons]
      simp only [Prod.mk.injEq]
      grind

end Lists

end Lists

/-! ## Structural errors by place -/

/-- **The structural errors of a block**, each with the part where it is, its code, its message
and its cause. The part is the exit of the block or an argument, by position. -/
inductive Block.Fault (caps : Enumeration) (block : Block) :
    Option Nat → ErrorCode → String → Option Problem → Prop where
  | unwind (exit : block.exit = .unwind) :
      Fault caps block none .unwindExit "unwind exits are not supported" none
  | nonConstant {i : Nat} (argument : block.arguments[i]? = some .variable) :
      Fault caps block (some i) .nonConstant s!"capability argument {i} is not a constant" none
  | outOfRange {i : Nat} {value : Int} (argument : block.arguments[i]? = some (.constant value))
      (outside : value < 0 ∨ caps.size ≤ value) :
      Fault caps block (some i) .outOfRange s!"capability argument {i}"
        (some (.range ⟨value, caps.size⟩))

theorem Block.Fault.lt_length {caps : Enumeration} {block : Block} {i : Nat} {code : ErrorCode}
    {message : String} {cause : Option Problem}
    (fault : block.Fault caps (some i) code message cause) : i < block.arguments.length := by
  cases fault with
  | nonConstant isArgument => exact (List.getElem?_eq_some_iff.mp isArgument).1
  | outOfRange isArgument _ => exact (List.getElem?_eq_some_iff.mp isArgument).1

/-- A part of a block has at most one structural error. -/
theorem Block.Fault.unique {caps : Enumeration} {block : Block} {part : Option Nat}
    {code other : ErrorCode} {message otherMessage : String} {cause otherCause : Option Problem}
    (fault : block.Fault caps part code message cause)
    (otherFault : block.Fault caps part other otherMessage otherCause) :
    code = other ∧ message = otherMessage ∧ cause = otherCause := by
  cases fault with
  | unwind => cases otherFault with | unwind => exact ⟨rfl, rfl, rfl⟩
  | nonConstant isVariable =>
    cases otherFault with
    | nonConstant => exact ⟨rfl, rfl, rfl⟩
    | outOfRange isConstant => cases isVariable.symm.trans isConstant
  | outOfRange isConstant =>
    cases otherFault with
    | nonConstant isVariable => cases isConstant.symm.trans isVariable
    | outOfRange isOther =>
      cases isConstant.symm.trans isOther
      exact ⟨rfl, rfl, rfl⟩

/-- The parts of the blocks of a function, in order: block after block, the exit before the
arguments. -/
abbrev PartOrder : Nat × Option Nat → Nat × Option Nat → Prop := Prod.Lex (· < ·) (· < ·)

/-- The parts of the blocks of a program, in order: function after function. -/
abbrev PlaceOrder : Nat × Nat × Option Nat → Nat × Nat × Option Nat → Prop :=
  Prod.Lex (· < ·) PartOrder

namespace Program

/-- **The structural errors of a function**, by the position of a block in its list and the part
of the block. The error names the function and the block. -/
def FaultIn (p : Program) (f : FunctionId) (place : Nat × Option Nat) (problem : Problem) : Prop :=
  ∃ function b block code message cause, p.function? f = some function ∧
    function.blocks[place.1]? = some b ∧ p.block? b = some block ∧
      block.Fault p.enumeration place.2 code message cause ∧
        problem = .analysis code ⟨p.functionName f, p.blockName b⟩ message cause

/-- The structural errors of a program, by the number of the function and the place in it. -/
def Fault (p : Program) (place : Nat × Nat × Option Nat) (problem : Problem) : Prop :=
  p.FaultIn (Int.ofNat place.1) place.2 problem

variable {p : Program}

theorem FaultIn.unique {f : FunctionId} {place : Nat × Option Nat} {problem other : Problem}
    (fault : p.FaultIn f place problem) (otherFault : p.FaultIn f place other) :
    problem = other := by
  obtain ⟨_, _, _, _, _, _, found, listed, foundBlock, isFault, rfl⟩ := fault
  obtain ⟨_, _, _, _, _, _, foundOther, listedOther, foundThere, isOther, rfl⟩ := otherFault
  obtain rfl := Option.some.inj (found.symm.trans foundOther)
  obtain rfl := Option.some.inj (listed.symm.trans listedOther)
  obtain rfl := Option.some.inj (foundBlock.symm.trans foundThere)
  obtain ⟨rfl, rfl, rfl⟩ := isFault.unique isOther
  rfl

theorem argumentProblem?_eq_some_iff {block : Block} {argument : Argument} {i : Nat}
    (isArgument : block.arguments[i]? = some argument) {problem : Problem} :
    p.argumentProblem? block (argument, i) = some problem ↔
      ∃ code message cause, block.Fault p.enumeration (some i) code message cause ∧
        problem = p.blockProblem block code message cause := by
  constructor
  · intro found
    rcases argument with value | _
    · simp only [argumentProblem?] at found
      split at found
      case isTrue => cases found
      case isFalse outside =>
        refine ⟨_, _, _, .outOfRange isArgument ?_, (Option.some.inj found).symm⟩
        omega
    · exact ⟨_, _, _, .nonConstant isArgument, (Option.some.inj found).symm⟩
  · rintro ⟨code, message, cause, fault, rfl⟩
    cases fault with
    | nonConstant isVariable =>
      obtain rfl := Option.some.inj (isArgument.symm.trans isVariable)
      rfl
    | outOfRange isConstant outside =>
      obtain rfl := Option.some.inj (isArgument.symm.trans isConstant)
      exact if_neg (by omega)

/-- The structural errors of a block, with the place where it says it is. -/
def BlockFault (p : Program) (block : Block) (part : Option Nat) (problem : Problem) : Prop :=
  ∃ code message cause, block.Fault p.enumeration part code message cause ∧
    problem = p.blockProblem block code message cause

theorem lists_exitProblems (block : Block) :
    Lists (· < ·) (fun part problem => part = none ∧ p.BlockFault block part problem)
      (if block.exit = .unwind then
        [p.blockProblem block .unwindExit "unwind exits are not supported" none]
      else []) := by
  split
  case isTrue unwinds =>
    refine .single (i := none) fun part problem => and_congr_right ?_
    rintro rfl
    constructor
    · rintro ⟨_, _, _, ⟨⟩, rfl⟩
      rfl
    · rintro rfl
      exact ⟨_, _, _, .unwind unwinds, rfl⟩
  case isFalse continues =>
    refine .empty ?_
    rintro _ problem ⟨rfl, _, _, _, ⟨unwinds⟩, _⟩
    exact continues unwinds

/-- **The structural errors of a block are listed part by part.** -/
theorem lists_blockProblems (block : Block) :
    Lists (· < ·) (p.BlockFault block) (p.blockProblems block) := by
  have arguments : Lists (· < ·) _
      (block.arguments.zipIdx.filterMap (p.argumentProblem? block)) :=
    Lists.filterMap (fun i => p.BlockFault block (some i)) _ _ 0
      fun entry member problem =>
        (argumentProblem?_eq_some_iff (List.mem_zipIdx_iff_getElem?.mp member)).symm
  have parts : Lists (· < ·) _ (block.arguments.zipIdx.filterMap (p.argumentProblem? block)) :=
    arguments.map some fun less => less
  refine (lists_exitProblems block).append parts ?_ ?_
  · rintro _ x _ y ⟨rfl, _⟩ ⟨i, rfl, _⟩
    trivial
  · intro part problem
    constructor
    · intro fault
      cases part with
      | none => exact .inl ⟨rfl, fault⟩
      | some i =>
        obtain ⟨_, _, _, isFault, _⟩ := id fault
        refine .inr ⟨i, rfl, Nat.zero_le i, ?_, fault⟩
        rw [Nat.zero_add]
        exact isFault.lt_length
    · rintro (⟨_, fault⟩ | ⟨i, rfl, _, _, fault⟩)
      · exact fault
      · exact fault

/-- Functions without errors do not count as findings, and contribute no error. -/
theorem flatMap_findings (functions : List Function) :
    ((functions.map fun f => (f, p.functionProblems f)).filter (!·.2.isEmpty)).flatMap (·.2) =
      functions.flatMap p.functionProblems := by
  induction functions with
  | nil => rfl
  | cons first rest ih =>
    rw [List.flatMap_cons, ← ih]
    cases problems : p.functionProblems first <;> simp [problems]

theorem fault_lt {place : Nat × Nat × Option Nat} {problem : Problem}
    (fault : p.Fault place problem) : place.1 < p.functions.size := by
  obtain ⟨_, _, _, _, _, _, found, _⟩ := fault
  exact lt_of_function? found

namespace WellFormed

variable (wf : p.WellFormed)
include wf

theorem faultIn_iff {f : FunctionId} {function : Function} {i : Nat} {b : BlockId} {block : Block}
    (found : p.function? f = some function) (listed : function.blocks[i]? = some b)
    (foundBlock : p.block? b = some block) {part : Option Nat} {problem : Problem} :
    p.FaultIn f (i, part) problem ↔ p.BlockFault block part problem := by
  have owner := (wf.listed_iff found foundBlock).mp (List.mem_of_getElem? listed)
  have here : ∀ code message cause, p.blockProblem block code message cause =
      .analysis code ⟨p.functionName f, p.blockName b⟩ message cause := by
    intro code message cause
    rw [blockProblem, owner, (wf.block foundBlock).id]
  constructor
  · rintro ⟨other, c, otherBlock, code, message, cause, foundOther, listedOther, foundHere, fault,
      isProblem⟩
    obtain rfl := Option.some.inj (found.symm.trans foundOther)
    obtain rfl := Option.some.inj (listed.symm.trans listedOther)
    obtain rfl := Option.some.inj (foundBlock.symm.trans foundHere)
    exact ⟨code, message, cause, fault, isProblem.trans (here code message cause).symm⟩
  · rintro ⟨code, message, cause, fault, isProblem⟩
    exact ⟨function, b, block, code, message, cause, found, listed, foundBlock, fault,
      isProblem.trans (here code message cause)⟩

/-- **The structural errors of a function are listed block by block.** -/
theorem lists_functionProblems {f : FunctionId} {function : Function}
    (found : p.function? f = some function) :
    Lists PartOrder (p.FaultIn f) (p.functionProblems function) := by
  have contributions : p.functionProblems function =
      function.blocks.flatMap fun b => (p.block? b).toList.flatMap p.blockProblems := by
    rw [functionProblems]
    induction function.blocks with
    | nil => rfl
    | cons first rest ih => cases atFirst : p.block? first <;> simp [atFirst, ih]
  rw [contributions]
  refine (Lists.flatMap (fun i part => p.FaultIn f (i, part)) _ _ 0 ?_).congr ?_
  · rintro ⟨b, i⟩ member
    have listed := List.mem_zipIdx_iff_getElem?.mp member
    obtain ⟨block, foundBlock, owner⟩ := wf.exists_listed found (List.mem_of_getElem? listed)
    rw [foundBlock, Option.toList_some, List.flatMap_singleton]
    refine (lists_blockProblems block).congr fun part problem => ?_
    rw [wf.faultIn_iff found listed foundBlock]
  · rintro ⟨i, part⟩ problem
    refine ⟨fun fault => fault.2.2, fun fault => ?_⟩
    obtain ⟨other, b, _, _, _, _, foundOther, listed, _⟩ := id fault
    obtain rfl := Option.some.inj (found.symm.trans foundOther)
    refine ⟨Nat.zero_le i, ?_, fault⟩
    rw [Nat.zero_add]
    exact (List.getElem?_eq_some_iff.mp listed).1

theorem mem_functionProblems_iff {f : FunctionId} {function : Function}
    (found : p.function? f = some function) {problem : Problem} :
    problem ∈ p.functionProblems function ↔ ∃ place, p.FaultIn f place problem :=
  (wf.lists_functionProblems found).mem_iff fun _ _ _ => FaultIn.unique

/-- The structural errors of the functions from a number on, function after function. -/
theorem lists_drop (n : Nat) :
    Lists PlaceOrder (fun place problem => n ≤ place.1 ∧ p.Fault place problem)
      ((p.functions.toList.drop n).flatMap p.functionProblems) := by
  refine (Lists.flatMap (fun i => p.FaultIn (Int.ofNat i)) _ _ n ?_).congr ?_
  · rintro ⟨function, i⟩ member
    obtain ⟨le, inside⟩ := List.mk_mem_zipIdx_iff_le_and_getElem?_sub.mp member
    rw [List.getElem?_drop, Nat.add_sub_cancel' le, Array.getElem?_toList] at inside
    exact wf.lists_functionProblems inside
  · intro place problem
    refine ⟨fun ⟨le, _, fault⟩ => ⟨le, fault⟩, fun ⟨le, fault⟩ => ⟨le, ?_, fault⟩⟩
    have bound := fault_lt fault
    rw [List.length_drop, Array.length_toList]
    omega

/-- **The diagnostics list the structural errors of the program.** -/
theorem lists_diagnostics : Lists PlaceOrder p.Fault (Uses.ofProgram p).diagnostics := by
  have all : (Uses.ofProgram p).diagnostics = p.functions.toList.flatMap p.functionProblems :=
    flatMap_findings p.functions.toList
  rw [all]
  exact (wf.lists_drop 0).congr fun place problem => and_iff_right (Nat.zero_le _)

end WellFormed

end Program

end CapLiveness
