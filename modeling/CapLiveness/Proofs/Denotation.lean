import CapLiveness.Proofs.Consistency
import CapLiveness.Proofs.DescriptionSessions

/-!
# Descriptions denote one program

A description is admissible when every condition on its texts and names holds that a reader of
the format would list (`Description.IsAdmissible`). It denotes a program when every field of the
program is what the description says (`Description.Denotes`): functions in the order in which
they are written, blocks numbered in that order across all functions, names replaced by numbers.

Exactly the admissible descriptions have a program, and it is the only one that they denote
(`description_denotes`). Most conditions are met on the way, by the equivalences of
`CapLiveness.Proofs.BlockMeaning`. Three are left to validation: that the entry function has a
block, that each block either continues or ends, and that no function returns twice. For the
last one the draft has the last block that returns as exit block, and validation finds the
others.

The draft is also what a builder has after a session with one call for each part of the
description (`Description.program_eq_build`), so a description and the calls that it stands for
are accepted or refused alike.
-/

set_option autoImplicit false

namespace CapLiveness

open Builder (Session)

/-- The enumeration that a list of capabilities stands for. -/
inductive CapabilityList.Stands : CapabilityList → Enumeration → Prop where
  | builtIn {name : String} (isKnown : name = "" ∨ name = "linux") :
      Stands (.builtIn name) Enumeration.linux
  | listed {names : List String} {caps : Enumeration}
      (accepted : Enumeration.ofNames names = .ok caps) : Stands (.listed names) caps

theorem enumeration_eq_ok_iff {capabilities : CapabilityList} {caps : Enumeration} :
    capabilities.enumeration = .ok caps ↔ capabilities.Stands caps := by
  cases capabilities with
  | listed names =>
    rw [CapabilityList.enumeration, mapError_eq_ok_iff]
    constructor
    · exact .listed
    · intro stands
      cases stands with
      | listed accepted => exact accepted
  | builtIn name =>
    rw [CapabilityList.enumeration]
    split
    case isTrue isKnown =>
      constructor
      · intro same
        obtain rfl := Except.ok.inj same
        exact .builtIn isKnown
      · intro stands
        cases stands with
        | builtIn => rfl
    case isFalse unknown =>
      constructor
      · intro failed
        cases failed
      · intro stands
        cases stands with
        | builtIn isKnown => exact absurd isKnown unknown

namespace Description

/-! ## Functions -/

/-- The numbers of the blocks that are written in a function, in order. -/
def numbersOf (d : Description) (i : Nat) : List Nat :=
  (d.written.zipIdx.filter (·.1.function == i)).map (·.2)

theorem mem_numbersOf_iff {d : Description} {i k : Nat} :
    k ∈ d.numbersOf i ↔ ∃ w, d.written[k]? = some w ∧ w.function = i := by
  simp only [numbersOf, List.mem_map, List.mem_filter, beq_iff_eq, Prod.exists,
    List.mk_mem_zipIdx_iff_getElem?]
  constructor
  · rintro ⟨w, j, ⟨found, same⟩, rfl⟩
    exact ⟨w, found, same⟩
  · rintro ⟨w, found, same⟩
    exact ⟨w, k, ⟨found, same⟩, rfl⟩

/-- **What a written function means**, given its number. -/
structure FunctionMeans (d : Description) (entry : FunctionDescription × Nat)
    (function : Function) : Prop where
  id : function.id = Int.ofNat entry.2
  name : function.name = entry.1.name
  addressTaken : function.addressTaken = entry.1.addressTaken
  blocks : function.blocks = (d.numbersOf entry.2).map Int.ofNat
  returns : ∀ (k : Nat) (w : Written), d.written[k]? = some w → w.function = entry.2 →
    w.block.exit = "return" → function.exit = Int.ofNat k
  neverReturns : (∀ w ∈ d.written, w.function = entry.2 → w.block.exit ≠ "return") →
    function.exit = BlockId.absent

/-- The function of a draft. -/
def draftFunction (d : Description) (blocks : List Block) (entry : FunctionDescription × Nat) :
    Function where
  id := Int.ofNat entry.2
  name := entry.1.name
  blocks := (d.numbersOf entry.2).map Int.ofNat
  exit := ((blocks.filter fun b => b.function == Int.ofNat entry.2 &&
    b.exit == .return).getLast?.map (·.id)).getD BlockId.absent
  addressTaken := entry.1.addressTaken

theorem numbersOf_eq {d : Description} {before after : List Written} {f : FunctionDescription}
    {function : Nat} (isWritten : d.written = before ++ f.blocks.map (⟨function, ·⟩) ++ after)
    (othersBefore : ∀ w ∈ before, w.function ≠ function)
    (othersAfter : ∀ w ∈ after, w.function ≠ function) :
    d.numbersOf function = (List.range f.blocks.length).map (before.length + ·) := by
  have others : ∀ (part : List Written) (n : Nat), (∀ w ∈ part, w.function ≠ function) →
      (part.zipIdx n).filter (·.1.function == function) = [] := by
    intro part n different
    refine List.filter_eq_nil_iff.mpr fun entry member => ?_
    rw [beq_iff_eq]
    exact different _ (List.fst_mem_of_mem_zipIdx member)
  have own : ((f.blocks.map (Written.mk function)).zipIdx before.length).filter
      (·.1.function == function) = (f.blocks.map (Written.mk function)).zipIdx before.length := by
    refine List.filter_eq_self.mpr fun entry member => ?_
    obtain ⟨b, _, same⟩ := List.mem_map.mp (List.fst_mem_of_mem_zipIdx member)
    rw [← same]
    exact beq_self_eq_true function
  rw [numbersOf, isWritten, List.zipIdx_append, List.zipIdx_append, List.filter_append,
    List.filter_append, others before _ othersBefore, others after _ othersAfter,
    List.nil_append, List.append_nil, Nat.zero_add, own, List.zipIdx_map_snd, List.length_map,
    List.range'_eq_map_range]

/-- The functions that are drafted for the rest of a description. -/
theorem Rest.functionEntries_eq {d : Description} {blocks : List Block} {before : List Written}
    {index : Nat} {functions : List FunctionDescription} (rest : d.Rest before index functions) :
    functionEntries blocks index before.length functions =
      (functions.zipIdx index).map (d.draftFunction blocks) := by
  induction functions generalizing before index with
  | nil => rfl
  | cons f functions ih =>
    have numbers := numbersOf_eq rest.written_eq_around rest.ne_before ne_after
    have others := ih rest.tail
    rw [List.length_append, List.length_map] at others
    rw [functionEntries, List.zipIdx_cons, List.map_cons, ← others]
    congr 1
    rw [draftFunction, numbers, List.map_map]
    rfl

/-! ## Blocks and functions of a draft -/

/-- No two blocks of a function return. -/
def ReturnsOnce (d : Description) : Prop :=
  ∀ (j k : Nat) (v w : Written), d.written[j]? = some v → d.written[k]? = some w →
    v.function = w.function → v.block.exit = "return" → w.block.exit = "return" → j = k

theorem ExitWord.eq_return_iff {word : String} {exit : ExitKind} (isWord : ExitWord word exit) :
    exit = .return ↔ word = "return" := by
  cases isWord <;> decide

theorem ExitWord.eq_none_iff {word : String} {exit : ExitKind} (isWord : ExitWord word exit) :
    exit = .none ↔ word = "" := by
  cases isWord <;> decide

section Drafted

variable {d : Description} {caps : Enumeration} {blocks : List Block}
  (all : List.Forall₂ (d.MeansAt caps) d.written.zipIdx blocks)
include all

theorem length_eq_of_all : d.written.length = blocks.length := by
  rw [← all.length_eq, List.length_zipIdx]

/-- The block with the number of a written block means what is written. -/
theorem exists_block_of_written {k : Nat} {w : Written} (found : d.written[k]? = some w) :
    ∃ block, blocks[k]? = some block ∧ d.MeansAt caps (w, k) block := by
  have bound : k < d.written.zipIdx.length := by
    rw [List.length_zipIdx]
    exact (List.getElem?_eq_some_iff.mp found).1
  have boundBlocks : k < blocks.length := all.length_eq ▸ bound
  have entry : d.written.zipIdx.get ⟨k, bound⟩ = (w, k) := by
    apply Option.some.inj
    rw [List.get_eq_getElem, ← List.getElem?_eq_getElem, List.getElem?_zipIdx, found, Nat.zero_add]
    rfl
  exact ⟨_, List.getElem?_eq_getElem boundBlocks, entry ▸ all.get bound boundBlocks⟩

theorem exists_written_of_block {k : Nat} {block : Block} (found : blocks[k]? = some block) :
    ∃ w, d.written[k]? = some w ∧ d.MeansAt caps (w, k) block := by
  have bound : k < d.written.length := by
    rw [length_eq_of_all all]
    exact (List.getElem?_eq_some_iff.mp found).1
  have isWritten : d.written[k]? = some d.written[k] := List.getElem?_eq_getElem bound
  obtain ⟨other, foundOther, means⟩ := exists_block_of_written all isWritten
  rw [found] at foundOther
  obtain rfl := Option.some.inj foundOther
  exact ⟨_, isWritten, means⟩

/-- The blocks of a function that return are those that are written so. -/
theorem mem_returning_iff {i : Nat} {block : Block} :
    block ∈ (blocks.filter fun b => b.function == Int.ofNat i && b.exit == .return) ↔
      ∃ (k : Nat) (w : Written), blocks[k]? = some block ∧ d.written[k]? = some w ∧
        d.MeansAt caps (w, k) block ∧ w.function = i ∧ w.block.exit = "return" := by
  rw [List.mem_filter, Bool.and_eq_true, beq_iff_eq, beq_iff_eq, List.mem_iff_getElem?]
  constructor
  · rintro ⟨⟨k, found⟩, owner, returns⟩
    obtain ⟨w, isWritten, means⟩ := exists_written_of_block all found
    exact ⟨k, w, found, isWritten, means, Int.ofNat.inj (means.function.symm.trans owner),
      means.exit.eq_return_iff.mp returns⟩
  · rintro ⟨k, w, found, _, means, rfl, returns⟩
    exact ⟨⟨k, found⟩, means.function, means.exit.eq_return_iff.mpr returns⟩

/-- The exit block of a drafted function is a block that returns, if there is one. -/
theorem draftFunction_exit_cases (entry : FunctionDescription × Nat) :
    ((∀ w ∈ d.written, w.function = entry.2 → w.block.exit ≠ "return") ∧
        (d.draftFunction blocks entry).exit = BlockId.absent) ∨
      ∃ (k : Nat) (w : Written), d.written[k]? = some w ∧ w.function = entry.2 ∧
        w.block.exit = "return" ∧ (d.draftFunction blocks entry).exit = Int.ofNat k := by
  cases last : (blocks.filter fun b => b.function == Int.ofNat entry.2 &&
      b.exit == .return).getLast? with
  | none =>
    refine .inl ⟨?_, by rw [draftFunction, last]; rfl⟩
    intro w member same returns
    obtain ⟨k, isWritten⟩ := List.mem_iff_getElem?.mp member
    obtain ⟨block, found, means⟩ := exists_block_of_written all isWritten
    have returning := (mem_returning_iff all).mpr ⟨k, w, found, isWritten, means, same, returns⟩
    rw [List.getLast?_eq_none_iff.mp last] at returning
    exact List.not_mem_nil returning
  | some block =>
    obtain ⟨k, w, _, isWritten, means, same, returns⟩ :=
      (mem_returning_iff all).mp (List.mem_of_getLast? last)
    refine .inr ⟨k, w, isWritten, same, returns, ?_⟩
    rw [draftFunction, last]
    exact means.id

/-- What a written function means is the drafted function. -/
theorem FunctionMeans.eq_draftFunction {entry : FunctionDescription × Nat} {function : Function}
    (means : d.FunctionMeans entry function) : function = d.draftFunction blocks entry := by
  have exit : function.exit = (d.draftFunction blocks entry).exit := by
    rcases draftFunction_exit_cases all entry with
      ⟨never, absent⟩ | ⟨k, w, found, same, returns, isExit⟩
    · rw [absent, means.neverReturns never]
    · rw [isExit, means.returns k w found same returns]
  obtain ⟨id, name, numbers, _, taken⟩ := function
  obtain ⟨rfl, rfl, rfl, rfl, _, _⟩ := means
  cases exit
  rfl

/-- **Where no function returns twice, drafted functions mean what is written.** -/
theorem functionMeans_draftFunction (once : d.ReturnsOnce) (entry : FunctionDescription × Nat) :
    d.FunctionMeans entry (d.draftFunction blocks entry) := by
  refine ⟨rfl, rfl, rfl, rfl, ?_, ?_⟩
  · intro k w found same returns
    rcases draftFunction_exit_cases all entry with
      ⟨never, _⟩ | ⟨j, v, foundV, sameV, returnsV, isExit⟩
    · exact absurd returns (never w (List.mem_of_getElem? found) same)
    · rw [isExit, once j k v w foundV found (sameV.trans same.symm) returnsV returns]
  · intro never
    rcases draftFunction_exit_cases all entry with ⟨_, absent⟩ | ⟨k, w, found, same, returns, _⟩
    · exact absent
    · exact absurd returns (never w (List.mem_of_getElem? found) same)

end Drafted

/-! ## Entry and symbols -/

theorem Acts.eq_raise_iff {d : Description} {b : BlockDescription} {raised : List Argument}
    {kind : BlockKind} {target : CallTarget} (acts : d.Acts b raised kind target) :
    kind = .raise ↔ raised ≠ [] := by
  cases acts with
  | plain _ nothing | call _ nothing => simp [nothing]
  | raise _ something => simp [something]

theorem Means.successors_ne_nil_iff {d : Description} {caps : Enumeration} {number function : Nat}
    {next : String → BlockId → Prop} {b : BlockDescription} {block : Block}
    (means : d.Means caps number function next b block) :
    block.successors ≠ [] ↔ b.successors ≠ [] := by
  rw [ne_eq, ne_eq, ← List.length_eq_zero_iff, ← means.successors.length_eq,
    List.length_eq_zero_iff]

theorem Means.eq_raise_iff {d : Description} {caps : Enumeration} {number function : Nat}
    {next : String → BlockId → Prop} {b : BlockDescription} {block : Block}
    (means : d.Means caps number function next b block) :
    block.kind = .raise ↔ b.raised ≠ [] := by
  rw [means.acts.eq_raise_iff, ne_eq, ne_eq, ← List.length_eq_zero_iff,
    ← means.raised.length_eq, List.length_eq_zero_iff]

/-- **The entry function**: the named one, or else the one called `main`, or else the first. -/
inductive IsEntry (d : Description) : FunctionId → Prop where
  | named {f : FunctionId} (given : d.entry ≠ "") (names : d.Names d.entry f) : IsEntry d f
  | main {f : FunctionId} (notGiven : d.entry = "") (names : d.Names "main" f) : IsEntry d f
  | first (notGiven : d.entry = "") (noMain : ∀ f ∈ d.functions, f.name ≠ "main") : IsEntry d 0

theorem not_exists_names_iff {d : Description} {name : String} :
    (¬ ∃ f, d.Names name f) ↔ ∀ f ∈ d.functions, f.name ≠ name := by
  constructor
  · intro none f member isNamed
    obtain ⟨i, found⟩ := List.mem_iff_getElem?.mp member
    exact none ⟨_, i, f, found, isNamed, rfl⟩
  · rintro none ⟨_, i, f, found, isNamed, rfl⟩
    exact none f (List.mem_of_getElem? found) isNamed

theorem entryId_eq_ok_iff {d : Description} (distinct : (d.functions.map (·.name)).Nodup)
    (nonempty : d.functions ≠ []) {f : FunctionId} : d.entryId = .ok f ↔ d.IsEntry f := by
  have notEmpty : ¬ d.functions.isEmpty = true := fun empty => nonempty (List.isEmpty_iff.mp empty)
  rw [entryId]
  split
  case isTrue notGiven =>
    rw [Except.ok.injEq]
    cases found : d.functionId? "main" with
    | none =>
      have noMain : ∀ g ∈ d.functions, g.name ≠ "main" := by
        refine not_exists_names_iff.mp ?_
        rintro ⟨g, names⟩
        rw [(functionId?_eq_some_iff distinct).mpr names] at found
        cases found
      constructor
      · rintro rfl
        exact .first notGiven noMain
      · intro isEntry
        cases isEntry with
        | named given => exact absurd notGiven given
        | main _ names => exact absurd ⟨_, names⟩ (not_exists_names_iff.mpr noMain)
        | first => rfl
    | some g =>
      have names := (functionId?_eq_some_iff distinct).mp found
      constructor
      · rintro rfl
        exact .main notGiven names
      · intro isEntry
        cases isEntry with
        | named given => exact absurd notGiven given
        | main _ others =>
          rw [(functionId?_eq_some_iff distinct).mpr others] at found
          exact (Option.some.inj found).symm
        | first _ noMain => exact absurd ⟨_, names⟩ (not_exists_names_iff.mpr noMain)
  case isFalse given =>
    have named : d.IsEntry f ↔ d.Names d.entry f := by
      constructor
      · intro isEntry
        cases isEntry with
        | named _ names => exact names
        | main notGiven | first notGiven => exact absurd notGiven given
      · exact .named given
    rw [named, ← functionId?_eq_some_iff distinct]
    cases d.functionId? d.entry <;> simp

/-- The declared symbols, each once, and after them the primitive if some block raises. -/
def meantSymbols (d : Description) : List String :=
  (d.declared ++ if d.written.any (!·.block.raised.isEmpty) then
    [if d.raisePrimitive = "" then defaultRaisePrimitive else d.raisePrimitive] else []).eraseDups

theorem symbols_eq {d : Description} {caps : Enumeration} {blocks : List Block}
    (all : List.Forall₂ (d.MeansAt caps) d.written.zipIdx blocks) :
    d.symbols blocks = d.meantSymbols := by
  have raises : blocks.any (·.kind == .raise) = d.written.any (!·.block.raised.isEmpty) := by
    rw [Bool.eq_iff_iff, List.any_eq_true, List.any_eq_true]
    simp only [beq_iff_eq, Bool.not_eq_true', List.isEmpty_eq_false_iff]
    constructor
    · rintro ⟨block, member, isRaise⟩
      obtain ⟨k, found⟩ := List.mem_iff_getElem?.mp member
      obtain ⟨w, isWritten, means⟩ := exists_written_of_block all found
      exact ⟨w, List.mem_of_getElem? isWritten, (Means.eq_raise_iff means).mp isRaise⟩
    · rintro ⟨w, member, something⟩
      obtain ⟨k, isWritten⟩ := List.mem_iff_getElem?.mp member
      obtain ⟨block, found, means⟩ := exists_block_of_written all isWritten
      exact ⟨block, List.mem_of_getElem? found, (Means.eq_raise_iff means).mpr something⟩
  rw [symbols, meantSymbols, raises]
  generalize (if d.raisePrimitive = "" then defaultRaisePrimitive else d.raisePrimitive) = primitive
  cases d.written.any (!·.block.raised.isEmpty) with
  | false => simp
  | true =>
    have single : [primitive].eraseDups = [primitive] := by simp [List.eraseDups_cons]
    by_cases declared : primitive ∈ d.declared
    · simp [List.eraseDups_append, List.removeAll, declared]
    · simp [List.eraseDups_append, List.removeAll, declared, single]

/-! ## Places of written blocks -/

theorem writtenFrom_getElem?_iff {n k : Nat} {functions : List FunctionDescription} {w : Written} :
    (writtenFrom n functions)[k]? = some w ↔
      ∃ (i j : Nat) (f : FunctionDescription), functions[i]? = some f ∧
        f.blocks[j]? = some w.block ∧ w.function = n + i ∧
        k = (writtenFrom n (functions.take i)).length + j := by
  induction functions generalizing n k with
  | nil => simp [writtenFrom]
  | cons g rest ih =>
    rw [writtenFrom]
    have size : (g.blocks.map (Written.mk n)).length = g.blocks.length := List.length_map _
    constructor
    · intro found
      rcases Nat.lt_or_ge k g.blocks.length with own | later
      · rw [List.getElem?_append_left (size.symm ▸ own), List.getElem?_map,
          Option.map_eq_some_iff] at found
        obtain ⟨b, isBlock, rfl⟩ := found
        exact ⟨0, k, g, rfl, isBlock, rfl, (Nat.zero_add k).symm⟩
      · rw [List.getElem?_append_right (size.symm ▸ later), size, ih] at found
        obtain ⟨i, j, f, isFunction, isBlock, number, place⟩ := found
        refine ⟨i + 1, j, f, isFunction, isBlock, by omega, ?_⟩
        rw [List.take_succ_cons, writtenFrom, List.length_append, size]
        omega
    · rintro ⟨i, j, f, isFunction, isBlock, number, place⟩
      cases i with
      | zero =>
        obtain rfl := Option.some.inj isFunction
        have bound : j < g.blocks.length := (List.getElem?_eq_some_iff.mp isBlock).1
        have here : k = j := place.trans (Nat.zero_add j)
        rw [here, List.getElem?_append_left (size.symm ▸ bound), List.getElem?_map, isBlock]
        obtain ⟨_, _⟩ := w
        cases number
        rfl
      | succ i =>
        rw [List.take_succ_cons, writtenFrom, List.length_append, size] at place
        have later : g.blocks.length ≤ k := by omega
        rw [List.getElem?_append_right (size.symm ▸ later), size, ih]
        exact ⟨i, j, f, isFunction, isBlock, by omega, by omega⟩

/-- The number of the first block of a function. -/
def firstOf (d : Description) (i : Nat) : Nat := (writtenFrom 0 (d.functions.take i)).length

/-- **Blocks are numbered consecutively**, those of a function after those of the functions
before it. -/
theorem written_getElem?_iff {d : Description} {k : Nat} {w : Written} :
    d.written[k]? = some w ↔
      ∃ (j : Nat) (f : FunctionDescription), d.functions[w.function]? = some f ∧
        f.blocks[j]? = some w.block ∧ k = d.firstOf w.function + j := by
  rw [written, writtenFrom_getElem?_iff]
  constructor
  · rintro ⟨i, j, f, isFunction, isBlock, number, place⟩
    obtain rfl : w.function = i := by omega
    exact ⟨j, f, isFunction, isBlock, place⟩
  · rintro ⟨j, f, isFunction, isBlock, place⟩
    exact ⟨w.function, j, f, isFunction, isBlock, (Nat.zero_add _).symm, place⟩

theorem mem_written_iff {d : Description} {w : Written} :
    w ∈ d.written ↔ ∃ f, d.functions[w.function]? = some f ∧ w.block ∈ f.blocks := by
  simp only [List.mem_iff_getElem?, written_getElem?_iff]
  constructor
  · rintro ⟨_, j, f, isFunction, isBlock, _⟩
    exact ⟨f, isFunction, j, isBlock⟩
  · rintro ⟨f, isFunction, j, isBlock⟩
    exact ⟨_, j, f, isFunction, isBlock, rfl⟩

theorem numbersOf_ne_nil_iff {d : Description} {i : Nat} {f : FunctionDescription}
    (isFunction : d.functions[i]? = some f) : d.numbersOf i ≠ [] ↔ f.blocks ≠ [] := by
  constructor
  · intro nonempty
    obtain ⟨k, member⟩ := List.exists_mem_of_ne_nil _ nonempty
    obtain ⟨w, found, rfl⟩ := mem_numbersOf_iff.mp member
    obtain ⟨g, isOwner, isBlock⟩ := mem_written_iff.mp (List.mem_of_getElem? found)
    rw [isFunction] at isOwner
    obtain rfl := Option.some.inj isOwner
    exact List.ne_nil_of_mem isBlock
  · intro nonempty
    obtain ⟨b, member⟩ := List.exists_mem_of_ne_nil _ nonempty
    have isWritten : (⟨i, b⟩ : Written) ∈ d.written := mem_written_iff.mpr ⟨f, isFunction, member⟩
    obtain ⟨k, found⟩ := List.mem_iff_getElem?.mp isWritten
    exact List.ne_nil_of_mem (mem_numbersOf_iff.mpr ⟨_, found, rfl⟩)

theorem nodup_numbersOf (d : Description) (i : Nat) : (d.numbersOf i).Nodup := by
  have numbers : (d.written.zipIdx.map (·.2)).Nodup := by
    rw [List.zipIdx_map_snd]
    exact List.nodup_range'
  exact numbers.sublist (List.filter_sublist.map _)

/-! ## Drafts -/

/-- A program that is drafted from a description with some function. -/
structure Drafts (d : Description) (caps : Enumeration) (p : Program) : Prop where
  nonempty : d.functions ≠ []
  names : FreshNames [] (d.functions.map (·.name))
  blockNames : ∀ f ∈ d.functions, FreshNames [] (f.blocks.map (·.name))
  stands : d.capabilities.Stands caps
  capabilities : p.capabilities = some caps
  blocks : List.Forall₂ (d.MeansAt caps) d.written.zipIdx p.blocks.toList
  functions : p.functions.toList = d.functions.zipIdx.map (d.draftFunction p.blocks.toList)
  entry : d.IsEntry p.entry
  raisePrimitive : p.raisePrimitive = d.raisePrimitive
  declared : p.declared = d.meantSymbols

theorem draft_eq_ok_iff_fields {d : Description} {p : Program} :
    d.draft = .ok p ↔
      ∃ caps blocks, d.capabilities.Stands caps ∧ FreshNames [] (d.functions.map (·.name)) ∧
        d.entryId = .ok p.entry ∧ d.allBlocks caps 0 0 d.functions = .ok blocks ∧
        p = { capabilities := some caps,
              functions := (functionEntries blocks 0 0 d.functions).toArray,
              blocks := blocks.toArray, entry := p.entry, raisePrimitive := d.raisePrimitive,
              declared := d.symbols blocks } := by
  rw [draft, bind_eq_ok_iff]
  simp only [enumeration_eq_ok_iff]
  cases names : firstBadName [] (d.functions.map (·.name)) with
  | some name =>
    constructor
    · rintro ⟨caps, _, failed⟩
      cases failed
    · rintro ⟨_, _, _, fresh, _⟩
      rw [firstBadName_eq_none_iff.mpr fresh] at names
      cases names
  | none =>
    have fresh := firstBadName_eq_none_iff.mp names
    simp only [bind_eq_ok_iff, pure_eq_ok_iff]
    constructor
    · rintro ⟨caps, stands, entry, isEntry, blocks, areBlocks, rfl⟩
      exact ⟨caps, blocks, stands, fresh, isEntry, areBlocks, rfl⟩
    · rintro ⟨caps, blocks, stands, _, isEntry, areBlocks, isProgram⟩
      exact ⟨caps, stands, p.entry, isEntry, blocks, areBlocks, isProgram.symm⟩

/-- **Drafting finds what the description says.** -/
theorem draft_eq_ok_iff {d : Description} (nonempty : d.functions ≠ []) {p : Program} :
    d.draft = .ok p ↔ ∃ caps, d.Drafts caps p := by
  rw [draft_eq_ok_iff_fields]
  constructor
  · rintro ⟨caps, blocks, stands, fresh, isEntry, areBlocks, isProgram⟩
    obtain ⟨blockNames, all⟩ := (allBlocks_eq_ok_iff fresh.2).mp areBlocks
    have entry := (entryId_eq_ok_iff fresh.2 nonempty).mp isEntry
    rw [isProgram]
    exact ⟨caps, nonempty, fresh, blockNames, stands, rfl, all, d.rest_all.functionEntries_eq,
      entry, rfl, symbols_eq all⟩
  · rintro ⟨caps, drafts⟩
    refine ⟨caps, p.blocks.toList, drafts.stands, drafts.names,
      (entryId_eq_ok_iff drafts.names.2 nonempty).mpr drafts.entry,
      (allBlocks_eq_ok_iff drafts.names.2).mpr ⟨drafts.blockNames, drafts.blocks⟩, ?_⟩
    have functions : p.functions = (functionEntries p.blocks.toList 0 0 d.functions).toArray := by
      rw [show functionEntries p.blocks.toList 0 0 d.functions = _ from
        d.rest_all.functionEntries_eq, ← drafts.functions, Array.toArray_toList]
    have declared := drafts.declared.trans (symbols_eq drafts.blocks).symm
    have capabilities := drafts.capabilities
    have raisePrimitive := drafts.raisePrimitive
    obtain ⟨_, _, blocks, _, _, _⟩ := p
    dsimp only at functions declared capabilities raisePrimitive
    rw [functions, declared, capabilities, raisePrimitive]

theorem IsEntry.exists_function {d : Description} {f : FunctionId} (isEntry : d.IsEntry f)
    (nonempty : d.functions ≠ []) :
    ∃ (i : Nat) (g : FunctionDescription), f = Int.ofNat i ∧ d.functions[i]? = some g := by
  cases isEntry with
  | named _ names | main _ names =>
    obtain ⟨i, g, found, _, rfl⟩ := names
    exact ⟨i, g, rfl, found⟩
  | first =>
    have bound : 0 < d.functions.length := List.length_pos_iff.mpr nonempty
    exact ⟨0, d.functions[0], rfl, List.getElem?_eq_getElem bound⟩

/-- The conditions that are left to validation. -/
structure IsComplete (d : Description) : Prop where
  entry : ∀ (i : Nat) (f : FunctionDescription), d.IsEntry (Int.ofNat i) →
    d.functions[i]? = some f → f.blocks ≠ []
  continues : ∀ w ∈ d.written, w.block.successors ≠ [] ↔ w.block.exit = ""
  returnsOnce : d.ReturnsOnce

namespace Drafts

variable {d : Description} {caps : Enumeration} {p : Program} (drafts : d.Drafts caps p)
include drafts

theorem function?_eq_some_iff {i : Nat} {function : Function} :
    p.function? (Int.ofNat i) = some function ↔
      ∃ f, d.functions[i]? = some f ∧ d.draftFunction p.blocks.toList (f, i) = function := by
  show p.functions[i]? = some function ↔ _
  rw [← Array.getElem?_toList, drafts.functions, List.getElem?_map, List.getElem?_zipIdx,
    Nat.zero_add]
  cases d.functions[i]? <;> simp

theorem hasFunction_of_names {name : String} {f : FunctionId} (names : d.Names name f) :
    p.hasFunction f = true := by
  obtain ⟨i, g, found, _, rfl⟩ := names
  rw [← p.isSome_function?, drafts.function?_eq_some_iff.mpr ⟨g, found, rfl⟩]
  rfl

theorem exists_block {k : Nat} {w : Written} (found : d.written[k]? = some w) :
    ∃ block, p.block? (Int.ofNat k) = some block ∧ d.MeansAt caps (w, k) block := by
  obtain ⟨block, isBlock, means⟩ := exists_block_of_written drafts.blocks found
  rw [Array.getElem?_toList] at isBlock
  exact ⟨block, isBlock, means⟩

theorem exists_written {k : Nat} {block : Block} (found : p.blocks[k]? = some block) :
    ∃ w, d.written[k]? = some w ∧ d.MeansAt caps (w, k) block := by
  rw [← Array.getElem?_toList] at found
  exact exists_written_of_block drafts.blocks found

theorem exists_written_of_mem {block : Block} (member : block ∈ p.blocks.toList) :
    ∃ (k : Nat) (w : Written), d.written[k]? = some w ∧ d.MeansAt caps (w, k) block := by
  obtain ⟨k, found⟩ := List.mem_iff_getElem?.mp member
  obtain ⟨w, isWritten, means⟩ := exists_written_of_block drafts.blocks found
  exact ⟨k, w, isWritten, means⟩

/-- The function in which a block is written lists it. -/
theorem exists_owner {k : Nat} {w : Written} (found : d.written[k]? = some w) :
    ∃ f, p.function? (Int.ofNat w.function) =
        some (d.draftFunction p.blocks.toList (f, w.function)) ∧
      Int.ofNat k ∈ (d.draftFunction p.blocks.toList (f, w.function)).blocks := by
  obtain ⟨f, isOwner, _⟩ := mem_written_iff.mp (List.mem_of_getElem? found)
  exact ⟨f, drafts.function?_eq_some_iff.mpr ⟨f, isOwner, rfl⟩,
    List.mem_map.mpr ⟨k, mem_numbersOf_iff.mpr ⟨w, found, rfl⟩, rfl⟩⟩

theorem hasAction {k : Nat} {w : Written} {block : Block} (means : d.MeansAt caps (w, k) block) :
    p.HasAction block := by
  have acts := means.acts
  unfold Program.HasAction
  generalize block.kind = kind, block.target = target at acts
  cases acts with
  | plain _ nothing => exact .inl ⟨rfl, nothing⟩
  | raise _ something => exact .inr (.inl ⟨rfl, something⟩)
  | call _ nothing targets =>
    refine .inr (.inr ⟨rfl, nothing, ?_⟩)
    cases targets with
    | direct _ names => exact .inl ⟨_, rfl, drafts.hasFunction_of_names names⟩
    | unresolved => exact .inr (.inr rfl)
    | resolved _ _ names =>
      refine .inr (.inl ⟨_, _, rfl, ?_⟩)
      intro callee member
      obtain ⟨name, isNamed⟩ := exists_of_forall₂ names.flip callee member
      exact drafts.hasFunction_of_names isNamed

theorem nodup_listed : (p.functions.toList.flatMap (·.blocks)).Nodup := by
  rw [drafts.functions, List.flatMap_map, List.nodup_flatMap]
  refine ⟨fun entry _ => (d.nodup_numbersOf entry.2).map fun _ _ => Int.ofNat.inj, ?_⟩
  have different : d.functions.zipIdx.Pairwise fun a b => a.2 ≠ b.2 := by
    rw [← List.pairwise_map (f := Prod.snd), List.zipIdx_map_snd]
    exact List.nodup_range'
  refine different.imp ?_
  intro a b notSame id listedA listedB
  obtain ⟨j, memberA, rfl⟩ := List.mem_map.mp listedA
  obtain ⟨k, memberB, same⟩ := List.mem_map.mp listedB
  obtain rfl := Int.ofNat.inj same
  obtain ⟨v, foundV, sameV⟩ := mem_numbersOf_iff.mp memberA
  obtain ⟨w, foundW, sameW⟩ := mem_numbersOf_iff.mp memberB
  rw [foundV] at foundW
  obtain rfl := Option.some.inj foundW
  exact notSame (sameV.symm.trans sameW)

theorem exit_listed (entry : FunctionDescription × Nat) :
    (d.draftFunction p.blocks.toList entry).exit = BlockId.absent ∨
      (d.draftFunction p.blocks.toList entry).exit ∈
        (d.draftFunction p.blocks.toList entry).blocks := by
  rcases draftFunction_exit_cases drafts.blocks entry with
    ⟨_, absent⟩ | ⟨k, w, found, same, _, isExit⟩
  · exact .inl absent
  · rw [isExit]
    exact .inr (List.mem_map.mpr ⟨k, mem_numbersOf_iff.mpr ⟨w, found, same⟩, rfl⟩)

theorem mem_functions_iff {function : Function} :
    function ∈ p.functions.toList ↔
      ∃ (i : Nat) (f : FunctionDescription), d.functions[i]? = some f ∧
        d.draftFunction p.blocks.toList (f, i) = function := by
  rw [Program.mem_functions_iff]
  exact exists_congr fun i => drafts.function?_eq_some_iff

/-- **What is left to validation is enough for it.** -/
theorem isConsistent (complete : d.IsComplete) : p.IsConsistent where
  capabilities := by
    rw [drafts.capabilities]
    exact Option.some_ne_none caps
  entry := by
    obtain ⟨i, f, isEntry, found⟩ := drafts.entry.exists_function drafts.nonempty
    refine ⟨_, isEntry ▸ drafts.function?_eq_some_iff.mpr ⟨f, found, rfl⟩, ?_⟩
    have nonempty := complete.entry i f (isEntry ▸ drafts.entry) found
    rw [draftFunction, ne_eq, List.map_eq_nil_iff]
    exact (numbersOf_ne_nil_iff found).mpr nonempty
  functionId found := by
    obtain ⟨f, _, rfl⟩ := drafts.function?_eq_some_iff.mp found
    rfl
  blockId found := by
    obtain ⟨w, _, means⟩ := drafts.exists_written found
    exact means.id
  exists_listed function member b listed := by
    obtain ⟨i, f, _, rfl⟩ := drafts.mem_functions_iff.mp member
    obtain ⟨k, isNumber, rfl⟩ := List.mem_map.mp listed
    obtain ⟨w, found, _⟩ := mem_numbersOf_iff.mp isNumber
    obtain ⟨block, isBlock, _⟩ := drafts.exists_block found
    rw [← p.isSome_block?, isBlock]
    rfl
  nodup := drafts.nodup_listed
  listed found := by
    obtain ⟨w, isWritten, means⟩ := drafts.exists_written found
    obtain ⟨f, owner, listed⟩ := drafts.exists_owner isWritten
    exact ⟨_, means.function ▸ owner, listed⟩
  exit function member := by
    obtain ⟨i, f, _, rfl⟩ := drafts.mem_functions_iff.mp member
    exact drafts.exit_listed (f, i)
  successors block member s follows := by
    obtain ⟨k, w, _, means⟩ := drafts.exists_written_of_mem member
    obtain ⟨name, j, target, found, same, _, rfl⟩ :=
      exists_of_forall₂ means.successors.flip s follows
    obtain ⟨next, isNext, meansNext⟩ := drafts.exists_block found
    refine ⟨next, isNext, ?_⟩
    rw [meansNext.function, means.function, same]
  continues block member := by
    obtain ⟨k, w, isWritten, means⟩ := drafts.exists_written_of_mem member
    rw [means.exit.eq_none_iff, ← complete.continues w (List.mem_of_getElem? isWritten),
      means.successors_ne_nil_iff]
  returns {k block} found := by
    obtain ⟨w, isWritten, means⟩ := drafts.exists_written found
    obtain ⟨f, owner, _⟩ := drafts.exists_owner isWritten
    have meansOwner :=
      functionMeans_draftFunction drafts.blocks complete.returnsOnce (f, w.function)
    rw [means.function, means.exit.eq_return_iff]
    constructor
    · intro returns
      exact ⟨_, owner, meansOwner.returns k w isWritten rfl returns⟩
    · rintro ⟨function, isFunction, isExit⟩
      rw [owner] at isFunction
      obtain rfl := Option.some.inj isFunction
      rcases draftFunction_exit_cases drafts.blocks (f, w.function) with
        ⟨_, absent⟩ | ⟨j, v, foundV, _, returns, isExitV⟩
      · rw [absent] at isExit
        cases isExit
      · obtain rfl := Int.ofNat.inj (isExitV.symm.trans isExit)
        rw [isWritten] at foundV
        obtain rfl := Option.some.inj foundV
        exact returns
  action block member := by
    obtain ⟨k, w, _, means⟩ := drafts.exists_written_of_mem member
    exact drafts.hasAction means

/-- **Validation finds what is left to it.** -/
theorem isComplete (consistent : p.IsConsistent) : d.IsComplete where
  entry i f isEntry found := by
    have entry : p.entry = Int.ofNat i := by
      have both := (entryId_eq_ok_iff drafts.names.2 drafts.nonempty).mpr drafts.entry
      rw [(entryId_eq_ok_iff drafts.names.2 drafts.nonempty).mpr isEntry] at both
      exact (Except.ok.inj both).symm
    obtain ⟨function, isFunction, nonempty⟩ := consistent.entry
    rw [entry, drafts.function?_eq_some_iff.mpr ⟨f, found, rfl⟩] at isFunction
    obtain rfl := Option.some.inj isFunction
    rw [draftFunction, ne_eq, List.map_eq_nil_iff] at nonempty
    exact (numbersOf_ne_nil_iff found).mp nonempty
  continues w member := by
    obtain ⟨k, isWritten⟩ := List.mem_iff_getElem?.mp member
    obtain ⟨block, found, means⟩ := drafts.exists_block isWritten
    rw [← means.exit.eq_none_iff, ← means.successors_ne_nil_iff]
    exact consistent.continues block (Program.mem_blocks_iff.mpr ⟨k, found⟩)
  returnsOnce j k v w foundV foundW same returnsV returnsW := by
    obtain ⟨blockV, isBlockV, meansV⟩ := drafts.exists_block foundV
    obtain ⟨blockW, isBlockW, meansW⟩ := drafts.exists_block foundW
    obtain ⟨f, ownerV, exitV⟩ := (consistent.returns isBlockV).mp
      (meansV.exit.eq_return_iff.mpr returnsV)
    obtain ⟨g, ownerW, exitW⟩ := (consistent.returns isBlockW).mp
      (meansW.exit.eq_return_iff.mpr returnsW)
    rw [meansV.function] at ownerV
    rw [meansW.function, ← same] at ownerW
    rw [ownerV] at ownerW
    obtain rfl := Option.some.inj ownerW
    exact Int.ofNat.inj (exitV.symm.trans exitW)

end Drafts

/-! ## Admissible descriptions -/

/-- Whether some function has a name. -/
def HasFunction (d : Description) (name : String) : Prop := ∃ f ∈ d.functions, f.name = name

/-- **The conditions on one block** of a function. -/
structure AdmitsBlock (d : Description) (caps : Enumeration) (f : FunctionDescription)
    (b : BlockDescription) : Prop where
  /-- Every argument is a question mark, a number or the name of a capability. -/
  arguments : ∀ a ∈ b.raised ++ b.uses, a.text = "?" ∨
    (∃ value, Text.Writes a.text.toList value ∧ Text.FitsWord value) ∨
      ∃ kind, caps.lookup a.text = some kind
  alone : b.call ≠ none → b.raised = []
  direct : ∀ call, b.call = some call → call.direct ≠ "" → d.HasFunction call.direct
  candidates : ∀ call, b.call = some call → call.direct = "" →
    ∀ name ∈ call.candidates, d.HasFunction name
  unresolved : ∀ call, b.call = some call → call.direct = "" → call.unresolved = true →
    call.candidates = []
  successors : ∀ name ∈ b.successors, ∃ c ∈ f.blocks, c.name = name
  exit : b.exit ∈ ["", "return", "unreachable", "unwind"]

/-- **The conditions on a description.** -/
structure IsAdmissible (d : Description) : Prop where
  nonempty : d.functions ≠ []
  named : ∀ f ∈ d.functions, f.name ≠ ""
  distinct : (d.functions.map (·.name)).Nodup
  entry : d.entry ≠ "" → d.HasFunction d.entry
  blocksNamed : ∀ f ∈ d.functions, ∀ b ∈ f.blocks, b.name ≠ ""
  blocksDistinct : ∀ f ∈ d.functions, (f.blocks.map (·.name)).Nodup
  blocks : ∃ caps, d.capabilities.Stands caps ∧
    ∀ f ∈ d.functions, ∀ b ∈ f.blocks, d.AdmitsBlock caps f b
  /-- A block has either successors or an exit. -/
  continues : ∀ f ∈ d.functions, ∀ b ∈ f.blocks, b.successors ≠ [] ↔ b.exit = ""
  returnsOnce : ∀ f ∈ d.functions, ∀ (j k : Nat) (b c : BlockDescription),
    f.blocks[j]? = some b → f.blocks[k]? = some c → b.exit = "return" → c.exit = "return" → j = k
  entryBlock : ∀ (i : Nat) (f : FunctionDescription), d.IsEntry (Int.ofNat i) →
    d.functions[i]? = some f → f.blocks ≠ []

theorem exists_reads_iff {caps : Enumeration} {a : ArgumentText} :
    (∃ argument, a.Reads caps argument) ↔ a.text = "?" ∨
      (∃ value, Text.Writes a.text.toList value ∧ Text.FitsWord value) ∨
        ∃ kind, caps.lookup a.text = some kind := by
  constructor
  · rintro ⟨argument, reads⟩
    cases reads with
    | mark isMark => exact .inl isMark
    | number writes fits => exact .inr (.inl ⟨_, writes, fits⟩)
    | name _ _ known => exact .inr (.inr ⟨_, known⟩)
  · intro readable
    by_cases isMark : a.text = "?"
    · exact ⟨_, .mark isMark⟩
    · by_cases isNumber : ∃ value, Text.Writes a.text.toList value ∧ Text.FitsWord value
      · obtain ⟨value, writes, fits⟩ := isNumber
        exact ⟨_, .number writes fits⟩
      · rcases readable with mark | number | ⟨kind, known⟩
        · exact absurd mark isMark
        · exact absurd number isNumber
        · exact ⟨_, .name isMark isNumber known⟩

theorem exists_names_iff {d : Description} {name : String} :
    (∃ f, d.Names name f) ↔ d.HasFunction name := by
  constructor
  · rintro ⟨_, i, f, found, isNamed, rfl⟩
    exact ⟨f, List.mem_of_getElem? found, isNamed⟩
  · rintro ⟨f, member, isNamed⟩
    obtain ⟨i, found⟩ := List.mem_iff_getElem?.mp member
    exact ⟨_, i, f, found, isNamed, rfl⟩

theorem exists_next_iff {d : Description} {i : Nat} {f : FunctionDescription}
    (isFunction : d.functions[i]? = some f) {name : String} :
    (∃ s, d.Next i name s) ↔ ∃ c ∈ f.blocks, c.name = name := by
  constructor
  · rintro ⟨_, k, target, found, rfl, isNamed, rfl⟩
    obtain ⟨g, isOwner, member⟩ := mem_written_iff.mp (List.mem_of_getElem? found)
    rw [isFunction] at isOwner
    obtain rfl := Option.some.inj isOwner
    exact ⟨_, member, isNamed⟩
  · rintro ⟨c, member, isNamed⟩
    have isWritten : (⟨i, c⟩ : Written) ∈ d.written := mem_written_iff.mpr ⟨f, isFunction, member⟩
    obtain ⟨k, found⟩ := List.mem_iff_getElem?.mp isWritten
    exact ⟨_, k, _, found, rfl, isNamed, rfl⟩

/-- A call has a target under the conditions on it. -/
theorem exists_targets_iff {d : Description} {call : CallDescription} :
    (∃ target, d.Targets call target) ↔
      (call.direct ≠ "" → d.HasFunction call.direct) ∧
        (call.direct = "" → ∀ name ∈ call.candidates, d.HasFunction name) ∧
        (call.direct = "" → call.unresolved = true → call.candidates = []) := by
  constructor
  · rintro ⟨target, targets⟩
    cases targets with
    | direct named names =>
      exact ⟨fun _ => exists_names_iff.mp ⟨_, names⟩, fun none => absurd none named,
        fun none => absurd none named⟩
    | unresolved none _ noCandidates =>
      refine ⟨fun named => absurd none named, fun _ name member => ?_, fun _ _ => noCandidates⟩
      rw [noCandidates] at member
      exact absurd member List.not_mem_nil
    | resolved none isResolved names =>
      refine ⟨fun named => absurd none named, fun _ name member => ?_, fun _ isUnresolved => ?_⟩
      · exact exists_names_iff.mp (exists_of_forall₂ names name member)
      · rw [isResolved] at isUnresolved
        cases isUnresolved
  · rintro ⟨direct, candidates, unresolved⟩
    by_cases none : call.direct = ""
    · cases isUnresolved : call.unresolved with
      | true => exact ⟨_, .unresolved none isUnresolved (unresolved none isUnresolved)⟩
      | false =>
        obtain ⟨ids, names⟩ := exists_forall₂ fun name member =>
          exists_names_iff.mpr (candidates none name member)
        exact ⟨_, .resolved none isUnresolved names⟩
    · obtain ⟨f, names⟩ := exists_names_iff.mpr (direct none)
      exact ⟨_, .direct none names⟩

/-- **A block means something exactly when it is admitted.** -/
theorem exists_means_iff {d : Description} {caps : Enumeration} {i k : Nat}
    {f : FunctionDescription} (isFunction : d.functions[i]? = some f) {b : BlockDescription} :
    (∃ block, d.MeansAt caps (⟨i, b⟩, k) block) ↔ d.AdmitsBlock caps f b := by
  constructor
  · rintro ⟨block, means⟩
    have target : ∀ call, b.call = some call → b.raised = [] ∧ ∃ target, d.Targets call target := by
      intro call isCall
      have acts := means.acts
      generalize block.kind = kind, block.target = target at acts
      cases acts with
      | plain noCall | raise noCall =>
        rw [isCall] at noCall
        cases noCall
      | call found nothing targets =>
        rw [isCall] at found
        obtain rfl := Option.some.inj found
        have sameLength := means.raised.length_eq
        rw [nothing] at sameLength
        exact ⟨List.length_eq_zero_iff.mp sameLength, _, targets⟩
    refine ⟨?_, ?_, ?_, ?_, ?_, ?_, ?_⟩
    · intro a member
      rcases List.mem_append.mp member with raised | used
      · exact exists_reads_iff.mp (exists_of_forall₂ means.raised a raised)
      · exact exists_reads_iff.mp (exists_of_forall₂ means.uses a used)
    · intro hasCall
      obtain ⟨call, isCall⟩ := Option.ne_none_iff_exists'.mp hasCall
      exact (target call isCall).1
    · exact fun call isCall => (exists_targets_iff.mp (target call isCall).2).1
    · exact fun call isCall => (exists_targets_iff.mp (target call isCall).2).2.1
    · exact fun call isCall => (exists_targets_iff.mp (target call isCall).2).2.2
    · intro name member
      exact (exists_next_iff isFunction).mp (exists_of_forall₂ means.successors name member)
    · have isWord : ExitWord b.exit block.exit := means.exit
      generalize b.exit = word, block.exit = exit at isWord ⊢
      cases isWord <;> simp
  · intro admitted
    obtain ⟨raised, isRaised⟩ := exists_forall₂ fun a member =>
      exists_reads_iff.mpr (admitted.arguments a (List.mem_append_left _ member))
    obtain ⟨uses, areUses⟩ := exists_forall₂ fun a member =>
      exists_reads_iff.mpr (admitted.arguments a (List.mem_append_right _ member))
    obtain ⟨successors, areNext⟩ := exists_forall₂ fun name member =>
      (exists_next_iff isFunction).mpr (admitted.successors name member)
    obtain ⟨exit, isExit⟩ : ∃ exit, ExitWord b.exit exit := by
      have isWord := admitted.exit
      simp only [List.mem_cons, List.not_mem_nil, or_false] at isWord
      rcases isWord with word | word | word | word <;> rw [word]
      exacts [⟨_, .continues⟩, ⟨_, .returns⟩, ⟨_, .ends⟩, ⟨_, .unwinds⟩]
    obtain ⟨kind, target, acts⟩ : ∃ kind target, d.Acts b raised kind target := by
      cases isCall : b.call with
      | none =>
        by_cases nothing : raised = []
        · exact ⟨_, _, .plain isCall nothing⟩
        · exact ⟨_, _, .raise isCall nothing⟩
      | some call =>
        have noArguments := admitted.alone (isCall ▸ Option.some_ne_none call)
        rw [noArguments, List.forall₂_nil_left_iff] at isRaised
        obtain ⟨target, targets⟩ := exists_targets_iff.mpr ⟨admitted.direct call isCall,
          admitted.candidates call isCall, admitted.unresolved call isCall⟩
        exact ⟨_, _, .call isCall isRaised targets⟩
    exact ⟨{ id := Int.ofNat k, function := Int.ofNat i, name := b.name, successors := successors,
             kind := kind, raised := raised, target := target, uses := uses, exit := exit,
             size := b.size }, rfl, rfl, rfl, rfl, isRaised, areUses, acts, areNext, isExit⟩

theorem IsAdmissible.isComplete {d : Description} (admissible : d.IsAdmissible) :
    d.IsComplete where
  entry := admissible.entryBlock
  continues w member := by
    obtain ⟨f, isFunction, isBlock⟩ := mem_written_iff.mp member
    exact admissible.continues f (List.mem_of_getElem? isFunction) w.block isBlock
  returnsOnce j k v w foundV foundW same returnsV returnsW := by
    obtain ⟨a, f, isFunction, isBlockV, rfl⟩ := written_getElem?_iff.mp foundV
    obtain ⟨b, g, isFunctionW, isBlockW, rfl⟩ := written_getElem?_iff.mp foundW
    rw [← same, isFunction] at isFunctionW
    obtain rfl := Option.some.inj isFunctionW
    rw [same, admissible.returnsOnce f (List.mem_of_getElem? isFunction) a b _ _ isBlockV isBlockW
      returnsV returnsW]

theorem IsAdmissible.exists_entry {d : Description} (admissible : d.IsAdmissible) :
    ∃ f, d.IsEntry f := by
  by_cases given : d.entry = ""
  · by_cases hasMain : d.HasFunction "main"
    · obtain ⟨f, names⟩ := exists_names_iff.mpr hasMain
      exact ⟨f, .main given names⟩
    · exact ⟨0, .first given fun f member isMain => hasMain ⟨f, member, isMain⟩⟩
  · obtain ⟨f, names⟩ := exists_names_iff.mpr (admissible.entry given)
    exact ⟨f, .named given names⟩

/-- **Admissible descriptions have a draft.** -/
theorem IsAdmissible.exists_drafts {d : Description} (admissible : d.IsAdmissible) :
    ∃ caps p, d.Drafts caps p := by
  obtain ⟨caps, stands, admits⟩ := admissible.blocks
  obtain ⟨entry, isEntry⟩ := admissible.exists_entry
  obtain ⟨blocks, all⟩ : ∃ blocks, List.Forall₂ (d.MeansAt caps) d.written.zipIdx blocks := by
    refine exists_forall₂ fun entry member => ?_
    obtain ⟨f, isFunction, isBlock⟩ := mem_written_iff.mp (List.fst_mem_of_mem_zipIdx member)
    exact (exists_means_iff isFunction).mpr
      (admits f (List.mem_of_getElem? isFunction) entry.1.block isBlock)
  refine ⟨caps, { capabilities := some caps
                  functions := (d.functions.zipIdx.map (d.draftFunction blocks)).toArray
                  blocks := blocks.toArray, entry := entry, raisePrimitive := d.raisePrimitive
                  declared := d.meantSymbols }, admissible.nonempty, ⟨?_, admissible.distinct⟩, ?_,
    stands, rfl, all, rfl, isEntry, rfl, rfl⟩
  · intro name member
    obtain ⟨f, isFunction, rfl⟩ := List.mem_map.mp member
    exact ⟨admissible.named f isFunction, List.not_mem_nil⟩
  · intro f isFunction
    refine ⟨fun name member => ?_, admissible.blocksDistinct f isFunction⟩
    obtain ⟨b, isBlock, rfl⟩ := List.mem_map.mp member
    exact ⟨admissible.blocksNamed f isFunction b isBlock, List.not_mem_nil⟩

theorem Drafts.isAdmissible {d : Description} {caps : Enumeration} {p : Program}
    (drafts : d.Drafts caps p) (complete : d.IsComplete) : d.IsAdmissible where
  nonempty := drafts.nonempty
  named f member := (drafts.names.1 f.name (List.mem_map_of_mem member)).1
  distinct := drafts.names.2
  entry given := by
    have isEntry := drafts.entry
    generalize p.entry = entry at isEntry
    cases isEntry with
    | named _ names => exact exists_names_iff.mp ⟨_, names⟩
    | main notGiven | first notGiven => exact absurd notGiven given
  blocksNamed f member b isBlock :=
    ((drafts.blockNames f member).1 b.name (List.mem_map_of_mem isBlock)).1
  blocksDistinct f member := (drafts.blockNames f member).2
  blocks := by
    refine ⟨caps, drafts.stands, fun f member b isBlock => ?_⟩
    obtain ⟨i, isFunction⟩ := List.mem_iff_getElem?.mp member
    have isWritten : (⟨i, b⟩ : Written) ∈ d.written := mem_written_iff.mpr ⟨f, isFunction, isBlock⟩
    obtain ⟨k, found⟩ := List.mem_iff_getElem?.mp isWritten
    obtain ⟨block, _, means⟩ := drafts.exists_block found
    exact (exists_means_iff isFunction).mp ⟨block, means⟩
  continues f member b isBlock := by
    obtain ⟨i, isFunction⟩ := List.mem_iff_getElem?.mp member
    exact complete.continues ⟨i, b⟩ (mem_written_iff.mpr ⟨f, isFunction, isBlock⟩)
  returnsOnce f member j k b c isB isC returnsB returnsC := by
    obtain ⟨i, isFunction⟩ := List.mem_iff_getElem?.mp member
    have same := complete.returnsOnce _ _ ⟨i, b⟩ ⟨i, c⟩
      (written_getElem?_iff.mpr ⟨j, f, isFunction, isB, rfl⟩)
      (written_getElem?_iff.mpr ⟨k, f, isFunction, isC, rfl⟩) rfl returnsB returnsC
    exact Nat.add_left_cancel same
  entryBlock := complete.entry

/-! ## The denoted program -/

/-- **What a description denotes**, field by field. -/
structure Denotes (d : Description) (p : Program) : Prop where
  blocks : ∃ caps, d.capabilities.Stands caps ∧ p.capabilities = some caps ∧
    List.Forall₂ (d.MeansAt caps) d.written.zipIdx p.blocks.toList
  functions : List.Forall₂ d.FunctionMeans d.functions.zipIdx p.functions.toList
  entry : d.IsEntry p.entry
  raisePrimitive : p.raisePrimitive = d.raisePrimitive
  declared : p.declared = d.meantSymbols

theorem Drafts.denotes {d : Description} {caps : Enumeration} {p : Program}
    (drafts : d.Drafts caps p) (complete : d.IsComplete) : d.Denotes p where
  blocks := ⟨caps, drafts.stands, drafts.capabilities, drafts.blocks⟩
  functions := by
    rw [drafts.functions, List.forall₂_map_right_iff, List.forall₂_same]
    exact fun entry _ => functionMeans_draftFunction drafts.blocks complete.returnsOnce entry
  entry := drafts.entry
  raisePrimitive := drafts.raisePrimitive
  declared := drafts.declared

/-- What an admissible description denotes is its draft. -/
theorem Denotes.drafts {d : Description} {p : Program} (denotes : d.Denotes p)
    (admissible : d.IsAdmissible) : ∃ caps, d.Drafts caps p := by
  obtain ⟨_, _, drafted⟩ := admissible.exists_drafts
  obtain ⟨caps, stands, capabilities, all⟩ := denotes.blocks
  refine ⟨caps, drafted.nonempty, drafted.names, drafted.blockNames, stands, capabilities, all, ?_,
    denotes.entry, denotes.raisePrimitive, denotes.declared⟩
  have same : List.Forall₂ (fun entry function => d.draftFunction p.blocks.toList entry = function)
      d.functions.zipIdx p.functions.toList :=
    denotes.functions.imp fun entry function means => (means.eq_draftFunction all).symm
  rw [← List.forall₂_map_left_iff (R := Eq), List.forall₂_eq_eq_eq] at same
  exact same.symm

theorem program_eq_ok_iff {d : Description} {p : Program} :
    d.program = .ok p ↔ d.draft = .ok p ∧ p.validate = none := by
  rw [program, bind_eq_ok_iff]
  constructor
  · rintro ⟨draft, isDraft, checked⟩
    cases valid : draft.validate with
    | some problem =>
      rw [valid] at checked
      cases checked
    | none =>
      rw [valid] at checked
      obtain rfl := Except.ok.inj checked
      exact ⟨isDraft, valid⟩
  · rintro ⟨isDraft, valid⟩
    exact ⟨p, isDraft, by rw [valid]; rfl⟩

/-- A program that validation accepts has a function, so its description has one. -/
theorem exists_drafts_of_program {d : Description} {p : Program} (built : d.program = .ok p) :
    ∃ caps, d.Drafts caps p ∧ p.IsConsistent := by
  obtain ⟨isDraft, valid⟩ := program_eq_ok_iff.mp built
  have consistent := (Program.wellFormed_of_validate valid).isConsistent
  have nonempty : d.functions ≠ [] := by
    intro none
    obtain ⟨_, _, _, _, _, _, isProgram⟩ := draft_eq_ok_iff_fields.mp isDraft
    obtain ⟨function, found, _⟩ := consistent.entry
    obtain ⟨i, _, isFunction⟩ := entryAt?_eq_some_iff.mp found
    rw [isProgram, none] at isFunction
    cases isFunction
  obtain ⟨caps, drafts⟩ := (draft_eq_ok_iff nonempty).mp isDraft
  exact ⟨caps, drafts, consistent⟩

/-- **A session builds the program of a description**, or finds the problem that validation
finds. -/
theorem program_eq_build {d : Description} {p : Program} (isDraft : d.draft = .ok p) :
    (Session.start p.capabilities).Proper (d.script p) ∧
      d.program = ((Session.start p.capabilities).run (d.script p)).builder.build := by
  obtain ⟨caps, _, _, fresh, isEntry, areBlocks, isProgram⟩ := draft_eq_ok_iff_fields.mp isDraft
  obtain ⟨proper, isCurrent⟩ := builds_script fresh.2 isEntry areBlocks isProgram
  have capabilities : p.capabilities = some caps := congrArg Program.capabilities isProgram
  rw [capabilities]
  refine ⟨proper, ?_⟩
  rw [Builder.build, isCurrent]
  cases checked : p.validate with
  | none => exact program_eq_ok_iff.mpr ⟨isDraft, checked⟩
  | some problem => simp only [program, isDraft, bind, Except.bind, checked]

end Description

/-- **Descriptions denote exactly one program.** A description has a program exactly when it is
admissible, and that program is the only one that it denotes. A proper session of calls to a
builder makes it. -/
theorem description_denotes (d : Description) :
    ((∃ p, d.program = .ok p) ↔ d.IsAdmissible) ∧
      (∀ p, d.draft = .ok p → (Session.start p.capabilities).Proper (d.script p) ∧
        d.program = ((Session.start p.capabilities).run (d.script p)).builder.build) ∧
      ∀ p, d.program = .ok p → d.Denotes p ∧ ∀ q, d.Denotes q → q = p := by
  refine ⟨⟨?_, ?_⟩, fun p isDraft => Description.program_eq_build isDraft, ?_⟩
  · rintro ⟨p, built⟩
    obtain ⟨caps, drafts, consistent⟩ := Description.exists_drafts_of_program built
    exact drafts.isAdmissible (drafts.isComplete consistent)
  · intro admissible
    obtain ⟨caps, p, drafts⟩ := admissible.exists_drafts
    have isDraft := (Description.draft_eq_ok_iff drafts.nonempty).mpr ⟨caps, drafts⟩
    have valid := (drafts.isConsistent admissible.isComplete).validate_eq_none
    exact ⟨p, Description.program_eq_ok_iff.mpr ⟨isDraft, valid⟩⟩
  · intro p built
    obtain ⟨caps, drafts, consistent⟩ := Description.exists_drafts_of_program built
    have complete := drafts.isComplete consistent
    refine ⟨drafts.denotes complete, fun q denotes => ?_⟩
    obtain ⟨others, draftsQ⟩ := denotes.drafts (drafts.isAdmissible complete)
    have isDraftQ := (Description.draft_eq_ok_iff drafts.nonempty).mpr ⟨others, draftsQ⟩
    rw [(Description.program_eq_ok_iff.mp built).1] at isDraftQ
    exact (Except.ok.inj isDraftQ).symm

/-- A description with all forms of calls and all readings of arguments. Its main function is not
written first, and calls and successors refer to what is written later. -/
def sampleDescription : Description where
  capabilities := .listed ["CAP_CHOWN", "7", "CAP_KILL"]
  declared := ["open", "open"]
  functions := [
    { name := "helper", addressTaken := true
      blocks := [
        { name := "top", call := some { unresolved := true }, successors := ["bottom", "top"] },
        { name := "bottom", exit := "return", size := 3 }] },
    { name := "foreign" },
    { name := "main"
      blocks := [
        { name := "top", raised := [⟨"CAP_KILL", 9⟩, ⟨"7", 9⟩, ⟨"?", 9⟩], successors := ["work"] },
        { name := "work", call := some { direct := "helper" }, successors := ["last"] },
        { name := "last", call := some { candidates := ["main", "foreign"], complete := true }
          exit := "unreachable" }] }]

/-- The capability with a numeral as its name is out of reach: the text is the number. -/
theorem description_denotes_sample :
    ∃ p, sampleDescription.program = .ok p ∧ sampleDescription.IsAdmissible ∧
      p.entry = 2 ∧ p.declared = ["open", "priv_raise"] ∧
      (p.block? 2).map (·.raised) = some [.constant 2, .constant 7, .variable] ∧
      (p.block? 0).map (·.successors) = some [1, 0] ∧
      (p.block? 4).map (·.target) = some (.resolved [2, 1] true) ∧
      ((Session.start p.capabilities).run (sampleDescription.script p)).builder.build = .ok p ∧
      ∀ q, sampleDescription.Denotes q → q = p := by
  obtain ⟨admissible, sessions, unique⟩ := description_denotes sampleDescription
  have built : ∃ p, sampleDescription.program = .ok p ∧ p.entry = 2 ∧
      p.declared = ["open", "priv_raise"] ∧
      (p.block? 2).map (·.raised) = some [.constant 2, .constant 7, .variable] ∧
      (p.block? 0).map (·.successors) = some [1, 0] ∧
      (p.block? 4).map (·.target) = some (.resolved [2, 1] true) := by
    refine ⟨_, rfl, ?_⟩
    decide +kernel
  obtain ⟨p, isProgram, entry, declared, raised, successors, target⟩ := built
  have session := sessions p (Description.program_eq_ok_iff.mp isProgram).1
  exact ⟨p, isProgram, admissible.mp ⟨p, isProgram⟩, entry, declared, raised, successors, target,
    session.2.symm.trans isProgram, (unique p isProgram).2⟩

end CapLiveness
