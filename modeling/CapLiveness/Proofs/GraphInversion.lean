import CapLiveness.Proofs.Outcome
import Mathlib.Data.List.Sort

/-!
# The graph inverts the program

A program says of each block where control goes next, and of each call what it may enter.
The graph says of each block where control comes from, and of each slot which calls may
enter it. Here the two are shown to be the same relations, read from both ends
(`Graph.Inverts`): nothing is missing, nothing is listed twice that the program does not say
twice, and every list is in increasing order.

Slots are numbers for the functions and the two ids of outside code. Numbering and naming
are inverse to each other (`slots_inverse`).

Every call that may reach outside code is indirect, and an indirect call that cannot is
completely resolved. The three counts of a run therefore fit together
(`Program.WellFormed.counts_fit`).
-/

set_option autoImplicit false

namespace CapLiveness

/-! ## Counting in the lists -/

theorem predecessorsIn_cons (entry : Block × Nat) (rest : List (Block × Nat)) (s : Nat) :
    predecessorsIn (entry :: rest) s =
      List.replicate (entry.1.successors.count (Int.ofNat s)) entry.2 ++ predecessorsIn rest s := by
  simp [predecessorsIn]

/-- A block that is not listed precedes nothing. -/
theorem count_predecessorsIn_of_absent {entries : List (Block × Nat)} {b : Nat}
    (absent : ∀ entry ∈ entries, entry.2 ≠ b) (s : Nat) :
    (predecessorsIn entries s).count b = 0 := by
  rw [List.count_eq_zero, predecessorsIn, List.mem_flatMap]
  rintro ⟨entry, listed, member⟩
  exact absent entry listed (List.eq_of_mem_replicate member).symm

/-- A listed block precedes another as often as it has it as a successor. -/
theorem count_predecessorsIn {entries : List (Block × Nat)}
    (increasing : entries.Pairwise (·.2 < ·.2)) {block : Block} {b : Nat}
    (listed : (block, b) ∈ entries) (s : Nat) :
    (predecessorsIn entries s).count b = block.successors.count (Int.ofNat s) := by
  induction entries with
  | nil => cases listed
  | cons entry rest ih =>
    obtain ⟨before, increasingRest⟩ := List.pairwise_cons.mp increasing
    rw [predecessorsIn_cons, List.count_append, List.count_replicate]
    rcases List.mem_cons.mp listed with rfl | later
    · have absent : ∀ other ∈ rest, other.2 ≠ b := fun other member =>
        Nat.ne_of_gt (before other member)
      rw [count_predecessorsIn_of_absent absent]
      simp
    · have earlier : entry.2 ≠ b := Nat.ne_of_lt (before _ later)
      rw [ih increasingRest later]
      simp [earlier]

/-- Calls that may reach outside code are indirect. -/
theorem CallTarget.isDirect_eq_false {target : CallTarget}
    (outside : target.reachesExternal = true) : target.isDirect = false := by
  cases target with
  | direct callee => cases outside
  | resolved candidates complete => rfl
  | unresolved => rfl
  | unknown code => rfl

/-- The indirect calls are those that may reach outside code and those that cannot. -/
theorem length_indirectIn (entries : List (Block × Nat)) :
    (indirectIn entries).length =
      (positionsOf (fun block => block.kind = .call ∧ block.target.reachesExternal)
          entries).length +
        (indirectIn entries).countP (!·.reachesExternal) := by
  have outside : (positionsOf (fun block => block.kind = .call ∧ block.target.reachesExternal)
      entries).length = (indirectIn entries).countP (·.reachesExternal) := by
    rw [positionsOf, indirectIn, List.length_map, List.countP_map, List.countP_filter,
      ← List.countP_eq_length_filter]
    refine List.countP_congr fun entry _ => ?_
    cases reaches : entry.1.target.reachesExternal with
    | false => simp [reaches]
    | true => simp [reaches, CallTarget.isDirect_eq_false reaches]
  rw [outside]
  simpa using (indirectIn entries).length_eq_countP_add_countP (·.reachesExternal)

/-! ## Slots -/

/-- Whether an id is that of a function or of outside code. -/
def Program.IsCallable (p : Program) (f : FunctionId) : Prop :=
  p.hasFunction f = true ∨ f = FunctionId.callsExternal ∨ f = FunctionId.callingExternal

theorem Program.hasFunction_iff {p : Program} {f : FunctionId} :
    p.hasFunction f = true ↔ ∃ i < p.functions.size, f = Int.ofNat i := by
  rw [hasFunction, Bool.and_eq_true, decide_eq_true_eq, decide_eq_true_eq]
  constructor
  · rintro ⟨nonneg, below⟩
    exact ⟨f.toNat, (Int.toNat_lt nonneg).mpr below, (Int.toNat_of_nonneg nonneg).symm⟩
  · rintro ⟨i, below, rfl⟩
    exact ⟨Int.natCast_nonneg i, Int.ofNat_lt.mpr below⟩

theorem functionOfSlot_of_lt {n slot : Nat} (below : slot < n) :
    functionOfSlot n slot = Int.ofNat slot := by
  rw [functionOfSlot, if_neg (by omega), if_neg (by omega)]

/-- **Numbering ids and naming slots are inverse to each other.** -/
theorem slots_inverse (p : Program) :
    (∀ f, p.IsCallable f → ∃ slot < p.functions.size + 2,
      slotOf? p.functions.size f = some slot ∧ functionOfSlot p.functions.size slot = f) ∧
    ∀ slot < p.functions.size + 2, p.IsCallable (functionOfSlot p.functions.size slot) ∧
      slotOf? p.functions.size (functionOfSlot p.functions.size slot) = some slot := by
  constructor
  · rintro f (isFunction | rfl | rfl)
    · obtain ⟨i, below, rfl⟩ := Program.hasFunction_iff.mp isFunction
      exact ⟨i, by omega, slotOf?_ofNat below, functionOfSlot_of_lt below⟩
    · exact ⟨p.functions.size, by omega, rfl, if_pos rfl⟩
    · refine ⟨p.functions.size + 1, by omega, rfl, ?_⟩
      rw [functionOfSlot, if_neg (by omega), if_pos rfl]
  · intro slot bound
    refine ⟨?_, slotOf?_functionOfSlot bound⟩
    by_cases isFunction : slot < p.functions.size
    · rw [functionOfSlot_of_lt isFunction]
      exact .inl (Program.hasFunction_iff.mpr ⟨slot, isFunction, rfl⟩)
    · rcases Nat.eq_or_lt_of_le (Nat.not_lt.mp isFunction) with calls | calling
      · exact .inr (.inl (if_pos calls.symm))
      · refine .inr (.inr ?_)
        rw [functionOfSlot, if_neg (by omega), if_pos (by omega)]

/-! ## Graphs -/

/-- The successors of a block, none for an id without a block. -/
def Program.successorsAt (p : Program) (b : BlockId) : List BlockId :=
  ((p.block? b).map (·.successors)).getD []

/-- What a graph of a program has to say, in terms of the program. -/
structure Graph.Inverts (g : Graph) (p : Program) : Prop where
  /-- Every block has a row of predecessors, every slot one of call sites, one of callers and a
  mark. -/
  sizes : g.predecessors.size = p.blocks.size ∧ g.sites.size = p.functions.size + 2 ∧
    g.callers.size = p.functions.size + 2 ∧ g.externalSlots.size = p.functions.size + 2
  sorted_predecessors : ∀ s, (g.predecessorsOf s).Pairwise (· ≤ ·)
  /-- A block is listed once for each edge. -/
  count_predecessors : ∀ s < p.blocks.size, ∀ b : Nat,
    (g.predecessorsOf s).count b = (p.successorsAt (Int.ofNat b)).count (Int.ofNat s)
  sorted_sites : ∀ slot, (g.sitesOf slot).Pairwise (· < ·)
  mem_sites : ∀ slot < p.functions.size, ∀ b : Nat, b ∈ g.sitesOf slot ↔
    ∃ block, p.block? (Int.ofNat b) = some block ∧ block.kind = .call ∧
      block.function = Int.ofNat slot
  sorted_callers : ∀ slot, (g.callersOf slot).Pairwise (· < ·)
  mem_callers : ∀ slot < p.functions.size + 2, ∀ b : Nat, b ∈ g.callersOf slot ↔
    ∃ block, p.block? (Int.ofNat b) = some block ∧ block.kind = .call ∧
      slot ∈ calleeSlots p.functions.size block.target
  /-- The callees of a call are its known targets, and outside code when it may be reached. -/
  callees : ∀ (b : Nat) (block : Block), p.block? (Int.ofNat b) = some block → block.kind = .call →
    (calleeSlots p.functions.size block.target).Pairwise (· < ·) ∧
    ∀ slot, slot ∈ calleeSlots p.functions.size block.target ↔
      (slot < p.functions.size ∧ Int.ofNat slot ∈ block.target.targets) ∨
        (slot = g.callsExternal ∧ block.target.reachesExternal = true)
  sorted_external : g.external.Pairwise (· < ·)
  mem_external : ∀ slot, slot ∈ g.external ↔ Int.ofNat slot ≠ p.entry ∧
    ∃ function, p.function? (Int.ofNat slot) = some function ∧ function.addressTaken = true
  isExternal : ∀ slot, g.isExternal slot = decide (slot ∈ g.external)

theorem Graph.pairwise_getD_rowsOf {R : Nat → Nat → Prop} {row : Nat → List Nat}
    (sorted : ∀ i, (row i).Pairwise R) (count i : Nat) :
    ((rowsOf count row).getD i []).Pairwise R := by
  rw [getD_rowsOf]
  split
  · exact sorted i
  · exact List.Pairwise.nil

namespace Program

variable {p : Program}

theorem pairwise_externalFunctions (p : Program) : p.externalFunctions.Pairwise (· < ·) := by
  refine List.pairwise_filterMap.mpr ((pairwise_zipIdx _).imp ?_)
  intro first second before i atFirst j atSecond
  simp only [Option.ite_none_right_eq_some, Option.some.injEq] at atFirst atSecond
  rw [← atFirst.2, ← atSecond.2]
  exact before

theorem count_predecessorsOf {s : Nat} (bound : s < p.blocks.size) (b : Nat) :
    ((Graph.ofProgram p).predecessorsOf s).count b =
      (p.successorsAt (Int.ofNat b)).count (Int.ofNat s) := by
  rw [Graph.predecessorsOf, Graph.predecessors_ofProgram, getD_rowsOf, if_pos bound, successorsAt]
  cases found : p.block? (Int.ofNat b) with
  | some block =>
    have listed : (block, b) ∈ p.blockEntries := mem_blockEntries.mpr found
    rw [count_predecessorsIn p.pairwise_blockEntries listed]
    rfl
  | none =>
    have absent : ∀ entry ∈ p.blockEntries, entry.2 ≠ b := by
      rintro ⟨block, i⟩ listed rfl
      rw [mem_blockEntries.mp listed] at found
      cases found
    rw [count_predecessorsIn_of_absent absent]
    rfl

namespace WellFormed

variable (wf : p.WellFormed)
include wf

/-- **The graph of a well-formed program inverts it.** -/
theorem inverts : (Graph.ofProgram p).Inverts p where
  sizes := by
    rw [Graph.predecessors_ofProgram, Graph.sites_ofProgram, Graph.callers_ofProgram,
      Graph.size_externalSlots]
    simp only [size_rowsOf, and_self]
  sorted_predecessors s := by
    rw [Graph.predecessorsOf, Graph.predecessors_ofProgram]
    exact Graph.pairwise_getD_rowsOf (pairwise_predecessorsIn p.pairwise_blockEntries) _ s
  count_predecessors s bound := count_predecessorsOf bound
  sorted_sites slot := by
    rw [Graph.sitesOf, Graph.sites_ofProgram]
    refine Graph.pairwise_getD_rowsOf (fun _ => ?_) _ slot
    exact pairwise_positionsOf p.pairwise_blockEntries _
  mem_sites slot bound b :=
    mem_sitesOf.trans (and_iff_right (Nat.lt_add_right 2 bound))
  sorted_callers slot := by
    rw [Graph.callersOf, Graph.callers_ofProgram]
    refine Graph.pairwise_getD_rowsOf (fun _ => ?_) _ slot
    exact pairwise_positionsOf p.pairwise_blockEntries _
  mem_callers slot bound b := mem_callersOf.trans (and_iff_right bound)
  callees b block found call := by
    refine ⟨pairwise_calleeSlots _ _, fun slot => ?_⟩
    rw [wf.mem_calleeSlots_iff found call]
    refine or_congr ⟨fun target => ⟨?_, target⟩, fun target => target.2⟩ and_comm
    obtain ⟨function, callee⟩ :=
      exists_of_hasFunction (wf.hasFunction_of_mem_targets found call target)
    exact lt_of_function? callee
  sorted_external := p.pairwise_externalFunctions
  mem_external slot := wf.mem_externalFunctions
  isExternal slot := Bool.eq_iff_iff.mpr
    ((Graph.isExternal_ofProgram p).trans decide_eq_true_iff.symm)

/-- The callers of outside code are the calls that may reach it. -/
theorem mem_callersOf_callsExternal {b : Nat} :
    b ∈ (Graph.ofProgram p).callersOf (Graph.ofProgram p).callsExternal ↔
      ∃ block, p.block? (Int.ofNat b) = some block ∧ block.kind = .call ∧
        block.target.reachesExternal = true := by
  have bound : (Graph.ofProgram p).callsExternal < p.functions.size + 2 := callsExternal_lt
  rw [wf.inverts.mem_callers _ bound]
  refine exists_congr fun block => and_congr_right fun found => and_congr_right fun call => ?_
  rw [(wf.inverts.callees b block found call).2]
  constructor
  · rintro (⟨below, _⟩ | ⟨_, reaches⟩)
    · exact absurd below (Nat.lt_irrefl _)
    · exact reaches
  · intro reaches
    exact .inr ⟨rfl, reaches⟩

/-- **The counts of the graph fit together.** -/
theorem counts_fit :
    ((Graph.ofProgram p).callersOf (Graph.ofProgram p).callsExternal).length +
      (Graph.ofProgram p).complete = (Graph.ofProgram p).indirect := by
  have counted : (Graph.ofProgram p).indirect = (indirectIn p.blockEntries).length :=
    p.records_blockIndex.indirect
  have resolved : (Graph.ofProgram p).complete =
      (indirectIn p.blockEntries).countP (!·.reachesExternal) := p.records_blockIndex.complete
  have outside : (Graph.ofProgram p).callersOf (Graph.ofProgram p).callsExternal =
      positionsOf (fun block => block.kind = .call ∧ block.target.reachesExternal)
        p.blockEntries := by
    refine (wf.inverts.sorted_callers _).eq_of_mem_iff
      (pairwise_positionsOf p.pairwise_blockEntries _) fun b => ?_
    simp only [wf.mem_callersOf_callsExternal, mem_positionsOf, mem_blockEntries,
      decide_eq_true_eq]
  rw [counted, resolved, outside]
  exact (length_indirectIn p.blockEntries).symm

end WellFormed

/-- The counts of a result are those of the graph of its program. -/
theorem stats_of_outcome {config : Config} {r : Result}
    (analyzed : (p.analyze config).outcome = .ok r) :
    r.stats.externalCalls =
        ((Graph.ofProgram p).callersOf (Graph.ofProgram p).callsExternal).length ∧
      r.stats.completeCalls = (Graph.ofProgram p).complete ∧
      r.stats.indirectCalls = (Graph.ofProgram p).indirect := by
  rcases (outcome_cases analyzed).2 with ⟨_, rfl⟩ | ⟨_, rfl⟩
  · exact ⟨rfl, rfl, rfl⟩
  · exact ⟨rfl, rfl, rfl⟩

end Program

/-- **The graph of a valid program inverts it.** Predecessors, call sites, callers and the
functions that can be entered from outside are exactly what the program says, in increasing
order; numbering ids and naming slots are inverse to each other; and a run counts as many
calls that may reach outside code as there are indirect calls without a complete
resolution. -/
theorem graph_inverts_program {p : Program} (valid : p.validate = none) :
    (Graph.ofProgram p).Inverts p ∧
    ((∀ f, p.IsCallable f → ∃ slot < p.functions.size + 2,
        slotOf? p.functions.size f = some slot ∧ functionOfSlot p.functions.size slot = f) ∧
      ∀ slot < p.functions.size + 2, p.IsCallable (functionOfSlot p.functions.size slot) ∧
        slotOf? p.functions.size (functionOfSlot p.functions.size slot) = some slot) ∧
    ∀ (config : Config) (r : Result), (p.analyze config).outcome = .ok r →
      r.setting.graph = Graph.ofProgram p ∧ r.stats.completeCalls ≤ r.stats.indirectCalls ∧
        r.stats.externalCalls = r.stats.indirectCalls - r.stats.completeCalls := by
  have wf := Program.wellFormed_of_validate valid
  refine ⟨wf.inverts, slots_inverse p, ?_⟩
  intro config r analyzed
  obtain ⟨external, complete, indirect⟩ := Program.stats_of_outcome analyzed
  have fit := wf.counts_fit
  rw [← external, ← complete, ← indirect] at fit
  refine ⟨?_, by omega, by omega⟩
  rcases (Program.outcome_cases analyzed).2 with ⟨_, rfl⟩ | ⟨_, rfl⟩ <;> rfl

/-- A program with a repeated edge and a call that lists a candidate twice and may miss
others. -/
def repeatingProgram : Program where
  capabilities := some (.ofFaultless ["CAP_KILL"] none (by decide) (by decide +kernel))
  functions := #[
    { id := 0, name := "main", blocks := [0, 1], exit := 1 },
    { id := 1, name := "handler", blocks := [2], exit := 2, addressTaken := true }]
  blocks := #[
    { id := 0, function := 0, kind := .call, target := .resolved [1, 1] false,
      successors := [1, 1] },
    { id := 1, function := 0, exit := .return },
    { id := 2, function := 1, kind := .raise, raised := [.constant 0], exit := .return }]
  entry := 0

/-- The repeated edge is listed twice and the repeated candidate once. The call is also among
those that reach outside code, from which the handler can be entered and the entry function
cannot. -/
theorem graph_inverts_repeatingProgram :
    repeatingProgram.validate = none ∧
      ((Graph.ofProgram repeatingProgram).predecessorsOf 1).count 0 = 2 ∧
      0 ∈ (Graph.ofProgram repeatingProgram).callersOf 1 ∧
      ((Graph.ofProgram repeatingProgram).callersOf 1).Nodup ∧
      0 ∈ (Graph.ofProgram repeatingProgram).callersOf 2 ∧
      (Graph.ofProgram repeatingProgram).isExternal 1 = true ∧
      (Graph.ofProgram repeatingProgram).isExternal 0 = false ∧
      slotOf? 2 FunctionId.callingExternal = some 3 := by
  have valid : repeatingProgram.validate = none := rfl
  obtain ⟨inverts, ⟨_, named⟩, _⟩ := graph_inverts_program valid
  have call : repeatingProgram.block? (Int.ofNat 0) = some _ := rfl
  have callees := (inverts.callees 0 _ call rfl).2
  refine ⟨valid, ?_, ?_, ?_, ?_, ?_, ?_, (named 3 (by decide)).2⟩
  · rw [inverts.count_predecessors 1 (by decide)]
    rfl
  · refine (inverts.mem_callers 1 (by decide) 0).mpr ⟨_, call, rfl, ?_⟩
    exact (callees 1).mpr (.inl ⟨by decide, by decide⟩)
  · exact (inverts.sorted_callers 1).imp Nat.ne_of_lt
  · refine (inverts.mem_callers 2 (by decide) 0).mpr ⟨_, call, rfl, ?_⟩
    exact (callees 2).mpr (.inr ⟨rfl, rfl⟩)
  · rw [inverts.isExternal, decide_eq_true_eq, inverts.mem_external]
    exact ⟨by decide, _, rfl, rfl⟩
  · rw [inverts.isExternal, decide_eq_false_iff_not, inverts.mem_external]
    exact fun external => external.1 rfl

end CapLiveness
