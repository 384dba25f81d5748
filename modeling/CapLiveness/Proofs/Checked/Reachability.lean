import CapLiveness.Analysis.Exposure
import CapLiveness.Proofs.BreadthFirst
import CapLiveness.Proofs.Checked.Analysis

/-!
# The search for reachable blocks, with checked lookups

The search, the exposure of live sets and the paths to blocks, where functions and blocks
are found by lookups that may fail. An id that stands for no block is passed over. So is one
that was reached before, and any other id must have a place in the table of parents, where
the search notes through which block it came.

A list of ids that is looked up this way stands for a list of positions (`Finds`). The
search never leaves the program, and what the table of parents says of a block that was
reached is how the search came there (`Sound`). So the checked search reaches what the search
reaches (`reachable_eq_some`). Every block is reached through one that was reached before it,
so following the parents from a block comes to an end, and the blocks on the way are those of
the search (`follow_eq_some`, `pathTo_eq_some`).
-/

set_option autoImplicit false

namespace CapLiveness.Checked

/-! ## Ids of blocks -/

/-- Whether an id is that of a block, or the one that stands for none. -/
def HasPlace (p : Program) (b : BlockId) : Prop :=
  b = BlockId.absent ∨ ∃ block, p.block? b = some block

/-- The positions that ids stand for. -/
def positions (ids : List BlockId) : List Nat := (ids.filter (0 ≤ ·)).map Int.toNat

/-- Ids were found that have a place and stand for the given positions. -/
def Finds (p : Program) (found : Option (List BlockId)) (blocks : List Nat) : Prop :=
  ∃ ids, found = some ids ∧ positions ids = blocks ∧ ∀ b ∈ ids, HasPlace p b

theorem positions_append (ids others : List BlockId) :
    positions (ids ++ others) = positions ids ++ positions others := by
  simp [positions]

variable {p : Program}

theorem Finds.flatten {α : Type} {xs : List α} {find : α → Option (List BlockId)}
    {blocks : α → List Nat} (finds : ∀ x ∈ xs, Finds p (find x) (blocks x)) :
    Finds p ((xs.mapM find).map List.flatten) (xs.flatMap blocks) := by
  induction xs with
  | nil => exact ⟨[], rfl, rfl, by simp⟩
  | cons x rest ih =>
    obtain ⟨findsHere, findsRest⟩ := List.forall_mem_cons.mp finds
    obtain ⟨ids, found, same, places⟩ := findsHere
    obtain ⟨others, foundRest, sameRest, placesRest⟩ := ih findsRest
    obtain ⟨lists, listed, rfl⟩ := Option.map_eq_some_iff.mp foundRest
    refine ⟨ids ++ lists.flatten, ?_, ?_, ?_⟩
    · simp [List.mapM_cons, found, listed]
    · rw [positions_append, same, sameRest, List.flatMap_cons]
    · intro b member
      exact (List.mem_append.mp member).elim (places b) (placesRest b)

/-! ## Parents -/

/-- A search with its table of parents: for each block that was reached, the block through
which the search came there. -/
structure Trail where
  search : Search
  parents : Array (Option Nat)

/-- The blocks on the way to a block, read off a table of parents from the end to the start. The
number of steps is limited. -/
def follow (parents : Array (Option Nat)) : Nat → Nat → List Nat → Option (List Nat)
  | 0, _, _ => none
  | steps + 1, b, rest => do
    let parent ← parents[b]?
    match parent with
    | some via => follow parents steps via (b :: rest)
    | none => some (b :: rest)

/-- Whether each arrival came through an earlier one, if through any. The latest one comes
first. -/
def Traced : List Arrival → Prop
  | [] => True
  | arrival :: earlier => (∀ via ∈ arrival.via, via ∈ earlier.map (·.block)) ∧ Traced earlier

/-- **Following the parents of a block is going down the arrivals.** Each step comes to an
earlier arrival, so there are no more steps than arrivals. -/
theorem follow_eq_some {parents : Array (Option Nat)} {arrivals : List Arrival}
    (traced : Traced arrivals)
    (agree : ∀ arrival ∈ arrivals, parents[arrival.block]? = some arrival.via) {b : Nat}
    (reached : b ∈ arrivals.map (·.block)) {steps : Nat} (enough : arrivals.length ≤ steps)
    (rest : List Nat) : follow parents steps b rest = some (Search.wayTo arrivals b rest) := by
  induction arrivals generalizing b steps rest with
  | nil => cases reached
  | cons arrival earlier ih =>
    obtain ⟨through, tracedEarlier⟩ := traced
    obtain ⟨agreeHere, agreeEarlier⟩ := List.forall_mem_cons.mp agree
    rw [Search.wayTo]
    split
    case isFalse differs =>
      have before : b ∈ earlier.map (·.block) :=
        (List.mem_cons.mp reached).resolve_left (Ne.symm differs)
      exact ih tracedEarlier agreeEarlier before (Nat.le_of_succ_le enough) rest
    case isTrue same =>
      obtain ⟨steps, rfl⟩ := Nat.exists_eq_add_of_le' (Nat.le_of_add_left_le enough)
      rw [follow, ← same, agreeHere, Option.bind_eq_bind, Option.bind_some]
      cases source : arrival.via with
      | none => rfl
      | some via =>
        exact ih tracedEarlier agreeEarlier (through via source) (Nat.le_of_succ_le_succ enough) _

/-! ## The search -/

/-- Reaches a block, unless it was reached before. -/
def reach (via : Option Nat) (trail : Trail) (b : BlockId) : Option Trail :=
  if b = BlockId.absent ∨ 0 ≤ b ∧ b.toNat ∈ trail.search.order then some trail
  else (write trail.parents (b, via)).map fun parents =>
    ⟨trail.search.reach via b.toNat, parents⟩

/-- The first block of the function in a slot, if the slot is that of a function. -/
def firstBlocks (s : Setting) (slot : Nat) : Option (List BlockId) :=
  if slot < s.graph.functionCount then
    (s.program.functions[slot]?).map fun f => [f.entryBlock]
  else some []

/-- The first blocks of the functions that can be entered from outside. -/
def externalRoots (s : Setting) : Option (List BlockId) :=
  (s.graph.external.mapM (firstBlocks s)).map List.flatten

/-- The first blocks of the functions that a call may enter. -/
def calleeBlocks (s : Setting) (block : Block) : Option (List BlockId) := do
  let callees ← calleeSlots s.graph.functionCount block.target
  (callees.mapM fun slot =>
    if slot = s.graph.callsExternal then externalRoots s else firstBlocks s slot).map List.flatten

/-- The blocks to which control may go from a block. -/
def nextBlocks (s : Setting) (b : Nat) : Option (List BlockId) := do
  let block ← s.block? b
  if block.kind = .call then (calleeBlocks s block).map (block.successors ++ ·)
  else some block.successors

/-- Reaches blocks that were found. -/
def reachAll (via : Option Nat) (trail : Trail) (found : Option (List BlockId)) : Option Trail :=
  found.bind fun ids => ids.foldlM (reach via) trail

theorem size_of_reach {via : Option Nat} {trail next : Trail} {b : BlockId}
    (reached : reach via trail b = some next) : next.search.size = trail.search.size := by
  unfold reach at reached
  split at reached
  case isTrue => rw [← Option.some.inj reached]
  case isFalse =>
    obtain ⟨_, _, rfl⟩ := Option.map_eq_some_iff.mp reached
    exact Search.size_reach via trail.search b.toNat

theorem size_of_foldlM_reach {ids : List BlockId} {via : Option Nat} {trail next : Trail}
    (reached : ids.foldlM (reach via) trail = some next) :
    next.search.size = trail.search.size := by
  induction ids generalizing trail with
  | nil => rw [← Option.some.inj reached]
  | cons first rest ih =>
    simp only [List.foldlM_cons, Option.bind_eq_bind, Option.bind_eq_some_iff] at reached
    obtain ⟨now, reachedFirst, reachedRest⟩ := reached
    exact (ih reachedRest).trans (size_of_reach reachedFirst)

theorem size_of_reachAll {via : Option Nat} {trail next : Trail} {found : Option (List BlockId)}
    (reached : reachAll via trail found = some next) : next.search.size = trail.search.size := by
  obtain ⟨_, _, reached⟩ := Option.bind_eq_some_iff.mp reached
  exact size_of_foldlM_reach reached

/-- Expands pending blocks until none is left. -/
def exhaust (s : Setting) (trail : Trail) : Option Trail :=
  match trail with
  | ⟨⟨_, [], _⟩, _⟩ => some trail
  | ⟨⟨unseen, b :: pending, arrivals⟩, parents⟩ =>
    match reached : reachAll (some b) ⟨⟨unseen, pending, arrivals⟩, parents⟩ (nextBlocks s b) with
    | none => none
    | some next =>
      have := size_of_reachAll reached
      exhaust s next
termination_by trail.search.size
decreasing_by
  simp only [Search.size, List.length_cons] at this ⊢
  omega

/-- Reaches blocks that were found, and goes on until none is pending. -/
def searchFrom (s : Setting) (found : Option (List BlockId)) (trail : Trail) : Option Trail :=
  (reachAll none trail found).bind (exhaust s)

/-- The search from the entry function, then from outside the program. -/
def reachable (s : Setting) : Option Trail := do
  let count := s.program.blocks.size
  let entry ← slotOf? s.graph.functionCount s.program.entry
  let fromEntry ← searchFrom s (firstBlocks s entry)
    ⟨⟨List.range count, [], []⟩, Array.replicate count none⟩
  searchFrom s (externalRoots s) fromEntry

variable {s : Setting}

theorem firstBlocks_finds (fits : Fits s) (slot : Nat) :
    Finds s.program (firstBlocks s slot) (s.firstBlocks slot) := by
  rw [firstBlocks, Setting.firstBlocks]
  split
  case isFalse outside =>
    rw [fits.functionCount, Nat.not_lt] at outside
    rw [Array.getElem?_eq_none outside]
    exact ⟨[], rfl, rfl, by simp⟩
  case isTrue inside =>
    rw [fits.functionCount] at inside
    have found := Array.getElem?_eq_getElem inside
    rw [found]
    refine ⟨_, rfl, ?_, ?_⟩
    · cases blocks : s.program.functions[slot].blocks with
      | nil => simp [positions, Function.entryBlock, blocks, BlockId.absent]
      | cons first rest =>
        by_cases nonneg : 0 ≤ first <;>
          simp [positions, Function.entryBlock, blocks, nonneg, Option.filter]
    · intro b member
      rw [List.mem_singleton.mp member, Function.entryBlock]
      cases blocks : s.program.functions[slot].blocks with
      | nil => exact .inl rfl
      | cons first rest =>
        obtain ⟨block, foundBlock, _⟩ := fits.wellFormed.exists_listed (f := Int.ofNat slot) found
          (blocks ▸ List.mem_cons_self)
        exact .inr ⟨block, foundBlock⟩

theorem externalRoots_finds (fits : Fits s) :
    Finds s.program (externalRoots s) s.externalRoots :=
  .flatten fun slot _ => firstBlocks_finds fits slot

theorem nextBlocks_finds (fits : Fits s) {b : Nat} (bound : b < s.program.blocks.size) :
    Finds s.program (nextBlocks s b) (s.nextBlocks b) := by
  have found : s.block? b = some s.program.blocks[b] := Array.getElem?_eq_getElem bound
  have successors : ∀ successor ∈ s.program.blocks[b].successors, HasPlace s.program successor := by
    intro successor follows
    obtain ⟨next, foundNext, _⟩ :=
      (fits.wellFormed.block (b := Int.ofNat b) found).successors successor follows
    exact .inr ⟨next, foundNext⟩
  rw [nextBlocks, Setting.nextBlocks, found]
  simp only [Option.bind_eq_bind, Option.bind_some]
  split
  case isFalse => exact ⟨_, rfl, by simp [positions], successors⟩
  case isTrue call =>
    have entered : Finds s.program (calleeBlocks s s.program.blocks[b])
        (s.calleeBlocks s.program.blocks[b]) := by
      rw [calleeBlocks, fits.calleeSlots found call]
      refine .flatten fun slot _ => ?_
      split
      · exact externalRoots_finds fits
      · exact firstBlocks_finds fits slot
    obtain ⟨ids, isFound, same, places⟩ := entered
    rw [isFound]
    refine ⟨_, rfl, ?_, ?_⟩
    · rw [positions_append, same]
      rfl
    · intro id member
      exact (List.mem_append.mp member).elim (successors id) (places id)

/-! ## Staying within the program -/

/-- A search over a number of blocks, with a table of parents that says how it came to the blocks
that it has reached. -/
structure Sound (count : Nat) (trail : Trail) : Prop where
  divides : trail.search.Divides count
  pending : ∀ b ∈ trail.search.pending, b ∈ trail.search.order
  traced : Traced trail.search.arrivals.reverse
  size : trail.parents.size = count
  parents : ∀ arrival ∈ trail.search.arrivals, trail.parents[arrival.block]? = some arrival.via

namespace Sound

variable {count : Nat} {trail : Trail} (sound : Sound count trail)
include sound

theorem lt_of_mem_order {b : Nat} (reached : b ∈ trail.search.order) : b < count :=
  List.mem_range.mp (sound.divides.mem_iff.mp (List.mem_append_right _ reached))

/-- A block that is reached now, through one that was reached before. -/
theorem arrive {via : Option Nat} (known : ∀ a ∈ via, a ∈ trail.search.order) {b : Nat}
    (unseen : b ∈ trail.search.unseen) (bound : b < count) :
    Sound count ⟨trail.search.arrive via b, trail.parents.setIfInBounds b via⟩ where
  divides := by
    have after := sound.divides.reach via b
    rwa [Search.reach_eq, if_pos unseen] at after
  pending := by
    intro c member
    rw [Search.order_arrive, List.mem_append]
    exact (List.mem_append.mp member).imp (sound.pending c) id
  traced := by
    rw [Search.arrive, List.reverse_append]
    refine ⟨fun a isVia => ?_, sound.traced⟩
    show a ∈ trail.search.arrivals.reverse.map (·.block)
    rw [List.map_reverse, List.mem_reverse]
    exact known a isVia
  size := Array.size_setIfInBounds.trans sound.size
  parents := by
    intro arrival member
    rcases List.mem_append.mp member with before | isNew
    · have differs : b ≠ arrival.block := by
        rintro rfl
        exact sound.divides.not_mem_order unseen (List.mem_map_of_mem before)
      rw [Array.getElem?_setIfInBounds_ne differs]
      exact sound.parents arrival before
    · rw [List.mem_singleton.mp isNew]
      exact Array.getElem?_setIfInBounds_self_of_lt (sound.size.symm ▸ bound)

/-- **A block is reached without a failing lookup.** -/
theorem exists_reach {via : Option Nat} (known : ∀ a ∈ via, a ∈ trail.search.order) {b : Nat}
    (bound : b < count) :
    ∃ next, Checked.reach via trail (Int.ofNat b) = some next ∧
      next.search = trail.search.reach via b ∧ Sound count next := by
  by_cases reached : b ∈ trail.search.order
  · have seen : b ∉ trail.search.unseen := fun unseen => sound.divides.not_mem_order unseen reached
    refine ⟨trail, if_pos (.inr ⟨Int.natCast_nonneg b, reached⟩), ?_, sound⟩
    rw [Search.reach_eq, if_neg seen]
  · have unseen := (sound.divides.mem_or bound).resolve_right reached
    have found : Checked.reach via trail (Int.ofNat b) =
        some ⟨trail.search.reach via b, trail.parents.setIfInBounds b via⟩ := by
      have isNew : ¬ (Int.ofNat b = BlockId.absent ∨
          0 ≤ Int.ofNat b ∧ (Int.ofNat b).toNat ∈ trail.search.order) := by
        rintro (absent | seen)
        · cases absent
        · exact reached seen.2
      rw [Checked.reach, if_neg isNew, write_ofNat (sound.size.symm ▸ bound)]
      rfl
    refine ⟨_, found, rfl, ?_⟩
    rw [Search.reach_eq, if_pos unseen]
    exact sound.arrive known unseen bound

end Sound

theorem exists_foldlM_reach {ids : List BlockId} (places : ∀ b ∈ ids, HasPlace p b) {trail : Trail}
    (sound : Sound p.blocks.size trail) {via : Option Nat}
    (known : ∀ a ∈ via, a ∈ trail.search.order) :
    ∃ next, ids.foldlM (reach via) trail = some next ∧
      next.search = trail.search.reachAll via (positions ids) ∧ Sound p.blocks.size next := by
  induction ids generalizing trail with
  | nil => exact ⟨trail, rfl, rfl, sound⟩
  | cons b rest ih =>
    obtain ⟨place, placesRest⟩ := List.forall_mem_cons.mp places
    rcases place with rfl | ⟨block, found⟩
    · exact ih placesRest sound known
    · obtain ⟨i, rfl, inside⟩ := entryAt?_eq_some_iff.mp found
      obtain ⟨now, reached, search, soundNow⟩ :=
        sound.exists_reach known (Program.lt_of_block? inside)
      have knownNow : ∀ a ∈ via, a ∈ now.search.order := by
        intro a isVia
        rw [search]
        exact (sound.divides.extends_reach via i a (known a isVia)).1
      obtain ⟨next, reachedRest, searchRest, soundNext⟩ := ih placesRest soundNow knownNow
      refine ⟨next, ?_, ?_, soundNext⟩
      · rw [List.foldlM_cons, reached]
        exact reachedRest
      · rw [searchRest, search]
        simp [positions, Search.reachAll]

theorem Finds.exists_reachAll {found : Option (List BlockId)} {blocks : List Nat}
    (finds : Finds p found blocks) {trail : Trail} (sound : Sound p.blocks.size trail)
    {via : Option Nat} (known : ∀ a ∈ via, a ∈ trail.search.order) :
    ∃ next, Checked.reachAll via trail found = some next ∧
      next.search = trail.search.reachAll via blocks ∧ Sound p.blocks.size next := by
  obtain ⟨ids, rfl, rfl, places⟩ := finds
  exact exists_foldlM_reach places sound known

theorem exists_exhaust (fits : Fits s) {search : Search} {trail : Trail}
    (same : trail.search = search) (sound : Sound s.program.blocks.size trail) :
    ∃ final, exhaust s trail = some final ∧ final.search = search.exhaust s.nextBlocks ∧
      Sound s.program.blocks.size final := by
  fun_induction Search.exhaust s.nextBlocks search generalizing trail with
  | case1 unseen arrivals =>
    obtain ⟨_, parents⟩ := trail
    obtain rfl := same
    rw [exhaust]
    exact ⟨_, rfl, rfl, sound⟩
  | case2 unseen b pending arrivals ih =>
    obtain ⟨_, parents⟩ := trail
    obtain rfl := same
    have reachedBefore := sound.pending b List.mem_cons_self
    have rest : Sound s.program.blocks.size ⟨⟨unseen, pending, arrivals⟩, parents⟩ :=
      ⟨sound.divides, fun c later => sound.pending c (List.mem_cons_of_mem _ later), sound.traced,
        sound.size, sound.parents⟩
    have known : ∀ a ∈ some b, a ∈ Search.order ⟨unseen, pending, arrivals⟩ := by
      rintro a ⟨⟩
      exact reachedBefore
    obtain ⟨next, reached, search, soundNext⟩ :=
      (nextBlocks_finds fits (sound.lt_of_mem_order reachedBefore)).exists_reachAll rest known
    rw [exhaust]
    split
    case h_1 failed =>
      rw [reached] at failed
      cases failed
    case h_2 found =>
      rw [reached] at found
      cases found
      exact ih search soundNext

theorem exists_searchFrom (fits : Fits s) {found : Option (List BlockId)} {blocks : List Nat}
    (finds : Finds s.program found blocks) {trail : Trail}
    (sound : Sound s.program.blocks.size trail) :
    ∃ final, searchFrom s found trail = some final ∧
      final.search = (trail.search.reachAll none blocks).exhaust s.nextBlocks ∧
      Sound s.program.blocks.size final := by
  have known : ∀ a ∈ (none : Option Nat), a ∈ trail.search.order :=
    fun a isVia => absurd isVia (Option.not_mem_none a)
  obtain ⟨next, reached, search, soundNext⟩ := finds.exists_reachAll sound known
  rw [searchFrom, reached, Option.bind_some]
  exact exists_exhaust fits search soundNext

/-- **The search finds what it looks up and stays within the program.** -/
theorem reachable_eq_some (fits : Fits s) :
    ∃ trail, reachable s = some trail ∧ trail.search = s.reachable ∧
      Sound s.program.blocks.size trail := by
  obtain ⟨function, found, _⟩ := fits.wellFormed.entry
  obtain ⟨i, isEntry, inside⟩ := entryAt?_eq_some_iff.mp found
  have entry : slotOf? s.graph.functionCount s.program.entry = some s.program.entry.toNat := by
    rw [isEntry, fits.functionCount]
    exact slotOf?_ofNat (Program.lt_of_function? inside)
  have start : Sound s.program.blocks.size
      ⟨⟨List.range s.program.blocks.size, [], []⟩, Array.replicate s.program.blocks.size none⟩ :=
    ⟨by simp [Search.Divides, Search.order], by simp, trivial, by simp, by simp⟩
  obtain ⟨fromEntry, first, search, sound⟩ :=
    exists_searchFrom fits (firstBlocks_finds fits s.program.entry.toNat) start
  obtain ⟨trail, second, searchBoth, soundBoth⟩ :=
    exists_searchFrom fits (externalRoots_finds fits) sound
  refine ⟨trail, ?_, ?_, soundBoth⟩
  · simp only [reachable, entry, first, second, Option.bind_eq_bind, Option.bind_some]
  · rw [searchBoth, search]
    rfl

/-! ## Paths and exposure -/

/-- A chain of blocks through which control may reach a block, if it is reachable. -/
def pathTo (r : Result) (b : BlockId) : Option (Option (List Nat)) := do
  let trail ← reachable r.setting
  if 0 ≤ b ∧ b.toNat ∈ trail.search.order then
    (follow trail.parents trail.parents.size b.toNat []).map some
  else some none

/-- For each distinct live set, how much reachable code runs with it, the largest
first. -/
def exposure (r : Result) : Option (List Exposure) := do
  let trail ← reachable r.setting
  let entered ← trail.search.order.mapM fun b =>
    (read r.tables ⟨.liveIn, b⟩).map (b, ·)
  let entries ← (entered.map (·.2)).eraseDups.mapM fun s => do
    let blocks := (entered.filter (·.2 == s)).map (·.1)
    let code ← blocks.mapM r.setting.block?
    some (Exposure.mk s blocks.length
      (code.foldl (fun sum block => wrap64 (sum + block.instructions)) 0))
  some (entries.mergeSort fun a b => a.compare b != .gt)

variable {r : Result}

theorem pathTo_eq_some (fits : ResultFits r) (b : BlockId) : pathTo r b = some (r.pathTo? b) := by
  obtain ⟨trail, found, search, sound⟩ := reachable_eq_some fits.fits
  have any : r.setting.reachable.arrivals.any (·.block == b.toNat) =
      decide (b.toNat ∈ r.setting.reachable.order) := by
    rw [Bool.eq_iff_iff, List.any_eq_true, decide_eq_true_iff, Search.order, List.mem_map]
    simp only [beq_iff_eq]
  simp only [pathTo, Result.pathTo?, Search.pathTo?, found, search, any, Option.bind_eq_bind,
    Option.bind_some]
  by_cases nonneg : 0 ≤ b
  case neg => simp [nonneg]
  case pos =>
    by_cases reached : b.toNat ∈ r.setting.reachable.order
    case neg => simp [nonneg, reached]
    case pos =>
      rw [← search] at reached
      have enough : trail.search.arrivals.reverse.length ≤ trail.parents.size := by
        have fewer := sound.divides.length_eq
        rw [List.length_append, List.length_range, Search.order, List.length_map] at fewer
        rw [List.length_reverse, sound.size]
        omega
      have way := follow_eq_some sound.traced
        (fun arrival member => sound.parents arrival (List.mem_reverse.mp member))
        (by rwa [List.map_reverse, List.mem_reverse]) enough []
      rw [search] at way reached
      simp [nonneg, reached, way]

theorem exposure_eq_some (fits : ResultFits r) : exposure r = some r.exposure := by
  obtain ⟨trail, found, search, sound⟩ := reachable_eq_some fits.fits
  have inside : ∀ b ∈ r.setting.reachable.order, b < r.setting.program.blocks.size := by
    intro b member
    rw [← search] at member
    exact sound.lt_of_mem_order member
  have order : r.setting.reachable.arrivals.map (·.block) = r.setting.reachable.order := rfl
  simp only [exposure, Result.exposure, found, search, order, Option.bind_eq_bind,
    Option.bind_some]
  generalize r.setting.reachable.order = blocks at inside
  have entered : blocks.mapM (fun b => (read r.tables ⟨.liveIn, b⟩).map (b, ·)) =
      some (blocks.map fun b => (b, r.liveAt b)) := by
    refine mapM_eq_some ?_
    intro b member
    rw [read_eq_some fits.sized ⟨.liveIn, b⟩ (inside b member), Option.map_some]
    rfl
  have enteredWith : ∀ s, ((blocks.map fun b => (b, r.liveAt b)).filter (·.2 == s)).map (·.1) =
      r.enteredWith blocks s := by
    intro s
    rw [List.filter_map, List.map_map]
    exact List.map_id _
  have code : ∀ s, (r.enteredWith blocks s).mapM r.setting.block? =
      some ((r.enteredWith blocks s).filterMap r.setting.block?) := by
    intro s
    refine mapM_eq_filterMap ?_
    intro b member
    have bound := inside b (List.mem_filter.mp member).1
    exact Option.isSome_iff_exists.mpr ⟨_, Array.getElem?_eq_getElem bound⟩
  simp only [entered, enteredWith, code, Option.bind_some, List.map_map, Function.comp_def]
  rw [mapM_eq_some fun s _ => rfl]
  rfl

end CapLiveness.Checked
