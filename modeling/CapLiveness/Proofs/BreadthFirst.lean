import CapLiveness.Analysis.Reachability
import Mathlib.Data.List.Nodup
import Mathlib.Data.List.Perm.Basic

/-!
# Breadth-first search

A search reaches blocks one after the other and remembers through which block it came to
each of them. The way back from a block (`Search.way`) never changes once the block is
reached (`Search.Extends`), and its length is the depth of the block.

The search goes in phases. A phase starts from some roots, after earlier phases have reached
blocks that lead nowhere else. While the successors of a block are reached, every block
of the phase lies at most as deep as the blocks that are found now, those that are pending
at most one level higher, and the blocks stand in the order of their depth. This is the
invariant of the search (`Layered`). Reaching a block keeps it (`Layered.reach`), and so does
turning to the next pending block (`Layered.next`).

At the end of a phase every step leads from a block of the phase to an earlier phase, or at
most one level down. So a chain of steps from a root that avoids the earlier phases is no
shorter than the depth of the block to which it leads (`Explored.depth_le`).
-/

set_option autoImplicit false

namespace CapLiveness

open Relation (ReflTransGen)

/-! ## Routes -/

section Route

variable {α : Type} {step : α → α → Prop} {isRoot : α → Prop}

/-- A chain of steps from a root, and its last member. -/
inductive Route (step : α → α → Prop) (isRoot : α → Prop) : List α → α → Prop where
  | root {b : α} (start : isRoot b) : Route step isRoot [b] b
  | step {path : List α} {a b : α} (before : Route step isRoot path a) (follows : step a b) :
      Route step isRoot (path ++ [b]) b

theorem Route.reachable {path : List α} {b : α} (route : Route step isRoot path b) :
    ∃ a, isRoot a ∧ ReflTransGen step a b := by
  induction route with
  | root start => exact ⟨_, start, .refl⟩
  | step _ follows ih =>
    obtain ⟨a, start, reaches⟩ := ih
    exact ⟨a, start, reaches.tail follows⟩

theorem exists_route {a b : α} (start : isRoot a) (reaches : ReflTransGen step a b) :
    ∃ path, Route step isRoot path b := by
  induction reaches with
  | refl => exact ⟨[a], .root start⟩
  | tail _ follows ih =>
    obtain ⟨path, route⟩ := ih
    exact ⟨_, route.step follows⟩

/-- A route comes to each of its members no later than to its end. -/
theorem Route.exists_of_mem {path : List α} {b c : α} (route : Route step isRoot path b)
    (member : c ∈ path) : ∃ part, Route step isRoot part c ∧ part.length ≤ path.length := by
  induction route with
  | root start =>
    rw [List.mem_singleton.mp member]
    exact ⟨_, .root start, Nat.le_refl _⟩
  | @step path a b before follows ih =>
    rcases List.mem_append.mp member with earlier | last
    · obtain ⟨part, isRoute, le⟩ := ih earlier
      exact ⟨part, isRoute, by rw [List.length_append]; omega⟩
    · rw [List.mem_singleton.mp last]
      exact ⟨_, before.step follows, Nat.le_refl _⟩

/-- A route than which no other route to the same end is shorter. -/
structure ShortestRoute (step : α → α → Prop) (isRoot : α → Prop) (path : List α) (b : α) :
    Prop where
  route : Route step isRoot path b
  le : ∀ {other : List α}, Route step isRoot other b → path.length ≤ other.length

/-- Shortest routes never come to a place twice. -/
theorem ShortestRoute.nodup {path : List α} {b : α} (shortest : ShortestRoute step isRoot path b) :
    path.Nodup := by
  obtain ⟨route, le⟩ := shortest
  induction route with
  | root => exact List.nodup_singleton _
  | @step path a b before follows ih =>
    have leBefore : ∀ {other : List α}, Route step isRoot other a → path.length ≤ other.length := by
      intro other route
      simpa using le (route.step follows)
    refine List.nodup_append.mpr ⟨ih leBefore, List.nodup_singleton _, ?_⟩
    rintro c earlier d last rfl
    rw [List.mem_singleton.mp last] at earlier
    obtain ⟨part, isRoute, shorter⟩ := before.exists_of_mem earlier
    have notShorter := le isRoute
    rw [List.length_append, List.length_singleton] at notShorter
    omega

end Route

namespace Search

/-! ## Ways -/

/-- The blocks reached, in the order in which they were reached. -/
def order (search : Search) : List Nat := search.arrivals.map (·.block)

/-- The way from a root to a block. -/
def way (search : Search) (b : Nat) : List Nat := wayTo search.arrivals.reverse b []

/-- The number of blocks on the way from a root to a block. -/
def depth (search : Search) (b : Nat) : Nat := (search.way b).length

/-- The way to the block through which a block is reached; there is none to a root. -/
def wayBefore (search : Search) : Option Nat → List Nat
  | none => []
  | some via => search.way via

theorem wayTo_eq_append (arrivals : List Arrival) (b : Nat) (rest : List Nat) :
    wayTo arrivals b rest = wayTo arrivals b [] ++ rest := by
  induction arrivals generalizing b rest with
  | nil => rfl
  | cons arrival earlier ih =>
    unfold wayTo
    split
    case isFalse => exact ih b rest
    case isTrue =>
      cases arrival.via with
      | none => rfl
      | some via =>
        dsimp only
        rw [ih via (b :: rest), ih via [b], List.append_assoc]
        rfl

/-- The search after a block was reached for the first time. -/
def arrive (search : Search) (via : Option Nat) (b : Nat) : Search :=
  ⟨search.unseen.erase b, search.pending ++ [b], search.arrivals ++ [⟨b, via⟩]⟩

theorem reach_eq (search : Search) (via : Option Nat) (b : Nat) :
    search.reach via b = if b ∈ search.unseen then search.arrive via b else search := rfl

@[simp] theorem order_arrive (search : Search) (via : Option Nat) (b : Nat) :
    (search.arrive via b).order = search.order ++ [b] :=
  List.map_append

/-- The way to a block that is reached now. -/
theorem way_arrive (search : Search) (via : Option Nat) (b : Nat) :
    (search.arrive via b).way b = search.wayBefore via ++ [b] := by
  cases via with
  | none => simp [arrive, way, wayTo, wayBefore]
  | some via =>
    simp only [arrive, way, wayBefore, List.reverse_append, List.reverse_singleton,
      List.singleton_append, wayTo, if_true]
    exact wayTo_eq_append _ _ _

/-- The ways to other blocks stay as they are. -/
theorem way_arrive_of_ne (search : Search) (via : Option Nat) {b c : Nat} (different : c ≠ b) :
    (search.arrive via b).way c = search.way c := by
  simp [arrive, way, wayTo, different.symm]

/-- Whether a search has reached whatever another one has, and on the same ways. -/
def Extends (search later : Search) : Prop :=
  ∀ b ∈ search.order, b ∈ later.order ∧ later.way b = search.way b

theorem Extends.refl (search : Search) : search.Extends search :=
  fun _ reached => ⟨reached, rfl⟩

theorem Extends.trans {first second third : Search} (before : first.Extends second)
    (after : second.Extends third) : first.Extends third := by
  intro b reached
  obtain ⟨reachedSecond, sameSecond⟩ := before b reached
  obtain ⟨reachedThird, sameThird⟩ := after b reachedSecond
  exact ⟨reachedThird, sameThird.trans sameSecond⟩

theorem Extends.depth_eq {search later : Search} (grows : search.Extends later) {b : Nat}
    (reached : b ∈ search.order) : later.depth b = search.depth b :=
  congrArg List.length (grows b reached).2

theorem Extends.wayBefore_eq {search later : Search} (grows : search.Extends later)
    {via : Option Nat} (known : ∀ b ∈ via, b ∈ search.order) :
    later.wayBefore via = search.wayBefore via := by
  cases via with
  | none => rfl
  | some b => exact (grows b (known b rfl)).2

/-! ## Reaching blocks -/

/-- Every block below a count is unseen or reached, and not both. -/
def Divides (search : Search) (count : Nat) : Prop :=
  (search.unseen ++ search.order).Perm (List.range count)

section Reach

variable {search : Search} {count : Nat} (divides : search.Divides count)
include divides

theorem Divides.mem_or {b : Nat} (bound : b < count) : b ∈ search.unseen ∨ b ∈ search.order :=
  List.mem_append.mp (divides.mem_iff.mpr (List.mem_range.mpr bound))

theorem Divides.not_mem_order {b : Nat} (unseen : b ∈ search.unseen) : b ∉ search.order := by
  have nodup : (search.unseen ++ search.order).Nodup := divides.nodup_iff.mpr List.nodup_range
  intro reached
  exact (List.nodup_append.mp nodup).2.2 b unseen b reached rfl

theorem Divides.nodup_order : search.order.Nodup :=
  (List.nodup_append.mp (divides.nodup_iff.mpr List.nodup_range)).2.1

theorem Divides.reach (via : Option Nat) (b : Nat) : (search.reach via b).Divides count := by
  rw [reach_eq]
  split
  case isFalse => exact divides
  case isTrue unseen =>
    refine List.Perm.trans ?_ divides
    rw [order_arrive, ← List.append_assoc]
    exact (List.perm_append_singleton b _).trans
      ((List.perm_cons_erase unseen).symm.append_right search.order)

theorem Divides.extends_reach (via : Option Nat) (b : Nat) :
    search.Extends (search.reach via b) := by
  rw [reach_eq]
  split
  case isFalse => exact Extends.refl search
  case isTrue unseen =>
    intro c reached
    have different : c ≠ b := fun same => divides.not_mem_order unseen (same ▸ reached)
    rw [order_arrive]
    exact ⟨List.mem_append_left _ reached, way_arrive_of_ne search via different⟩

theorem Divides.reachAll (via : Option Nat) (blocks : List Nat) :
    (search.reachAll via blocks).Divides count := by
  unfold Search.reachAll
  induction blocks generalizing search with
  | nil => exact divides
  | cons b rest ih => exact ih (divides.reach via b)

theorem Divides.extends_reachAll (via : Option Nat) (blocks : List Nat) :
    search.Extends (search.reachAll via blocks) := by
  unfold Search.reachAll
  induction blocks generalizing search with
  | nil => exact Extends.refl search
  | cons b rest ih => exact (divides.extends_reach via b).trans (ih (divides.reach via b))

/-- Reaching blocks reaches all of them. -/
theorem Divides.mem_order_reachAll (via : Option Nat) {blocks : List Nat}
    (inside : ∀ b ∈ blocks, b < count) {b : Nat} (member : b ∈ blocks) :
    b ∈ (search.reachAll via blocks).order := by
  unfold Search.reachAll
  induction blocks generalizing search with
  | nil => cases member
  | cons first rest ih =>
    obtain ⟨insideFirst, insideRest⟩ := List.forall_mem_cons.mp inside
    have dividesFirst := divides.reach via first
    rcases List.mem_cons.mp member with rfl | later
    · have reached : b ∈ (search.reach via b).order := by
        rcases divides.mem_or insideFirst with unseen | reached
        · simp [reach_eq, unseen]
        · exact (divides.extends_reach via b b reached).1
      exact (dividesFirst.extends_reachAll via rest b reached).1
    · exact ih dividesFirst insideRest later

end Reach

/-! ## The invariant -/

/-- **The invariant of a phase.** The blocks of the phase that are done or pending stand in the
order of their depth, and none is deeper than the level at which blocks are found now. -/
structure Layered (next : Nat → List Nat) (count : Nat) (roots before done : List Nat)
    (level : Nat) (search : Search) : Prop where
  divides : search.Divides count
  order : search.order = before ++ (done ++ search.pending)
  routes : ∀ b ∈ done ++ search.pending, Route (fun a b => b ∈ next a) (· ∈ roots) (search.way b) b
  sorted : (done ++ search.pending).Pairwise fun a b => search.depth a ≤ search.depth b
  bounded : ∀ b ∈ done ++ search.pending, search.depth b ≤ level
  /-- What is pending lies at most one level higher. -/
  ripe : ∀ b ∈ search.pending, level ≤ search.depth b + 1

namespace Layered

variable {next : Nat → List Nat} {count : Nat} {roots before done : List Nat} {level : Nat}
  {search : Search} (layered : Layered next count roots before done level search)
include layered

theorem mem_order {b : Nat} (member : b ∈ done ++ search.pending) : b ∈ search.order :=
  layered.order ▸ List.mem_append_right _ member

/-- **Reaching a block keeps the invariant**, if the way to it is a chain of steps that ends at
the level. -/
theorem reach {via : Option Nat} {b : Nat} (atLevel : (search.wayBefore via).length + 1 = level)
    (leads : Route (fun a b => b ∈ next a) (· ∈ roots) (search.wayBefore via ++ [b]) b) :
    Layered next count roots before done level (search.reach via b) := by
  have grows := layered.divides.extends_reach via b
  have divides := layered.divides.reach via b
  rw [reach_eq] at grows divides ⊢
  split
  case isFalse => exact layered
  case isTrue unseen =>
    rw [if_pos unseen] at grows divides
    -- The new block lies at the level; all others keep their depth.
    have atB : (search.arrive via b).depth b = level := by
      rw [depth, way_arrive, List.length_append]
      exact atLevel
    have kept : ∀ a ∈ done ++ search.pending, (search.arrive via b).depth a = search.depth a :=
      fun a member => grows.depth_eq (layered.mem_order member)
    have pending : done ++ (search.arrive via b).pending = (done ++ search.pending) ++ [b] :=
      (List.append_assoc ..).symm
    refine ⟨divides, ?_, ?_, ?_, ?_, ?_⟩
    · rw [pending, order_arrive, ← List.append_assoc, ← layered.order]
    · rw [pending]
      intro a member
      rcases List.mem_append.mp member with old | isB
      · rw [(grows a (layered.mem_order old)).2]
        exact layered.routes a old
      · rw [List.mem_singleton.mp isB, way_arrive]
        exact leads
    · rw [pending, List.pairwise_append]
      refine ⟨layered.sorted.imp_of_mem ?_, List.pairwise_singleton _ _, ?_⟩
      · intro a c memberA memberC le
        rw [kept a memberA, kept c memberC]
        exact le
      · intro a member c isB
        rw [List.mem_singleton.mp isB, atB, kept a member]
        exact layered.bounded a member
    · rw [pending]
      intro a member
      rcases List.mem_append.mp member with old | isB
      · rw [kept a old]
        exact layered.bounded a old
      · rw [List.mem_singleton.mp isB]
        exact Nat.le_of_eq atB
    · intro a member
      rcases List.mem_append.mp member with old | isB
      · rw [kept a (List.mem_append_right _ old)]
        exact layered.ripe a old
      · rw [List.mem_singleton.mp isB, atB]
        exact Nat.le_succ level

theorem reachAll (via : Option Nat) (blocks : List Nat) (known : ∀ a ∈ via, a ∈ search.order)
    (atLevel : (search.wayBefore via).length + 1 = level)
    (leads : ∀ b ∈ blocks,
      Route (fun a b => b ∈ next a) (· ∈ roots) (search.wayBefore via ++ [b]) b) :
    Layered next count roots before done level (search.reachAll via blocks) := by
  unfold Search.reachAll
  induction blocks generalizing search with
  | nil => exact layered
  | cons b rest ih =>
    obtain ⟨leadsFirst, leadsRest⟩ := List.forall_mem_cons.mp leads
    have grows := layered.divides.extends_reach via b
    have same := grows.wayBefore_eq known
    exact ih (layered.reach atLevel leadsFirst) (fun a isVia => (grows a (known a isVia)).1)
      (same ▸ atLevel) (same ▸ leadsRest)

end Layered

/-- **Turning to the next pending block keeps the invariant**, one level below that block. -/
theorem Layered.next {next : Nat → List Nat} {count : Nat} {roots before done : List Nat}
    {level b : Nat} {unseen pending : List Nat} {arrivals : List Arrival}
    (layered : Layered next count roots before done level ⟨unseen, b :: pending, arrivals⟩) :
    Layered next count roots before (done ++ [b]) (depth ⟨unseen, b :: pending, arrivals⟩ b + 1)
      ⟨unseen, pending, arrivals⟩ := by
  have shift : done ++ [b] ++ pending = done ++ b :: pending := by
    rw [List.append_assoc, List.singleton_append]
  have isNext : b ∈ done ++ b :: pending := List.mem_append_right _ List.mem_cons_self
  refine ⟨layered.divides, ?_, ?_, ?_, ?_, ?_⟩
  · rw [shift]
    exact layered.order
  · rw [shift]
    exact layered.routes
  · rw [shift]
    exact layered.sorted
  · rw [shift]
    intro a member
    exact Nat.le_trans (layered.bounded a member) (layered.ripe b List.mem_cons_self)
  · intro a later
    have sorted := (List.pairwise_append.mp layered.sorted).2.1
    exact Nat.succ_le_succ ((List.pairwise_cons.mp sorted).1 a later)

/-! ## The end of a phase -/

/-- Every step from the given blocks leads to an earlier phase, or at most one level down. -/
def Expanded (search : Search) (next : Nat → List Nat) (before blocks : List Nat) : Prop :=
  ∀ b ∈ blocks, ∀ c ∈ next b, c ∈ before ∨ (c ∈ search.order ∧ search.depth c ≤ search.depth b + 1)

theorem Expanded.of_extends {search later : Search} {next : Nat → List Nat}
    {before blocks : List Nat} (expanded : search.Expanded next before blocks)
    (grows : search.Extends later) (reached : ∀ b ∈ blocks, b ∈ search.order) :
    later.Expanded next before blocks := by
  intro b member c follows
  refine (expanded b member c follows).imp_right ?_
  rintro ⟨reachedC, le⟩
  rw [grows.depth_eq reachedC, grows.depth_eq (reached b member)]
  exact ⟨(grows c reachedC).1, le⟩

/-- What a phase has reached when nothing is pending any more. -/
structure Explored (next : Nat → List Nat) (count : Nat) (roots before done : List Nat)
    (search : Search) : Prop where
  divides : search.Divides count
  order : search.order = before ++ done
  routes : ∀ b ∈ done, Route (fun a b => b ∈ next a) (· ∈ roots) (search.way b) b
  expanded : search.Expanded next before done
  roots : ∀ b ∈ roots, b ∈ before ∨ (b ∈ search.order ∧ search.depth b ≤ 1)

section Phase

variable {next : Nat → List Nat} {count : Nat} (inside : ∀ b, ∀ c ∈ next b, c < count)
  {roots before : List Nat}
include inside

/-- **Expanding a block.** The step of the search keeps the invariant, and afterwards the steps
from this block are taken too. -/
theorem Layered.expand {done : List Nat} {level b : Nat} {unseen pending : List Nat}
    {arrivals : List Arrival}
    (layered : Layered next count roots before done level ⟨unseen, b :: pending, arrivals⟩)
    (expanded : Expanded ⟨unseen, b :: pending, arrivals⟩ next before done) {after : Search}
    (isAfter : Search.reachAll (some b) ⟨unseen, pending, arrivals⟩ (next b) = after) :
    Layered next count roots before (done ++ [b])
        (Search.depth ⟨unseen, b :: pending, arrivals⟩ b + 1) after ∧
      after.Expanded next before (done ++ [b]) ∧
      Extends ⟨unseen, b :: pending, arrivals⟩ after := by
  subst isAfter
  have turned := layered.next
  have isDone : b ∈ done ++ [b] ++ pending := by simp
  have known : ∀ a ∈ some b, a ∈ Search.order ⟨unseen, pending, arrivals⟩ := by
    intro a isB
    rw [← Option.some.inj isB]
    exact turned.mem_order isDone
  have reached := turned.reachAll (some b) (next b) known rfl
    fun c follows => (turned.routes b isDone).step follows
  have grows := turned.divides.extends_reachAll (some b) (next b)
  refine ⟨reached, ?_, grows⟩
  intro a member
  rcases List.mem_append.mp member with earlier | now
  · exact expanded.of_extends grows (fun a member => turned.mem_order (by simp [member])) a earlier
  · rw [List.mem_singleton.mp now]
    intro c follows
    have reachedC := turned.divides.mem_order_reachAll (some b) (inside b) follows
    rw [grows.depth_eq (known b rfl)]
    rcases List.mem_append.mp (reached.order ▸ reachedC) with old | new
    · exact .inl old
    · exact .inr ⟨reachedC, reached.bounded c new⟩

/-- **A phase goes on until all its steps are taken.** -/
theorem Layered.exhaust {done : List Nat} {level : Nat} {search : Search}
    (layered : Layered next count roots before done level search)
    (expanded : search.Expanded next before done)
    (found : ∀ b ∈ roots, b ∈ before ∨ (b ∈ search.order ∧ search.depth b ≤ 1)) :
    ∃ done, Explored next count roots before done (search.exhaust next) ∧
      (search.exhaust next).pending = [] ∧ search.Extends (search.exhaust next) := by
  fun_induction Search.exhaust next search generalizing done level with
  | case1 unseen arrivals =>
    obtain ⟨divides, order, routes, _⟩ := layered
    dsimp only at order routes
    rw [List.append_nil] at order routes
    exact ⟨done, ⟨divides, order, routes, expanded, found⟩, rfl, Extends.refl _⟩
  | case2 unseen b pending arrivals ih =>
    obtain ⟨layeredHere, expandedHere, grows⟩ := layered.expand inside expanded rfl
    obtain ⟨done, explored, idle, growsRest⟩ := ih layeredHere expandedHere fun a isRoot =>
      (found a isRoot).imp_right fun ⟨reached, le⟩ =>
        ⟨(grows a reached).1, grows.depth_eq reached ▸ le⟩
    exact ⟨done, explored, idle, grows.trans growsRest⟩

/-- **A phase from some roots.** -/
theorem explored_of_idle {search : Search} (divides : search.Divides count)
    (idle : search.pending = []) (rootsInside : ∀ b ∈ roots, b < count) :
    ∃ done, Explored next count roots search.order done
        ((search.reachAll none roots).exhaust next) ∧
      ((search.reachAll none roots).exhaust next).pending = [] ∧
      search.Extends ((search.reachAll none roots).exhaust next) := by
  have start : Layered next count roots search.order [] 1 search :=
    ⟨divides, by simp [idle], by simp [idle], by simp [idle], by simp [idle], by simp [idle]⟩
  have reached := start.reachAll none roots nofun rfl
    fun b isRoot => .root isRoot
  have found : ∀ b ∈ roots, b ∈ search.order ∨
      (b ∈ (search.reachAll none roots).order ∧ (search.reachAll none roots).depth b ≤ 1) := by
    intro b isRoot
    have reachedB := divides.mem_order_reachAll none rootsInside isRoot
    rcases List.mem_append.mp (reached.order ▸ reachedB) with old | new
    · exact .inl old
    · exact .inr ⟨reachedB, reached.bounded b new⟩
  obtain ⟨done, explored, idleAfter, grows⟩ := reached.exhaust inside nofun found
  exact ⟨done, explored, idleAfter, (divides.extends_reachAll none roots).trans grows⟩

end Phase

namespace Explored

variable {next : Nat → List Nat} {count : Nat} {roots before done : List Nat} {search : Search}
  (explored : Explored next count roots before done search)
  (closed : ∀ b ∈ before, ∀ c ∈ next b, c ∈ before)
include explored closed

/-- No step leads out of what was reached. -/
theorem closed_order : ∀ b ∈ search.order, ∀ c ∈ next b, c ∈ search.order := by
  rw [explored.order]
  intro b reached c follows
  rcases List.mem_append.mp reached with old | new
  · exact List.mem_append_left _ (closed b old c follows)
  · rcases explored.expanded b new c follows with old | ⟨reachedC, _⟩
    · exact List.mem_append_left _ old
    · exact explored.order ▸ reachedC

/-- **Routes that avoid the earlier phases are no shorter than the ways of the search.** -/
theorem depth_le {path : List Nat} {b : Nat}
    (route : Route (fun a b => b ∈ next a) (· ∈ roots) path b) :
    b ∈ before ∨ (b ∈ done ∧ search.depth b ≤ path.length) := by
  have inDone : ∀ {b : Nat}, b ∈ before ∨ (b ∈ search.order ∧ search.depth b ≤ path.length) →
      b ∈ before ∨ (b ∈ done ∧ search.depth b ≤ path.length) := by
    rintro b (old | ⟨reached, le⟩)
    · exact .inl old
    · exact (List.mem_append.mp (explored.order ▸ reached)).imp_right fun new => ⟨new, le⟩
  apply inDone
  clear inDone
  induction route with
  | root isRoot => exact explored.roots _ isRoot
  | @step path a b _ follows ih =>
    rw [List.length_append, List.length_singleton]
    rcases ih with old | ⟨reached, le⟩
    · exact .inl (closed a old b follows)
    · rcases List.mem_append.mp (explored.order ▸ reached) with old | new
      · exact .inl (closed a old b follows)
      · refine (explored.expanded a new b follows).imp_right ?_
        rintro ⟨reachedB, leB⟩
        exact ⟨reachedB, by omega⟩

/-- The ways of a phase are shortest routes from its roots. -/
theorem shortest (apart : ∀ b ∈ done, b ∉ before) {b : Nat} (new : b ∈ done) :
    ShortestRoute (fun a b => b ∈ next a) (· ∈ roots) (search.way b) b := by
  refine ⟨explored.routes b new, ?_⟩
  intro other route
  exact ((explored.depth_le closed route).resolve_left (apart b new)).2

end Explored

/-! ## Two phases -/

/-- **A search in two phases.** It reaches exactly what can be reached from the roots of
either phase. The ways to what the first phase reaches are shortest routes from its roots,
and all other ways are shortest routes from the roots of the second phase. -/
theorem search_two_phases {next : Nat → List Nat} {count : Nat}
    (inside : ∀ b, ∀ c ∈ next b, c < count) {first second : List Nat}
    (insideFirst : ∀ b ∈ first, b < count) (insideSecond : ∀ b ∈ second, b < count)
    {middle : Search} (last : Search)
    (isMiddle : (reachAll none ⟨List.range count, [], []⟩ first).exhaust next = middle)
    (isLast : (middle.reachAll none second).exhaust next = last) :
    last.order.Nodup ∧
      (∀ b ∈ last.order,
        ShortestRoute (fun a b => b ∈ next a) (· ∈ first) (last.way b) b ∨
          ((∀ path, ¬ Route (fun a b => b ∈ next a) (· ∈ first) path b) ∧
            ShortestRoute (fun a b => b ∈ next a) (· ∈ second) (last.way b) b)) ∧
      ∀ path b, Route (fun a b => b ∈ next a) (· ∈ first) path b ∨
        Route (fun a b => b ∈ next a) (· ∈ second) path b → b ∈ last.order := by
  subst isLast isMiddle
  have start : Divides ⟨List.range count, [], []⟩ count := by simp [Divides, order]
  obtain ⟨early, explored, idle, _⟩ := explored_of_idle inside start rfl insideFirst
  obtain ⟨late, exploredAfter, _, grows⟩ :=
    explored_of_idle inside explored.divides idle insideSecond
  have closed := explored.closed_order nofun
  have isEarly : ∀ {path b}, Route (fun a b => b ∈ next a) (· ∈ first) path b → b ∈ early :=
    fun route => ((explored.depth_le nofun route).resolve_left List.not_mem_nil).1
  have nodup := exploredAfter.divides.nodup_order
  have orderEarly := explored.order
  rw [exploredAfter.order] at nodup ⊢
  rw [orderEarly] at closed nodup ⊢
  refine ⟨nodup, ?_, ?_⟩
  · intro b reached
    rcases List.mem_append.mp reached with old | new
    · left
      rw [(grows b (orderEarly ▸ old)).2]
      exact explored.shortest nofun (fun _ _ => List.not_mem_nil) old
    · have apart : ∀ b ∈ late, b ∉ [] ++ early := fun b new old =>
        (List.nodup_append.mp nodup).2.2 b old b new rfl
      right
      refine ⟨fun path route => apart b new (isEarly route), ?_⟩
      exact exploredAfter.shortest (orderEarly ▸ closed) (orderEarly ▸ apart) new
  · rintro path b (route | route)
    · exact List.mem_append_left _ (isEarly route)
    · rcases exploredAfter.depth_le (orderEarly ▸ closed) route with old | ⟨new, _⟩
      · exact List.mem_append_left _ (orderEarly ▸ old)
      · exact List.mem_append_right _ new

end Search

end CapLiveness
