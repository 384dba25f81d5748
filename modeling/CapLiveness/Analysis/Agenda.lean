import CapLiveness.Analysis.Generator
import CapLiveness.Analysis.Options

/-!
# Agendas

An agenda lists the pending entities and, beside the list, keeps the set of them.
The set is asked whether an entity is pending already; the list says what to take
next. The two are changed one by one, so they could fall out of step. The set stands
for one in any representation, such as sparse words of bits. All that is used of it
are the laws of membership (`Marks.not_mem_empty`, `Marks.mem_insert`,
`Marks.mem_remove`).

Which entity is next is a matter of the schedule: the oldest, the newest, or one
drawn from a source of choices. A drawn entity leaves a gap that the last one
fills. Only a schedule that draws has choices, so only its list can be shuffled.

An agenda is consistent when its list repeats nothing and its set has the members
of the list (`IsConsistent`). It is so at the start, and each operation keeps it
so: adding because a listed entity is not added again, taking because what is
taken and what stays are together what was listed (`perm_of_pop`), and shuffling
because it only exchanges entries (`shuffle_perm`). A source may answer with
positions that do not exist; then the last entity is taken and nothing is
exchanged. So none of this needs an assumption about the source.
-/

set_option autoImplicit false

namespace CapLiveness

variable {α σ : Type}

/-! ## Marks -/

/-- A finite set, told by its members. A member may be inserted again, and removing it
removes it for good. -/
structure Marks (α : Type) where
  members : List α

namespace Marks

instance : Membership α (Marks α) := ⟨fun marks x => x ∈ marks.members⟩

instance [DecidableEq α] (x : α) (marks : Marks α) : Decidable (x ∈ marks) :=
  inferInstanceAs (Decidable (x ∈ marks.members))

def empty : Marks α := ⟨[]⟩

def insert (marks : Marks α) (x : α) : Marks α := ⟨x :: marks.members⟩

def remove [DecidableEq α] (marks : Marks α) (x : α) : Marks α :=
  ⟨marks.members.filter fun y => !decide (y = x)⟩

@[simp] theorem not_mem_empty (x : α) : x ∉ (empty : Marks α) := List.not_mem_nil

@[simp] theorem mem_insert {marks : Marks α} {x y : α} :
    y ∈ marks.insert x ↔ y = x ∨ y ∈ marks := List.mem_cons

@[simp] theorem mem_remove [DecidableEq α] {marks : Marks α} {x y : α} :
    y ∈ marks.remove x ↔ y ∈ marks ∧ y ≠ x := by
  show y ∈ marks.members.filter _ ↔ y ∈ marks.members ∧ y ≠ x
  simp

end Marks

/-! ## Schedules -/

/-- Which entity is next. -/
inductive Schedule (σ : Type) where
  | oldest
  | newest
  /-- One chosen by a source in the given state. -/
  | drawn (choices : σ)

/-- The schedule of an order: an order that means nothing is first in, first out. -/
def Schedule.ofOrder (order : Order) (choices : σ) : Schedule σ :=
  match order with
  | .lifo => .newest
  | .random => .drawn choices
  | .fifo | .unknown _ => .oldest

/-! ## Operations -/

/-- Pending entities, in the order in which they became pending unless the
schedule draws, and the set of them. -/
structure Agenda (α σ : Type) where
  schedule : Schedule σ
  items : List α
  queued : Marks α

namespace Agenda

/-- Nothing is pending at the start. -/
def start (order : Order) (choices : σ) : Agenda α σ := ⟨.ofOrder order choices, [], .empty⟩

/-- Makes an entity pending, unless it already is. -/
def push [DecidableEq α] (a : Agenda α σ) (x : α) : Agenda α σ :=
  if x ∈ a.queued then a
  else { a with items := a.items ++ [x], queued := a.queued.insert x }

/-- A list in which the last entry has taken the place of the entry at `i`. -/
def moveLast (items : List α) (i : Nat) (last : α) : List α := (items.set i last).dropLast

/-- Takes the next entity of a list that is not empty: the entity, the entities
that stay, and the schedule that goes on with them. -/
def next (source : Source σ) (schedule : Schedule σ) (first : α) (rest : List α) :
    α × List α × Schedule σ :=
  let last := (first :: rest).getLast (List.cons_ne_nil first rest)
  match schedule with
  | .oldest => (first, rest, .oldest)
  | .newest => (last, (first :: rest).dropLast, .newest)
  | .drawn choices =>
    let drawn := source.below (first :: rest).length choices
    (((first :: rest)[drawn.1]?).getD last, moveLast (first :: rest) drawn.1 last, .drawn drawn.2)

/-- Takes the next entity, if any is pending. -/
def pop [DecidableEq α] (source : Source σ) (a : Agenda α σ) : Option (α × Agenda α σ) :=
  match a.items with
  | [] => none
  | first :: rest =>
    let taken := next source a.schedule first rest
    some (taken.1, ⟨taken.2.2, taken.2.1, a.queued.remove taken.1⟩)

/-- A list with two entries exchanged. -/
def swap (items : List α) (i j : Nat) : List α :=
  match items[i]?, items[j]? with
  | some x, some y => (items.set i y).set j x
  | _, _ => items

/-- A list with entries exchanged, pair after pair. -/
def swapAll (items : List α) (pairs : List (Nat × Nat)) : List α :=
  pairs.foldl (fun items pair => swap items pair.1 pair.2) items

/-- Puts the pending entities into an order of the source's choice. -/
def shuffle (source : Source σ) (a : Agenda α σ) : Agenda α σ :=
  match a.schedule with
  | .oldest | .newest => a
  | .drawn choices =>
    let drawn := source.swaps a.items.length choices
    { a with schedule := .drawn drawn.2, items := swapAll a.items drawn.1 }

theorem schedule_push [DecidableEq α] (a : Agenda α σ) (x : α) :
    (a.push x).schedule = a.schedule := by
  unfold push
  split <;> rfl

/-! ## Taking -/

theorem perm_getLast_cons_dropLast {items : List α} (nonempty : items ≠ []) :
    items.Perm (items.getLast nonempty :: items.dropLast) := by
  have perm := List.perm_append_singleton (items.getLast nonempty) items.dropLast
  rwa [List.dropLast_concat_getLast nonempty] at perm

/-- Moving the last entry to a position takes out the entry that stood there. -/
theorem perm_cons_moveLast {items : List α} (nonempty : items ≠ []) {i : Nat}
    (bound : i < items.length) :
    items.Perm (items[i] :: moveLast items i (items.getLast nonempty)) := by
  have boundLast : items.length - 1 < items.length := by omega
  -- Exchanging the two entries first puts the one to be taken at the end.
  let exchanged := (items.set i items[items.length - 1]).set (items.length - 1) items[i]
  have perm : exchanged.Perm items := List.set_set_perm bound boundLast
  have exchangedNonempty : exchanged ≠ [] := by
    intro empty
    rw [empty] at perm
    exact nonempty perm.nil_eq.symm
  have last : exchanged.getLast exchangedNonempty = items[i] := by
    rw [List.getLast_eq_getElem]
    simp [exchanged]
  have others : exchanged.dropLast = moveLast items i (items.getLast nonempty) := by
    rw [moveLast, List.getLast_eq_getElem]
    apply List.ext_getElem
    · simp [exchanged]
    · intro j boundJ _
      simp only [exchanged, List.length_dropLast, List.length_set] at boundJ
      simp only [exchanged, List.getElem_dropLast]
      rw [List.getElem_set_ne (by omega)]
  rw [← last, ← others]
  exact perm.symm.trans (perm_getLast_cons_dropLast exchangedNonempty)

/-- What is next and what stays are together what was there. -/
theorem perm_next (source : Source σ) (schedule : Schedule σ) (first : α) (rest : List α) :
    (first :: rest).Perm
      ((next source schedule first rest).1 :: (next source schedule first rest).2.1) := by
  have nonempty := List.cons_ne_nil first rest
  cases schedule with
  | oldest => exact List.Perm.refl _
  | newest => exact perm_getLast_cons_dropLast nonempty
  | drawn choices =>
    simp only [next]
    by_cases bound : (source.below (first :: rest).length choices).1 < (first :: rest).length
    · rw [List.getElem?_eq_getElem bound]
      exact perm_cons_moveLast nonempty bound
    · rw [List.getElem?_eq_none (Nat.le_of_not_lt bound)]
      simp only [Option.getD_none, moveLast, List.set_eq_of_length_le (Nat.le_of_not_lt bound)]
      exact perm_getLast_cons_dropLast nonempty

variable [DecidableEq α] {source : Source σ} {a rest : Agenda α σ} {x : α}

theorem pop_eq_none_iff : a.pop source = none ↔ a.items = [] := by
  unfold pop
  split <;> simp_all

/-- What taking an entity does to the list, the schedule and the set. -/
theorem exists_next_of_pop (taken : a.pop source = some (x, rest)) :
    ∃ first others, a.items = first :: others ∧
      next source a.schedule first others = (x, rest.items, rest.schedule) ∧
      rest.queued = a.queued.remove x := by
  unfold pop at taken
  split at taken
  case h_1 => cases taken
  case h_2 first others items =>
    cases taken
    exact ⟨first, others, items, rfl, rfl⟩

/-- **Taking an entity takes a pending one and leaves the others.** -/
theorem perm_of_pop (taken : a.pop source = some (x, rest)) : a.items.Perm (x :: rest.items) := by
  obtain ⟨first, others, items, found, _⟩ := exists_next_of_pop taken
  have perm := perm_next source a.schedule first others
  rwa [found, ← items] at perm

/-! ## Shuffling -/

omit [DecidableEq α]

theorem swap_perm (items : List α) (i j : Nat) : (swap items i j).Perm items := by
  unfold swap
  split
  case h_2 => exact List.Perm.refl items
  case h_1 x y atI atJ =>
    obtain ⟨boundI, rfl⟩ := List.getElem?_eq_some_iff.mp atI
    obtain ⟨boundJ, rfl⟩ := List.getElem?_eq_some_iff.mp atJ
    exact List.set_set_perm boundI boundJ

theorem swapAll_perm (items : List α) (pairs : List (Nat × Nat)) :
    (swapAll items pairs).Perm items := by
  unfold swapAll
  induction pairs generalizing items with
  | nil => exact List.Perm.refl items
  | cons pair later ih => exact (ih _).trans (swap_perm items pair.1 pair.2)

/-- Shuffling keeps what is pending. -/
theorem shuffle_perm (source : Source σ) (a : Agenda α σ) :
    (a.shuffle source).items.Perm a.items := by
  unfold shuffle
  split
  · exact List.Perm.refl _
  · exact List.Perm.refl _
  · exact swapAll_perm a.items _

theorem queued_shuffle (source : Source σ) (a : Agenda α σ) :
    (a.shuffle source).queued = a.queued := by
  unfold shuffle
  split <;> rfl

/-! ## Consistency -/

/-- No entity is listed twice, and the set has the members of the list. -/
structure IsConsistent (a : Agenda α σ) : Prop where
  nodup : a.items.Nodup
  queued : ∀ x, x ∈ a.queued ↔ x ∈ a.items

theorem isConsistent_start (order : Order) (choices : σ) :
    (start order choices : Agenda α σ).IsConsistent :=
  ⟨List.nodup_nil, fun x => by simp [start]⟩

namespace IsConsistent

variable [DecidableEq α] {source : Source σ} {a rest : Agenda α σ} {x : α}

theorem items_push (consistent : a.IsConsistent) (x : α) :
    (a.push x).items = if x ∈ a.items then a.items else a.items ++ [x] := by
  simp only [Agenda.push, consistent.queued]
  split <;> rfl

theorem push (consistent : a.IsConsistent) (x : α) : (a.push x).IsConsistent := by
  unfold Agenda.push
  split
  case isTrue => exact consistent
  case isFalse unmarked =>
    rw [consistent.queued] at unmarked
    constructor
    · show (a.items ++ [x]).Nodup
      rw [List.nodup_append]
      refine ⟨consistent.nodup, List.pairwise_singleton _ x, ?_⟩
      intro y listed z added same
      rw [same, List.mem_singleton.mp added] at listed
      exact unmarked listed
    · intro y
      rw [Marks.mem_insert, consistent.queued, List.mem_append, List.mem_singleton, or_comm]

/-- Whichever listed entity is taken out of the list and of the set, the others stay. -/
theorem take (consistent : a.IsConsistent) {items : List α} (perm : a.items.Perm (x :: items))
    (schedule : Schedule σ) : IsConsistent ⟨schedule, items, a.queued.remove x⟩ := by
  obtain ⟨absent, nodup⟩ := List.nodup_cons.mp (perm.nodup_iff.mp consistent.nodup)
  refine ⟨nodup, fun y => ?_⟩
  rw [Marks.mem_remove, consistent.queued, perm.mem_iff, List.mem_cons]
  constructor
  · rintro ⟨rfl | stays, differs⟩
    · exact absurd rfl differs
    · exact stays
  · intro stays
    refine ⟨.inr stays, ?_⟩
    rintro rfl
    exact absent stays

theorem pop (consistent : a.IsConsistent) (taken : a.pop source = some (x, rest)) :
    rest.IsConsistent := by
  obtain ⟨_, _, _, _, queued⟩ := exists_next_of_pop taken
  have after := consistent.take (perm_of_pop taken) rest.schedule
  rwa [← queued] at after

omit [DecidableEq α] in
theorem shuffle (consistent : a.IsConsistent) (source : Source σ) :
    (a.shuffle source).IsConsistent := by
  have perm := shuffle_perm source a
  refine ⟨perm.nodup_iff.mpr consistent.nodup, fun x => ?_⟩
  rw [queued_shuffle, consistent.queued, perm.mem_iff]

end IsConsistent

end Agenda

end CapLiveness
