import CapLiveness.Analysis.Agenda

/-!
# Worklists

A worklist is a consistent agenda: a set of pending entities with a visiting
order. An entity is pending at most once: making a pending entity pending again
changes nothing.

Whatever the order, taking an entity leaves one pending entity less
(`length_of_pop`), and nothing can be taken exactly when nothing is pending
(`pop_eq_none_iff`).
-/

set_option autoImplicit false

namespace CapLiveness

variable {α σ : Type}

/-- Pending entities, with the set of them in step. -/
structure Worklist (α σ : Type) extends Agenda α σ where
  consistent : toAgenda.IsConsistent

namespace Worklist

/-- Nothing is pending at the start. -/
def start (order : Order) (choices : σ) : Worklist α σ :=
  ⟨.start order choices, Agenda.isConsistent_start order choices⟩

variable [DecidableEq α]

/-- Makes an entity pending, unless it already is. -/
def push (w : Worklist α σ) (x : α) : Worklist α σ :=
  ⟨w.toAgenda.push x, w.consistent.push x⟩

/-- Makes several entities pending, in order. -/
def pushAll (w : Worklist α σ) (xs : List α) : Worklist α σ :=
  xs.foldl push w

/-- Takes the next entity, if any is pending. -/
def pop (source : Source σ) (w : Worklist α σ) : Option (α × Worklist α σ) :=
  match taken : w.toAgenda.pop source with
  | none => none
  | some (x, rest) => some (x, ⟨rest, w.consistent.pop taken⟩)

omit [DecidableEq α] in
/-- Puts the pending entities into an order of the source's choice. -/
def shuffle (source : Source σ) (w : Worklist α σ) : Worklist α σ :=
  ⟨w.toAgenda.shuffle source, w.consistent.shuffle source⟩

variable {source : Source σ} {w w' : Worklist α σ} {x : α}

theorem pop_eq_none_iff : w.pop source = none ↔ w.items = [] := by
  have empty : w.toAgenda.pop source = none ↔ w.items = [] := Agenda.pop_eq_none_iff
  rw [← empty]
  unfold pop
  split <;> simp_all

/-- Taking from a worklist is taking from its agenda. -/
theorem pop_toAgenda (h : w.pop source = some (x, w')) :
    w.toAgenda.pop source = some (x, w'.toAgenda) := by
  unfold pop at h
  split at h
  case h_1 => cases h
  case h_2 taken =>
    cases h
    exact taken

/-- **Taking an entity takes a pending one and leaves the others.** -/
theorem perm_of_pop (h : w.pop source = some (x, w')) : w.items.Perm (x :: w'.items) :=
  Agenda.perm_of_pop (pop_toAgenda h)

/-- **Taking an entity leaves one less.** -/
theorem length_of_pop (h : w.pop source = some (x, w')) :
    w'.items.length + 1 = w.items.length :=
  (perm_of_pop h).length_eq.symm

end Worklist

end CapLiveness
