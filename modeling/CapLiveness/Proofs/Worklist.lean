import CapLiveness.Analysis.Worklist

/-!
# What is pending

The visiting order decides which pending entity is taken next, and nothing else.
Whatever the order and the source of choices, nothing is pending at the start,
making entities pending adds exactly them (`mem_pushAll`), shuffling keeps what is
pending (`shuffle_perm`), and any pending entity could be the next to be taken
(`exists_rest`).
-/

set_option autoImplicit false

namespace CapLiveness.Worklist

variable {α σ : Type}

@[simp] theorem items_start (order : Order) (choices : σ) :
    (start order choices : Worklist α σ).items = [] := rfl

/-- Shuffling keeps what is pending. -/
theorem shuffle_perm (source : Source σ) (w : Worklist α σ) :
    (w.shuffle source).items.Perm w.items :=
  Agenda.shuffle_perm source w.toAgenda

variable [DecidableEq α]

theorem schedule_pushAll (w : Worklist α σ) (xs : List α) :
    (w.pushAll xs).schedule = w.schedule := by
  unfold pushAll
  induction xs generalizing w with
  | nil => rfl
  | cons first rest ih => exact (ih (w.push first)).trans (w.toAgenda.schedule_push first)

theorem mem_push {w : Worklist α σ} {x y : α} :
    y ∈ (w.push x).items ↔ y ∈ w.items ∨ y = x := by
  rw [show (w.push x).items = _ from w.consistent.items_push x]
  split
  case isTrue pending =>
    constructor
    · exact .inl
    · rintro (before | rfl)
      · exact before
      · exact pending
  case isFalse => simp

@[simp] theorem mem_pushAll {w : Worklist α σ} {xs : List α} {y : α} :
    y ∈ (w.pushAll xs).items ↔ y ∈ w.items ∨ y ∈ xs := by
  unfold pushAll
  induction xs generalizing w with
  | nil => simp
  | cons first rest ih => rw [List.foldl_cons, ih, mem_push, List.mem_cons, or_assoc]

/-- Any pending entity can be taken, with the others staying in any order. -/
theorem exists_rest (w : Worklist α σ) {x : α} {items : List α}
    (perm : w.items.Perm (x :: items)) : ∃ rest : Worklist α σ, rest.items = items :=
  ⟨⟨_, w.consistent.take perm w.schedule⟩, rfl⟩

end CapLiveness.Worklist
