import CapLiveness.Analysis.Equations
import CapLiveness.Proofs.Worklist

/-!
# Numbers for entities

Slots and blocks share one range of numbers: a slot is its own number, and the blocks are
counted on from the number of slots (`Entity.number`). A number below the number of slots is
read as a slot and any other one as a block (`Entity.ofNumber`), so an entity is read back as
long as its slot is one.

A worklist of numbers works like the worklist of the entities that they stand for
(`Worklist.Codes`), in whatever order, provided that pending entities have different numbers.
Making an entity pending is the only operation that compares entities, and so the only one
that needs this.
-/

set_option autoImplicit false

namespace CapLiveness

namespace Entity

/-- The number of an entity, given the number of slots. -/
def number (slots : Nat) : Entity → Nat
  | .function slot => slot
  | .block b => slots + b

/-- The entity of a number. -/
def ofNumber (slots n : Nat) : Entity :=
  if n < slots then .function n else .block (n - slots)

/-- Whether the slot of an entity is one of the given number of slots. -/
def HasSlot (slots : Nat) : Entity → Prop
  | .function slot => slot < slots
  | .block _ => True

theorem ofNumber_number {slots : Nat} {entity : Entity} (has : entity.HasSlot slots) :
    ofNumber slots (entity.number slots) = entity := by
  cases entity with
  | function slot => exact if_pos has
  | block b => simp [ofNumber, number]

/-- Entities with one number are equal. -/
theorem number_inj {slots : Nat} {first second : Entity} (hasFirst : first.HasSlot slots)
    (hasSecond : second.HasSlot slots) (same : first.number slots = second.number slots) :
    first = second := by
  rw [← ofNumber_number hasFirst, same, ofNumber_number hasSecond]

end Entity

variable {α β σ : Type}

/-! ## Lists of codes -/

namespace Agenda

theorem next_map (code : α → β) (source : Source σ) (schedule : Schedule σ) (first : α)
    (rest : List α) :
    next source schedule (code first) (rest.map code) =
      (code (next source schedule first rest).1, (next source schedule first rest).2.1.map code,
        (next source schedule first rest).2.2) := by
  have last : (code first :: rest.map code).getLast (List.cons_ne_nil _ _) =
      code ((first :: rest).getLast (List.cons_ne_nil _ _)) :=
    List.getLast_map (f := code) (l := first :: rest) (List.cons_ne_nil _ _)
  have items : code first :: rest.map code = (first :: rest).map code := rfl
  cases schedule with
  | oldest => rfl
  | newest =>
    simp only [next, last]
    rw [items, List.map_dropLast]
  | drawn choices =>
    simp only [next, last]
    rw [items, List.length_map, moveLast, moveLast, List.map_dropLast, List.map_set,
      List.getElem?_map, Option.getD_map]

theorem swap_map (code : α → β) (items : List α) (i j : Nat) :
    swap (items.map code) i j = (swap items i j).map code := by
  simp only [swap, List.getElem?_map]
  cases items[i]? with
  | none => rfl
  | some x =>
    cases items[j]? with
    | none => rfl
    | some y => simp [List.map_set]

theorem swapAll_map (code : α → β) (items : List α) (pairs : List (Nat × Nat)) :
    swapAll (items.map code) pairs = (swapAll items pairs).map code := by
  induction pairs generalizing items with
  | nil => rfl
  | cons pair later ih =>
    rw [swapAll, List.foldl_cons, swap_map]
    exact ih (swap items pair.1 pair.2)

end Agenda

/-! ## Worklists of codes -/

namespace Worklist

/-- Whether a worklist has the codes of what is pending in another, in the same order and under
the same schedule. -/
structure Codes (code : α → β) (v : Worklist β σ) (w : Worklist α σ) : Prop where
  schedule : v.schedule = w.schedule
  items : v.items = w.items.map code

namespace Codes

variable {code : α → β} {v : Worklist β σ} {w rest : Worklist α σ} {source : Source σ} {x : α}

theorem start (order : Order) (choices : σ) :
    Codes code (Worklist.start order choices : Worklist β σ) (Worklist.start order choices) :=
  ⟨rfl, rfl⟩

theorem shuffle (codes : Codes code v w) (source : Source σ) :
    Codes code (v.shuffle source) (w.shuffle source) := by
  have agendas : (v.toAgenda.shuffle source).schedule = (w.toAgenda.shuffle source).schedule ∧
      (v.toAgenda.shuffle source).items = (w.toAgenda.shuffle source).items.map code := by
    unfold Agenda.shuffle
    rw [codes.schedule]
    cases drawing : w.schedule with
    | oldest | newest => exact ⟨codes.schedule, codes.items⟩
    | drawn choices =>
      simp only [codes.items, List.length_map, Agenda.swapAll_map, and_self]
  exact ⟨agendas.1, agendas.2⟩

variable [DecidableEq α] [DecidableEq β]

theorem pop (codes : Codes code v w) (taken : w.pop source = some (x, rest)) :
    ∃ others, v.pop source = some (code x, others) ∧ Codes code others rest := by
  obtain ⟨first, later, items, next, _⟩ := Agenda.exists_next_of_pop (pop_toAgenda taken)
  have listed : v.items = code first :: later.map code := by
    rw [codes.items, items]
    rfl
  have found : v.toAgenda.pop source =
      some (code x, ⟨rest.schedule, rest.items.map code, v.queued.remove (code x)⟩) := by
    simp only [Agenda.pop, listed, Agenda.next_map, codes.schedule, next]
  unfold Worklist.pop
  split
  case h_1 failed =>
    rw [found] at failed
    cases failed
  case h_2 answered =>
    rw [found] at answered
    cases answered
    exact ⟨_, rfl, rfl, rfl⟩

variable {known : α → Prop} (apart : ∀ x y, known x → known y → code x = code y → x = y)
include apart

theorem push (codes : Codes code v w) (pending : ∀ y ∈ w.items, known y) (isKnown : known x) :
    Codes code (v.push (code x)) (w.push x) := by
  have listed : code x ∈ v.items ↔ x ∈ w.items := by
    rw [codes.items, List.mem_map]
    constructor
    · rintro ⟨y, member, same⟩
      rwa [← apart y x (pending y member) isKnown same]
    · intro member
      exact ⟨x, member, rfl⟩
  constructor
  · exact (v.toAgenda.schedule_push _).trans
      (codes.schedule.trans (w.toAgenda.schedule_push x).symm)
  · rw [show (v.push (code x)).items = _ from v.consistent.items_push _,
      show (w.push x).items = _ from w.consistent.items_push x]
    simp only [listed]
    split
    · exact codes.items
    · rw [codes.items, List.map_append]
      rfl

/-- **Making entities pending** makes their codes pending. -/
theorem pushAll (codes : Codes code v w) (pending : ∀ y ∈ w.items, known y) {xs : List α}
    (areKnown : ∀ x ∈ xs, known x) : Codes code (v.pushAll (xs.map code)) (w.pushAll xs) := by
  unfold Worklist.pushAll
  induction xs generalizing v w with
  | nil => exact codes
  | cons first rest ih =>
    obtain ⟨isKnown, areKnownRest⟩ := List.forall_mem_cons.mp areKnown
    refine ih (codes.push apart pending isKnown) ?_ areKnownRest
    intro y member
    rcases mem_push.mp member with before | rfl
    · exact pending y before
    · exact isKnown

end Codes

end Worklist

end CapLiveness
