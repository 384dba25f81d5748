import CapLiveness.Analysis.Agenda

/-!
# Sessions with an agenda

A session is an agenda with the history of the operations made on it and of their answers. The
history alone tells what ought to be pending and since when (`History.since?`): an entity is
pending from the push that found it absent to the pop that answers with it. Pushing it again in
between changes nothing, and pushing it after the pop makes it pending anew.

A list without choices cannot be shuffled once two entities are pending; a session ends there
without a next state (`Session.perform`). Nothing else can go wrong.

The invariant is that the history accounts for the agenda (`Session.Accounts`): list and set
agree, they hold what the history tells, and the list is sorted by age unless entities are drawn.
It is kept by each operation (`Accounts.push`, `Accounts.pop`, `Accounts.shuffle`) and so by a
session (`Accounts.run`). Hence the agenda is a set with an order, after any operations, for any
order and any source of choices (`agenda_ordered`).
-/

set_option autoImplicit false

namespace CapLiveness

variable {α σ : Type}

namespace Agenda

/-! ## Histories -/

inductive Operation (α : Type) where
  | push (x : α)
  | pop
  | shuffle
deriving DecidableEq

/-- The operations made so far with their answers, the latest first. -/
abbrev History (α : Type) := List (Operation α × Option α)

namespace History

variable [DecidableEq α]

/-- The time at which a pending entity became pending, counted in operations. -/
def since? : History α → α → Option Nat
  | [], _ => none
  | (.push x, _) :: earlier, y =>
    if y = x then (since? earlier y).or (some earlier.length) else since? earlier y
  | (.pop, answer) :: earlier, y => if answer = some y then none else since? earlier y
  | (.shuffle, _) :: earlier, y => since? earlier y

def Pending (history : History α) (x : α) : Prop := ∃ time, history.since? x = some time

/-- Both entities are pending, the first for longer than the second. -/
def Longer (history : History α) (x y : α) : Prop :=
  ∃ time later, history.since? x = some time ∧ history.since? y = some later ∧ time < later

variable {history : History α} {x y : α} {answer : Option α}

theorem lt_length_of_since? {time : Nat} (pending : history.since? x = some time) :
    time < history.length := by
  induction history with
  | nil => cases pending
  | cons event earlier ih =>
    have before : since? earlier x = some time → time < (event :: earlier).length :=
      fun found => Nat.lt_succ_of_lt (ih found)
    obtain ⟨operation, answer⟩ := event
    cases operation with
    | push y =>
      rw [since?] at pending
      split at pending
      · rcases Option.or_eq_some_iff.mp pending with found | ⟨_, now⟩
        · exact before found
        · cases now
          exact Nat.lt_succ_self _
      · exact before pending
    | pop =>
      rw [since?] at pending
      split at pending
      · cases pending
      · exact before pending
    | shuffle => exact before pending

/-- Pushing a pending entity leaves all times as they are. -/
theorem since?_push_of_pending (pending : history.Pending x) (y : α) :
    since? ((.push x, answer) :: history) y = history.since? y := by
  rw [since?]
  split
  case isTrue same =>
    obtain ⟨time, found⟩ := pending
    rw [same, found, Option.some_or]
  case isFalse => rfl

/-- An entity that was absent is pending from its push on. -/
theorem since?_push_self (absent : ¬ history.Pending x) :
    since? ((.push x, answer) :: history) x = some history.length := by
  have none : history.since? x = none :=
    Option.eq_none_iff_forall_ne_some.mpr fun time found => absent ⟨time, found⟩
  rw [since?, if_pos rfl, none, Option.none_or]

theorem since?_push_of_ne (differs : y ≠ x) :
    since? ((.push x, answer) :: history) y = history.since? y := by
  rw [since?, if_neg differs]

theorem since?_pop_of_ne (differs : y ≠ x) :
    since? ((.pop, some x) :: history) y = history.since? y := by
  rw [since?, if_neg fun same => differs (Option.some.inj same).symm]

theorem pending_push_iff :
    Pending ((.push x, answer) :: history) y ↔ y = x ∨ history.Pending y := by
  by_cases same : y = x
  · subst same
    refine iff_of_true ?_ (.inl rfl)
    by_cases pending : history.Pending y
    · obtain ⟨time, found⟩ := pending
      exact ⟨time, (since?_push_of_pending ⟨time, found⟩ y).trans found⟩
    · exact ⟨_, since?_push_self pending⟩
  · simp only [Pending, since?_push_of_ne same, same, false_or]

theorem pending_pop_iff :
    Pending ((.pop, some x) :: history) y ↔ history.Pending y ∧ y ≠ x := by
  by_cases same : y = x
  · subst same
    simp [Pending, since?]
  · simp only [Pending, since?_pop_of_ne same, ne_eq, same, not_false_eq_true, and_true]

/-- Who is pending for longer depends on the times of the two only. -/
theorem Longer.of_since?_eq {later : History α} (longer : history.Longer x y)
    (left : later.since? x = history.since? x) (right : later.since? y = history.since? y) :
    later.Longer x y := by
  obtain ⟨time, after, foundX, foundY, before⟩ := longer
  exact ⟨time, after, left.trans foundX, right.trans foundY, before⟩

/-- What was pending before a push has been so for longer than what the push added. -/
theorem longer_push (absent : ¬ history.Pending x) (pending : history.Pending y) :
    Longer ((.push x, answer) :: history) y x := by
  obtain ⟨time, found⟩ := pending
  have differs : y ≠ x := by
    rintro rfl
    exact absent ⟨time, found⟩
  exact ⟨time, history.length, (since?_push_of_ne differs).trans found, since?_push_self absent,
    lt_length_of_since? found⟩

end History

/-! ## Sessions -/

/-- Whether a list can be shuffled: without choices only if that leaves it as it is. -/
def CanShuffle (a : Agenda α σ) : Prop :=
  a.items.length < 2 ∨ ∃ choices, a.schedule = .drawn choices

instance (a : Agenda α σ) : Decidable a.CanShuffle :=
  match drawn : a.schedule with
  | .oldest | .newest => decidable_of_iff (a.items.length < 2) (by simp [CanShuffle, drawn])
  | .drawn choices => isTrue (.inr ⟨choices, drawn⟩)

/-- An agenda with the history of its operations. -/
structure Session (α σ : Type) where
  agenda : Agenda α σ
  history : History α := []

namespace Session

variable [DecidableEq α]

/-- Makes an operation, if it can be made. -/
def perform (source : Source σ) (s : Session α σ) : Operation α → Option (Session α σ)
  | .push x => some ⟨s.agenda.push x, (.push x, none) :: s.history⟩
  | .pop =>
    match s.agenda.pop source with
    | none => some ⟨s.agenda, (.pop, none) :: s.history⟩
    | some (x, rest) => some ⟨rest, (.pop, some x) :: s.history⟩
  | .shuffle =>
    if s.agenda.CanShuffle then some ⟨s.agenda.shuffle source, (.shuffle, none) :: s.history⟩
    else none

/-- Makes operations one after the other. -/
def run (source : Source σ) (operations : List (Operation α)) (s : Session α σ) :
    Option (Session α σ) :=
  operations.foldlM (perform source) s

/-- **Histories that account for an agenda.** -/
structure Accounts (order : Order) (s : Session α σ) : Prop where
  consistent : s.agenda.IsConsistent
  schedule : ∃ choices, s.agenda.schedule = .ofOrder order choices
  pending : ∀ x, x ∈ s.agenda.items ↔ s.history.Pending x
  /-- The list is sorted by age, the oldest first. -/
  sorted : order ≠ .random → s.agenda.items.Pairwise s.history.Longer

end Session

/-! ## One operation -/

section Taking

variable [DecidableEq α] {source : Source σ} {a rest : Agenda α σ} {x : α}

theorem items_of_pop_oldest (oldest : a.schedule = .oldest)
    (taken : a.pop source = some (x, rest)) : a.items = x :: rest.items := by
  obtain ⟨first, others, items, found, _⟩ := exists_next_of_pop taken
  rw [oldest, next, Prod.mk.injEq, Prod.mk.injEq] at found
  rw [items, found.1, found.2.1]

theorem items_of_pop_newest (newest : a.schedule = .newest)
    (taken : a.pop source = some (x, rest)) : a.items = rest.items ++ [x] := by
  obtain ⟨first, others, items, found, _⟩ := exists_next_of_pop taken
  rw [newest, next, Prod.mk.injEq, Prod.mk.injEq] at found
  rw [items, ← found.1, ← found.2.1]
  exact (List.dropLast_concat_getLast (List.cons_ne_nil first others)).symm

/-- Where nothing is drawn, the entities that stay keep their order. -/
theorem sublist_of_pop {order : Order} {choices : σ} (notDrawn : order ≠ .random)
    (scheduled : a.schedule = .ofOrder order choices) (taken : a.pop source = some (x, rest)) :
    rest.items.Sublist a.items := by
  cases order with
  | lifo =>
    rw [items_of_pop_newest scheduled taken]
    exact List.sublist_append_left _ _
  | random => exact absurd rfl notDrawn
  | fifo | unknown =>
    rw [items_of_pop_oldest scheduled taken]
    exact List.sublist_cons_self _ _

theorem schedule_of_pop {order : Order} {choices : σ}
    (scheduled : a.schedule = .ofOrder order choices) (taken : a.pop source = some (x, rest)) :
    ∃ later, rest.schedule = .ofOrder order later := by
  obtain ⟨first, others, _, found, _⟩ := exists_next_of_pop taken
  have schedule : (next source (.ofOrder order choices) first others).2.2 = rest.schedule := by
    rw [← scheduled, found]
  rw [← schedule]
  cases order with
  | random => exact ⟨_, rfl⟩
  | fifo | lifo | unknown => exact ⟨choices, rfl⟩

end Taking

/-- Shuffling a list that is not drawn from leaves it as it is. -/
theorem shuffle_cases (source : Source σ) {a : Agenda α σ} {order : Order} {choices : σ}
    (scheduled : a.schedule = .ofOrder order choices) :
    (order ≠ .random ∧ a.shuffle source = a) ∨
      (order = .random ∧ ∃ later, (a.shuffle source).schedule = .ofOrder order later) := by
  unfold shuffle
  rw [scheduled]
  cases order with
  | random => exact .inr ⟨rfl, _, rfl⟩
  | fifo | lifo | unknown => exact .inl ⟨Order.noConfusion, rfl⟩

namespace Session.Accounts

variable [DecidableEq α] {source : Source σ} {order : Order} {s next : Session α σ}

theorem start (order : Order) (choices : σ) :
    Accounts order (⟨.start order choices, []⟩ : Session α σ) where
  consistent := isConsistent_start order choices
  schedule := ⟨choices, rfl⟩
  pending x := by simp [Agenda.start, History.Pending, History.since?]
  sorted _ := .nil

variable (accounts : s.Accounts order)
include accounts

theorem mem_queued_iff (x : α) : x ∈ s.agenda.queued ↔ s.history.Pending x :=
  (accounts.consistent.queued x).trans (accounts.pending x)

/-- Pushing a pending entity changes nothing. -/
theorem push_eq_self {x : α} (pending : s.history.Pending x) : s.agenda.push x = s.agenda :=
  if_pos ((accounts.mem_queued_iff x).mpr pending)

theorem push (x : α) :
    Accounts order (⟨s.agenda.push x, (.push x, none) :: s.history⟩ : Session α σ) := by
  have consistent := accounts.consistent.push x
  obtain ⟨choices, scheduled⟩ := accounts.schedule
  have schedule : ∃ choices, (s.agenda.push x).schedule = .ofOrder order choices :=
    ⟨choices, (schedule_push s.agenda x).trans scheduled⟩
  have items := accounts.consistent.items_push x
  by_cases present : x ∈ s.agenda.items
  · rw [if_pos present] at items
    have same : ∀ y, History.since? ((.push x, none) :: s.history) y = s.history.since? y :=
      History.since?_push_of_pending ((accounts.pending x).mp present)
    refine ⟨consistent, schedule, fun y => ?_, fun notDrawn => ?_⟩
    · rw [items, accounts.pending, History.Pending, History.Pending, same]
    · rw [items]
      exact (accounts.sorted notDrawn).imp fun longer => longer.of_since?_eq (same _) (same _)
  · rw [if_neg present] at items
    have absent : ¬ s.history.Pending x := fun pending => present ((accounts.pending x).mpr pending)
    refine ⟨consistent, schedule, fun y => ?_, fun notDrawn => ?_⟩
    · rw [items, List.mem_append, List.mem_singleton, accounts.pending, History.pending_push_iff,
        or_comm]
    · rw [items, List.pairwise_append]
      refine ⟨?_, List.pairwise_singleton _ x, ?_⟩
      · -- The times of the others stay, since none of them is the new entity.
        refine (accounts.sorted notDrawn).imp_of_mem fun {y z} listedY listedZ longer => ?_
        have differs : ∀ w ∈ s.agenda.items, w ≠ x := fun w listed same => present (same ▸ listed)
        exact longer.of_since?_eq (History.since?_push_of_ne (differs y listedY))
          (History.since?_push_of_ne (differs z listedZ))
      · intro y listed z added
        rw [List.mem_singleton.mp added]
        exact History.longer_push absent ((accounts.pending y).mp listed)

theorem mem_rest_iff {x : α} {rest : Agenda α σ} (taken : s.agenda.pop source = some (x, rest))
    (y : α) : y ∈ rest.items ↔ s.history.Pending y ∧ y ≠ x := by
  obtain ⟨_, _, _, _, queued⟩ := exists_next_of_pop taken
  rw [← (accounts.consistent.pop taken).queued, queued, Marks.mem_remove, accounts.mem_queued_iff]

theorem pop {x : α} {rest : Agenda α σ} (taken : s.agenda.pop source = some (x, rest)) :
    Accounts order (⟨rest, (.pop, some x) :: s.history⟩ : Session α σ) := by
  obtain ⟨choices, scheduled⟩ := accounts.schedule
  have stays := accounts.mem_rest_iff taken
  refine ⟨accounts.consistent.pop taken, schedule_of_pop scheduled taken, fun y => ?_,
    fun notDrawn => ?_⟩
  · rw [stays, History.pending_pop_iff]
  · have sorted := (accounts.sorted notDrawn).sublist (sublist_of_pop notDrawn scheduled taken)
    refine sorted.imp_of_mem fun {y z} staysY staysZ longer => ?_
    exact longer.of_since?_eq (History.since?_pop_of_ne ((stays y).mp staysY).2)
      (History.since?_pop_of_ne ((stays z).mp staysZ).2)

theorem idle : Accounts order (⟨s.agenda, (.pop, none) :: s.history⟩ : Session α σ) :=
  ⟨accounts.consistent, accounts.schedule, accounts.pending, accounts.sorted⟩

theorem shuffle (source : Source σ) :
    Accounts order (⟨s.agenda.shuffle source, (.shuffle, none) :: s.history⟩ : Session α σ) := by
  obtain ⟨choices, scheduled⟩ := accounts.schedule
  rcases shuffle_cases source scheduled with ⟨_, same⟩ | ⟨random, schedule⟩
  · rw [same]
    exact ⟨accounts.consistent, accounts.schedule, accounts.pending, accounts.sorted⟩
  · refine ⟨accounts.consistent.shuffle source, schedule, fun y => ?_, absurd random⟩
    rw [(shuffle_perm source s.agenda).mem_iff]
    exact accounts.pending y

/-- **One operation** keeps the account. -/
theorem perform {operation : Operation α} (done : s.perform source operation = some next) :
    next.Accounts order := by
  cases operation with
  | push x =>
    cases done
    exact accounts.push x
  | pop =>
    rw [Session.perform] at done
    split at done
    case h_1 =>
      cases done
      exact accounts.idle
    case h_2 taken =>
      cases done
      exact accounts.pop taken
  | shuffle =>
    obtain ⟨_, made⟩ := Option.ite_none_right_eq_some.mp done
    cases made
    exact accounts.shuffle source

/-- **Sessions** keep the account. -/
theorem run {operations : List (Operation α)} (done : s.run source operations = some next) :
    next.Accounts order := by
  induction operations generalizing s with
  | nil =>
    cases done
    exact accounts
  | cons first later ih =>
    obtain ⟨middle, made, others⟩ := Option.bind_eq_some_iff.mp done
    exact ih (accounts.perform made) others

theorem exists_perform {operation : Operation α} (able : order = .random ∨ operation ≠ .shuffle) :
    ∃ next, s.perform source operation = some next := by
  cases operation with
  | push x => exact ⟨_, rfl⟩
  | pop =>
    rw [Session.perform]
    split
    · exact ⟨_, rfl⟩
    · exact ⟨_, rfl⟩
  | shuffle =>
    obtain ⟨choices, scheduled⟩ := accounts.schedule
    obtain rfl := able.resolve_right fun other => other rfl
    exact ⟨_, if_pos (.inr ⟨choices, scheduled⟩)⟩

theorem exists_run {operations : List (Operation α)}
    (able : order = .random ∨ .shuffle ∉ operations) :
    ∃ next, s.run source operations = some next := by
  induction operations generalizing s with
  | nil => exact ⟨s, rfl⟩
  | cons first later ih =>
    obtain ⟨middle, made⟩ : ∃ middle, s.perform source first = some middle := by
      refine accounts.exists_perform (able.imp_right fun absent same => ?_)
      exact absent (same ▸ List.mem_cons_self)
    obtain ⟨next, others⟩ := ih (accounts.perform made)
      (able.imp_right fun absent member => absent (List.mem_cons_of_mem _ member))
    exact ⟨next, Option.bind_eq_some_iff.mpr ⟨middle, made, others⟩⟩

theorem pop_eq_none_iff : s.agenda.pop source = none ↔ ∀ x, ¬ s.history.Pending x := by
  rw [Agenda.pop_eq_none_iff, List.eq_nil_iff_forall_not_mem]
  exact forall_congr' fun x => not_congr (accounts.pending x)

variable {x y : α} {rest : Agenda α σ}

theorem pending_of_pop (taken : s.agenda.pop source = some (x, rest)) : s.history.Pending x :=
  (accounts.pending x).mp ((perm_of_pop taken).mem_iff.mpr List.mem_cons_self)

theorem longer_of_pop_oldest (first : order = .fifo ∨ ∃ code, order = .unknown code)
    (taken : s.agenda.pop source = some (x, rest)) (stays : y ∈ rest.items) :
    s.history.Longer x y := by
  obtain ⟨choices, scheduled⟩ := accounts.schedule
  have sorted : s.agenda.items.Pairwise s.history.Longer := by
    rcases first with rfl | ⟨code, rfl⟩ <;> exact accounts.sorted Order.noConfusion
  have oldest : s.agenda.schedule = .oldest := by
    rcases first with rfl | ⟨code, rfl⟩ <;> exact scheduled
  rw [items_of_pop_oldest oldest taken, List.pairwise_cons] at sorted
  exact sorted.1 y stays

theorem longer_of_pop_newest (last : order = .lifo)
    (taken : s.agenda.pop source = some (x, rest)) (stays : y ∈ rest.items) :
    s.history.Longer y x := by
  subst last
  obtain ⟨choices, scheduled⟩ := accounts.schedule
  have sorted := accounts.sorted Order.noConfusion
  rw [items_of_pop_newest scheduled taken, List.pairwise_append] at sorted
  exact sorted.2.2 y stays x (List.mem_singleton_self x)

end Session.Accounts

namespace Session

variable [DecidableEq α] {source : Source σ} {s next : Session α σ}

theorem exists_answer {operation : Operation α} (done : s.perform source operation = some next) :
    ∃ answer, next.history = (operation, answer) :: s.history := by
  cases operation with
  | push x =>
    cases done
    exact ⟨_, rfl⟩
  | pop =>
    rw [perform] at done
    split at done <;> cases done <;> exact ⟨_, rfl⟩
  | shuffle =>
    obtain ⟨_, made⟩ := Option.ite_none_right_eq_some.mp done
    cases made
    exact ⟨_, rfl⟩

/-- The history lists the operations that were made. -/
theorem operations_run {operations : List (Operation α)}
    (done : s.run source operations = some next) :
    next.history.reverse.map (·.1) = s.history.reverse.map (·.1) ++ operations := by
  induction operations generalizing s with
  | nil =>
    cases done
    rw [List.append_nil]
  | cons first later ih =>
    obtain ⟨middle, made, others⟩ := Option.bind_eq_some_iff.mp done
    obtain ⟨answer, entry⟩ := exists_answer made
    rw [ih others, entry]
    simp

end Session

end Agenda

/-- **Agendas are sets with an order.** Take any order, any source of choices and any sequence of
operations on an agenda that starts empty. They can all be made if the order is random or none
is a shuffle. Whenever they are made, with the answers that the history tells: nothing is listed
twice; the set has the members of the list; and these are the entities that are pending by the
history. Pushing one of them changes nothing. Taking fails exactly when nothing is pending. Else
it gives a pending entity and leaves exactly the others, listed once and marked. If the order is
first in, first out, or means nothing, the entity taken has been pending for longer than all
others; if it is last in, first out, all others have been pending for longer. -/
theorem agenda_ordered [DecidableEq α] (source : Source σ) (order : Order) (choices : σ)
    (operations : List (Agenda.Operation α)) :
    let start : Agenda.Session α σ := ⟨.start order choices, []⟩
    (order = .random ∨ .shuffle ∉ operations → ∃ s, start.run source operations = some s) ∧
    ∀ s, start.run source operations = some s →
      s.history.reverse.map (·.1) = operations ∧
      s.agenda.items.Nodup ∧ (∀ x, x ∈ s.agenda.queued ↔ x ∈ s.agenda.items) ∧
      (∀ x, x ∈ s.agenda.items ↔ s.history.Pending x) ∧
      (∀ x, s.history.Pending x → s.agenda.push x = s.agenda) ∧
      (s.agenda.pop source = none ↔ ∀ x, ¬ s.history.Pending x) ∧
      ∀ x rest, s.agenda.pop source = some (x, rest) →
        s.history.Pending x ∧ rest.items.Nodup ∧ (∀ y, y ∈ rest.queued ↔ y ∈ rest.items) ∧
        (∀ y, y ∈ rest.items ↔ s.history.Pending y ∧ y ≠ x) ∧
        (order = .fifo ∨ (∃ code, order = .unknown code) →
          ∀ y, s.history.Pending y → y ≠ x → s.history.Longer x y) ∧
        (order = .lifo → ∀ y, s.history.Pending y → y ≠ x → s.history.Longer y x) := by
  intro start
  have atStart : start.Accounts order := .start order choices
  refine ⟨atStart.exists_run, fun s done => ?_⟩
  have accounts := atStart.run done
  refine ⟨Agenda.Session.operations_run done, accounts.consistent.nodup,
    accounts.consistent.queued, accounts.pending, fun x => accounts.push_eq_self,
    accounts.pop_eq_none_iff, fun x rest taken => ?_⟩
  have consistent := accounts.consistent.pop taken
  have stays := accounts.mem_rest_iff taken
  refine ⟨accounts.pending_of_pop taken, consistent.nodup, consistent.queued, stays, ?_, ?_⟩
  · intro first y pending differs
    exact accounts.longer_of_pop_oldest first taken ((stays y).mpr ⟨pending, differs⟩)
  · intro last y pending differs
    exact accounts.longer_of_pop_newest last taken ((stays y).mpr ⟨pending, differs⟩)

/-- An entity that is pushed again while it is pending keeps its place; pushed again after it was
taken, it is the last. A shuffled list still lists nothing twice. -/
theorem agenda_ordered_again :
    (∃ s, (⟨.start (.unknown 7) (.ofSeed 1), []⟩ : Agenda.Session Nat Generator).run
        Generator.source [.push 3, .push 5, .push 3, .pop, .push 3] = some s ∧
      s.agenda.items = [5, 3] ∧ (∃ rest, s.agenda.pop Generator.source = some (5, rest)) ∧
      s.history.Longer 5 3) ∧
    ∃ s, (⟨.start .random (.ofSeed 1), []⟩ : Agenda.Session Nat Generator).run Generator.source
        [.push 3, .push 5, .push 8, .shuffle, .pop, .push 5] = some s ∧ s.agenda.items.Nodup := by
  constructor
  · refine ⟨_, rfl, rfl, ⟨_, rfl⟩, ?_⟩
    obtain ⟨_, _, _, _, _, _, taking⟩ :=
      (agenda_ordered Generator.source (.unknown 7) (.ofSeed 1)
        [.push 3, .push 5, .push 3, .pop, .push 3]).2 _ rfl
    obtain ⟨_, _, _, _, oldest, _⟩ := taking 5 _ rfl
    exact oldest (.inr ⟨7, rfl⟩) 3 ⟨4, rfl⟩ (by decide)
  · have random := agenda_ordered Generator.source .random (.ofSeed 1)
      ([.push 3, .push 5, .push 8, .shuffle, .pop, .push 5] : List (Agenda.Operation Nat))
    obtain ⟨s, done⟩ := random.1 (.inl rfl)
    exact ⟨s, done, (random.2 s done).2.1⟩

end CapLiveness
