import CapLiveness.Program.Basic
import CapLiveness.Proofs.Indexing

/-!
# Lookups that may fail

Operations on tables that fail when a number has no entry: writing an entry, putting a
number into a row, and the operations on lists that look something up for every entry.
A computation that is made of them fails as soon as a number is out of range. So one
that succeeds takes no number that is.

A series of lookups succeeds if every single one does (`mapM_eq_some`, `filter_eq_some`,
`foldlM_eq_some`). Tables that are written entry by entry are described by what stands in
them in the end (`writes_eq_some`, `puts_eq_some`).
-/

set_option autoImplicit false

namespace CapLiveness.Checked

variable {α β : Type}

/-! ## Lists -/

/-- The entries of a list that pass a test, if the test succeeds for every entry. -/
def filter (test : α → Option Bool) : List α → Option (List α)
  | [] => some []
  | x :: xs => do
    let keep ← test x
    let rest ← filter test xs
    some (if keep then x :: rest else rest)

theorem mapM_eq_filterMap {f : α → Option β} {xs : List α} (found : ∀ x ∈ xs, (f x).isSome = true) :
    xs.mapM f = some (xs.filterMap f) := by
  induction xs with
  | nil => rfl
  | cons x xs ih =>
    obtain ⟨foundHere, foundRest⟩ := List.forall_mem_cons.mp found
    obtain ⟨y, isFound⟩ := Option.isSome_iff_exists.mp foundHere
    simp [List.mapM_cons, isFound, ih foundRest]

theorem mapM_eq_some {f : α → Option β} {g : α → β} {xs : List α}
    (found : ∀ x ∈ xs, f x = some (g x)) : xs.mapM f = some (xs.map g) := by
  induction xs with
  | nil => rfl
  | cons x xs ih =>
    obtain ⟨foundHere, foundRest⟩ := List.forall_mem_cons.mp found
    simp [List.mapM_cons, foundHere, ih foundRest]

theorem filter_eq_some {test : α → Option Bool} {passes : α → Bool} {xs : List α}
    (found : ∀ x ∈ xs, test x = some (passes x)) : filter test xs = some (xs.filter passes) := by
  induction xs with
  | nil => rfl
  | cons x xs ih =>
    obtain ⟨foundHere, foundRest⟩ := List.forall_mem_cons.mp found
    simp [filter, foundHere, ih foundRest, List.filter_cons]

/-- A series of steps succeeds if each of them does in the states that come before it. -/
theorem foldlM_eq_some {step : β → α → Option β} {total : β → α → β} (holds : β → Prop)
    {xs : List α} (steps : ∀ y, holds y → ∀ x ∈ xs, step y x = some (total y x) ∧ holds (total y x))
    {start : β} (atStart : holds start) : xs.foldlM step start = some (xs.foldl total start) := by
  induction xs generalizing start with
  | nil => rfl
  | cons x xs ih =>
    obtain ⟨found, after⟩ := steps start atStart x List.mem_cons_self
    simp only [List.foldlM_cons, List.foldl_cons, found, Option.bind_eq_bind, Option.bind_some]
    exact ih (fun y holds x member => steps y holds x (List.mem_cons_of_mem _ member)) after

/-! ## Tables -/

/-- Replaces the entry at a number, if there is one. -/
def write (entries : Array α) (entry : Int × α) : Option (Array α) :=
  (entryAt? entries entry.1).map fun _ => entries.setIfInBounds entry.1.toNat entry.2

/-- Puts a number at the end of a row, if there is such a row. -/
def put (rows : Array (List Nat)) (entry : Int × Nat) : Option (Array (List Nat)) :=
  (entryAt? rows entry.1).bind fun row => write rows (entry.1, row ++ [entry.2])

theorem write_ofNat {entries : Array α} {i : Nat} (inside : i < entries.size) (x : α) :
    write entries (Int.ofNat i, x) = some (entries.setIfInBounds i x) := by
  simp [write, entryAt?, inside]

/-- **Writing a table.** If the table has a given content in the end wherever something is
written, and had it before wherever nothing is, then writing succeeds and the table has
this content. -/
theorem writes_eq_some {entries : List (Int × α)} {start content : Array α}
    (sized : start.size = content.size)
    (written : ∀ entry ∈ entries, entryAt? content entry.1 = some entry.2)
    (others : ∀ i : Nat, start[i]? = content[i]? ∨ ∃ entry ∈ entries, entry.1 = Int.ofNat i) :
    entries.foldlM write start = some content := by
  induction entries generalizing start with
  | nil =>
    have same : start = content := by
      apply Array.ext_getElem?
      intro i
      simpa using others i
    rw [same]
    rfl
  | cons entry rest ih =>
    obtain ⟨number, x⟩ := entry
    obtain ⟨writtenHere, writtenRest⟩ := List.forall_mem_cons.mp written
    obtain ⟨j, rfl, atJ⟩ := entryAt?_eq_some_iff.mp writtenHere
    have inside : j < start.size := by
      rw [sized]
      exact (Array.getElem?_eq_some_iff.mp atJ).1
    rw [List.foldlM_cons, write_ofNat inside, Option.bind_eq_bind, Option.bind_some]
    refine ih (Array.size_setIfInBounds.trans sized) writtenRest ?_
    intro i
    by_cases same : j = i
    · subst same
      exact .inl ((Array.getElem?_setIfInBounds_self_of_lt inside).trans atJ.symm)
    · rw [Array.getElem?_setIfInBounds_ne same]
      rcases others i with before | ⟨other, member, isNumber⟩
      · exact .inl before
      · rcases List.mem_cons.mp member with rfl | member
        · exact absurd (Int.ofNat.inj isNumber) same
        · exact .inr ⟨other, member, isNumber⟩

theorem put_rowsOf {count i : Nat} (inside : i < count) (row : Nat → List Nat) (x : Nat) :
    put (rowsOf count row) (Int.ofNat i, x) =
      some (rowsOf count fun j => if i = j then row j ++ [x] else row j) := by
  have sized : (rowsOf count row).size = count := by simp [rowsOf]
  have atRow : entryAt? (rowsOf count row) (Int.ofNat i) = some (row i) := by
    simp [entryAt?, rowsOf, inside]
  rw [put, atRow, Option.bind_some, write_ofNat (sized.symm ▸ inside), Option.some.injEq]
  apply Array.ext_getElem?
  intro j
  by_cases same : i = j
  · subst same
    rw [Array.getElem?_setIfInBounds_self_of_lt (sized.symm ▸ inside)]
    simp [rowsOf, inside]
  · rw [Array.getElem?_setIfInBounds_ne same]
    by_cases bound : j < count <;> simp [rowsOf, bound, same]

/-- **Filling the rows of a table.** If every number that something is put at is one of a
row, this succeeds, and in the end a row has what was put at its number, in order. -/
theorem puts_eq_some {count : Nat} {entries : List (Int × Nat)}
    (inside : ∀ entry ∈ entries, ∃ i < count, entry.1 = Int.ofNat i) :
    entries.foldlM put (Array.replicate count []) =
      some (rowsOf count fun i => (entries.filter (·.1 == Int.ofNat i)).map (·.2)) := by
  have fill : ∀ row : Nat → List Nat, entries.foldlM put (rowsOf count row) =
      some (rowsOf count fun i => row i ++ (entries.filter (·.1 == Int.ofNat i)).map (·.2)) := by
    induction entries with
    | nil => simp
    | cons entry rest ih =>
      intro row
      obtain ⟨number, x⟩ := entry
      obtain ⟨insideHere, insideRest⟩ := List.forall_mem_cons.mp inside
      obtain ⟨i, bound, rfl⟩ := insideHere
      rw [List.foldlM_cons, put_rowsOf bound, Option.bind_eq_bind, Option.bind_some,
        ih insideRest]
      congr 2
      funext j
      by_cases same : i = j
      · subst same
        simp
      · have different : ¬ (i : Int) = j := fun equal => same (Int.ofNat.inj equal)
        simp [same, different]
  rw [replicate_nil_eq_rowsOf, fill]
  simp

end CapLiveness.Checked
