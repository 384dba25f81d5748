import CapLiveness.Capability.Set

/-!
# Tables of sets

The analysis maintains five tables: three with a set for each slot and two with
a set for each block. A cell is one set of one table. Sets only grow: `grow?`
adds members to a cell, and gives nothing when there is nothing to add.

The room of the tables is the number of members that could still be added to
them. Growing uses up room (`room_lt_of_grow?`), so it can happen only finitely
often.
-/

set_option autoImplicit false

namespace CapLiveness

/-- The tables. -/
inductive Field where
  /-- Everything a function may need from its entry on, its callees included. -/
  | requiredIn
  /-- The part of it that the callees contribute. -/
  | requiredOut
  /-- What the callers of a function may still need after it returns. -/
  | returnLive
  /-- What is live on entry to a block. -/
  | liveIn
  /-- What is live on exit from a block. -/
  | liveOut
deriving DecidableEq

/-- The name of a table. -/
def Field.text : Field → String
  | .requiredIn => "requiredIn"
  | .requiredOut => "requiredOut"
  | .returnLive => "returnLive"
  | .liveIn => "in"
  | .liveOut => "out"

/-- The name of the table with a given number, which may name none. -/
def Field.textOfCode (code : Int) : String :=
  match code with
  | 0 => Field.requiredIn.text
  | 1 => Field.requiredOut.text
  | 2 => Field.returnLive.text
  | 3 => Field.liveIn.text
  | 4 => Field.liveOut.text
  | _ => s!"Field({code})"

/-- One set of one table. -/
structure Cell where
  field : Field
  index : Nat
deriving DecidableEq

/-- The sets of the analysis. -/
structure Tables where
  requiredIn : Array CapSet
  requiredOut : Array CapSet
  returnLive : Array CapSet
  liveIn : Array CapSet
  liveOut : Array CapSet
deriving DecidableEq

namespace Tables

/-- Empty sets for a number of slots and a number of blocks. -/
def empty (slots blocks : Nat) : Tables :=
  { requiredIn := Array.replicate slots ∅
    requiredOut := Array.replicate slots ∅
    returnLive := Array.replicate slots ∅
    liveIn := Array.replicate blocks ∅
    liveOut := Array.replicate blocks ∅ }

/-- One of the tables. -/
def column (t : Tables) : Field → Array CapSet
  | .requiredIn => t.requiredIn
  | .requiredOut => t.requiredOut
  | .returnLive => t.returnLive
  | .liveIn => t.liveIn
  | .liveOut => t.liveOut

/-- Replaces one of the tables. -/
def setColumn (t : Tables) (field : Field) (sets : Array CapSet) : Tables :=
  match field with
  | .requiredIn => { t with requiredIn := sets }
  | .requiredOut => { t with requiredOut := sets }
  | .returnLive => { t with returnLive := sets }
  | .liveIn => { t with liveIn := sets }
  | .liveOut => { t with liveOut := sets }

/-- The set in a cell, empty for a cell that is not there. -/
def get (t : Tables) (cell : Cell) : CapSet := (t.column cell.field).getD cell.index ∅

/-- Replaces the set in a cell. -/
def set (t : Tables) (cell : Cell) (s : CapSet) : Tables :=
  t.setColumn cell.field ((t.column cell.field).setIfInBounds cell.index s)

/-- The tables with the members of a set added to a cell; nothing when they are
all there already, or when there is no such cell. -/
def grow? (t : Tables) (cell : Cell) (s : CapSet) : Option Tables :=
  if cell.index < (t.column cell.field).size then
    match (t.get cell).join s with
    | (true, joined) => some (t.set cell joined)
    | (false, _) => none
  else none

theorem grow?_eq (t : Tables) (cell : Cell) (s : CapSet) :
    t.grow? cell s =
      if cell.index < (t.column cell.field).size ∧ ¬ s ⊆ t.get cell then
        some (t.set cell (t.get cell ∪ s))
      else none := by
  rw [grow?, CapSet.join_eq]
  by_cases contained : s ⊆ t.get cell <;> simp [contained]

/-! ## Room -/

/-- The number of members that could still be added to a list of sets. -/
def roomOf (sets : List CapSet) : Nat :=
  sets.foldr (fun s room => maxKinds - s.count + room) 0

/-- The number of members that could still be added to the tables. -/
def room (t : Tables) : Nat :=
  roomOf t.requiredIn.toList + roomOf t.requiredOut.toList + roomOf t.returnLive.toList +
    roomOf t.liveIn.toList + roomOf t.liveOut.toList

/-- Replacing a set by one with more members uses up room. -/
theorem roomOf_set_lt {sets : List CapSet} {i : Nat} {s : CapSet} (bound : i < sets.length)
    (more : (sets.getD i ∅).count < s.count) : roomOf (sets.set i s) < roomOf sets := by
  induction sets generalizing i with
  | nil => cases bound
  | cons first rest ih =>
    have limit := CapSet.count_le s
    cases i with
    | zero =>
      simp only [List.set_cons_zero, roomOf, List.foldr_cons]
      simp only [List.getD_cons_zero] at more
      omega
    | succ i =>
      simp only [List.set_cons_succ, roomOf, List.foldr_cons]
      simp only [List.getD_cons_succ] at more
      have := ih (Nat.lt_of_succ_lt_succ bound) more
      simp only [roomOf] at this
      omega

/-- **Growing uses up room.** -/
theorem room_lt_of_grow? {t t' : Tables} {cell : Cell} {s : CapSet}
    (h : t.grow? cell s = some t') : t'.room < t.room := by
  rw [grow?_eq] at h
  split at h
  case isFalse => cases h
  case isTrue grows =>
    cases h
    obtain ⟨bound, new⟩ := grows
    have more := CapSet.count_lt_count_union new
    have getD_toList : ∀ sets : Array CapSet, sets.toList.getD cell.index ∅ =
        sets.getD cell.index ∅ := by
      intro sets
      simp [Array.getD_eq_getD_getElem?, List.getD_eq_getElem?_getD]
    have smaller : ∀ sets : Array CapSet, cell.index < sets.size →
        (sets.getD cell.index ∅).count < (t.get cell ∪ s).count →
        roomOf (sets.setIfInBounds cell.index (t.get cell ∪ s)).toList < roomOf sets.toList := by
      intro sets inside larger
      rw [Array.toList_setIfInBounds]
      exact roomOf_set_lt (by simpa using inside) (by rw [getD_toList]; exact larger)
    have now := smaller (t.column cell.field) bound more
    obtain ⟨field, index⟩ := cell
    cases field <;> simp only [set, setColumn, column, room] at now ⊢ <;> omega

end Tables

end CapLiveness
