import CapLiveness.Analysis.Equations

/-!
# Drop sets

What can be revoked where. Before control leaves a block, what is live on entry to
it and not on exit from it. On entry to a block, what is live on exit from a
predecessor and not on entry to the block. At the start of the process, what the
entry function never needs.

Drop sets are kept by block id, in increasing order and each id once
(`Drops.insert`).
-/

set_option autoImplicit false

namespace CapLiveness

/-- Sets by block id, in increasing order of the ids. -/
structure Drops where
  entries : List (BlockId × CapSet)

namespace Drops

instance : EmptyCollection Drops := ⟨⟨[]⟩⟩

/-- The number of entries. -/
def size (d : Drops) : Nat := d.entries.length

/-- The set of a block, empty when there is no entry. -/
def get (d : Drops) (b : BlockId) : CapSet :=
  match d.entries.find? (·.1 == b) with
  | some entry => entry.2
  | none => ∅

/-- Entries with the set of one block replaced or put at its place. -/
def insertEntry (b : BlockId) (s : CapSet) : List (BlockId × CapSet) → List (BlockId × CapSet)
  | [] => [(b, s)]
  | entry :: rest =>
    if b < entry.1 then (b, s) :: entry :: rest
    else if b = entry.1 then (b, s) :: rest
    else entry :: insertEntry b s rest

/-- Gives a block a set, which may be empty. -/
def insert (d : Drops) (b : BlockId) (s : CapSet) : Drops := ⟨insertEntry b s d.entries⟩

/-- The non-empty sets among those of the blocks `0` to `count - 1`. -/
def ofBlocks (count : Nat) (set : Nat → CapSet) : Drops :=
  ⟨(List.range count).filterMap fun b =>
    if (set b).isEmpty then none else some (Int.ofNat b, set b)⟩

end Drops

namespace Setting

/-- What a block of a function that is not opaque can revoke before it is left. -/
def dropAtEnd (s : Setting) (t : Tables) (b : Nat) : CapSet :=
  if s.isOpaqueBlock b then ∅ else t.get ⟨.liveIn, b⟩ \ t.get ⟨.liveOut, b⟩

/-- What can be revoked on entry to a block: whatever a predecessor still holds
and the block does not need. -/
def dropAtStart (s : Setting) (t : Tables) (b : Nat) : CapSet :=
  unionOf ((s.graph.predecessorsOf b).filter (!s.isOpaqueBlock ·)) fun predecessor =>
    t.get ⟨.liveOut, predecessor⟩ \ t.get ⟨.liveIn, b⟩

/-- The drop sets at the ends of the blocks. -/
def dropsAtEnd (s : Setting) (t : Tables) : Drops :=
  .ofBlocks s.program.blocks.size (s.dropAtEnd t)

/-- The drop sets at the starts of the blocks. -/
def dropsAtStart (s : Setting) (t : Tables) : Drops :=
  .ofBlocks s.program.blocks.size (s.dropAtStart t)

/-- What a function may need from its entry on, by its id. -/
def requirement (s : Setting) (t : Tables) (f : FunctionId) : CapSet :=
  match slotOf? s.graph.functionCount f with
  | some slot => t.get ⟨.requiredIn, slot⟩
  | none => ∅

/-- What can be revoked when the process starts. -/
def dropAtEntry (s : Setting) (t : Tables) : CapSet :=
  s.program.enumeration.complement (s.requirement t s.program.entry)

end Setting

end CapLiveness
