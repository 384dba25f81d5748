import CapLiveness.Analysis.Reachability
import CapLiveness.Analysis.Result

/-!
# Reports on live sets

How many blocks are entered with each live set, and how much reachable code runs
with it. Each report has one entry for each distinct set (`setsOf`).

Amounts of code are signed 64-bit words: sums wrap around, and so does the
difference by which two amounts are compared.
-/

set_option autoImplicit false

namespace CapLiveness

/-- A number as a signed 64-bit word. -/
def wrap64 (n : Int) : Int := Int.bmod n (1 <<< 64)

/-- A live set and the number of blocks entered with it. -/
structure SetCount where
  set : CapSet
  blocks : Nat
deriving DecidableEq

/-- A live set, and the number and the total size of the reachable blocks entered
with it. -/
structure Exposure where
  set : CapSet
  blocks : Nat
  instructions : Int
deriving DecidableEq

namespace SetCount

/-- The order of a report: larger counts first, then by the sets. -/
def compare (a b : SetCount) : Ordering :=
  (Ord.compare b.blocks a.blocks).then (CapSet.compareBySize a.set b.set)

end SetCount

namespace Exposure

/-- The order of a report: larger amounts first, then by the sets. -/
def compare (a b : Exposure) : Ordering :=
  if a.instructions = b.instructions then CapSet.compareBySize a.set b.set
  else Ord.compare (wrap64 (b.instructions - a.instructions)) 0

end Exposure

/-- The size of a block in instructions. A block of unknown size counts as one. -/
def Block.instructions (b : Block) : Int := if 0 < b.size then b.size else 1

namespace Result

/-- What is live on entry to the block at a position. -/
def liveAt (r : Result) (b : Nat) : CapSet := r.tables.get ⟨.liveIn, b⟩

/-- The distinct sets that are live on entry to some blocks. -/
def setsOf (r : Result) (blocks : List Nat) : List CapSet := (blocks.map r.liveAt).eraseDups

/-- The blocks among some that are entered with a given set live. -/
def enteredWith (r : Result) (blocks : List Nat) (s : CapSet) : List Nat :=
  blocks.filter (r.liveAt · == s)

/-- The positions of the blocks of functions that are not opaque. -/
def openPositions (r : Result) : List Nat := r.setting.openBlocks.map (·.2)

/-- The distinct sets live on entry to the blocks of functions that are not
opaque, the most frequent first. -/
def uniqueSets (r : Result) : List SetCount :=
  let counts := (r.setsOf r.openPositions).map fun s =>
    SetCount.mk s (r.enteredWith r.openPositions s).length
  counts.mergeSort fun a b => a.compare b != .gt

/-- The total size of some blocks. -/
def sizeOf (r : Result) (blocks : List Nat) : Int :=
  (blocks.filterMap r.setting.block?).foldl (fun sum b => wrap64 (sum + b.instructions)) 0

/-- For each distinct live set, how much reachable code runs with it, the largest
first. -/
def exposure (r : Result) : List Exposure :=
  let blocks := r.setting.reachable.arrivals.map (·.block)
  let entries := (r.setsOf blocks).map fun s =>
    let entered := r.enteredWith blocks s
    Exposure.mk s entered.length (r.sizeOf entered)
  entries.mergeSort fun a b => a.compare b != .gt

/-- A chain of blocks through which control may reach a block, if it is reachable. -/
def pathTo? (r : Result) (b : BlockId) : Option (List Nat) :=
  if 0 ≤ b then r.setting.reachable.pathTo? b.toNat else none

end Result

end CapLiveness
