import CapLiveness.Analysis.Options
import CapLiveness.Problem
import CapLiveness.Program.Basic

/-!
# Local uses

What each block uses itself: the arguments of a privilege raise and the entries
of the use table that are constants inside the enumeration. Everything else that
extraction meets is a structural error: an unwind exit, an argument that is not a
constant, or a constant outside the enumeration.

A function with such errors becomes opaque: it is taken to need every capability
throughout, and its errors are kept as diagnostics.
-/

set_option autoImplicit false

namespace CapLiveness

/-- The arguments that a block uses, raise arguments first. -/
def Block.arguments (b : Block) : List Argument :=
  if b.kind = .raise then b.raised ++ b.uses else b.uses

/-- The kinds that a block uses itself: its constant arguments in the enumeration. -/
def Block.localUses (b : Block) (caps : Enumeration) : CapSet :=
  b.arguments.foldl
    (fun used argument =>
      match argument with
      | .constant value => if 0 ≤ value ∧ value < caps.size then used.insert value.toNat else used
      | .variable => used)
    ∅

namespace Program

/-- The enumeration of a program, or one without names when it has none. -/
def enumeration (p : Program) : Enumeration := p.capabilities.getD .empty

/-- A structural error in a block. -/
def blockProblem (p : Program) (b : Block) (code : ErrorCode) (message : String)
    (cause : Option Problem) : Problem :=
  .analysis code ⟨p.functionName b.function, p.blockName b.id⟩ message cause

/-- The structural error of an argument, given with its position. -/
def argumentProblem? (p : Program) (b : Block) (entry : Argument × Nat) : Option Problem :=
  match entry.1 with
  | .variable =>
    some (p.blockProblem b .nonConstant
      s!"capability argument {entry.2} is not a constant" none)
  | .constant value =>
    if 0 ≤ value ∧ value < p.enumeration.size then none
    else
      some (p.blockProblem b .outOfRange s!"capability argument {entry.2}"
        (some (.range ⟨value, p.enumeration.size⟩)))

/-- The structural errors of a block: an unwind exit, then its arguments. -/
def blockProblems (p : Program) (b : Block) : List Problem :=
  (if b.exit = .unwind then
    [p.blockProblem b .unwindExit "unwind exits are not supported" none]
  else []) ++ b.arguments.zipIdx.filterMap (p.argumentProblem? b)

/-- The structural errors of a function, block after block. -/
def functionProblems (p : Program) (f : Function) : List Problem :=
  (f.blocks.filterMap p.block?).flatMap p.blockProblems

/-- The kinds that the blocks of a function use themselves. -/
def functionUses (p : Program) (f : Function) : CapSet :=
  (f.blocks.filterMap p.block?).foldl (fun used b => used ∪ b.localUses p.enumeration) ∅

end Program

/-- The local uses of a program, by slot and by block. -/
structure Uses where
  ofSlot : Array CapSet
  ofBlock : Array CapSet
  /-- Whether the function in each slot is opaque. -/
  opaqueSlots : Array Bool
  /-- The errors of the opaque functions, with the function each belongs to. -/
  findings : List (Function × List Problem)

namespace Uses

/-- No uses, for a number of slots and a number of blocks. -/
def none (slots blocks : Nat) : Uses :=
  ⟨Array.replicate slots ∅, Array.replicate blocks ∅, Array.replicate slots false, []⟩

/-- Whether the function in a slot is opaque. -/
def isOpaque (u : Uses) (slot : Nat) : Bool := u.opaqueSlots.getD slot false

/-- The number of opaque functions. -/
def opaqueCount (u : Uses) : Nat := u.findings.length

/-- The errors of the opaque functions, in order. -/
def diagnostics (u : Uses) : List Problem := u.findings.flatMap (·.2)

/-- The functions with structural errors, each with its errors. -/
def findingsOf (p : Program) : List (Function × List Problem) :=
  (p.functions.toList.map fun f => (f, p.functionProblems f)).filter (!·.2.isEmpty)

/-- What every block and function uses itself. An opaque function uses everything. -/
def ofProgram (p : Program) : Uses :=
  let isOpaque := fun f => !(p.functionProblems f).isEmpty
  { ofSlot :=
      (p.functions.map fun f => if isOpaque f then p.enumeration.all else p.functionUses f) ++
        #[∅, ∅]
    ofBlock := p.blocks.map (·.localUses p.enumeration)
    opaqueSlots := p.functions.map isOpaque ++ #[false, false]
    findings := findingsOf p }

/-- Extracts the local uses. Where an error in any function is fatal, the errors
of the first function that has some are the outcome. -/
def extract (strictness : Strictness) (p : Program) : Except Problem Uses :=
  match strictness, findingsOf p with
  | .run, (_, problems) :: _ => .error (.join problems)
  | _, _ => .ok (ofProgram p)

end Uses

end CapLiveness
