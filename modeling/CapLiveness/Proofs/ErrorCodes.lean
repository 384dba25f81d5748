import CapLiveness.Proofs.Strictness

/-!
# Codes in a problem

A problem is a tree, and analysis errors may stand anywhere in it. The walk that looks for a
code visits each node before what is below it, from left to right. Its codes, in the order of
the walk, are a list (`Problem.codes`), and the codes in that list are those that the tree
mentions (`Problem.mem_codes_iff`). The code of a problem is the first of them
(`Problem.code?_eq_head?`). So a problem has no other code than that of the first analysis
error, and it has every code it mentions exactly if they are all the same
(`Problem.hasCode_iff_mentions`).

A strict analysis that fails joins all errors of one function. Its problem mentions the codes of
all of them, and has the code of the first one only (`hasCode_first`, `hasCode_misses`).
-/

set_option autoImplicit false

namespace CapLiveness

namespace Problem

/-- Whether some analysis error in the tree has the given code. -/
inductive Mentions (code : ErrorCode) : Problem → Prop where
  | here {location : Location} {message : String} {cause : Option Problem} :
      Mentions code (.analysis code location message cause)
  | cause {other : ErrorCode} {location : Location} {message : String} {cause : Problem}
      (below : Mentions code cause) : Mentions code (.analysis other location message (some cause))
  | wrap {context : String} {cause : Problem} (below : Mentions code cause) :
      Mentions code (.wrap context cause)
  | join {causes : List Problem} {cause : Problem} (member : cause ∈ causes)
      (below : Mentions code cause) : Mentions code (.join causes)

mutual

/-- The codes of the analysis errors in the tree, in the order of the walk. -/
def codes : Problem → List ErrorCode
  | .analysis code _ _ cause => code :: causeCodes cause
  | .wrap _ cause => cause.codes
  | .join causes => codesOf causes
  | .plain _ | .malformed _ _ | .range _ | .document _ => []

def codesOf : List Problem → List ErrorCode
  | [] => []
  | problem :: rest => problem.codes ++ codesOf rest

def causeCodes : Option Problem → List ErrorCode
  | none => []
  | some problem => problem.codes

end

mutual

/-- **The code of a problem is the first one on the walk.** -/
theorem code?_eq_head? : ∀ problem : Problem, problem.code? = problem.codes.head?
  | .analysis _ _ _ _ => rfl
  | .wrap _ cause => code?_eq_head? cause
  | .join causes => firstCode?_eq_head? causes
  | .plain _ | .malformed _ _ | .range _ | .document _ => rfl

theorem firstCode?_eq_head? : ∀ causes : List Problem, firstCode? causes = (codesOf causes).head?
  | [] => rfl
  | problem :: rest => by
    rw [firstCode?, codesOf, List.head?_append, code?_eq_head? problem, firstCode?_eq_head? rest]

end

mutual

theorem mentions_of_mem_codes {code : ErrorCode} :
    ∀ problem : Problem, code ∈ problem.codes → problem.Mentions code
  | .analysis _ _ _ none, member => by
    obtain rfl := List.mem_singleton.mp member
    exact .here
  | .analysis _ _ _ (some cause), member => by
    rcases List.mem_cons.mp member with rfl | below
    · exact .here
    · exact .cause (mentions_of_mem_codes cause below)
  | .wrap _ cause, member => .wrap (mentions_of_mem_codes cause member)
  | .join causes, member => by
    obtain ⟨cause, isCause, mentions⟩ := exists_of_mem_codesOf causes member
    exact .join isCause mentions
  | .plain _, member | .malformed _ _, member | .range _, member | .document _, member => by
    cases member

theorem exists_of_mem_codesOf {code : ErrorCode} :
    ∀ causes : List Problem, code ∈ codesOf causes → ∃ cause ∈ causes, cause.Mentions code
  | [], member => by cases member
  | problem :: rest, member => by
    rcases List.mem_append.mp member with here | later
    · exact ⟨problem, List.mem_cons_self, mentions_of_mem_codes problem here⟩
    · obtain ⟨cause, isCause, mentions⟩ := exists_of_mem_codesOf rest later
      exact ⟨cause, List.mem_cons_of_mem _ isCause, mentions⟩

end

theorem mem_codesOf {code : ErrorCode} {causes : List Problem} {cause : Problem}
    (member : cause ∈ causes) (isCode : code ∈ cause.codes) : code ∈ codesOf causes := by
  induction member with
  | head => exact List.mem_append_left _ isCode
  | tail _ _ ih => exact List.mem_append_right _ ih

/-- The codes on the walk are those that the tree mentions. -/
theorem mem_codes_iff {problem : Problem} {code : ErrorCode} :
    code ∈ problem.codes ↔ problem.Mentions code := by
  refine ⟨mentions_of_mem_codes problem, fun mentions => ?_⟩
  induction mentions with
  | here => exact List.mem_cons_self
  | cause _ ih => exact List.mem_cons_of_mem _ ih
  | wrap _ ih => exact ih
  | join member _ ih => exact mem_codesOf member ih

theorem hasCode_iff {problem : Problem} {code : ErrorCode} :
    problem.hasCode code = true ↔ problem.codes.head? = some code := by
  rw [hasCode, beq_iff_eq, code?_eq_head?]

theorem mentions_of_hasCode {problem : Problem} {code : ErrorCode}
    (has : problem.hasCode code = true) : problem.Mentions code :=
  mem_codes_iff.mp (List.mem_of_head? (hasCode_iff.mp has))

/-- **A problem has every code that it mentions exactly if it mentions only one.** -/
theorem hasCode_iff_mentions {problem : Problem} :
    (∀ code, problem.hasCode code = true ↔ problem.Mentions code) ↔
      ∀ code other, problem.Mentions code → problem.Mentions other → code = other := by
  constructor
  · intro has code other mentions mentionsOther
    have first := hasCode_iff.mp ((has code).mpr mentions)
    have firstOther := hasCode_iff.mp ((has other).mpr mentionsOther)
    exact Option.some.inj (first.symm.trans firstOther)
  · intro same code
    refine ⟨mentions_of_hasCode, fun mentions => hasCode_iff.mpr ?_⟩
    have member := mem_codes_iff.mpr mentions
    cases isCodes : problem.codes with
    | nil =>
      rw [isCodes] at member
      cases member
    | cons first rest =>
      have mentionsFirst := mem_codes_iff.mp (isCodes ▸ List.mem_cons_self)
      rw [same code first mentions mentionsFirst]
      rfl

theorem mentions_join_iff {causes : List Problem} {code : ErrorCode} :
    (join causes).Mentions code ↔ ∃ cause ∈ causes, cause.Mentions code := by
  constructor
  · rintro (_ | _ | _ | ⟨member, below⟩)
    exact ⟨_, member, below⟩
  · rintro ⟨cause, member, below⟩
    exact .join member below

end Problem

namespace Program

variable {p : Program}

/-- A structural error is an analysis error with no other below it. -/
theorem FaultIn.exists_codes_eq {f : FunctionId} {place : Nat × Option Nat} {problem : Problem}
    (fault : p.FaultIn f place problem) : ∃ code, problem.codes = [code] := by
  obtain ⟨b, part⟩ := place
  obtain ⟨_, _, _, code, _, _, _, _, _, isFault, rfl⟩ := fault
  refine ⟨code, ?_⟩
  cases isFault <;> rfl

theorem FaultIn.mentions_iff {f : FunctionId} {place : Nat × Option Nat} {problem : Problem}
    (fault : p.FaultIn f place problem) {code : ErrorCode} :
    problem.Mentions code ↔ problem.code? = some code := by
  obtain ⟨only, isOnly⟩ := fault.exists_codes_eq
  rw [← Problem.mem_codes_iff, Problem.code?_eq_head?, isOnly, List.mem_singleton]
  exact eq_comm.trans Option.some_inj.symm

/-- A strict analysis that fails joins the structural errors of the first function that has
any. -/
theorem exists_of_strict_error {config : Config} {problem : Problem} (valid : p.validate = none)
    (raises : p.hasRaisePrimitive = true)
    (failed : p.outcomeUnder config .run = .error problem) :
    ∃ (i : Nat) (own : List Problem), problem = .join own ∧ own ≠ [] ∧
      Lists PartOrder (p.FaultIn (Int.ofNat i)) own ∧
      ∀ j < i, ∀ place other, ¬ p.FaultIn (Int.ofNat j) place other := by
  have wf := wellFormed_of_validate valid
  cases findings : Uses.findingsOf p with
  | nil =>
    have result : p.outcomeUnder config .run = .ok _ :=
      outcome_of_extract valid raises (extract_of_no_findings findings)
    cases failed.symm.trans result
  | cons finding rest =>
    obtain ⟨function, own⟩ := finding
    have reported : p.outcomeUnder config .run = .error (.join own) :=
      outcome_of_extract_error valid raises (extract_of_findings findings)
    obtain rfl := Except.error.inj (failed.symm.trans reported)
    obtain ⟨i, found, isOwn, nonempty, clean, _⟩ := exists_first_finding findings
    refine ⟨i, own, rfl, nonempty, isOwn ▸ wf.lists_functionProblems found, ?_⟩
    intro j lower place other fault
    obtain ⟨before, foundBefore, noProblems⟩ := clean j lower
    have member := (wf.mem_functionProblems_iff foundBefore).mpr ⟨place, fault⟩
    rw [noProblems] at member
    cases member

end Program

/-- **A problem has the code of the first analysis error, and no other.** The codes that a problem
mentions are those on the walk through its tree, and the first one is the code that it has. It
has all of them exactly if they are all the same. In particular, a strict analysis that fails
mentions the codes of all structural errors of the first function with any, and has the code of
the first of these errors alone. -/
theorem hasCode_first (problem : Problem) :
    (∀ code, (code ∈ problem.codes ↔ problem.Mentions code) ∧
      (problem.hasCode code = true ↔ problem.codes.head? = some code)) ∧
    ((∀ code, problem.hasCode code = true ↔ problem.Mentions code) ↔
      ∀ code other, problem.Mentions code → problem.Mentions other → code = other) ∧
    ∀ (p : Program) (config : Config), p.validate = none → p.hasRaisePrimitive = true →
      p.outcomeUnder config .run = .error problem →
      ∃ (i : Nat) (place : Nat × Option Nat) (first : Problem),
        p.FaultIn (Int.ofNat i) place first ∧
        (∀ j < i, ∀ other x, ¬ p.FaultIn (Int.ofNat j) other x) ∧
        (∀ other x, p.FaultIn (Int.ofNat i) other x → other = place ∨ PartOrder place other) ∧
        ∀ code, (problem.hasCode code = true ↔ first.code? = some code) ∧
          (problem.Mentions code ↔
            ∃ other x, p.FaultIn (Int.ofNat i) other x ∧ x.code? = some code) := by
  refine ⟨fun code => ⟨Problem.mem_codes_iff, Problem.hasCode_iff⟩,
    Problem.hasCode_iff_mentions, ?_⟩
  intro p config valid raises failed
  obtain ⟨i, own, rfl, nonempty, lists, lowest⟩ :=
    Program.exists_of_strict_error valid raises failed
  obtain ⟨first, rest, rfl⟩ := List.exists_cons_of_ne_nil nonempty
  obtain ⟨place, fault, least⟩ := lists.head
  refine ⟨i, place, first, fault, lowest, least, fun code => ⟨?_, ?_⟩⟩
  · obtain ⟨only, isOnly⟩ := fault.exists_codes_eq
    rw [Problem.hasCode_iff, Problem.codes, Problem.codesOf, Problem.code?_eq_head?, isOnly]
    rfl
  · rw [Problem.mentions_join_iff]
    constructor
    · rintro ⟨x, member, mentions⟩
      obtain ⟨other, isFault⟩ := (lists.mem_iff fun _ _ _ => Program.FaultIn.unique).mp member
      exact ⟨other, x, isFault, isFault.mentions_iff.mp mentions⟩
    · rintro ⟨other, x, isFault, isCode⟩
      have member := (lists.mem_iff fun _ _ _ => Program.FaultIn.unique).mpr ⟨other, isFault⟩
      exact ⟨x, member, isFault.mentions_iff.mpr isCode⟩

/-- A function that raises what it does not know, and then unwinds. -/
def leavingProgram : Program where
  capabilities := some rawEnumeration
  functions := #[{ id := 0, name := "bad", blocks := [0] }]
  blocks := #[
    { id := 0, function := 0, name := "leave", kind := .raise, raised := [.variable],
      exit := .unwind }]
  entry := 0

/-- The strict analysis reports both errors of the function. Its problem has the code of the
first one only. -/
theorem hasCode_misses :
    ∃ problem, leavingProgram.outcomeUnder {} .run = .error problem ∧
      problem = .join [
        .analysis .unwindExit ⟨"bad", "bad.leave"⟩ "unwind exits are not supported" none,
        .analysis .nonConstant ⟨"bad", "bad.leave"⟩ "capability argument 0 is not a constant"
          none] ∧
      problem.hasCode .unwindExit = true ∧ problem.Mentions .nonConstant ∧
      problem.hasCode .nonConstant = false := by
  have valid : leavingProgram.validate = none := by decide +kernel
  refine ⟨_, Program.outcome_of_extract_error valid rfl (Program.extract_of_findings rfl), rfl,
    by decide +kernel, ?_, by decide +kernel⟩
  exact Problem.mem_codes_iff.mp (by decide +kernel)

end CapLiveness
