import CapLiveness.Proofs.BuilderEffects

/-!
# Sessions with a builder

A session is a builder together with a log of the calls made so far and of their answers
(`Builder.Session`). It is proper when each function or block that a call is to change was the
answer to an earlier call (`Session.Proper`). What a call merely mentions may be anything:
successors, call targets, the entry function, arguments.

The invariant is that the log accounts for the program (`Log.Accounts`). It is kept by one call,
by its effect (`Log.Accounts.step`), and so by a session (`Session.IsKept.run`). Hence, after any
number of calls, the program is orderly, its lists are the answers of the log, and whatever
validation then finds wrong does not concern its order (`builder_keeps_order`).
-/

set_option autoImplicit false

namespace CapLiveness

namespace Builder

/-! ## Logs -/

/-- The calls made so far, with their answers. -/
abbrev Log := List (Call × Option Answer)

namespace Log

/-- The calls of a log. -/
def calls (log : Log) : List Call := log.map (·.1)

/-- The answers of a log. -/
def answers (log : Log) : List (Option Answer) := log.map (·.2)

/-- Whether the functions and blocks that a call is to change were answers. -/
def Permits (log : Log) (call : Call) : Prop :=
  (∀ f ∈ call.functions, some (.function f) ∈ log.answers) ∧
    ∀ b ∈ call.blocks, some (.block b) ∈ log.answers

instance (log : Log) (call : Call) : Decidable (log.Permits call) :=
  inferInstanceAs (Decidable (_ ∧ _))

/-- The blocks that calls have added to a function, in order. -/
def addedTo (log : Log) (f : FunctionId) : List BlockId :=
  log.filterMap fun entry => entry.1.addedBlock? entry.2 f

end Log

/-- **Logs that account for a program.** -/
structure Log.Accounts (log : Log) (p : Program) : Prop where
  orderly : p.IsOrderly
  /-- No call has failed. -/
  answered : none ∉ log.answers
  functions : ∀ f, p.hasFunction f = true ↔ some (.function f) ∈ log.answers
  blocks : ∀ b, p.hasBlock b = true ↔ some (.block b) ∈ log.answers
  /-- Each function lists the blocks that were added to it, in order. -/
  listed : ∀ f, p.listOf f = log.addedTo f
  /-- What is an exit was marked as one. -/
  exits : ∀ {f function}, p.function? f = some function →
    function.exit ≠ BlockId.absent → .markReturn function.exit ∈ log.calls

namespace Log.Accounts

variable {log : Log} {p q : Program}

theorem new (capabilities : Option Enumeration) :
    Log.Accounts [] (Builder.new capabilities).program := by
  have noFunction : ∀ f, (Builder.new capabilities).program.function? f = none := entryAt?_empty
  have noBlock : ∀ b, (Builder.new capabilities).program.block? b = none := entryAt?_empty
  refine ⟨⟨?_, ?_, .nil⟩, List.not_mem_nil, fun f => ?_, fun b => ?_, fun f => ?_, ?_⟩
  · intro f function found
    rw [noFunction] at found
    cases found
  · intro b block found
    rw [noBlock] at found
    cases found
  · rw [← Program.isSome_function?, noFunction]
    simp [answers]
  · rw [← Program.isSome_block?, noBlock]
    simp [answers]
  · rw [Program.listOf, noFunction]
    rfl
  · intro f function found
    rw [noFunction] at found
    cases found

variable (accounts : log.Accounts p)
include accounts

theorem retouch (retouches : p.Retouches q) : log.Accounts q where
  orderly := accounts.orderly.retouch retouches
  answered := accounts.answered
  functions f := by rw [retouches.hasFunction_eq, accounts.functions]
  blocks b := by rw [retouches.hasBlock_eq, accounts.blocks]
  listed f := by rw [retouches.listOf_eq, accounts.listed]
  exits {f function} found exits := by
    obtain ⟨old, foundOld, same⟩ := retouches.exists_exit found
    rw [← same] at exits ⊢
    exact accounts.exits foundOld exits

theorem fits {call : Call} (permits : log.Permits call) : call.Fits p where
  functions f member := (accounts.functions f).mpr (permits.1 f member)
  blocks b member := (accounts.blocks b).mpr (permits.2 b member)

/-- **One call**: the log with the call accounts for the program after it. -/
theorem step {call : Call} {answer : Answer} (effect : Effect p call answer q) :
    Log.Accounts (log ++ [(call, some answer)]) q where
  orderly := effect.isOrderly accounts.orderly
  answered := by
    have answered := accounts.answered
    simp_all [answers]
  functions f := by
    rw [effect.hasFunction_iff, accounts.functions]
    simp [answers, eq_comm]
  blocks b := by
    rw [effect.hasBlock_iff, accounts.blocks]
    simp [answers, eq_comm]
  listed f := by
    rw [effect.listOf_eq accounts.orderly, accounts.listed, addedTo, addedTo,
      List.filterMap_append]
    rfl
  exits {f function} found exits := by
    rw [calls, List.map_append]
    rcases effect.exit_cases accounts.orderly found exits with isMark | ⟨old, foundOld, same⟩
    · exact List.mem_append_right _ (List.mem_singleton.mpr isMark.symm)
    · rw [← same] at exits ⊢
      exact List.mem_append_left _ (accounts.exits foundOld exits)

end Log.Accounts

/-! ## Sessions -/

/-- A builder with the log of its calls. -/
structure Session where
  builder : Builder
  log : Log := []

namespace Session

/-- A session before the first call. -/
def start (capabilities : Option Enumeration) : Session := { builder := .new capabilities }

/-- Makes a call and logs it. -/
def step (s : Session) (call : Call) : Session where
  builder := (s.builder.perform call).1
  log := s.log ++ [(call, (s.builder.perform call).2)]

/-- Makes calls one after the other. -/
def run (s : Session) (calls : List Call) : Session := calls.foldl step s

/-- **Proper calls**: each is permitted after those before it. -/
def Proper : Session → List Call → Prop
  | _, [] => True
  | s, call :: rest => s.log.Permits call ∧ (s.step call).Proper rest

instance decidableProper : (s : Session) → (calls : List Call) → Decidable (s.Proper calls)
  | _, [] => .isTrue trivial
  | s, call :: rest =>
    have := decidableProper (s.step call) rest
    inferInstanceAs (Decidable (s.log.Permits call ∧ (s.step call).Proper rest))

variable {s : Session} {calls : List Call}

theorem run_append (first second : List Call) :
    s.run (first ++ second) = (s.run first).run second :=
  List.foldl_append

theorem proper_append {first second : List Call} :
    s.Proper (first ++ second) ↔ s.Proper first ∧ (s.run first).Proper second := by
  induction first generalizing s with
  | nil => simp [Proper, run]
  | cons call rest ih => simp [Proper, run, ih, and_assoc]

theorem calls_run : (s.run calls).log.calls = s.log.calls ++ calls := by
  induction calls generalizing s with
  | nil => exact (List.append_nil _).symm
  | cons call rest ih =>
    have logged : (s.step call).log.calls = s.log.calls ++ [call] := List.map_append
    rw [show s.run (call :: rest) = (s.step call).run rest from rfl, ih, logged, List.append_assoc]
    rfl

/-- Whether the log accounts for the program of the builder. -/
abbrev IsKept (s : Session) : Prop := s.log.Accounts s.builder.program

theorem IsKept.exists_effect (kept : s.IsKept) {call : Call} (permits : s.log.Permits call) :
    ∃ answer, (s.step call).log = s.log ++ [(call, some answer)] ∧
      Effect s.builder.program call answer (s.step call).builder.program := by
  obtain ⟨after, answer, performs, effect⟩ :=
    Builder.exists_effect kept.orderly (kept.fits permits)
  simp only [step, performs]
  exact ⟨answer, rfl, effect⟩

theorem IsKept.step (kept : s.IsKept) {call : Call} (permits : s.log.Permits call) :
    (s.step call).IsKept := by
  obtain ⟨answer, logged, effect⟩ := kept.exists_effect permits
  rw [IsKept, logged]
  exact Log.Accounts.step kept effect

/-- **Proper calls**, from the first to the last. -/
theorem IsKept.run (kept : s.IsKept) (proper : s.Proper calls) :
    (s.run calls).IsKept ∧
      (s.run calls).builder.program.capabilities = s.builder.program.capabilities ∧
      s.builder.program.declared ⊆ (s.run calls).builder.program.declared := by
  induction calls generalizing s with
  | nil => exact ⟨kept, rfl, List.Subset.refl _⟩
  | cons call rest ih =>
    obtain ⟨_, _, effect⟩ := kept.exists_effect proper.1
    obtain ⟨keptRest, capabilities, declared⟩ := ih (kept.step proper.1) proper.2
    exact ⟨keptRest, capabilities.trans effect.capabilities_eq,
      List.Subset.trans effect.declared_subset declared⟩

/-- A raise declares the primitive in force, and it stays declared. -/
theorem IsKept.primitive_mem_declared (kept : s.IsKept) {earlier later : List Call} {call : Call}
    (proper : s.Proper (earlier ++ call :: later)) (isRaise : call.isRaise = true) :
    (s.run earlier).builder.program.primitive ∈
      (s.run (earlier ++ call :: later)).builder.program.declared := by
  obtain ⟨properEarlier, permits, properLater⟩ := proper_append.mp proper
  have keptEarlier := (kept.run properEarlier).1
  obtain ⟨_, _, effect⟩ := keptEarlier.exists_effect permits
  have declared := ((keptEarlier.step permits).run properLater).2.2
  rw [run_append]
  exact declared (effect.primitive_mem_declared isRaise)

end Session

/-! ## What is built -/

variable {builder : Builder}

theorem retouches_current : builder.program.Retouches builder.current := by
  unfold current
  split
  case isTrue => exact .of_entries rfl rfl rfl rfl
  case isFalse => exact .refl _

theorem eq_ofCauses_of_build {problem : Problem} (fails : builder.build = .error problem) :
    Problem.ofCauses (builder.current.defects.map (·.problem builder.current)) = some problem := by
  unfold build at fails
  split at fails
  case h_1 => cases fails
  case h_2 found =>
    cases fails
    exact found

end Builder

open Builder (Call Session)

/-- **Builders keep their programs in order.** After any number of proper calls, no call has
failed, and the log accounts for the program: functions and blocks are those answered, and each
function lists the blocks added to it, in order. The program is orderly, so each block stands
once in the lists, in that of the function that it names. What is an exit was marked as one
before, and each raise declared the primitive in force. So if the program is over some
capabilities and does not pass validation, whatever is wrong concerns the entry function, edges,
exits, the arguments of raises or the targets of calls. -/
theorem builder_keeps_order {capabilities : Option Enumeration} {calls before : List Call}
    (proper : (Session.start capabilities).Proper calls) (isBefore : before <+: calls)
    {s : Session} (isAfter : s = (Session.start capabilities).run before) :
    s.log.calls = before ∧ s.log.Accounts s.builder.current ∧
    (∀ b block, s.builder.current.block? b = some block →
      (s.builder.current.listOf block.function).count b = 1 ∧
      (s.builder.current.functions.toList.flatMap (·.blocks)).count b = 1) ∧
    (∀ earlier f name arguments, earlier ++ [.addRaise f name arguments] <+: before →
      ((Session.start capabilities).run earlier).builder.program.primitive ∈
        s.builder.current.declared) ∧
    (capabilities ≠ none → ∀ problem, s.builder.build = .error problem →
      Problem.ofCauses (s.builder.current.defects.map (·.problem s.builder.current)) =
        some problem ∧
      ∀ defect ∈ s.builder.current.defects, defect.concern? ≠ none) := by
  obtain ⟨later, rfl⟩ := isBefore
  have properBefore := (Builder.Session.proper_append.mp proper).1
  have start : (Session.start capabilities).IsKept := .new capabilities
  obtain ⟨kept, capable, _⟩ := start.run properBefore
  have retouches := s.builder.retouches_current
  rw [← isAfter] at kept capable
  have accounts := kept.retouch retouches
  refine ⟨?_, accounts, fun b block => accounts.orderly.count_listed, ?_, ?_⟩
  · rw [isAfter, Builder.Session.calls_run]
    rfl
  · rintro earlier f name arguments ⟨rest, rfl⟩
    refine retouches.declared ?_
    rw [List.append_assoc] at properBefore isAfter
    rw [isAfter]
    exact start.primitive_mem_declared properBefore rfl
  · intro given problem fails
    refine ⟨Builder.eq_ofCauses_of_build fails, fun defect => accounts.orderly.concern?_ne_none ?_⟩
    rw [retouches.capabilities, capable]
    exact given

/-- A script that raises with two primitives, marks two exits of one function, unmarks one of
them, and leaves an edge, a raise and a call that lead nowhere. -/
def disorderlyScript : List Call :=
  [.addFunction "main", .addFunction "helper", .addRaise 0 "open" [.constant 0],
    .nameRaisePrimitive "seteuid", .addPlain 1 "work", .addRaise 0 "again" [],
    .addChain [0, 2, 7], .markReturn 2, .markReturn 0, .markUnreachable 0,
    .declareSymbol "priv_raise", .addCall 1 "leave" (.direct 9), .markReturn 1]

/-- The script is proper. The lists are in order, both primitives are declared, and what is wrong
at the end concerns exits, an edge, the arguments of a raise and the target of a call. -/
theorem builder_keeps_order_script :
    (Session.start (some rawEnumeration)).Proper disorderlyScript ∧
      ∃ s, s = (Session.start (some rawEnumeration)).run disorderlyScript ∧
        s.log.Accounts s.builder.current ∧
        s.builder.current.listOf 0 = [0, 2] ∧ s.builder.current.listOf 1 = [1, 3] ∧
        "priv_raise" ∈ s.builder.current.declared ∧ "seteuid" ∈ s.builder.current.declared ∧
        s.builder.current.defects.map (·.concern?) =
          [some .exits, some .exits, some .edges, some .exits, some .exits, some .raiseArguments,
            some .exits, some .callTargets] := by
  have proper : (Session.start (some rawEnumeration)).Proper disorderlyScript := by
    decide +kernel
  obtain ⟨_, accounts, _, declares, _⟩ := builder_keeps_order proper (List.prefix_refl _) rfl
  refine ⟨proper, _, rfl, accounts, by decide +kernel, by decide +kernel, ?_, ?_, by decide +kernel⟩
  · exact declares (disorderlyScript.take 2) 0 "open" [.constant 0] (by decide)
  · exact declares (disorderlyScript.take 5) 0 "again" [] (by decide)

end CapLiveness
