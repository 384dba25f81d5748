import CapLiveness.Program.Description
import CapLiveness.Proofs.Numerals
import Mathlib.Data.List.Forall2
import Mathlib.Data.List.Nodup

/-!
# What written blocks mean

Blocks are written under names, with arguments, callees and successors as texts. This module
says what each part means, as relations that know nothing of the order in which a description
is worked through, of the names seen so far or of the problems that are reported: an argument
has three readings (`ArgumentText.Reads`), a call four forms (`Description.Targets`), and the
number of a block is its place among all written blocks (`Description.written`).

Working through a description finds what the relations say, function by function of the
program: `argument_eq_ok_iff`, `target_eq_ok_iff`, `action_eq_ok_iff` and so on up to
`allBlocks_eq_ok_iff`. Each is an equivalence, so it says both when a part is accepted and what
it is then.
-/

set_option autoImplicit false

namespace CapLiveness

/-! ## Outcomes -/

section Outcomes

variable {ε α β : Type}

theorem bind_eq_ok_iff {outcome : Except ε α} {next : α → Except ε β} {b : β} :
    (outcome >>= next) = .ok b ↔ ∃ a, outcome = .ok a ∧ next a = .ok b := by
  cases outcome <;> simp [bind, Except.bind]

theorem pure_eq_ok_iff {a b : α} : (pure a : Except ε α) = .ok b ↔ a = b := by
  simp [pure, Except.pure]

theorem mapError_eq_ok_iff {δ : Type} {outcome : Except ε α} {f : ε → δ} {a : α} :
    outcome.mapError f = .ok a ↔ outcome = .ok a := by
  cases outcome <;> simp [Except.mapError]

theorem mapM_eq_ok_iff {f : α → Except ε β} {xs : List α} {ys : List β} :
    xs.mapM f = .ok ys ↔ List.Forall₂ (fun x y => f x = .ok y) xs ys := by
  induction xs generalizing ys with
  | nil =>
    rw [List.mapM_nil, pure_eq_ok_iff, List.forall₂_nil_left_iff, eq_comm]
  | cons x rest ih =>
    rw [List.mapM_cons, bind_eq_ok_iff, List.forall₂_cons_left_iff]
    refine exists_congr fun y => ?_
    rw [bind_eq_ok_iff]
    simp only [ih, pure_eq_ok_iff]
    constructor
    · rintro ⟨read, others, related, rfl⟩
      exact ⟨others, read, related, rfl⟩
    · rintro ⟨others, read, related, rfl⟩
      exact ⟨read, others, related, rfl⟩

end Outcomes

/-- Something related exists for a list if it exists for each entry. -/
theorem exists_forall₂ {α β : Type} {related : α → β → Prop} {xs : List α}
    (each : ∀ x ∈ xs, ∃ y, related x y) : ∃ ys, List.Forall₂ related xs ys := by
  induction xs with
  | nil => exact ⟨[], .nil⟩
  | cons x rest ih =>
    obtain ⟨first, others⟩ := List.forall_mem_cons.mp each
    obtain ⟨y, isFirst⟩ := first
    obtain ⟨ys, areOthers⟩ := ih others
    exact ⟨y :: ys, .cons isFirst areOthers⟩

theorem exists_of_forall₂ {α β : Type} {related : α → β → Prop} {xs : List α} {ys : List β}
    (all : List.Forall₂ related xs ys) : ∀ x ∈ xs, ∃ y, related x y := by
  induction all with
  | nil => exact fun x member => absurd member List.not_mem_nil
  | cons first _ ih => exact List.forall_mem_cons.mpr ⟨⟨_, first⟩, ih⟩

/-- Where no two entries have the same name, the first entry with a name is the entry with
that name. -/
theorem findIdx?_name_eq_some_iff {α : Type} {nameOf : α → String} {xs : List α} {name : String}
    {i : Nat} (nodup : (xs.map nameOf).Nodup) :
    xs.findIdx? (nameOf · == name) = some i ↔ ∃ x, xs[i]? = some x ∧ nameOf x = name := by
  rw [List.findIdx?_eq_some_iff_getElem]
  constructor
  · rintro ⟨bound, same, _⟩
    exact ⟨xs[i], List.getElem?_eq_getElem bound, beq_iff_eq.mp same⟩
  · rintro ⟨x, found, rfl⟩
    obtain ⟨bound, rfl⟩ := List.getElem?_eq_some_iff.mp found
    refine ⟨bound, beq_self_eq_true _, ?_⟩
    intro j before same
    have boundJ : j < (xs.map nameOf).length := by
      rw [List.length_map]
      exact Nat.lt_trans before bound
    have sameName : (xs.map nameOf)[j]? = (xs.map nameOf)[i]? := by
      rw [List.getElem?_map, List.getElem?_map,
        List.getElem?_eq_getElem (Nat.lt_trans before bound), List.getElem?_eq_getElem bound]
      exact congrArg some (beq_iff_eq.mp same)
    exact absurd ((List.getElem?_inj boundJ nodup).mp sameName) (Nat.ne_of_lt before)

/-- Two passes over a list, of which the second sees the results of the first, are one. -/
theorem forall₂_zip_iff {α β γ : Type} {first : α × Nat → β → Prop} {second : α × β → γ → Prop}
    {xs : List α} {n : Nat} {zs : List γ} :
    (∃ ys, List.Forall₂ first (xs.zipIdx n) ys ∧ List.Forall₂ second (xs.zip ys) zs) ↔
      List.Forall₂ (fun entry z => ∃ y, first entry y ∧ second (entry.1, y) z)
        (xs.zipIdx n) zs := by
  induction xs generalizing n zs with
  | nil =>
    constructor
    · rintro ⟨ys, _, passed⟩
      rw [List.zip_nil_left, List.forall₂_nil_left_iff] at passed
      rw [passed]
      exact .nil
    · intro passed
      rw [List.zipIdx_nil, List.forall₂_nil_left_iff] at passed
      rw [passed]
      exact ⟨[], .nil, .nil⟩
  | cons x rest ih =>
    rw [List.zipIdx_cons]
    constructor
    · rintro ⟨ys, _ | ⟨isFirst, areFirst⟩, passed⟩
      rw [List.zip_cons_cons] at passed
      obtain _ | ⟨isSecond, areSecond⟩ := passed
      exact .cons ⟨_, isFirst, isSecond⟩ (ih.mp ⟨_, areFirst, areSecond⟩)
    · rintro (_ | ⟨⟨y, isFirst, isSecond⟩, others⟩)
      obtain ⟨ys, areFirst, areSecond⟩ := ih.mpr others
      exact ⟨y :: ys, .cons isFirst areFirst, .cons isSecond areSecond⟩

theorem forall₂_append_left_iff {α β : Type} {related : α → β → Prop} {xs ys : List α}
    {zs : List β} :
    List.Forall₂ related (xs ++ ys) zs ↔
      ∃ us vs, List.Forall₂ related xs us ∧ List.Forall₂ related ys vs ∧ us ++ vs = zs := by
  induction xs generalizing zs with
  | nil =>
    simp only [List.nil_append, List.forall₂_nil_left_iff]
    constructor
    · intro all
      exact ⟨[], zs, rfl, all, rfl⟩
    · rintro ⟨_, vs, rfl, all, rfl⟩
      exact all
  | cons x rest ih =>
    simp only [List.cons_append, List.forall₂_cons_left_iff, ih]
    constructor
    · rintro ⟨z, _, isFirst, ⟨us, vs, own, others, rfl⟩, rfl⟩
      exact ⟨z :: us, vs, ⟨z, us, isFirst, own, rfl⟩, others, rfl⟩
    · rintro ⟨_, vs, ⟨z, us, isFirst, own, rfl⟩, others, rfl⟩
      exact ⟨z, us ++ vs, isFirst, ⟨us, vs, own, others, rfl⟩, rfl⟩

/-- Names that are not empty, not repeated and not among those seen before. -/
def FreshNames (seen names : List String) : Prop :=
  (∀ name ∈ names, name ≠ "" ∧ name ∉ seen) ∧ names.Nodup

theorem freshNames_nil (seen : List String) : FreshNames seen [] :=
  ⟨fun _ member => absurd member List.not_mem_nil, List.nodup_nil⟩

theorem freshNames_cons_iff {seen rest : List String} {name : String} :
    FreshNames seen (name :: rest) ↔
      ¬ (name = "" ∨ name ∈ seen) ∧ FreshNames (name :: seen) rest := by
  unfold FreshNames
  rw [List.forall_mem_cons, List.nodup_cons, not_or]
  constructor
  · rintro ⟨⟨first, others⟩, notLater, nodup⟩
    refine ⟨first, fun other later => ⟨(others other later).1, ?_⟩, nodup⟩
    rw [List.mem_cons, not_or]
    exact ⟨fun same => notLater (same ▸ later), (others other later).2⟩
  · rintro ⟨first, others, nodup⟩
    refine ⟨⟨first, fun other later => ⟨(others other later).1, ?_⟩⟩, ?_, nodup⟩
    · exact fun before => (others other later).2 (List.mem_cons_of_mem _ before)
    · exact fun later => (others name later).2 List.mem_cons_self

theorem firstBadName_eq_none_iff {seen names : List String} :
    firstBadName seen names = none ↔ FreshNames seen names := by
  induction names generalizing seen with
  | nil => exact ⟨fun _ => freshNames_nil seen, fun _ => rfl⟩
  | cons name rest ih =>
    rw [freshNames_cons_iff, firstBadName, ← ih]
    split
    case isTrue bad => simp [bad]
    case isFalse good => simp [good]

/-! ## Arguments and calls -/

/-- **The readings of an argument**: a question mark, a number, or else the name of a
capability. -/
inductive ArgumentText.Reads (caps : Enumeration) (a : ArgumentText) : Argument → Prop where
  | mark (isMark : a.text = "?") : Reads caps a .variable
  | number {value : Int} (writes : Text.Writes a.text.toList value)
      (fits : Text.FitsWord value) : Reads caps a (.constant value)
  | name {kind : Nat} (noMark : a.text ≠ "?")
      (noNumber : ¬ ∃ value, Text.Writes a.text.toList value ∧ Text.FitsWord value)
      (known : caps.lookup a.text = some kind) : Reads caps a (.constant (Int.ofNat kind))

theorem argument_eq_ok_iff {caps : Enumeration} {a : ArgumentText} {argument : Argument} :
    a.argument caps = .ok argument ↔ a.Reads caps argument := by
  unfold ArgumentText.argument
  split
  case isTrue mark =>
    constructor
    · intro same
      obtain rfl := Except.ok.inj same
      exact .mark mark
    · intro reads
      cases reads with
      | mark => rfl
      | number writes fits =>
        have read := Text.Integer.parseSigned_eq_ok_iff.mpr ⟨writes, fits⟩
        rw [mark] at read
        cases read
      | name noMark => exact absurd mark noMark
  case isFalse noMark =>
    split
    case h_1 value read =>
      obtain ⟨writes, fits⟩ := Text.Integer.parseSigned_eq_ok_iff.mp read
      constructor
      · intro same
        obtain rfl := Except.ok.inj same
        exact .number writes fits
      · intro reads
        cases reads with
        | mark mark => exact absurd mark noMark
        | number writes fits =>
          have same := Text.Integer.parseSigned_eq_ok_iff.mpr ⟨writes, fits⟩
          rw [read] at same
          rw [Except.ok.inj same]
        | name _ noNumber => exact absurd ⟨value, writes, fits⟩ noNumber
    case h_2 fault read =>
      have noNumber : ¬ ∃ value, Text.Writes a.text.toList value ∧ Text.FitsWord value := by
        rintro ⟨value, number⟩
        rw [Text.Integer.parseSigned_eq_ok_iff.mpr number] at read
        cases read
      cases known : caps.lookup a.text with
      | none =>
        constructor
        · intro failed
          cases failed
        · intro reads
          cases reads with
          | mark mark => exact absurd mark noMark
          | number writes fits => exact absurd ⟨_, writes, fits⟩ noNumber
          | name _ _ found =>
            rw [known] at found
            cases found
      | some kind =>
        constructor
        · intro same
          obtain rfl := Except.ok.inj same
          exact .name noMark noNumber known
        · intro reads
          cases reads with
          | mark mark => exact absurd mark noMark
          | number writes fits => exact absurd ⟨_, writes, fits⟩ noNumber
          | name _ _ found =>
            rw [known] at found
            rw [Option.some.inj found]

namespace Description

/-- A name stands for a function, by its place in the description. -/
def Names (d : Description) (name : String) (f : FunctionId) : Prop :=
  ∃ (i : Nat) (function : FunctionDescription),
    d.functions[i]? = some function ∧ function.name = name ∧ f = Int.ofNat i

/-- **The forms of a call.** A name that is called directly counts before all else. -/
inductive Targets (d : Description) (call : CallDescription) : CallTarget → Prop where
  | direct {f : FunctionId} (named : call.direct ≠ "") (names : d.Names call.direct f) :
      Targets d call (.direct f)
  | unresolved (noName : call.direct = "") (isUnresolved : call.unresolved = true)
      (noCandidates : call.candidates = []) : Targets d call .unresolved
  | resolved {candidates : List FunctionId} (noName : call.direct = "")
      (isResolved : call.unresolved = false)
      (names : List.Forall₂ d.Names call.candidates candidates) :
      Targets d call (.resolved candidates call.complete)

/-- What a block does: it raises its arguments, calls, or does neither. -/
inductive Acts (d : Description) (b : BlockDescription) (raised : List Argument) :
    BlockKind → CallTarget → Prop where
  | plain (noCall : b.call = none) (nothing : raised = []) : Acts d b raised .plain (.direct 0)
  | raise (noCall : b.call = none) (something : raised ≠ []) : Acts d b raised .raise (.direct 0)
  | call {call : CallDescription} {target : CallTarget} (isCall : b.call = some call)
      (nothing : raised = []) (targets : d.Targets call target) : Acts d b raised .call target

section Distinct

variable {d : Description} (distinct : (d.functions.map (·.name)).Nodup)
include distinct

theorem functionId?_eq_some_iff {name : String} {f : FunctionId} :
    d.functionId? name = some f ↔ d.Names name f := by
  rw [functionId?, Option.map_eq_some_iff]
  constructor
  · rintro ⟨i, found, rfl⟩
    obtain ⟨function, isFunction, isNamed⟩ := (findIdx?_name_eq_some_iff distinct).mp found
    exact ⟨i, function, isFunction, isNamed, rfl⟩
  · rintro ⟨i, function, isFunction, isNamed, rfl⟩
    exact ⟨i, (findIdx?_name_eq_some_iff distinct).mpr ⟨function, isFunction, isNamed⟩, rfl⟩

theorem callee_eq_ok_iff {name : String} {f : FunctionId} :
    d.callee name = .ok f ↔ d.Names name f := by
  rw [← functionId?_eq_some_iff distinct, callee]
  cases d.functionId? name <;> simp

theorem target_eq_ok_iff {call : CallDescription} {target : CallTarget} :
    d.target call = .ok target ↔ d.Targets call target := by
  unfold Description.target
  split
  case isTrue named =>
    rw [map_eq_ok_iff]
    constructor
    · rintro ⟨f, found, rfl⟩
      exact .direct named ((callee_eq_ok_iff distinct).mp found)
    · intro targets
      cases targets with
      | direct _ names => exact ⟨_, (callee_eq_ok_iff distinct).mpr names, rfl⟩
      | unresolved noName | resolved noName => exact absurd noName named
  case isFalse notNamed =>
    have noName : call.direct = "" := Decidable.not_not.mp notNamed
    split
    case isTrue isUnresolved =>
      constructor
      · intro read
        split at read
        case isTrue empty =>
          obtain rfl := Except.ok.inj read
          exact .unresolved noName isUnresolved (List.isEmpty_iff.mp empty)
        case isFalse => cases read
      · intro targets
        cases targets with
        | direct named => exact absurd named notNamed
        | unresolved _ _ noCandidates => rw [if_pos (List.isEmpty_iff.mpr noCandidates)]
        | resolved _ isResolved =>
          rw [isUnresolved] at isResolved
          cases isResolved
    case isFalse notUnresolved =>
      have isResolved : call.unresolved = false := Bool.eq_false_iff.mpr notUnresolved
      rw [map_eq_ok_iff]
      simp only [mapM_eq_ok_iff, callee_eq_ok_iff distinct]
      constructor
      · rintro ⟨candidates, names, rfl⟩
        exact .resolved noName isResolved names
      · intro targets
        cases targets with
        | direct named => exact absurd named notNamed
        | unresolved _ isUnresolved => exact absurd isUnresolved notUnresolved
        | resolved _ _ names => exact ⟨_, names, rfl⟩

theorem action_eq_ok_iff {b : BlockDescription} {raised : List Argument} {kind : BlockKind}
    {target : CallTarget} :
    d.action b raised = .ok (kind, target) ↔ d.Acts b raised kind target := by
  unfold action
  cases isCall : b.call with
  | none =>
    cases raised with
    | nil =>
      constructor
      · intro same
        cases same
        exact .plain isCall rfl
      · intro acts
        cases acts with
        | plain => rfl
        | raise _ something => exact absurd rfl something
        | call found => rw [isCall] at found; cases found
    | cons first rest =>
      constructor
      · intro same
        cases same
        exact .raise isCall (List.cons_ne_nil first rest)
      · intro acts
        cases acts with
        | plain _ nothing | call _ nothing => cases nothing
        | raise => rfl
  | some call =>
    cases raised with
    | nil =>
      show (d.target call).map (fun target => (BlockKind.call, target)) = _ ↔ _
      rw [map_eq_ok_iff]
      simp only [target_eq_ok_iff distinct]
      constructor
      · rintro ⟨target, targets, same⟩
        cases same
        exact .call isCall rfl targets
      · intro acts
        cases acts with
        | plain noCall => rw [isCall] at noCall; cases noCall
        | raise noCall => rw [isCall] at noCall; cases noCall
        | call found _ targets =>
          rw [isCall] at found
          obtain rfl := Option.some.inj found
          exact ⟨_, targets, rfl⟩
    | cons first rest =>
      constructor
      · intro failed
        cases failed
      · intro acts
        cases acts with
        | plain _ nothing | call _ nothing => cases nothing
        | raise noCall => rw [isCall] at noCall; cases noCall

end Distinct

/-! ## Blocks -/

/-- **The words for exits.** -/
inductive ExitWord : String → ExitKind → Prop where
  | continues : ExitWord "" .none
  | returns : ExitWord "return" .return
  | ends : ExitWord "unreachable" .unreachable
  | unwinds : ExitWord "unwind" .unwind

/-- **What a written block means**, given its number, the number of its function and what the
names of its successors stand for. -/
structure Means (d : Description) (caps : Enumeration) (number function : Nat)
    (next : String → BlockId → Prop) (b : BlockDescription) (block : Block) : Prop where
  id : block.id = Int.ofNat number
  function : block.function = Int.ofNat function
  name : block.name = b.name
  size : block.size = b.size
  raised : List.Forall₂ (ArgumentText.Reads caps) b.raised block.raised
  uses : List.Forall₂ (ArgumentText.Reads caps) b.uses block.uses
  acts : d.Acts b block.raised block.kind block.target
  successors : List.Forall₂ next b.successors block.successors
  exit : ExitWord b.exit block.exit

/-- The name of a block of a function stands for the block's number, if the blocks of the
function are numbered from `first`. -/
def NextIn (f : FunctionDescription) (first : Nat) (name : String) (s : BlockId) : Prop :=
  ∃ (k : Nat) (target : BlockDescription),
    f.blocks[k]? = some target ∧ target.name = name ∧ s = Int.ofNat (first + k)

theorem exitKind_eq_ok_iff {f : FunctionDescription} {b : BlockDescription} {exit : ExitKind} :
    exitKind f b = .ok exit ↔ ExitWord b.exit exit := by
  unfold exitKind
  constructor
  · intro read
    split at read
    case h_1 word => cases read; rw [word]; exact .continues
    case h_2 word => cases read; rw [word]; exact .returns
    case h_3 word => cases read; rw [word]; exact .ends
    case h_4 word => cases read; rw [word]; exact .unwinds
    case h_5 => cases read
  · intro isWord
    generalize b.exit = word at isWord
    cases isWord <;> rfl

theorem successor_eq_ok_iff {f : FunctionDescription} (distinct : (f.blocks.map (·.name)).Nodup)
    {first : Nat} {b : BlockDescription} {name : String} {s : BlockId} :
    successor f first b name = .ok s ↔ NextIn f first name s := by
  unfold successor
  cases found : f.blocks.findIdx? (·.name == name) with
  | none =>
    constructor
    · intro failed
      cases failed
    · rintro ⟨k, target, isTarget, isNamed, _⟩
      rw [(findIdx?_name_eq_some_iff distinct).mpr ⟨target, isTarget, isNamed⟩] at found
      cases found
  | some k =>
    obtain ⟨target, isTarget, isNamed⟩ := (findIdx?_name_eq_some_iff distinct).mp found
    constructor
    · intro same
      obtain rfl := Except.ok.inj same
      exact ⟨k, target, isTarget, isNamed, rfl⟩
    · rintro ⟨j, other, isOther, isNamedOther, rfl⟩
      have same := (findIdx?_name_eq_some_iff distinct).mpr ⟨other, isOther, isNamedOther⟩
      rw [found] at same
      rw [Option.some.inj same]

theorem blockBody_eq_ok_iff {d : Description} (distinct : (d.functions.map (·.name)).Nodup)
    {caps : Enumeration} {f : FunctionDescription} {id : BlockId} {function : FunctionId}
    {b : BlockDescription} {body : Block} :
    d.blockBody caps f id function b = .ok body ↔
      ∃ raised uses kind target, List.Forall₂ (ArgumentText.Reads caps) b.raised raised ∧
        List.Forall₂ (ArgumentText.Reads caps) b.uses uses ∧ d.Acts b raised kind target ∧
        body = { id := id, function := function, name := b.name, kind := kind, raised := raised,
                 target := target, uses := uses, size := b.size } := by
  simp only [blockBody, bind_eq_ok_iff, inBlock, mapError_eq_ok_iff, mapM_eq_ok_iff,
    argument_eq_ok_iff, pure_eq_ok_iff, Prod.exists, action_eq_ok_iff distinct]
  constructor
  · rintro ⟨raised, isRaised, uses, areUses, kind, target, acts, rfl⟩
    exact ⟨raised, uses, kind, target, isRaised, areUses, acts, rfl⟩
  · rintro ⟨raised, uses, kind, target, isRaised, areUses, acts, rfl⟩
    exact ⟨raised, isRaised, uses, areUses, kind, target, acts, rfl⟩

/-- **A block means what its two passes make of it.** -/
theorem finishBlock_eq_ok_iff {d : Description} (distinct : (d.functions.map (·.name)).Nodup)
    {caps : Enumeration} {f : FunctionDescription} (distinctBlocks : (f.blocks.map (·.name)).Nodup)
    {first number function : Nat} {b : BlockDescription} {block : Block} :
    (∃ body, d.blockBody caps f (Int.ofNat number) (Int.ofNat function) b = .ok body ∧
        finishBlock f first (b, body) = .ok block) ↔
      d.Means caps number function (NextIn f first) b block := by
  simp only [blockBody_eq_ok_iff distinct, finishBlock, bind_eq_ok_iff, mapM_eq_ok_iff,
    successor_eq_ok_iff distinctBlocks, exitKind_eq_ok_iff, pure_eq_ok_iff]
  constructor
  · rintro ⟨_, ⟨raised, uses, kind, target, isRaised, areUses, acts, rfl⟩, successors, areNext,
      exit, isExit, rfl⟩
    exact ⟨rfl, rfl, rfl, rfl, isRaised, areUses, acts, areNext, isExit⟩
  · obtain ⟨id, owner, name, successors, kind, raised, target, uses, exit, size⟩ := block
    rintro ⟨rfl, rfl, rfl, rfl, isRaised, areUses, acts, areNext, isExit⟩
    exact ⟨_, ⟨raised, uses, kind, target, isRaised, areUses, acts, rfl⟩, successors, areNext, exit,
      isExit, rfl⟩

theorem blockBodies_eq_ok_iff {d : Description} {caps : Enumeration} {f : FunctionDescription}
    {first : Nat} {function : FunctionId} {seen : List String} {blocks : List BlockDescription}
    {bodies : List Block} :
    d.blockBodies caps f first function seen blocks = .ok bodies ↔
      FreshNames seen (blocks.map (·.name)) ∧
        List.Forall₂
          (fun entry body =>
            d.blockBody caps f (Int.ofNat (first + entry.2)) function entry.1 = .ok body)
          (blocks.zipIdx seen.length) bodies := by
  induction blocks generalizing seen bodies with
  | nil =>
    rw [blockBodies, List.map_nil, List.zipIdx_nil, List.forall₂_nil_left_iff, Except.ok.injEq,
      eq_comm]
    exact (and_iff_right (freshNames_nil seen)).symm
  | cons b rest ih =>
    rw [blockBodies, List.map_cons, freshNames_cons_iff, List.zipIdx_cons,
      List.forall₂_cons_left_iff]
    split
    case isTrue bad =>
      constructor
      · intro failed
        cases failed
      · rintro ⟨⟨good, _⟩, _⟩
        exact absurd bad good
    case isFalse good =>
      simp only [bind_eq_ok_iff, ih, pure_eq_ok_iff, List.length_cons]
      constructor
      · rintro ⟨body, isBody, others, ⟨fresh, areOthers⟩, rfl⟩
        exact ⟨⟨good, fresh⟩, body, others, isBody, areOthers, rfl⟩
      · rintro ⟨⟨_, fresh⟩, body, others, isBody, areOthers, rfl⟩
        exact ⟨body, isBody, others, ⟨fresh, areOthers⟩, rfl⟩

/-- **A function's blocks are accepted when their names are, and mean what they say.** -/
theorem functionBlocks_eq_ok_iff {d : Description}
    (distinct : (d.functions.map (·.name)).Nodup) {caps : Enumeration} {first function : Nat}
    {f : FunctionDescription} {blocks : List Block} :
    d.functionBlocks caps first (Int.ofNat function) f = .ok blocks ↔
      FreshNames [] (f.blocks.map (·.name)) ∧
        List.Forall₂
          (fun entry block =>
            d.Means caps (first + entry.2) function (NextIn f first) entry.1 block)
          f.blocks.zipIdx blocks := by
  simp only [functionBlocks, bind_eq_ok_iff, blockBodies_eq_ok_iff, mapM_eq_ok_iff, and_assoc,
    exists_and_left, List.length_nil]
  refine and_congr_right fun fresh => ?_
  rw [forall₂_zip_iff]
  simp only [finishBlock_eq_ok_iff distinct fresh.2]

/-! ## All blocks -/

/-- A block as it is written, with the number of its function. -/
structure Written where
  function : Nat
  block : BlockDescription

/-- The blocks of functions, the first of which has the given number. -/
def writtenFrom : Nat → List FunctionDescription → List Written
  | _, [] => []
  | i, f :: rest => f.blocks.map (⟨i, ·⟩) ++ writtenFrom (i + 1) rest

/-- **All blocks, in the order in which they are written.** The number of a block is its place
in this list. -/
def written (d : Description) : List Written := writtenFrom 0 d.functions

/-- A name stands for the number of a block of a function. -/
def Next (d : Description) (function : Nat) (name : String) (s : BlockId) : Prop :=
  ∃ (k : Nat) (target : Written), d.written[k]? = some target ∧ target.function = function ∧
    target.block.name = name ∧ s = Int.ofNat k

theorem le_of_mem_writtenFrom {i : Nat} {functions : List FunctionDescription} {w : Written}
    (member : w ∈ writtenFrom i functions) : i ≤ w.function := by
  induction functions generalizing i with
  | nil => exact absurd member List.not_mem_nil
  | cons f rest ih =>
    rcases List.mem_append.mp member with own | later
    · obtain ⟨b, _, rfl⟩ := List.mem_map.mp own
      exact Nat.le_refl i
    · exact Nat.le_of_succ_le (ih later)

/-- Between blocks of other functions, the names of a function's blocks stand for the numbers
of these blocks. -/
theorem next_iff_nextIn {d : Description} {before after : List Written} {f : FunctionDescription}
    {function : Nat} (isWritten : d.written = before ++ f.blocks.map (⟨function, ·⟩) ++ after)
    (othersBefore : ∀ w ∈ before, w.function ≠ function)
    (othersAfter : ∀ w ∈ after, w.function ≠ function) {name : String} {s : BlockId} :
    d.Next function name s ↔ NextIn f before.length name s := by
  unfold Next NextIn
  rw [isWritten, List.append_assoc]
  constructor
  · rintro ⟨k, target, found, same, isNamed, rfl⟩
    rcases Nat.lt_or_ge k before.length with inBefore | notBefore
    · rw [List.getElem?_append_left inBefore] at found
      exact absurd same (othersBefore target (List.mem_of_getElem? found))
    · rw [List.getElem?_append_right notBefore] at found
      rcases Nat.lt_or_ge (k - before.length) (f.blocks.map (Written.mk function)).length with
        own | notOwn
      · rw [List.getElem?_append_left own, List.getElem?_map, Option.map_eq_some_iff] at found
        obtain ⟨b, isBlock, rfl⟩ := found
        exact ⟨k - before.length, b, isBlock, isNamed, by rw [Nat.add_sub_cancel' notBefore]⟩
      · rw [List.getElem?_append_right notOwn] at found
        exact absurd same (othersAfter target (List.mem_of_getElem? found))
  · rintro ⟨k, b, isBlock, isNamed, rfl⟩
    have bound : k < (f.blocks.map (Written.mk function)).length := by
      rw [List.length_map]
      exact (List.getElem?_eq_some_iff.mp isBlock).1
    refine ⟨before.length + k, ⟨function, b⟩, ?_, rfl, isNamed, rfl⟩
    rw [List.getElem?_append_right (Nat.le_add_right _ _), Nat.add_sub_cancel_left,
      List.getElem?_append_left bound, List.getElem?_map, isBlock]
    rfl

/-- What the block at a place of the list of all blocks means. -/
def MeansAt (d : Description) (caps : Enumeration) (entry : Written × Nat) (block : Block) :
    Prop :=
  d.Means caps entry.2 entry.1.function (d.Next entry.1.function) entry.1.block block

/-- The rest of a description: the functions from some number on, whose blocks are written after
those of the functions before. -/
structure Rest (d : Description) (before : List Written) (index : Nat)
    (functions : List FunctionDescription) : Prop where
  written_eq : d.written = before ++ writtenFrom index functions
  earlier : ∀ w ∈ before, w.function < index

theorem rest_all (d : Description) : d.Rest [] 0 d.functions :=
  ⟨rfl, fun _ member => absurd member List.not_mem_nil⟩

namespace Rest

variable {d : Description} {before : List Written} {index : Nat} {f : FunctionDescription}
  {functions : List FunctionDescription} (rest : d.Rest before index (f :: functions))
include rest

theorem written_eq_around : d.written = before ++ f.blocks.map (⟨index, ·⟩) ++
    writtenFrom (index + 1) functions := by
  rw [rest.written_eq, writtenFrom, List.append_assoc]

theorem ne_before : ∀ w ∈ before, w.function ≠ index := fun w member =>
  Nat.ne_of_lt (rest.earlier w member)

omit rest in
theorem ne_after : ∀ w ∈ writtenFrom (index + 1) functions, w.function ≠ index := fun _ member =>
  Nat.ne_of_gt (le_of_mem_writtenFrom member)

/-- The rest after one function. -/
theorem tail : d.Rest (before ++ f.blocks.map (⟨index, ·⟩)) (index + 1) functions := by
  refine ⟨rest.written_eq_around, ?_⟩
  intro w member
  rcases List.mem_append.mp member with earlier | own
  · exact Nat.lt_succ_of_lt (rest.earlier w earlier)
  · obtain ⟨b, _, rfl⟩ := List.mem_map.mp own
    exact Nat.lt_succ_self index

end Rest

/-- The blocks of the rest of a description. -/
theorem Rest.allBlocks_eq_ok_iff {d : Description} (distinct : (d.functions.map (·.name)).Nodup)
    {caps : Enumeration} {before : List Written} {index : Nat}
    {functions : List FunctionDescription} (rest : d.Rest before index functions)
    {blocks : List Block} :
    d.allBlocks caps before.length index functions = .ok blocks ↔
      (∀ f ∈ functions, FreshNames [] (f.blocks.map (·.name))) ∧
        List.Forall₂ (d.MeansAt caps) ((writtenFrom index functions).zipIdx before.length)
          blocks := by
  induction functions generalizing before index blocks with
  | nil =>
    rw [allBlocks, writtenFrom, List.zipIdx_nil, List.forall₂_nil_left_iff, Except.ok.injEq,
      eq_comm]
    exact (and_iff_right fun _ member => absurd member List.not_mem_nil).symm
  | cons f functions ih =>
    have next : d.Next index = NextIn f before.length := by
      funext name s
      exact propext (next_iff_nextIn rest.written_eq_around rest.ne_before ne_after)
    have others : ∀ later, d.allBlocks caps (before ++ f.blocks.map (Written.mk index)).length
        (index + 1) functions = .ok later ↔ _ := fun _ => ih rest.tail
    rw [List.length_append, List.length_map] at others
    -- The blocks of one function, at their places among all blocks.
    have own : ∀ part, List.Forall₂ (d.MeansAt caps)
        ((f.blocks.map (Written.mk index)).zipIdx before.length) part ↔
          List.Forall₂ (fun entry block => d.Means caps (before.length + entry.2) index
            (NextIn f before.length) entry.1 block) f.blocks.zipIdx part := by
      intro part
      rw [List.zipIdx_map, List.forall₂_map_left_iff, List.zipIdx_eq_map_add,
        List.forall₂_map_left_iff, ← next]
      rfl
    rw [allBlocks, writtenFrom, List.zipIdx_append, List.length_map, forall₂_append_left_iff,
      List.forall_mem_cons]
    simp only [bind_eq_ok_iff, functionBlocks_eq_ok_iff distinct, others, pure_eq_ok_iff, own]
    constructor
    · rintro ⟨part, ⟨fresh, isPart⟩, later, ⟨freshRest, isLater⟩, rfl⟩
      exact ⟨⟨fresh, freshRest⟩, part, later, isPart, isLater, rfl⟩
    · rintro ⟨⟨fresh, freshRest⟩, part, later, isPart, isLater, rfl⟩
      exact ⟨part, ⟨fresh, isPart⟩, later, ⟨freshRest, isLater⟩, rfl⟩

/-- **All blocks are accepted when the names in each function are, and mean what they say.** -/
theorem allBlocks_eq_ok_iff {d : Description} (distinct : (d.functions.map (·.name)).Nodup)
    {caps : Enumeration} {blocks : List Block} :
    d.allBlocks caps 0 0 d.functions = .ok blocks ↔
      (∀ f ∈ d.functions, FreshNames [] (f.blocks.map (·.name))) ∧
        List.Forall₂ (d.MeansAt caps) d.written.zipIdx blocks :=
  d.rest_all.allBlocks_eq_ok_iff distinct

end Description

end CapLiveness
