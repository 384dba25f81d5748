import CapLiveness.Capability.Set
import CapLiveness.Text.Blank
import CapLiveness.Text.Pieces
import CapLiveness.Text.Quoted
import CapLiveness.Text.Uppercase

/-!
# Enumerations of capabilities

An enumeration is a closed, ordered list of capability names; kind `k` has the
`k`-th name. Names are compared by their canonical form, which ignores blanks at
the ends, case, and one leading `CAP_`. An enumeration has at most `maxKinds`
names, and it carries an index of their canonical forms, through which names are
looked up.

The index is filled while the names are read, one after the other
(`NameIndex.enterAll`). A name is turned away when its canonical form is empty or
already in the index. So whatever has been read is indexed exactly
(`NameIndex.IsExact`): the index has the canonical form of each name with its kind,
and nothing else. This is proved where an enumeration is built
(`Enumeration.ofNames`) and holds of every enumeration.

Over an enumeration there are three ways to name a set: by kinds (`setOf`), by
names (`named`), and by a comma-separated list in which either every name or no
name is negated (`parse`). `format` writes a set as such a list.
-/

set_option autoImplicit false

namespace CapLiveness

/-! ## Canonical names -/

/-- The text that canonical names leave out at the start. -/
def namePrefix : List Char := ['C', 'A', 'P', '_']

/-- The form in which names are compared: trimmed, in upper case, without one
leading `CAP_`. -/
def canonicalName (name : String) : String :=
  let upper := (Text.trim name.toList).map Text.Uppercase.upper
  String.ofList (if namePrefix.isPrefixOf upper then upper.drop namePrefix.length else upper)

/-! ## Errors -/

/-- Why a list of names is no enumeration. -/
inductive EnumerationError where
  /-- There is no name. -/
  | empty
  /-- There are more names than kinds can be numbered. -/
  | tooMany (count : Nat)
  /-- The canonical name of a kind is empty. -/
  | emptyName (kind : Nat)
  /-- Two kinds have one canonical name; the name is given as the second spells it. -/
  | repeatedName (first second : Nat) (name : String)
deriving DecidableEq

/-- The wording of the error. -/
def EnumerationError.message : EnumerationError → String
  | .empty => "capset: empty enumeration"
  | .tooMany count => s!"capset: {count} capability kinds, at most {maxKinds} supported"
  | .emptyName kind => s!"capset: empty name for kind {kind}"
  | .repeatedName first second name =>
    s!"capset: kinds {first} and {second} are both named {Text.quoted name}"

/-- A number that is no kind of an enumeration of the given size. -/
structure RangeError where
  kind : Int
  size : Int
deriving DecidableEq

/-- The wording of the error. -/
def RangeError.message (e : RangeError) : String :=
  s!"capability kind {e.kind} out of range [0, {e.size})"

/-- Why a list of names selects no set. -/
inductive SelectionError where
  /-- The name belongs to no kind. -/
  | unknown (name : String)
  /-- Some names of the list are negated and some are not. -/
  | mixed (list : String)
  /-- The list has an element without a name. -/
  | emptyElement (list : String)
deriving DecidableEq

/-- The wording of the error. -/
def SelectionError.message : SelectionError → String
  | .unknown name => s!"unknown capability {Text.quoted name}"
  | .mixed list => s!"capability list {Text.quoted list} mixes negated and non-negated names"
  | .emptyElement list => s!"capability list {Text.quoted list} has an empty element"

/-! ## The index of names -/

/-- Canonical names, each with the kind that it belongs to. -/
abbrev NameIndex := List (String × Nat)

namespace NameIndex

/-- Enters the name of a kind. -/
def enter (index : NameIndex) (kind : Nat) (name : String) : Except EnumerationError NameIndex :=
  let key := canonicalName name
  if key = "" then .error (.emptyName kind)
  else match index.lookup key with
    | some first => .error (.repeatedName first kind name)
    | none => .ok ((key, kind) :: index)

/-- Enters names one after the other, as those of the kinds from `kind` on. -/
def enterAll (index : NameIndex) (kind : Nat) : List String → Except EnumerationError NameIndex
  | [] => .ok index
  | name :: rest =>
    match index.enter kind name with
    | .ok next => next.enterAll (kind + 1) rest
    | .error fault => .error fault

/-- Whether an index has the canonical form of each name with its kind, and nothing
else. Canonical forms are not empty. -/
structure IsExact (index : NameIndex) (names : List String) : Prop where
  lookup : ∀ key kind, index.lookup key = some kind ↔
    ∃ name, names[kind]? = some name ∧ canonicalName name = key
  nonempty : ∀ name ∈ names, canonicalName name ≠ ""

theorem isExact_nil : IsExact [] [] where
  lookup key kind := by simp
  nonempty name listed := by cases listed

theorem enter_eq_ok_iff {index next : NameIndex} {kind : Nat} {name : String} :
    index.enter kind name = .ok next ↔
      canonicalName name ≠ "" ∧ index.lookup (canonicalName name) = none ∧
        next = (canonicalName name, kind) :: index := by
  rw [enter]
  by_cases empty : canonicalName name = ""
  · simp [empty]
  · cases found : index.lookup (canonicalName name) with
    | some first => simp [empty]
    | none => simp [empty, eq_comm]

theorem getElem?_concat_eq_some_iff {names : List String} {name other : String} {kind : Nat} :
    (names ++ [name])[kind]? = some other ↔
      names[kind]? = some other ∨ kind = names.length ∧ name = other := by
  rcases Nat.lt_trichotomy kind names.length with before | rfl | after
  · simp [List.getElem?_append_left before, Nat.ne_of_lt before]
  · simp
  · have beyond : names.length + 1 ≤ kind := after
    simp [List.getElem?_eq_none (Nat.le_of_lt after), Nat.ne_of_gt after,
      List.getElem?_eq_none (l := names ++ [name]) (by simpa using beyond)]

/-- **Entering a name keeps the index exact.** -/
theorem IsExact.enter {index next : NameIndex} {names : List String} {name : String}
    (exact : index.IsExact names) (entered : index.enter names.length name = .ok next) :
    next.IsExact (names ++ [name]) := by
  obtain ⟨nonempty, fresh, rfl⟩ := enter_eq_ok_iff.mp entered
  constructor
  · intro key kind
    have last : (∃ other, (kind = names.length ∧ name = other) ∧ canonicalName other = key) ↔
        names.length = kind ∧ canonicalName name = key := by
      constructor
      · rintro ⟨_, ⟨rfl, rfl⟩, isKey⟩
        exact ⟨rfl, isKey⟩
      · rintro ⟨rfl, isKey⟩
        exact ⟨name, ⟨rfl, rfl⟩, isKey⟩
    simp only [getElem?_concat_eq_some_iff, or_and_right, exists_or, ← exact.lookup, last]
    rw [List.lookup_cons]
    by_cases same : canonicalName name = key
    · subst same
      simp [fresh]
    · simp [beq_eq_false_iff_ne.mpr (Ne.symm same), same]
  · intro other listed
    rcases List.mem_append.mp listed with before | isLast
    · exact exact.nonempty other before
    · rwa [List.mem_singleton.mp isLast]

/-- **Names that are entered without a fault are indexed exactly.** -/
theorem IsExact.enterAll {index final : NameIndex} {before names : List String}
    (exact : index.IsExact before) (entered : index.enterAll before.length names = .ok final) :
    final.IsExact (before ++ names) := by
  induction names generalizing index before with
  | nil =>
    obtain rfl : index = final := Except.ok.inj entered
    rwa [List.append_nil]
  | cons name rest ih =>
    rw [NameIndex.enterAll] at entered
    split at entered
    case h_2 => cases entered
    case h_1 next enteredHere =>
      have length : (before ++ [name]).length = before.length + 1 := by simp
      rw [← length] at entered
      simpa using ih (exact.enter enteredHere) entered

theorem isExact_of_enterAll {index : NameIndex} {names : List String}
    (entered : enterAll [] 0 names = .ok index) : index.IsExact names :=
  isExact_nil.enterAll entered

end NameIndex

/-! ## Enumerations -/

/-- A closed, ordered list of capability names with the index of their canonical
forms. An enumeration that comes with the library also has a label of its own. -/
structure Enumeration where
  names : List String
  index : NameIndex
  label : Option String
  fits : names.length ≤ maxKinds
  indexed : index.IsExact names
deriving DecidableEq

namespace Enumeration

/-- No names. -/
def empty : Enumeration := ⟨[], [], none, Nat.zero_le _, NameIndex.isExact_nil⟩

/-- The enumeration of the given names. There has to be a name. -/
def ofNames (names : List String) : Except EnumerationError Enumeration :=
  if names = [] then .error .empty
  else if tooMany : maxKinds < names.length then .error (.tooMany names.length)
  else match entered : NameIndex.enterAll [] 0 names with
    | .ok index =>
      .ok ⟨names, index, none, Nat.not_lt.mp tooMany, NameIndex.isExact_of_enterAll entered⟩
    | .error fault => .error fault

/-- The enumeration of names that are known to have no fault, with a label. -/
def ofFaultless (names : List String) (label : Option String) (fits : names.length ≤ maxKinds)
    (faultless : (NameIndex.enterAll [] 0 names).toOption.isSome = true) : Enumeration where
  names := names
  index := (NameIndex.enterAll [] 0 names).toOption.get faultless
  label := label
  fits := fits
  indexed := by
    refine NameIndex.isExact_of_enterAll ?_
    generalize NameIndex.enterAll [] 0 names = entered at faultless
    cases entered with
    | ok index => rfl
    | error fault => cases faultless

/-- The number of kinds. -/
def size (e : Enumeration) : Nat := e.names.length

/-- The name of a kind, or a numeric stand-in for a number that is no kind. -/
def name (e : Enumeration) (kind : Int) : String :=
  match kind with
  | .ofNat k => (e.names[k]?).getD s!"CAP_{kind}"
  | .negSucc _ => s!"CAP_{kind}"

/-- The kind with the given name, as the index has it. -/
def lookup (e : Enumeration) (name : String) : Option Nat :=
  e.index.lookup (canonicalName name)

/-! ## Sets over an enumeration -/

/-- The set of every kind. -/
def all (e : Enumeration) : CapSet := CapSet.below e.size

/-- The kinds that are not in a set. -/
def complement (e : Enumeration) (s : CapSet) : CapSet := e.all \ s

/-- Whether every member of a set is a kind. -/
def contains (e : Enumeration) (s : CapSet) : Bool := s.subsetOf e.all

/-- Adds one number to a set, if it is a kind. -/
def addKind (e : Enumeration) (s : CapSet) (kind : Int) : Except RangeError CapSet :=
  if 0 ≤ kind ∧ kind < e.size then .ok (s.insert kind.toNat) else .error ⟨kind, e.size⟩

/-- The set of the given kinds; the first number that is no kind is reported. -/
def setOf (e : Enumeration) (kinds : List Int) : Except RangeError CapSet :=
  kinds.foldlM e.addKind ∅

/-- Adds one named kind to a set. -/
def addNamed (e : Enumeration) (s : CapSet) (name : String) : Except SelectionError CapSet :=
  match e.lookup name with
  | some kind => .ok (s.insert kind)
  | none => .error (.unknown name)

/-- The set of the named kinds; the first unknown name is reported. -/
def named (e : Enumeration) (names : List String) : Except SelectionError CapSet :=
  names.foldlM e.addNamed ∅

/-- The names of the members of a set, in the order of the kinds. -/
def namesOf (e : Enumeration) (s : CapSet) : List String :=
  s.kinds.map fun kind => e.name (Int.ofNat kind)

/-- The names of the members of a set, with commas between them. -/
def format (e : Enumeration) (s : CapSet) : String :=
  ",".intercalate (e.namesOf s)

/-- Whether an element of a list is negated. -/
def isNegated (element : List Char) : Bool := element.head? == some '-'

/-- Adds one element of a list to a set. `negated` says whether the first element
of the list is negated, which every element has to agree with. -/
def addElement (e : Enumeration) (list : String) (negated : Bool) (s : CapSet)
    (element : List Char) : Except SelectionError CapSet :=
  if isNegated element != negated then .error (.mixed list)
  else
    let name := if negated then element.tail else element
    if name.isEmpty then .error (.emptyElement list)
    else e.addNamed s (String.ofList name)

/-- The set that a comma-separated list selects: the listed kinds or, when every
name is negated, the kinds that are not listed. The empty list selects every
kind. -/
def parse (e : Enumeration) (list : String) : Except SelectionError CapSet :=
  if list = "" then .ok e.all
  else do
    let elements := Text.pieces ',' list.toList
    let negated := isNegated (elements.headD [])
    let listed ← elements.foldlM (e.addElement list negated) ∅
    return if negated then e.complement listed else listed

end Enumeration

end CapLiveness
