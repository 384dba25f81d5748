import CapLiveness.Capability.Linux
import CapLiveness.Proofs.FiniteSets

/-!
# Enumerations index their names

An enumeration is built from a list of names when there are between one and `maxKinds` of
them and their canonical forms are non-empty and distinct (`Enumeration.exists_ofNames_iff`).
Names are looked up in the index that was filled on the way. The index is exact, so a name is
found by its canonical form alone, and at most one kind answers to it
(`Enumeration.lookup_eq_some_iff`). Nothing else about canonical forms is used: they are any
function on names.

A set is built from kinds, or from names, one after the other. An element that stands for no
kind ends the work, and whether it does depends on the element alone. So the outcome is the
fault of the first such element, or the union of what the elements contribute
(`foldlM_eq_findSome?`).
-/

set_option autoImplicit false

namespace CapLiveness

/-! ## Work along a list -/

/-- **Steps that fail by their element alone** come to the first fault, or to the end. -/
theorem foldlM_eq_findSome? {α β ε : Type} {step : β → α → Except ε β} {fault : α → Option ε}
    {next : β → α → β} (steps : ∀ s x, step s x = (fault x).elim (.ok (next s x)) .error)
    (xs : List α) (s : β) :
    xs.foldlM step s = (xs.findSome? fault).elim (.ok (xs.foldl next s)) .error := by
  induction xs generalizing s with
  | nil => rfl
  | cons x rest ih =>
    rw [List.foldlM_cons, steps]
    cases faulty : fault x with
    | some problem => simp [faulty, bind, Except.bind]
    | none =>
      rw [List.findSome?_cons_of_isNone (by simp [faulty]), List.foldl_cons]
      exact ih (next s x)

theorem elim_eq_ok_iff {α ε : Type} {fault : Option ε} {x y : α} :
    fault.elim (.ok x) Except.error = .ok y ↔ fault = none ∧ x = y := by
  cases fault with
  | none => simp
  | some problem => simp

theorem elim_eq_error_iff {α ε : Type} {fault : Option ε} {x : α} {problem : ε} :
    fault.elim (.ok x) Except.error = .error problem ↔ fault = some problem := by
  cases fault with
  | none => simp
  | some other => simp

/-- The union of what the entries of a list contribute. -/
theorem CapSet.mem_foldl_union {α : Type} {part : α → CapSet} {xs : List α} {s : CapSet} {k : Nat} :
    k ∈ xs.foldl (fun s x => s ∪ part x) s ↔ k ∈ s ∨ ∃ x ∈ xs, k ∈ part x := by
  induction xs generalizing s with
  | nil => simp
  | cons x rest ih =>
    rw [List.foldl_cons, ih, mem_union, or_assoc]
    simp

/-! ## Filling the index -/

namespace NameIndex

variable {index : NameIndex} {before names : List String}

theorem IsExact.lookup_eq_none_iff (exact : index.IsExact names) {key : String} :
    index.lookup key = none ↔ key ∉ names.map canonicalName := by
  rw [Option.eq_none_iff_forall_ne_some, List.mem_map]
  simp only [Ne, exact.lookup]
  constructor
  · rintro none ⟨name, listed, isKey⟩
    obtain ⟨kind, found⟩ := List.getElem?_of_mem listed
    exact none kind ⟨name, found, isKey⟩
  · rintro absent kind ⟨name, found, isKey⟩
    exact absent ⟨name, List.mem_of_getElem? found, isKey⟩

/-- **Names are entered without a fault** if their canonical forms are non-empty, distinct, and
not those of names before them. -/
theorem IsExact.exists_enterAll_iff (exact : index.IsExact before) :
    (∃ final, index.enterAll before.length names = .ok final) ↔
      (∀ name ∈ names, canonicalName name ≠ "") ∧ (names.map canonicalName).Nodup ∧
        ∀ name ∈ names, canonicalName name ∉ before.map canonicalName := by
  induction names generalizing index before with
  | nil => simp [NameIndex.enterAll]
  | cons name rest ih =>
    rw [NameIndex.enterAll, List.map_cons, List.nodup_cons, List.forall_mem_cons,
      List.forall_mem_cons, ← exact.lookup_eq_none_iff]
    cases entered : index.enter before.length name with
    | error fault =>
      have turnedAway : ¬ (canonicalName name ≠ "" ∧
          index.lookup (canonicalName name) = none) := by
        rintro ⟨nonempty, fresh⟩
        rw [enter_eq_ok_iff.mpr ⟨nonempty, fresh, rfl⟩] at entered
        cases entered
      constructor
      · rintro ⟨_, failed⟩
        cases failed
      · rintro ⟨⟨nonempty, _⟩, _, fresh, _⟩
        exact absurd ⟨nonempty, fresh⟩ turnedAway
    | ok next =>
      obtain ⟨nonempty, fresh, _⟩ := enter_eq_ok_iff.mp entered
      have length : (before ++ [name]).length = before.length + 1 := by simp
      have rest := ih (exact.enter entered)
      rw [length] at rest
      simp only [rest, List.map_append, List.map_cons, List.map_nil, List.mem_append,
        List.mem_singleton, List.mem_map, not_or, not_exists, not_and]
      grind

end NameIndex

namespace Enumeration

/-- **An enumeration is built** from between one and `maxKinds` names whose canonical forms are
non-empty and distinct. -/
theorem exists_ofNames_iff {names : List String} :
    (∃ e, ofNames names = .ok e) ↔ names ≠ [] ∧ names.length ≤ maxKinds ∧
      (∀ name ∈ names, canonicalName name ≠ "") ∧ (names.map canonicalName).Nodup := by
  have entering : (∃ index, NameIndex.enterAll [] 0 names = .ok index) ↔
      (∀ name ∈ names, canonicalName name ≠ "") ∧ (names.map canonicalName).Nodup := by
    have fromNothing := @NameIndex.IsExact.exists_enterAll_iff [] [] names NameIndex.isExact_nil
    simpa using fromNothing
  rw [← entering]
  by_cases empty : names = []
  · simp [ofNames, empty]
  · by_cases tooMany : maxKinds < names.length
    · simp [ofNames, empty, tooMany]
    · simp only [ofNames, if_neg empty, dif_neg tooMany]
      split
      case h_1 index entered => simp [empty, Nat.not_lt.mp tooMany, entered]
      case h_2 fault failed => simp [failed]

theorem names_of_ofNames {names : List String} {e : Enumeration} (built : ofNames names = .ok e) :
    e.names = names := by
  unfold ofNames at built
  split at built
  · cases built
  · split at built
    · cases built
    · split at built
      · cases built
        rfl
      · cases built

/-! ## Looking up -/

variable {e : Enumeration}

theorem name_natCast {k : Nat} {name : String} (found : e.names[k]? = some name) :
    e.name k = name := by
  show (e.names[k]?).getD _ = name
  rw [found, Option.getD_some]

theorem exists_name {k : Nat} (bound : k < e.size) : e.names[k]? = some (e.name k) := by
  obtain ⟨name, found⟩ : ∃ name, e.names[k]? = some name := ⟨_, List.getElem?_eq_getElem bound⟩
  rw [name_natCast found, found]

theorem lt_of_mem_all {k : Nat} (member : k ∈ e.all) : k < e.size :=
  (CapSet.mem_below.mp member).1

/-- **A name is looked up by its canonical form.** -/
theorem lookup_eq_some_iff {n : String} {k : Nat} :
    e.lookup n = some k ↔
      ∃ name, e.names[k]? = some name ∧ canonicalName n = canonicalName name := by
  rw [lookup, e.indexed.lookup]
  simp only [eq_comm]

/-- Kinds whose names have one canonical form are equal. -/
theorem kind_unique {j k : Nat} {first second : String} (atFirst : e.names[j]? = some first)
    (atSecond : e.names[k]? = some second) (same : canonicalName first = canonicalName second) :
    j = k := by
  have isFirst : e.lookup first = some j := lookup_eq_some_iff.mpr ⟨first, atFirst, rfl⟩
  have isSecond : e.lookup first = some k := lookup_eq_some_iff.mpr ⟨second, atSecond, same⟩
  exact Option.some.inj (isFirst.symm.trans isSecond)

theorem lt_of_lookup {n : String} {k : Nat} (found : e.lookup n = some k) : k < e.size := by
  obtain ⟨name, listed, _⟩ := lookup_eq_some_iff.mp found
  exact (List.getElem?_eq_some_iff.mp listed).1

theorem lookup_name {k : Nat} (bound : k < e.size) : e.lookup (e.name k) = some k :=
  lookup_eq_some_iff.mpr ⟨e.name k, exists_name bound, rfl⟩

/-! ## Sets of kinds -/

/-- Why a number is no kind. -/
def kindFault? (e : Enumeration) (k : Int) : Option RangeError :=
  if 0 ≤ k ∧ k < e.size then none else some ⟨k, e.size⟩

theorem kindFault?_eq_none_iff {k : Int} : e.kindFault? k = none ↔ 0 ≤ k ∧ k < e.size := by
  unfold kindFault?
  split <;> simp_all

theorem kindFault?_eq_some_iff {k : Int} {problem : RangeError} :
    e.kindFault? k = some problem ↔ ¬ (0 ≤ k ∧ k < e.size) ∧ problem = ⟨k, e.size⟩ := by
  unfold kindFault?
  split <;> simp_all [eq_comm]

theorem setOf_eq (kinds : List Int) :
    e.setOf kinds = (kinds.findSome? e.kindFault?).elim
      (.ok (kinds.foldl (fun s k => s ∪ CapSet.singleton k.toNat) ∅)) .error := by
  refine foldlM_eq_findSome? (fun s k => ?_) kinds ∅
  unfold addKind kindFault?
  rw [CapSet.insert_eq_union]
  split <;> rfl

/-- **A list of numbers is a set** if all of them are kinds. -/
theorem setOf_eq_ok_iff {kinds : List Int} {s : CapSet} :
    e.setOf kinds = .ok s ↔ (∀ k ∈ kinds, 0 ≤ k ∧ k < e.size) ∧
      kinds.foldl (fun s k => s ∪ CapSet.singleton k.toNat) ∅ = s := by
  rw [setOf_eq, elim_eq_ok_iff, List.findSome?_eq_none_iff]
  simp only [kindFault?_eq_none_iff]

/-- The first number that is no kind is reported. -/
theorem setOf_eq_error_iff {kinds : List Int} {problem : RangeError} :
    e.setOf kinds = .error problem ↔
      ∃ (before : List Int) (k : Int) (after : List Int), kinds = before ++ k :: after ∧
      (∀ j ∈ before, 0 ≤ j ∧ j < e.size) ∧ ¬ (0 ≤ k ∧ k < e.size) ∧ problem = ⟨k, e.size⟩ := by
  rw [setOf_eq, elim_eq_error_iff, List.findSome?_eq_some_iff]
  simp only [kindFault?_eq_none_iff, kindFault?_eq_some_iff]
  constructor
  · rintro ⟨before, k, after, split, ⟨outside, same⟩, inside⟩
    exact ⟨before, k, after, split, inside, outside, same⟩
  · rintro ⟨before, k, after, split, inside, outside, same⟩
    exact ⟨before, k, after, split, ⟨outside, same⟩, inside⟩

/-- The set of some kinds has them as its members. -/
theorem has_foldl_singleton {kinds : List Int} (inside : ∀ k ∈ kinds, 0 ≤ k ∧ k < e.size)
    (k : Int) :
    (kinds.foldl (fun s k => s ∪ CapSet.singleton k.toNat) ∅).has k = true ↔ k ∈ kinds := by
  have fits : e.size ≤ maxKinds := e.fits
  rw [CapSet.has_iff]
  simp only [CapSet.mem_foldl_union, CapSet.not_mem_empty, false_or, CapSet.mem_singleton]
  constructor
  · rintro ⟨n, rfl, j, listed, same, _⟩
    have nonneg := (inside j listed).1
    rwa [same, Int.toNat_of_nonneg nonneg]
  · intro listed
    have bounds := inside k listed
    exact ⟨k.toNat, by omega, k, listed, rfl, by omega⟩

/-! ## Sets of names -/

/-- The kind that a name stands for, if there is one, as a set. -/
def kindNamed (e : Enumeration) (n : String) : CapSet := (e.lookup n).elim ∅ CapSet.singleton

theorem mem_kindNamed {n : String} {k : Nat} :
    k ∈ e.kindNamed n ↔ e.lookup n = some k := by
  unfold kindNamed
  cases found : e.lookup n with
  | none => simp
  | some kind =>
    have bound := Nat.lt_of_lt_of_le (lt_of_lookup found) e.fits
    rw [Option.elim_some, CapSet.mem_singleton, Option.some.injEq]
    exact ⟨fun member => member.1.symm, fun same => ⟨same.symm, bound⟩⟩

/-- Why a name stands for no kind. -/
def nameFault? (e : Enumeration) (n : String) : Option SelectionError :=
  (e.lookup n).elim (some (.unknown n)) fun _ => none

theorem nameFault?_eq_none_iff {n : String} :
    e.nameFault? n = none ↔ ∃ kind, e.lookup n = some kind := by
  unfold nameFault?
  cases e.lookup n <;> simp

theorem addNamed_eq (s : CapSet) (n : String) :
    e.addNamed s n = (e.nameFault? n).elim (.ok (s ∪ e.kindNamed n)) .error := by
  unfold addNamed nameFault? kindNamed
  cases e.lookup n with
  | none => rfl
  | some kind => exact congrArg Except.ok (s.insert_eq_union kind)

theorem named_eq (names : List String) :
    e.named names = (names.findSome? e.nameFault?).elim
      (.ok (names.foldl (fun s n => s ∪ e.kindNamed n) ∅)) .error :=
  foldlM_eq_findSome? addNamed_eq names ∅

/-- Names that all stand for kinds are the set of these kinds. -/
theorem named_eq_ok {names : List String} {s : CapSet}
    (known : ∀ n ∈ names, ∃ kind, e.lookup n = some kind)
    (members : ∀ k, k ∈ s ↔ ∃ n ∈ names, e.lookup n = some k) : e.named names = .ok s := by
  rw [named_eq, elim_eq_ok_iff, List.findSome?_eq_none_iff]
  refine ⟨fun n listed => nameFault?_eq_none_iff.mpr (known n listed), CapSet.ext_mem fun k => ?_⟩
  rw [CapSet.mem_foldl_union, members]
  simp only [CapSet.not_mem_empty, false_or, mem_kindNamed]

theorem mem_namesOf {s : CapSet} {n : String} :
    n ∈ e.namesOf s ↔ ∃ k ∈ s, e.name (Int.ofNat k) = n := by
  simp [namesOf]

/-- Names of the members of a set stand for these members alone. -/
theorem mem_iff_lookup {s : CapSet} (subset : s ⊆ e.all) {names : List String}
    (listed : ∀ n, n ∈ names ↔ ∃ k ∈ s, e.name (Int.ofNat k) = n) (k : Nat) :
    k ∈ s ↔ ∃ n ∈ names, e.lookup n = some k := by
  have found : ∀ j ∈ s, e.lookup (e.name (Int.ofNat j)) = some j := fun j member =>
    lookup_name (lt_of_mem_all (subset j member))
  constructor
  · intro member
    exact ⟨_, (listed _).mpr ⟨k, member, rfl⟩, found k member⟩
  · rintro ⟨n, member, isKind⟩
    obtain ⟨j, inSet, rfl⟩ := (listed n).mp member
    rw [found j inSet, Option.some.injEq] at isKind
    exact isKind ▸ inSet

/-- **Names of the members of a set name the set**, in any order and with repeats. -/
theorem named_of_names {s : CapSet} (subset : s ⊆ e.all) {names : List String}
    (listed : ∀ n, n ∈ names ↔ ∃ k ∈ s, e.name (Int.ofNat k) = n) : e.named names = .ok s := by
  refine named_eq_ok ?_ (mem_iff_lookup subset listed)
  intro n member
  obtain ⟨k, inSet, rfl⟩ := (listed n).mp member
  exact ⟨k, lookup_name (lt_of_mem_all (subset k inSet))⟩

end Enumeration

/-! ## Enumerations -/

/-- What an enumeration promises about its names and kinds. -/
structure Enumeration.Indexes (e : Enumeration) : Prop where
  lookup : ∀ n k, e.lookup n = some k ↔
    ∃ name, e.names[k]? = some name ∧ canonicalName n = canonicalName name
  lookup_name : ∀ k < e.size, e.lookup (e.name (Int.ofNat k)) = some k
  /-- At most one kind answers to a name. -/
  unique : ∀ (n : String) (j k : Nat) (first second : String),
    e.names[j]? = some first → e.names[k]? = some second →
    canonicalName n = canonicalName first → canonicalName n = canonicalName second → j = k
  named : ∀ s ⊆ e.all, ∀ names, (∀ n, n ∈ names ↔ ∃ k ∈ s, e.name (Int.ofNat k) = n) →
    e.named names = .ok s
  isOk_setOf : ∀ kinds, (∃ s, e.setOf kinds = .ok s) ↔ ∀ k ∈ kinds, 0 ≤ k ∧ k < e.size
  has_setOf : ∀ kinds s, e.setOf kinds = .ok s → ∀ k : Int, s.has k = true ↔ k ∈ kinds
  setOf_error : ∀ kinds problem, e.setOf kinds = .error problem ↔
    ∃ (before : List Int) (k : Int) (after : List Int), kinds = before ++ k :: after ∧
      (∀ j ∈ before, 0 ≤ j ∧ j < e.size) ∧ ¬ (0 ≤ k ∧ k < e.size) ∧ problem = ⟨k, e.size⟩

theorem Enumeration.indexes (e : Enumeration) : e.Indexes where
  lookup n k := lookup_eq_some_iff
  lookup_name k bound := e.lookup_name bound
  unique n j k first second atFirst atSecond isFirst isSecond :=
    kind_unique atFirst atSecond (isFirst.symm.trans isSecond)
  named s subset names listed := named_of_names subset listed
  isOk_setOf kinds := by
    simp only [setOf_eq_ok_iff, exists_and_left, exists_eq', and_true]
  has_setOf kinds s isSet k := by
    obtain ⟨inside, rfl⟩ := setOf_eq_ok_iff.mp isSet
    exact has_foldl_singleton inside k
  setOf_error kinds problem := setOf_eq_error_iff

/-- **Enumerations index their names exactly.** A list of names is an enumeration if there
are between one and `maxKinds` of them, and their canonical forms are non-empty and pairwise
distinct. Names are then looked up by their canonical forms, at most one kind answers to a
name, and sets are built from kinds and from names without loss. -/
theorem enumeration_exact (names : List String) :
    ((∃ e, Enumeration.ofNames names = .ok e) ↔
      (1 ≤ names.length ∧ names.length ≤ maxKinds) ∧ (∀ n ∈ names, canonicalName n ≠ "") ∧
        names.Pairwise fun a b => canonicalName a ≠ canonicalName b) ∧
    ∀ e, Enumeration.ofNames names = .ok e → e.names = names ∧ e.Indexes := by
  constructor
  · rw [Enumeration.exists_ofNames_iff, List.Nodup, List.pairwise_map, ← List.length_pos_iff]
    tauto
  · intro e built
    exact ⟨Enumeration.names_of_ofNames built, e.indexes⟩

/-- Only one `CAP_` is left out, so the second name is `CAP_KILL` in its canonical form and
does not answer to `CAP_KILL`. Of two numbers that are no kinds the first is reported. -/
theorem enumeration_exact_spellings :
    ∃ e, Enumeration.ofNames [" cap_net_raw", "CAP_CAP_KILL"] = .ok e ∧
      e.lookup "Net_Raw" = some 0 ∧ e.lookup "cap_cap_kill" = some 1 ∧
      e.lookup "CAP_KILL" ≠ some 1 ∧ e.setOf [1, -1, 7] = .error ⟨-1, 2⟩ := by
  obtain ⟨isOk, exact⟩ := enumeration_exact [" cap_net_raw", "CAP_CAP_KILL"]
  obtain ⟨e, built⟩ := isOk.mpr ⟨by decide, by decide +kernel, by decide +kernel⟩
  obtain ⟨names, indexes⟩ := exact e built
  have size : e.size = 2 := by rw [Enumeration.size, names]; rfl
  have canonical : canonicalName "CAP_CAP_KILL" = "CAP_KILL" := by decide +kernel
  refine ⟨e, built, ?_, ?_, ?_, ?_⟩
  · exact (indexes.lookup _ 0).mpr ⟨" cap_net_raw", by rw [names]; rfl, by decide +kernel⟩
  · exact (indexes.lookup _ 1).mpr ⟨"CAP_CAP_KILL", by rw [names]; rfl, by decide +kernel⟩
  · intro found
    obtain ⟨name, listed, same⟩ := (indexes.lookup _ 1).mp found
    rw [names] at listed
    obtain rfl : "CAP_CAP_KILL" = name := Option.some.inj listed
    rw [canonical] at same
    exact absurd same (by decide +kernel)
  · refine (indexes.setOf_error _ _).mpr ⟨[1], -1, [7], rfl, ?_, ?_, ?_⟩
    · simp [size]
    · simp
    · rw [size]
      rfl

end CapLiveness
