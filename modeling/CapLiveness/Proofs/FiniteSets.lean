import CapLiveness.Capability.Enumeration
import Mathlib.Data.List.Sort
import Mathlib.Data.Set.Card

/-!
# Capability sets are finite sets

A set of kinds is a pattern of bits in two words, and the operations compute with words. Read
through `has`, which may be asked about any integer, it is a finite set of numbers below
`maxKinds`: the operations are those of sets, equality is extensional, and `count` is the
cardinality.

Members are found word by word, by the number of zeros at the end of a word, and the bit
found is cleared. The bits of a word are then its lowest bit followed by those of the word
that is left (`Word.members_eq_cons`), and the members of a set are those of its two words,
one after the other (`CapSet.kinds_eq_append`). So whatever a visitor does, and wherever it
stops, it is as if it had walked along the increasing list of the members
(`CapSet.visit_eq`). Everything is put together in `sets_faithful`.
-/

set_option autoImplicit false

namespace CapLiveness

/-! ## Visitors -/

/-- Hands the entries of a list to a visitor, until the visitor stops. -/
def visitList {σ : Type} (visitor : σ → Nat → σ × Bool) : List Nat → σ → σ × Bool
  | [], state => (state, true)
  | k :: rest, state =>
    match visitor state k with
    | (state, true) => visitList visitor rest state
    | stopped => stopped

theorem visitList_append {σ : Type} (visitor : σ → Nat → σ × Bool) (first second : List Nat)
    (state : σ) :
    visitList visitor (first ++ second) state =
      match visitList visitor first state with
      | (state, true) => visitList visitor second state
      | stopped => stopped := by
  induction first generalizing state with
  | nil => rfl
  | cons k rest ih =>
    simp only [List.cons_append, visitList]
    rcases visitor state k with ⟨next, _ | _⟩
    · rfl
    · exact ih next

/-- Collecting members up to a number takes that many of them. -/
theorem visitList_collectUpTo (n : Nat) (ks seen : List Nat) :
    (visitList (CapSet.collectUpTo n) ks seen).1 = seen ++ ks.take (n - seen.length) := by
  induction ks generalizing seen with
  | nil => simp [visitList]
  | cons k rest ih =>
    by_cases wanted : seen.length < n
    · have left : n - seen.length = n - (seen ++ [k]).length + 1 := by
        rw [List.length_append, List.length_singleton]
        omega
      simp only [visitList, CapSet.collectUpTo, if_pos wanted]
      rw [ih, left, List.take_succ_cons, List.append_assoc]
      rfl
    · have done : n - seen.length = 0 := by omega
      simp [visitList, CapSet.collectUpTo, wanted, done]

/-! ## Words -/

namespace Word

theorem mem_members {w : Word} {i : Nat} : i ∈ w.members ↔ w.getLsbD i = true := by
  rw [members, List.mem_filter, List.mem_range]
  exact ⟨fun member => member.2, fun isSet => ⟨BitVec.lt_of_getLsbD isSet, isSet⟩⟩

theorem pairwise_members (w : Word) : w.members.Pairwise (· < ·) :=
  List.pairwise_lt_range.filter _

/-- **The lowest bit comes first**, and clearing it leaves the others. -/
theorem members_eq_cons {w : Word} (nonzero : w ≠ 0) :
    w.members = w.lowest :: w.clearLowest.members := by
  refine w.pairwise_members.eq_of_mem_iff (List.pairwise_cons.mpr ⟨?_, pairwise_members _⟩) ?_
  · intro i member
    obtain ⟨isSet, different⟩ := getLsbD_clearLowest.mp (mem_members.mp member)
    exact Nat.lt_of_le_of_ne (lowest_le isSet) different.symm
  · intro i
    rw [List.mem_cons, mem_members, mem_members, getLsbD_clearLowest]
    by_cases same : i = w.lowest
    · simp [same, getLsbD_lowest nonzero]
    · simp [same]

theorem members_zero : (0 : Word).members = [] := by
  rw [List.eq_nil_iff_forall_not_mem]
  intro i member
  simpa using mem_members.mp member

/-- Visiting a word is walking along its bits. -/
theorem visit_eq {σ : Type} (visitor : σ → Nat → σ × Bool) (base : Nat) (w : Word) (state : σ) :
    w.visit visitor base state = visitList visitor (w.members.map (base + ·)) state := by
  fun_induction Word.visit visitor base w state with
  | case1 w state nonzero next found smaller ih =>
    rw [members_eq_cons nonzero, List.map_cons, visitList, found, ih]
  | case2 w state nonzero stops =>
    rw [members_eq_cons nonzero, List.map_cons, visitList]
    rcases answer : visitor state (base + w.lowest) with ⟨next, _ | _⟩
    · rfl
    · exact (stops next answer).elim
  | case3 w state zero =>
    rw [Decidable.not_not.mp zero, members_zero]
    rfl

end Word

namespace CapSet

variable {s t : CapSet}

/-! ## Membership of integers -/

/-- Members, as integers, are kinds. -/
theorem has_iff {k : Int} : s.has k = true ↔ ∃ n : Nat, k = n ∧ n ∈ s := by
  cases k with
  | ofNat n =>
    constructor
    · intro isSet
      exact ⟨n, rfl, has_natCast.mp isSet⟩
    · rintro ⟨m, same, member⟩
      obtain rfl := Int.ofNat.inj same
      exact has_natCast.mpr member
  | negSucc n =>
    constructor
    · intro isSet
      cases isSet
    · rintro ⟨m, same, _⟩
      cases same

theorem has_eq_bit (s : CapSet) (n : Nat) : s.has n = s.bit n :=
  Bool.eq_iff_iff.mpr has_natCast

theorem has_eq_false_of_outside {k : Int} (outside : k < 0 ∨ maxKinds ≤ k) : s.has k = false := by
  rw [← Bool.not_eq_true]
  intro isSet
  obtain ⟨n, rfl, member⟩ := has_iff.mp isSet
  have bound := lt_of_mem member
  omega

/-- An operation on bits is the operation on the answers to `has`. -/
theorem has_of_bit {u : CapSet} {f : Bool → Bool → Bool} (empty : f false false = false)
    (bits : ∀ n, u.bit n = f (s.bit n) (t.bit n)) (k : Int) : u.has k = f (s.has k) (t.has k) := by
  cases k with
  | ofNat n =>
    show u.has n = f (s.has n) (t.has n)
    rw [has_eq_bit, has_eq_bit, has_eq_bit, bits]
  | negSucc n => exact empty.symm

theorem has_union (k : Int) : (s ∪ t).has k = (s.has k || t.has k) :=
  has_of_bit rfl (bit_union s t) k

theorem has_inter (k : Int) : (s ∩ t).has k = (s.has k && t.has k) :=
  has_of_bit rfl (bit_inter s t) k

theorem has_sdiff (k : Int) : (s \ t).has k = (s.has k && !t.has k) :=
  has_of_bit (f := fun a b => a && !b) rfl (bit_sdiff s t) k

theorem has_insert {n : Nat} (inside : n < maxKinds) (k : Int) :
    (s.insert n).has k = true ↔ s.has k = true ∨ k = n := by
  simp only [has_iff, mem_insert, inside, and_true]
  constructor
  · rintro ⟨m, rfl, member | rfl⟩
    · exact .inl ⟨m, rfl, member⟩
    · exact .inr rfl
  · rintro (⟨m, rfl, member⟩ | rfl)
    · exact ⟨m, rfl, .inl member⟩
    · exact ⟨n, rfl, .inr rfl⟩

theorem eq_iff_has : s = t ↔ ∀ k : Int, s.has k = t.has k := by
  refine ⟨fun same k => same ▸ rfl, fun same => ext_mem fun n => ?_⟩
  rw [← has_natCast, ← has_natCast, same]

theorem subset_iff_has : s ⊆ t ↔ ∀ k : Int, s.has k = true → t.has k = true := by
  constructor
  · intro subset k isSet
    obtain ⟨n, rfl, member⟩ := has_iff.mp isSet
    exact has_natCast.mpr (subset n member)
  · intro subset n member
    exact has_natCast.mp (subset n (has_natCast.mpr member))

theorem isEmpty_iff_has : s.isEmpty = true ↔ ∀ k : Int, s.has k = false := by
  rw [isEmpty_iff, eq_iff_has]
  have empty : ∀ k : Int, (∅ : CapSet).has k = false := by
    intro k
    rw [← Bool.not_eq_true, has_iff]
    rintro ⟨n, _, member⟩
    exact not_mem_empty n member
  simp only [empty]

/-! ## The list of members -/

theorem pairwise_kinds (s : CapSet) : s.kinds.Pairwise (· < ·) :=
  List.pairwise_lt_range.filter _

theorem has_iff_mem_kinds {k : Int} : s.has k = true ↔ ∃ n ∈ s.kinds, k = n := by
  simp only [has_iff, mem_kinds, and_comm]

theorem count_eq_ncard (s : CapSet) : s.count = Set.ncard {k : Int | s.has k = true} := by
  have listed : {k : Int | s.has k = true} =
      ((s.kinds.map (Nat.cast : Nat → Int)).toFinset : Set Int) := by
    ext k
    rw [Set.mem_ofPred_eq, has_iff_mem_kinds]
    simp [eq_comm]
  have nodup : (s.kinds.map (Nat.cast : Nat → Int)).Nodup :=
    s.pairwise_kinds.nodup.map Nat.cast_injective
  rw [listed, Set.ncard_coe_finset, List.toFinset_card_of_nodup nodup, List.length_map,
    count_eq_length_kinds]

/-! ## Visiting a set -/

/-- **Visiting a set is walking along its members**, for every visitor. -/
theorem visit_eq {σ : Type} (visitor : σ → Nat → σ × Bool) (s : CapSet) (state : σ) :
    s.visit visitor state = visitList visitor s.kinds state := by
  rw [kinds_eq_append, visitList_append, ← Word.visit_eq]
  unfold visit
  rcases s.low.visit visitor 0 state with ⟨next, _ | _⟩
  · rfl
  · exact Word.visit_eq visitor wordBits s.high next

theorem firstKinds_eq (s : CapSet) (n : Nat) : s.firstKinds n = s.kinds.take n := by
  rw [firstKinds, visit_eq, visitList_collectUpTo]
  rfl

end CapSet

/-! ## Enumerations -/

namespace Enumeration

variable {e : Enumeration}

theorem has_all {k : Int} : e.all.has k = true ↔ 0 ≤ k ∧ k < e.size := by
  have fits : e.size ≤ maxKinds := e.fits
  rw [CapSet.has_iff]
  simp only [all, CapSet.mem_below]
  constructor
  · rintro ⟨n, rfl, below, _⟩
    omega
  · rintro ⟨nonneg, below⟩
    exact ⟨k.toNat, by omega, by omega, by omega⟩

theorem complement_complement (s : CapSet) : e.complement (e.complement s) = s ∩ e.all := by
  apply CapSet.ext_mem
  intro k
  simp only [complement, CapSet.mem_sdiff, CapSet.mem_inter]
  tauto

end Enumeration

/-- **Capability sets are finite sets of numbers below `maxKinds`.** Asked about any integer,
union, intersection and difference answer with the disjunction, the conjunction and the
conjunction with the negation; sets with the same answers are equal. Inclusion, emptiness,
count and the list of members are what they say, a visit runs along that list until the
visitor stops, joining reports whether it changed anything, and inserting adds one kind. The
operations work on two words of `wordBits` bits, and each word of a result depends on the
same word of the operands alone. Inserting a kind sets its bit in its word. The kinds of an
enumeration are the numbers below its size, and a set and its complement are each other's
complement among them. -/
theorem sets_faithful (s t : CapSet) :
    (∀ k : Int, (s ∪ t).has k = (s.has k || t.has k) ∧ (s ∩ t).has k = (s.has k && t.has k) ∧
      (s \ t).has k = (s.has k && !t.has k) ∧ (k < 0 ∨ maxKinds ≤ k → s.has k = false)) ∧
    (s = t ↔ ∀ k : Int, s.has k = t.has k) ∧
    (s.subsetOf t = true ↔ ∀ k : Int, s.has k = true → t.has k = true) ∧
    (s.isEmpty = true ↔ ∀ k : Int, s.has k = false) ∧
    s.count = Set.ncard {k : Int | s.has k = true} ∧
    (s.kinds.Pairwise (· < ·) ∧ (∀ k : Int, s.has k = true ↔ ∃ n ∈ s.kinds, k = n) ∧
      s.count = s.kinds.length) ∧
    ((∀ n, s.firstKinds n = s.kinds.take n) ∧
      ∀ {σ : Type} (visitor : σ → Nat → σ × Bool) (state : σ),
        s.visit visitor state = visitList visitor s.kinds state) ∧
    ((s.join t).2 = s ∪ t ∧ ((s.join t).1 = true ↔ t.subsetOf s = false)) ∧
    (∀ n < maxKinds, ∀ k : Int, (s.insert n).has k = true ↔ s.has k = true ∨ k = n) ∧
    ((∀ k : Nat, s.has k = (s.word (k / wordBits)).getLsbD (k % wordBits)) ∧
      (∀ i, (s ∪ t).word i = s.word i ||| t.word i ∧ (s ∩ t).word i = s.word i &&& t.word i ∧
        (s \ t).word i = s.word i &&& ~~~t.word i ∧
        ∀ n < maxKinds, (s.insert n).word i =
          if i = n / wordBits then s.word i ||| BitVec.twoPow wordBits (n % wordBits)
          else s.word i) ∧
      s.count = (s.word 0).cpop.toNat + (s.word 1).cpop.toNat) ∧
    ∀ e : Enumeration,
      (∀ k : Int, e.all.has k = true ↔ 0 ≤ k ∧ k < e.size) ∧
      e.complement (e.complement s) = s ∩ e.all := by
  refine ⟨fun k => ⟨CapSet.has_union k, CapSet.has_inter k, CapSet.has_sdiff k,
      CapSet.has_eq_false_of_outside⟩,
    CapSet.eq_iff_has, CapSet.subsetOf_iff.trans CapSet.subset_iff_has, CapSet.isEmpty_iff_has,
    s.count_eq_ncard,
    ⟨s.pairwise_kinds, fun _ => CapSet.has_iff_mem_kinds, s.count_eq_length_kinds⟩,
    ⟨s.firstKinds_eq, fun visitor => s.visit_eq visitor⟩, ⟨s.join_snd t, ?_⟩,
    fun n inside => CapSet.has_insert inside,
    ⟨s.has_eq_bit, fun i => ⟨s.word_union t i, s.word_inter t i, s.word_sdiff t i,
      fun n inside => s.word_insert inside i⟩, rfl⟩,
    fun e => ⟨fun _ => Enumeration.has_all, Enumeration.complement_complement s⟩⟩
  rw [CapSet.join_fst, ← CapSet.subsetOf_iff, Bool.not_eq_true]

/-! ## At the boundary of the words -/

/-- A name of two characters for each kind. -/
def shortName (k : Nat) : String :=
  String.ofList [Char.ofNat ('A'.toNat + k / 16), Char.ofNat ('0'.toNat + k % 16)]

/-- An enumeration with as many names as there can be kinds. -/
def fullEnumeration : Enumeration :=
  .ofFaultless ((List.range maxKinds).map shortName) none (by simp) (by decide +kernel)

/-- The set of the kinds on both sides of the boundary between the words, and of the last. -/
def boundarySet : CapSet := ((CapSet.singleton 63).insert 64).insert 127

/-- Kinds around the boundary between the words: the set has members in both of them, a visit
that is stopped after two members has crossed it, and the complement among all kinds is
again a complement. -/
theorem sets_faithful_boundary :
    fullEnumeration.size = 128 ∧ boundarySet.kinds = [63, 64, 127] ∧
      boundarySet.firstKinds 2 = [63, 64] ∧ fullEnumeration.all.has 127 = true ∧
      fullEnumeration.complement (fullEnumeration.complement boundarySet) =
        boundarySet ∩ fullEnumeration.all := by
  have size : fullEnumeration.size = 128 := by
    simp [fullEnumeration, Enumeration.ofFaultless, Enumeration.size]
  have kinds : boundarySet.kinds = [63, 64, 127] := by decide +kernel
  obtain ⟨_, _, _, _, _, _, ⟨first, _⟩, _, _, _, enumerated⟩ := sets_faithful boundarySet ∅
  obtain ⟨all, complement⟩ := enumerated fullEnumeration
  refine ⟨size, kinds, ?_, (all 127).mpr (by rw [size]; decide), complement⟩
  rw [first, kinds]
  rfl

end CapLiveness
