import CapLiveness.Capability.Words

/-!
# Sets of capability kinds

A capability kind is a number below `maxKinds`. A set of kinds fills two machine
words: kind `k` is bit `k % wordBits` of word `k / wordBits`. Union, intersection and
difference work word by word, and equality is decidable. Adding a kind sets one bit of
one word, a set is empty when both words are zero, and joining a set to another notes on
the way whether a word has changed.

The view of a set is membership: `k ∈ s` says that the bit of `k` is set. Each operation
has one lemma that says what it does to membership, and two sets with the same members
are equal (`ext_mem`). A set that gains members gains in `count`, which is bounded by
`maxKinds` (`count_lt_count_union`, `count_le`); this is what makes growing tables of
sets stop.

A set alone does not know how many kinds exist. The enumeration it belongs to bounds the
kinds that can be put into it and gives it a complement.
-/

set_option autoImplicit false

namespace CapLiveness

/-- The largest number of capability kinds an enumeration may have. -/
abbrev maxKinds : Nat := 128

/-- A set of capability kinds: the kinds of the first word and those of the second. -/
@[ext]
structure CapSet where
  low : Word
  high : Word
deriving DecidableEq

namespace CapSet

/-! ## Membership -/

/-- One of the words of a set. There are no members beyond the second. -/
def word (s : CapSet) : Nat → Word
  | 0 => s.low
  | 1 => s.high
  | _ => 0

/-- The bit of a kind. -/
def bit (s : CapSet) (k : Nat) : Bool := (s.word (k / wordBits)).getLsbD (k % wordBits)

instance : Membership Nat CapSet where
  mem s k := s.bit k = true

theorem mem_def {s : CapSet} {k : Nat} : k ∈ s ↔ s.bit k = true := Iff.rfl

instance (s : CapSet) (k : Nat) : Decidable (k ∈ s) :=
  inferInstanceAs (Decidable (s.bit k = true))

/-- Whether a number, which may be negative or too large, is a member. -/
def has (s : CapSet) (k : Int) : Bool :=
  match k with
  | .ofNat n => decide (n < maxKinds) && (s.word (n / wordBits)).holds (n % wordBits)
  | .negSucc _ => false

theorem word_eq_zero (s : CapSet) {i : Nat} (outside : 2 ≤ i) : s.word i = 0 := by
  obtain ⟨j, rfl⟩ := Nat.exists_eq_add_of_le' outside
  rfl

/-- The kinds are the numbers with a bit in one of the two words. -/
theorem div_wordBits_lt {k : Nat} : k / wordBits < 2 ↔ k < maxKinds :=
  Nat.div_lt_iff_lt_mul (by decide)

/-- The kind of a bit of a word. -/
theorem getLsbD_word (s : CapSet) {i j : Nat} (inside : j < wordBits) :
    (s.word i).getLsbD j = s.bit (i * wordBits + j) := by
  have quotient : (i * wordBits + j) / wordBits = i := by
    rw [Nat.mul_comm, Nat.mul_add_div (by decide), Nat.div_eq_of_lt inside, Nat.add_zero]
  rw [bit, quotient, Nat.mul_add_mod_self_right, Nat.mod_eq_of_lt inside]

/-- Members are kinds. -/
theorem lt_of_mem {s : CapSet} {k : Nat} (member : k ∈ s) : k < maxKinds := by
  apply Nat.lt_of_not_le
  intro outside
  have zero := s.word_eq_zero (Nat.not_lt.mp (mt div_wordBits_lt.mp (Nat.not_lt.mpr outside)))
  rw [mem_def, bit, zero, Word.eq_zero_iff.mp rfl] at member
  cases member

theorem has_natCast {s : CapSet} {n : Nat} : s.has n = true ↔ n ∈ s := by
  show (decide (n < maxKinds) && (s.word (n / wordBits)).holds (n % wordBits)) = true ↔ _
  rw [Bool.and_eq_true, decide_eq_true_eq, Word.holds_eq_getLsbD]
  exact ⟨fun isSet => isSet.2, fun member => ⟨lt_of_mem member, member⟩⟩

theorem ext_word {s t : CapSet} (same : ∀ i, s.word i = t.word i) : s = t :=
  CapSet.ext (same 0) (same 1)

/-- Sets with the same members are equal. -/
theorem ext_mem {s t : CapSet} (h : ∀ k, k ∈ s ↔ k ∈ t) : s = t := by
  refine ext_word fun i => BitVec.eq_of_getLsbD_eq fun j inside => ?_
  rw [s.getLsbD_word inside, t.getLsbD_word inside]
  exact Bool.eq_iff_iff.mpr (h (i * wordBits + j))

/-! ## Operations -/

/-- Combines two sets word by word. -/
def zipWords (f : Word → Word → Word) (s t : CapSet) : CapSet := ⟨f s.low t.low, f s.high t.high⟩

instance : EmptyCollection CapSet := ⟨⟨0, 0⟩⟩

instance : Inhabited CapSet := ⟨∅⟩

instance : Union CapSet := ⟨zipWords fun v w => v ||| w⟩

instance : Inter CapSet := ⟨zipWords fun v w => v &&& w⟩

instance : SDiff CapSet := ⟨zipWords fun v w => v &&& ~~~w⟩

/-- A set with one more kind; the same set for a number that is not a kind. -/
def insert (s : CapSet) (k : Nat) : CapSet :=
  match k / wordBits with
  | 0 => { s with low := s.low.mark (k % wordBits) }
  | 1 => { s with high := s.high.mark (k % wordBits) }
  | _ => s

/-- The set of one kind; empty for a number that is not a kind. -/
def singleton (k : Nat) : CapSet := insert ∅ k

/-- The kinds below `n`. -/
def below (n : Nat) : CapSet := (List.range n).foldl insert ∅

/-- Whether a set has no members: whether both words are zero. -/
def isEmpty (s : CapSet) : Bool := [s.low, s.high].all (· == 0)

/-- Whether every member of the first set is a member of the second. -/
def subsetOf (s t : CapSet) : Bool := (s \ t).isEmpty

/-- The members in increasing order. -/
def kinds (s : CapSet) : List Nat := (List.range maxKinds).filter (s.bit ·)

/-- The number of members: of bits that are set in the first word and in the second. -/
def count (s : CapSet) : Nat := s.low.cpop.toNat + s.high.cpop.toNat

/-- Adds the members of `source` to `target`, word after word, and notes whether a word
has changed. -/
def join (target source : CapSet) : Bool × CapSet :=
  let low := Word.join false target.low source.low
  let high := Word.join low.1 target.high source.high
  (high.1, ⟨low.2, high.2⟩)

/-- Hands the members of a set to a visitor, in increasing order. -/
def visit {σ : Type} (visitor : σ → Nat → σ × Bool) (s : CapSet) (state : σ) : σ × Bool :=
  match s.low.visit visitor 0 state with
  | (state, true) => s.high.visit visitor wordBits state
  | stopped => stopped

/-- A visitor that collects members and stops when it has `n` of them. -/
def collectUpTo (n : Nat) (seen : List Nat) (k : Nat) : List Nat × Bool :=
  if seen.length < n then (seen ++ [k], true) else (seen, false)

/-- The members that a visit hands out before it is stopped after `n` of them. -/
def firstKinds (s : CapSet) (n : Nat) : List Nat := (s.visit (collectUpTo n) []).1

instance : HasSubset CapSet := ⟨fun s t => ∀ k, k ∈ s → k ∈ t⟩

/-! ## Membership after each operation -/

theorem word_zipWords {f : Word → Word → Word} (zero : f 0 0 = 0) (s t : CapSet) (i : Nat) :
    (zipWords f s t).word i = f (s.word i) (t.word i) := by
  match i with
  | 0 => rfl
  | 1 => rfl
  | _ + 2 => exact zero.symm

theorem word_union (s t : CapSet) (i : Nat) : (s ∪ t).word i = s.word i ||| t.word i :=
  word_zipWords (by decide) s t i

theorem word_inter (s t : CapSet) (i : Nat) : (s ∩ t).word i = s.word i &&& t.word i :=
  word_zipWords (by decide) s t i

theorem word_sdiff (s t : CapSet) (i : Nat) : (s \ t).word i = s.word i &&& ~~~t.word i :=
  word_zipWords (by decide) s t i

theorem word_insert (s : CapSet) {k : Nat} (inside : k < maxKinds) (i : Nat) :
    (s.insert k).word i =
      if i = k / wordBits then (s.word i).mark (k % wordBits) else s.word i := by
  rw [insert]
  have few := div_wordBits_lt.mpr inside
  match k / wordBits, few, i with
  | 0, _, 0 | 0, _, 1 | 0, _, _ + 2 | 1, _, 0 | 1, _, 1 | 1, _, _ + 2 => simp [word]

theorem insert_of_le (s : CapSet) {k : Nat} (outside : maxKinds ≤ k) : s.insert k = s := by
  have beyond := Nat.not_lt.mp (mt div_wordBits_lt.mp (Nat.not_lt.mpr outside))
  obtain ⟨j, isQuotient⟩ := Nat.exists_eq_add_of_le' beyond
  rw [insert, isQuotient]
  rfl

theorem bit_union (s t : CapSet) (k : Nat) : (s ∪ t).bit k = (s.bit k || t.bit k) := by
  rw [bit, word_union, BitVec.getLsbD_or]
  rfl

theorem bit_inter (s t : CapSet) (k : Nat) : (s ∩ t).bit k = (s.bit k && t.bit k) := by
  rw [bit, word_inter, BitVec.getLsbD_and]
  rfl

theorem bit_sdiff (s t : CapSet) (k : Nat) : (s \ t).bit k = (s.bit k && !t.bit k) := by
  rw [bit, word_sdiff, Word.getLsbD_andNot]
  rfl

@[simp] theorem not_mem_empty (k : Nat) : k ∉ (∅ : CapSet) := by
  have zero : (∅ : CapSet).word (k / wordBits) = 0 := by
    match k / wordBits with
    | 0 | 1 | _ + 2 => rfl
  rw [mem_def, bit, zero, Word.eq_zero_iff.mp rfl]
  exact Bool.false_ne_true

@[simp] theorem mem_union {s t : CapSet} {k : Nat} : k ∈ s ∪ t ↔ k ∈ s ∨ k ∈ t := by
  rw [mem_def, bit_union, Bool.or_eq_true]
  rfl

@[simp] theorem mem_inter {s t : CapSet} {k : Nat} : k ∈ s ∩ t ↔ k ∈ s ∧ k ∈ t := by
  rw [mem_def, bit_inter, Bool.and_eq_true]
  rfl

@[simp] theorem mem_sdiff {s t : CapSet} {k : Nat} : k ∈ s \ t ↔ k ∈ s ∧ k ∉ t := by
  rw [mem_def, bit_sdiff, Bool.and_eq_true, Bool.not_eq_true', ← Bool.not_eq_true]
  rfl

/-- **Setting one bit adds one kind.** The kinds of other words and other bits stay. -/
@[simp] theorem mem_insert {s : CapSet} {j k : Nat} :
    k ∈ s.insert j ↔ k ∈ s ∨ (k = j ∧ j < maxKinds) := by
  by_cases inside : j < maxKinds
  · rw [mem_def, bit, word_insert s inside]
    by_cases sameWord : k / wordBits = j / wordBits
    · have sameKind : k % wordBits = j % wordBits ↔ k = j := by
        simp only [wordBits] at sameWord ⊢
        omega
      rw [if_pos sameWord, Word.getLsbD_mark (Nat.mod_lt j (by decide)), sameKind,
        and_iff_left inside]
      rfl
    · have different : k ≠ j := fun same => sameWord (same ▸ rfl)
      rw [if_neg sameWord]
      simp [mem_def, bit, different]
  · rw [insert_of_le s (Nat.not_lt.mp inside)]
    simp [inside]

@[simp] theorem mem_singleton {j k : Nat} : k ∈ singleton j ↔ k = j ∧ j < maxKinds := by
  simp [singleton]

theorem insert_eq_union (s : CapSet) (k : Nat) : s.insert k = s ∪ singleton k :=
  ext_mem (by simp)

theorem mem_foldl_insert {ks : List Nat} {s : CapSet} {k : Nat} :
    k ∈ ks.foldl insert s ↔ k ∈ s ∨ (k ∈ ks ∧ k < maxKinds) := by
  induction ks generalizing s with
  | nil => simp
  | cons j ks ih =>
    rw [List.foldl_cons, ih, mem_insert, List.mem_cons]
    constructor
    · rintro ((h | ⟨rfl, h⟩) | ⟨h, h'⟩)
      · exact .inl h
      · exact .inr ⟨.inl rfl, h⟩
      · exact .inr ⟨.inr h, h'⟩
    · rintro (h | ⟨rfl | h, h'⟩)
      · exact .inl (.inl h)
      · exact .inl (.inr ⟨rfl, h'⟩)
      · exact .inr ⟨h, h'⟩

@[simp] theorem mem_below {n k : Nat} : k ∈ below n ↔ k < n ∧ k < maxKinds := by
  rw [below, mem_foldl_insert, List.mem_range]
  simp

@[simp] theorem mem_kinds {s : CapSet} {k : Nat} : k ∈ s.kinds ↔ k ∈ s := by
  rw [kinds, List.mem_filter, List.mem_range]
  exact ⟨fun h => h.2, fun h => ⟨lt_of_mem h, h⟩⟩

/-! ## Inclusion and emptiness -/

theorem subset_def {s t : CapSet} : s ⊆ t ↔ ∀ k, k ∈ s → k ∈ t := Iff.rfl

theorem isEmpty_iff {s : CapSet} : s.isEmpty = true ↔ s = ∅ := by
  simp only [isEmpty, List.all_cons, List.all_nil, Bool.and_true, Bool.and_eq_true, beq_iff_eq]
  constructor
  · intro zero
    exact CapSet.ext zero.1 zero.2
  · intro empty
    exact ⟨congrArg low empty, congrArg high empty⟩

theorem isEmpty_iff_forall {s : CapSet} : s.isEmpty = true ↔ ∀ k, k ∉ s := by
  rw [isEmpty_iff]
  constructor
  · rintro rfl
    exact not_mem_empty
  · intro h
    exact ext_mem fun k => ⟨fun hk => absurd hk (h k), fun hk => absurd hk (not_mem_empty k)⟩

theorem subsetOf_iff {s t : CapSet} : s.subsetOf t = true ↔ s ⊆ t := by
  rw [subsetOf, isEmpty_iff_forall]
  constructor
  · intro h k hk
    by_cases ht : k ∈ t
    · exact ht
    · exact absurd (mem_sdiff.mpr ⟨hk, ht⟩) (h k)
  · intro h k hk
    exact (mem_sdiff.mp hk).2 (h k (mem_sdiff.mp hk).1)

instance (s t : CapSet) : Decidable (s ⊆ t) :=
  decidable_of_iff (s.subsetOf t = true) subsetOf_iff

@[simp] theorem empty_subset (s : CapSet) : ∅ ⊆ s := fun k h => absurd h (not_mem_empty k)

@[simp] theorem union_empty (s : CapSet) : s ∪ ∅ = s := ext_mem (by simp)

theorem subset_union_left (s t : CapSet) : s ⊆ s ∪ t := fun _ h => mem_union.mpr (.inl h)

theorem subset_union_right (s t : CapSet) : t ⊆ s ∪ t := fun _ h => mem_union.mpr (.inr h)

/-! ## Joining -/

theorem join_snd (target source : CapSet) : (target.join source).2 = target ∪ source := rfl

/-- **Joining notes a change** when the source has a member that the target lacks. -/
theorem join_fst {target source : CapSet} :
    (target.join source).1 = true ↔ ¬ source ⊆ target := by
  have lacking : (∃ i j, (source.word i).getLsbD j = true ∧ (target.word i).getLsbD j = false) ↔
      ¬ source ⊆ target := by
    rw [subset_def, Classical.not_forall]
    constructor
    · rintro ⟨i, j, isSet, isClear⟩
      have inside := BitVec.lt_of_getLsbD isSet
      rw [getLsbD_word _ inside] at isSet isClear
      exact ⟨i * wordBits + j, by simp [mem_def, isSet, isClear]⟩
    · rintro ⟨k, new⟩
      rw [Classical.not_imp] at new
      exact ⟨_, _, new.1, (Bool.not_eq_true _).mp new.2⟩
  rw [← lacking, join, Word.join_fst, Word.join_fst]
  constructor
  · rintro ((before | inLow) | inHigh)
    · cases before
    · exact ⟨0, inLow⟩
    · exact ⟨1, inHigh⟩
  · rintro ⟨i, j, isSet, isClear⟩
    match i with
    | 0 => exact .inl (.inr ⟨j, isSet, isClear⟩)
    | 1 => exact .inr ⟨j, isSet, isClear⟩
    | i + 2 =>
      rw [source.word_eq_zero (Nat.le_add_left 2 i), Word.eq_zero_iff.mp rfl] at isSet
      cases isSet

theorem join_eq (target source : CapSet) :
    target.join source = (decide (¬ source ⊆ target), target ∪ source) :=
  Prod.ext (Bool.eq_iff_iff.mpr (join_fst.trans decide_eq_true_iff.symm)) (join_snd target source)

/-! ## Counting -/

/-- **The members of a set are those of its words**, one word after the other. -/
theorem kinds_eq_append (s : CapSet) :
    s.kinds = s.low.members.map (0 + ·) ++ s.high.members.map (wordBits + ·) := by
  have bits : ∀ i, (List.range wordBits).filter (fun j => s.bit (i * wordBits + j)) =
      (s.word i).members := by
    intro i
    refine List.filter_congr fun j member => ?_
    rw [s.getLsbD_word (List.mem_range.mp member)]
  have split : List.range maxKinds =
      (List.range wordBits).map (0 * wordBits + ·) ++
        (List.range wordBits).map (1 * wordBits + ·) := by decide
  rw [kinds, split, List.filter_append, List.filter_map, List.filter_map]
  simp only [Function.comp_def, bits]
  rw [Nat.zero_mul, Nat.one_mul]
  rfl

theorem count_eq_length_kinds (s : CapSet) : s.count = s.kinds.length := by
  rw [kinds_eq_append, List.length_append, List.length_map, List.length_map,
    Word.length_members, Word.length_members]
  rfl

theorem count_eq_countP (s : CapSet) : s.count = (List.range maxKinds).countP (s.bit ·) := by
  rw [count_eq_length_kinds, List.countP_eq_length_filter]
  rfl

theorem count_le (s : CapSet) : s.count ≤ maxKinds := by
  have h := List.countP_le_length (p := (s.bit ·)) (l := List.range maxKinds)
  rwa [List.length_range, ← count_eq_countP] at h

/-- Counting a disjunction counts one part, and what the other adds. -/
theorem countP_or (p q : Nat → Bool) (ks : List Nat) :
    ks.countP (fun k => p k || q k) = ks.countP p + ks.countP (fun k => q k && !p k) := by
  induction ks with
  | nil => rfl
  | cons k ks ih =>
    simp only [List.countP_cons, ih]
    cases p k <;> cases q k <;> simp <;> omega

theorem count_union (s t : CapSet) : (s ∪ t).count = s.count + (t \ s).count := by
  simp only [count_eq_countP, bit_union, bit_sdiff]
  exact countP_or _ _ _

/-- **Growth is visible in the count.** Adding a set that brings a new member
makes the count larger. -/
theorem count_lt_count_union {s t : CapSet} (h : ¬ t ⊆ s) : s.count < (s ∪ t).count := by
  rw [count_union]
  have pos : 0 < (t \ s).count := by
    rw [count_eq_countP, List.countP_pos_iff]
    have nonempty : (t.subsetOf s) ≠ true := fun hs => h (subsetOf_iff.mp hs)
    by_cases empty : ∀ k, k ∉ t \ s
    · exact absurd (isEmpty_iff_forall.mpr empty) nonempty
    · obtain ⟨k, hk⟩ := Classical.not_forall.mp empty
      have member : k ∈ t \ s := Classical.not_not.mp hk
      exact ⟨k, List.mem_range.mpr (lt_of_mem member), member⟩
  omega

/-! ## Text and order -/

/-- The members as a list of numbers in braces: `{0,12}`. -/
def text (s : CapSet) : String :=
  "\x7b" ++ ",".intercalate (s.kinds.map toString) ++ "\x7d"

/-- Sets are ordered by size, and sets of one size by their text. -/
def compareBySize (s t : CapSet) : Ordering :=
  (compare s.count t.count).then (compare s.text t.text)

end CapSet

end CapLiveness
