/-!
# Machine words

A machine word is a row of `wordBits` bits. Bit `i` is tested and set by the mask that
has this bit alone (`Word.holds`, `Word.mark`), and one word is added to another with a
note of whether that changed it (`Word.join`).

The bits of a word that are set are visited from the lowest on. The lowest one stands
after the zeros at the end of the word, and it is cleared before the next one is looked
for. That makes the word a smaller number (`clearLowest_lt`), so a visit comes to an end.
A visitor is handed one bit at a time, and answers whether it wants another.
-/

set_option autoImplicit false

namespace CapLiveness

/-- The number of bits of a machine word. -/
abbrev wordBits : Nat := 64

/-- A machine word. -/
abbrev Word := BitVec wordBits

namespace Word

/-! ## Single bits -/

/-- Whether a bit is set. -/
def holds (w : Word) (i : Nat) : Bool := (w &&& BitVec.twoPow wordBits i) != 0

/-- The word with one more bit set. -/
def mark (w : Word) (i : Nat) : Word := w ||| BitVec.twoPow wordBits i

theorem eq_zero_iff {w : Word} : w = 0 ↔ ∀ i, w.getLsbD i = false := by
  constructor
  · rintro rfl i
    exact BitVec.getLsbD_zero
  · intro clear
    apply BitVec.eq_of_getLsbD_eq
    intro i _
    rw [clear i]
    exact BitVec.getLsbD_zero.symm

theorem holds_eq_getLsbD (w : Word) (i : Nat) : w.holds i = w.getLsbD i := by
  rw [holds, BitVec.and_twoPow]
  cases isSet : w.getLsbD i with
  | false => simp
  | true =>
    have bit : (BitVec.twoPow wordBits i).getLsbD i = true := by
      simp [BitVec.lt_of_getLsbD isSet]
    rw [if_pos rfl, bne_iff_ne]
    intro zero
    rw [eq_zero_iff.mp zero i] at bit
    cases bit

theorem getLsbD_mark {w : Word} {i j : Nat} (inside : i < wordBits) :
    (w.mark i).getLsbD j = true ↔ w.getLsbD j = true ∨ j = i := by
  rw [mark, BitVec.getLsbD_or, BitVec.getLsbD_twoPow, Bool.or_eq_true, Bool.and_eq_true,
    decide_eq_true_eq, decide_eq_true_eq]
  exact or_congr_right ⟨fun same => same.2.symm, fun same => ⟨inside, same.symm⟩⟩

theorem getLsbD_andNot {v w : Word} {i : Nat} :
    (v &&& ~~~w).getLsbD i = (v.getLsbD i && !w.getLsbD i) := by
  rw [BitVec.getLsbD_and, BitVec.getLsbD_not]
  cases isSet : v.getLsbD i with
  | false => rfl
  | true => simp [BitVec.lt_of_getLsbD isSet]

/-! ## Joining -/

/-- Adds the bits of one word to another. The flag says whether something has changed
so far, and is set when the first word has a bit that the second one lacks. -/
def join (changed : Bool) (target source : Word) : Bool × Word :=
  (changed || (source &&& ~~~target) != 0, target ||| source)

/-- The flag is set when it was, or when a bit is new. -/
theorem join_fst {changed : Bool} {target source : Word} :
    (join changed target source).1 = true ↔
      changed = true ∨ ∃ i, source.getLsbD i = true ∧ target.getLsbD i = false := by
  rw [join, Bool.or_eq_true, bne_iff_ne]
  refine or_congr_right ?_
  rw [Ne, eq_zero_iff, Classical.not_forall]
  simp only [getLsbD_andNot, Bool.not_eq_false, Bool.and_eq_true, Bool.not_eq_true']

/-! ## Visiting bits -/

/-- The lowest bit that is set, in a word other than zero. -/
def lowest (w : Word) : Nat := w.ctz.toNat

/-- The word without its lowest bit. -/
def clearLowest (w : Word) : Word := w &&& ~~~BitVec.twoPow wordBits w.lowest

theorem getLsbD_lowest {w : Word} (nonzero : w ≠ 0) : w.getLsbD w.lowest = true :=
  BitVec.getLsbD_true_ctz_of_ne_zero nonzero

theorem lowest_le {w : Word} {i : Nat} (isSet : w.getLsbD i = true) : w.lowest ≤ i := by
  apply Nat.le_of_not_lt
  intro below
  rw [BitVec.getLsbD_false_of_lt_ctz below] at isSet
  cases isSet

theorem getLsbD_clearLowest {w : Word} {i : Nat} :
    w.clearLowest.getLsbD i = true ↔ w.getLsbD i = true ∧ i ≠ w.lowest := by
  rw [clearLowest, getLsbD_andNot, Bool.and_eq_true, BitVec.getLsbD_twoPow]
  refine and_congr_right fun isSet => ?_
  have inside := BitVec.lt_of_getLsbD isSet
  by_cases same : i = w.lowest
  · simp [same, same ▸ inside]
  · simp [same, Ne.symm same]

/-- **Clearing the lowest bit makes a word smaller.** -/
theorem clearLowest_lt {w : Word} (nonzero : w ≠ 0) : w.clearLowest.toNat < w.toNat := by
  refine Nat.lt_of_le_of_ne ?_ ?_
  · rw [clearLowest, BitVec.toNat_and]
    exact Nat.and_le_left
  · intro same
    have cleared := getLsbD_lowest nonzero
    rw [← BitVec.eq_of_toNat_eq same] at cleared
    exact (getLsbD_clearLowest.mp cleared).2 (by rw [BitVec.eq_of_toNat_eq same])

/-- Hands the bits of a word that are set to a visitor, the lowest first, as kinds
counted from `base` on. Gives the last state of the visitor, and whether it would
have gone on. -/
def visit {σ : Type} (visitor : σ → Nat → σ × Bool) (base : Nat) (w : Word) (state : σ) :
    σ × Bool :=
  if nonzero : w ≠ 0 then
    match visitor state (base + w.lowest) with
    | (state, true) =>
      have := clearLowest_lt nonzero
      visit visitor base w.clearLowest state
    | stopped => stopped
  else (state, true)
termination_by w.toNat

/-! ## Counting bits -/

/-- The bits of a word that are set, in increasing order. -/
def members (w : Word) : List Nat := (List.range wordBits).filter (w.getLsbD ·)

/-- The population count of a word counts its bits. -/
theorem length_members (w : Word) : w.members.length = w.cpop.toNat := by
  have upTo : ∀ n, ((List.range n).filter (w.getLsbD ·)).length = w.cpopNatRec n 0 := by
    intro n
    induction n with
    | zero => rfl
    | succ n ih =>
      rw [BitVec.cpopNatRec_succ, BitVec.cpopNatRec_add, ← ih, List.range_succ,
        List.filter_append, List.length_append]
      by_cases isSet : w.getLsbD n = true <;> simp [isSet]
  rw [BitVec.toNat_cpop, ← upTo]
  rfl

end Word

end CapLiveness
