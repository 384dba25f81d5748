import CapLiveness.Capability.Set
import Mathlib.Data.List.Sort

/-!
# The order of sets

Reports list sets by size, and sets of one size by their text. The text of a set can be read
back, because no numeral contains the comma that separates it from the next
(`readNumerals_numerals`), so different sets have different texts (`text_injective`). The
order is therefore a total one, in which only a set itself is equal to it.

Hence entries with different sets have one arrangement by decreasing figures and then by
sets (`descending`, `sorted_iff_eq_mergeSort`), whatever the order in which they come to be
sorted. It is enough that the comparison agrees with that order on the entries.
-/

set_option autoImplicit false

namespace CapLiveness

/-! ## Texts -/

/-- Numbers in base ten, with commas between them. -/
def numerals (ks : List Nat) : List Char := [','].intercalate (ks.map (Nat.toDigits 10))

/-- The numbers that a text with commas lists. -/
def readNumerals (text : List Char) : List Nat :=
  if text = [] then [] else (text.splitOn ',').map (Nat.ofDigitChars 10 · 0)

theorem comma_not_mem_toDigits (n : Nat) : ',' ∉ Nat.toDigits 10 n := by
  intro member
  have isDigit := Nat.isDigit_of_mem_toDigits (by decide) (by decide) member
  exact absurd isDigit (by decide)

theorem numerals_cons_ne_nil (k : Nat) (ks : List Nat) : numerals (k :: ks) ≠ [] := by
  have first : Nat.toDigits 10 k ≠ [] := List.ne_nil_of_length_pos Nat.length_toDigits_pos
  cases ks <;> simp [numerals, List.intercalate, first]

theorem readNumerals_numerals (ks : List Nat) : readNumerals (numerals ks) = ks := by
  cases ks with
  | nil => rfl
  | cons k rest =>
    have apart : ∀ digits ∈ (k :: rest).map (Nat.toDigits 10), ',' ∉ digits := by
      simp only [List.mem_map, forall_exists_index, and_imp, forall_apply_eq_imp_iff₂]
      exact fun n _ => comma_not_mem_toDigits n
    rw [readNumerals, if_neg (numerals_cons_ne_nil k rest), numerals,
      List.splitOn_intercalate ',' apart (by simp), List.map_map]
    simp [Function.comp_def]

namespace CapSet

theorem toList_text (s : CapSet) : s.text.toList = '\x7b' :: numerals s.kinds ++ ['\x7d'] := by
  have digits : ∀ n : Nat, (toString n).toList = Nat.toDigits 10 n := by
    intro n
    rw [Nat.toString_eq_ofList_toDigits, String.toList_ofList]
  rw [text, String.toList_append, String.toList_append, String.toList_intercalate, List.map_map]
  simp only [Function.comp_def, digits]
  rfl

theorem kinds_injective : Function.Injective kinds := by
  intro s t same
  apply ext_mem
  intro k
  rw [← mem_kinds, same, mem_kinds]

/-- **Different sets have different texts.** -/
theorem text_injective : Function.Injective text := by
  intro s t same
  have texts : '\x7b' :: numerals s.kinds ++ ['\x7d'] = '\x7b' :: numerals t.kinds ++ ['\x7d'] := by
    rw [← toList_text, ← toList_text, same]
  have listed : numerals s.kinds = numerals t.kinds := by simpa using texts
  apply kinds_injective
  rw [← readNumerals_numerals s.kinds, listed, readNumerals_numerals]

/-! ## The order -/

instance : Std.TransCmp compareBySize :=
  inferInstanceAs (Std.TransCmp (compareLex (compareOn count) (compareOn text)))

instance : Std.LawfulEqCmp compareBySize where
  eq_of_compare {s t} same := by
    have texts := (Ordering.then_eq_eq.mp same).2
    exact text_injective (Std.LawfulEqOrd.eq_of_compare texts)

end CapSet

/-! ## Arrangements -/

section

variable {α : Type} {cmp : α → α → Ordering}

/-- The order of reports: larger figures first, and entries with one figure by their sets. -/
def descending {κ : Type} [Ord κ] (figure : α → κ) (set : α → CapSet) (a b : α) : Ordering :=
  (compare (figure b) (figure a)).then ((set a).compareBySize (set b))

instance {κ : Type} [Ord κ] [Std.TransOrd κ] (figure : α → κ) (set : α → CapSet) :
    Std.TransCmp (descending figure set) :=
  have : Std.TransCmp fun a b : α => compare (figure b) (figure a) :=
    { eq_swap := Std.OrientedCmp.eq_swap
      isLE_trans := fun ab bc => Std.TransCmp.isLE_trans bc ab }
  have : Std.TransCmp fun a b : α => (set a).compareBySize (set b) :=
    { eq_swap := Std.OrientedCmp.eq_swap
      isLE_trans := Std.TransCmp.isLE_trans }
  inferInstanceAs (Std.TransCmp (compareLex (fun a b => compare (figure b) (figure a))
    fun a b => (set a).compareBySize (set b)))

theorem set_eq_of_descending_eq {κ : Type} [Ord κ] {figure : α → κ} {set : α → CapSet} {a b : α}
    (equal : descending figure set a b = .eq) : set a = set b :=
  Std.LawfulEqCmp.eq_of_compare (Ordering.then_eq_eq.mp equal).2

variable (lawful : α → α → Ordering) [Std.TransCmp lawful] {entries : List α}

/-- Sorting by a comparison that agrees on the entries with a lawful order puts no entry after a
larger one. -/
theorem pairwise_mergeSort_of_agree
    (agree : ∀ a ∈ entries, ∀ b ∈ entries, cmp a b = lawful a b) :
    (entries.mergeSort fun a b => cmp a b != .gt).Pairwise fun a b => lawful a b ≠ .gt := by
  have isLE : ∀ a b, (lawful a b != .gt) = (lawful a b).isLE := by
    intro a b
    cases lawful a b <;> rfl
  have same : (entries.mergeSort fun a b => cmp a b != .gt) =
      entries.mergeSort fun a b => lawful a b != .gt := by
    have mapped := List.map_mergeSort (r := fun a b => cmp a b != .gt)
      (s := fun a b => lawful a b != .gt) (f := id) (l := entries)
      fun a memberA b memberB => congrArg (· != .gt) (agree a memberA b memberB)
    rwa [List.map_id, List.map_id] at mapped
  rw [same]
  refine (List.pairwise_mergeSort ?_ ?_ entries).imp fun notAfter => bne_iff_ne.mp notAfter
  · intro a b c
    simp only [isLE]
    exact Std.TransCmp.isLE_trans
  · intro a b
    have swapped : lawful b a = (lawful a b).swap := Std.OrientedCmp.eq_swap
    rw [isLE, isLE, swapped]
    cases lawful a b <;> rfl

/-- **There is one arrangement.** If the comparison agrees on the entries with a lawful order
that tells them apart, a list of the entries without a descent is the sorted one. -/
theorem sorted_iff_eq_mergeSort (agree : ∀ a ∈ entries, ∀ b ∈ entries, cmp a b = lawful a b)
    (apart : ∀ a ∈ entries, ∀ b ∈ entries, lawful a b = .eq → a = b) {report : List α} :
    report.Perm entries ∧ report.Pairwise (fun a b => cmp a b ≠ .gt) ↔
      report = entries.mergeSort fun a b => cmp a b != .gt := by
  have sorted := pairwise_mergeSort_of_agree lawful agree
  have collected := List.mergeSort_perm entries fun a b => cmp a b != .gt
  constructor
  · rintro ⟨isReport, isSorted⟩
    have lawfully : report.Pairwise fun a b => lawful a b ≠ .gt := by
      refine isSorted.imp_of_mem ?_
      intro a b memberA memberB notAfter
      rwa [← agree a (isReport.mem_iff.mp memberA) b (isReport.mem_iff.mp memberB)]
    refine List.Perm.eq_of_pairwise ?_ lawfully sorted (isReport.trans collected.symm)
    intro a b memberA memberB notAfter notBefore
    apply apart a (isReport.mem_iff.mp memberA) b (collected.mem_iff.mp memberB)
    have swapped : lawful b a = (lawful a b).swap := Std.OrientedCmp.eq_swap
    rw [swapped] at notBefore
    cases order : lawful a b with
    | lt => simp [order] at notBefore
    | eq => rfl
    | gt => exact absurd order notAfter
  · rintro rfl
    refine ⟨collected, sorted.imp_of_mem ?_⟩
    intro a b memberA memberB notAfter
    rwa [agree a (collected.mem_iff.mp memberA) b (collected.mem_iff.mp memberB)]

/-- Sorting entries that the order tells apart arranges them strictly. -/
theorem pairwise_lt_mergeSort (agree : ∀ a ∈ entries, ∀ b ∈ entries, cmp a b = lawful a b)
    (apart : ∀ a ∈ entries, ∀ b ∈ entries, lawful a b = .eq → a = b) (nodup : entries.Nodup) :
    (entries.mergeSort fun a b => cmp a b != .gt).Pairwise fun a b => lawful a b = .lt := by
  have collected := List.mergeSort_perm entries fun a b => cmp a b != .gt
  have different : (entries.mergeSort fun a b => cmp a b != .gt).Pairwise (· ≠ ·) :=
    collected.nodup_iff.mpr nodup
  refine ((pairwise_mergeSort_of_agree lawful agree).and different).imp_of_mem ?_
  rintro a b memberA memberB ⟨notAfter, other⟩
  cases order : lawful a b with
  | lt => rfl
  | eq =>
    exact absurd (apart a (collected.mem_iff.mp memberA) b (collected.mem_iff.mp memberB) order)
      other
  | gt => exact absurd order notAfter

end

end CapLiveness
