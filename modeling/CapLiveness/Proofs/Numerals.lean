import CapLiveness.Text.Integer

/-!
# Decimal numerals

A decimal numeral is an optional sign and at least one digit. Reading in base ten stops as
soon as a prefix of the digits exceeds a limit. That makes no difference to what is read,
because numbers only grow with further digits (`le_valueFrom`): a text is read exactly when
it is a numeral whose number fits 64 bits (`Integer.parseSigned_eq_ok_iff`).
-/

set_option autoImplicit false

namespace CapLiveness

theorem map_eq_ok_iff {α β ε : Type} {outcome : Except ε α} {f : α → β} {b : β} :
    outcome.map f = .ok b ↔ ∃ a, outcome = .ok a ∧ f a = b := by
  cases outcome <;> simp [Except.map]

namespace Text

/-- A digit of base ten. -/
def IsDecimalDigit (c : Char) : Prop := '0' ≤ c ∧ c ≤ '9'

/-- The number that digits write after a number that is already read. -/
def valueFrom (n : Nat) (digits : List Char) : Nat :=
  digits.foldl (fun n c => n * 10 + (c.toNat - '0'.toNat)) n

/-- The digits of an unsigned numeral. -/
def IsDigits (digits : List Char) : Prop := digits ≠ [] ∧ ∀ c ∈ digits, IsDecimalDigit c

/-- **The texts that write a number.** -/
inductive Writes : List Char → Int → Prop where
  | unsigned {digits : List Char} (isDigits : IsDigits digits) :
      Writes digits (Int.ofNat (valueFrom 0 digits))
  | plus {digits : List Char} (isDigits : IsDigits digits) :
      Writes ('+' :: digits) (Int.ofNat (valueFrom 0 digits))
  | minus {digits : List Char} (isDigits : IsDigits digits) :
      Writes ('-' :: digits) (-Int.ofNat (valueFrom 0 digits))

/-- The signed numbers of 64 bits. -/
def FitsWord (value : Int) : Prop := -9223372036854775808 ≤ value ∧ value ≤ 9223372036854775807

theorem fitsWord_ofNat {n : Nat} : FitsWord (Int.ofNat n) ↔ n ≤ 9223372036854775807 := by
  show (-9223372036854775808 ≤ (n : Int) ∧ (n : Int) ≤ 9223372036854775807) ↔ _
  omega

theorem fitsWord_neg_ofNat {n : Nat} : FitsWord (-Int.ofNat n) ↔ n ≤ 9223372036854775808 := by
  show (-9223372036854775808 ≤ -(n : Int) ∧ -(n : Int) ≤ 9223372036854775807) ↔ _
  omega

theorem Writes.of_minus {digits : List Char} {value : Int} (writes : Writes ('-' :: digits) value) :
    IsDigits digits ∧ value = -Int.ofNat (valueFrom 0 digits) := by
  cases writes with
  | unsigned isDigits =>
    have first : IsDecimalDigit '-' := isDigits.2 _ List.mem_cons_self
    exact absurd first (by unfold IsDecimalDigit; decide)
  | minus isDigits => exact ⟨isDigits, rfl⟩

theorem Writes.of_plus {digits : List Char} {value : Int} (writes : Writes ('+' :: digits) value) :
    IsDigits digits ∧ value = Int.ofNat (valueFrom 0 digits) := by
  cases writes with
  | unsigned isDigits =>
    have first : IsDecimalDigit '+' := isDigits.2 _ List.mem_cons_self
    exact absurd first (by unfold IsDecimalDigit; decide)
  | plus isDigits => exact ⟨isDigits, rfl⟩

theorem le_valueFrom (n : Nat) (digits : List Char) : n ≤ valueFrom n digits := by
  induction digits generalizing n with
  | nil => exact Nat.le_refl n
  | cons c rest ih =>
    calc n
      _ ≤ n * 10 + (c.toNat - '0'.toNat) := by omega
      _ ≤ valueFrom (n * 10 + (c.toNat - '0'.toNat)) rest := ih _

theorem IsDecimalDigit.small {c : Char} (isDigit : IsDecimalDigit c) :
    c.toNat - '0'.toNat < 10 := by
  have le : c.toNat ≤ 57 := isDigit.2
  show c.toNat - 48 < 10
  omega

namespace Integer

theorem digit?_of_isDecimalDigit {c : Char} (isDigit : IsDecimalDigit c) :
    digit? c = some (c.toNat - '0'.toNat) :=
  if_pos isDigit

/-- Letters are digits from ten on. -/
theorem isDecimalDigit_of_digit? {c : Char} {d : Nat} (read : digit? c = some d)
    (small : d < 10) : IsDecimalDigit c := by
  unfold digit? at read
  split at read
  case isTrue isDigit => exact isDigit
  case isFalse =>
    split at read
    · obtain rfl := Option.some.inj read
      omega
    · split at read
      · obtain rfl := Option.some.inj read
        omega
      · cases read

theorem addDigits_cons_of_not_digit {limit n : Nat} {c : Char} {rest : List Char}
    (noDigit : ¬ IsDecimalDigit c) :
    addDigits limit 10 false n (c :: rest) = .error .malformed := by
  unfold addDigits
  rw [if_neg (by simp)]
  cases read : digit? c with
  | none => rfl
  | some d =>
    have letter : 10 ≤ d := Nat.le_of_not_lt fun small =>
      noDigit (isDecimalDigit_of_digit? read small)
    exact if_pos letter

theorem addDigits_cons_of_digit {limit n : Nat} {c : Char} {rest : List Char}
    (isDigit : IsDecimalDigit c) :
    addDigits limit 10 false n (c :: rest) =
      if limit < n * 10 + (c.toNat - '0'.toNat) then .error .tooLarge
      else addDigits limit 10 false (n * 10 + (c.toNat - '0'.toNat)) rest := by
  rw [addDigits, if_neg (by simp), digit?_of_isDecimalDigit isDigit]
  exact if_neg (Nat.not_le.mpr isDigit.small)

/-- **Digits are read as long as their number stays within the limit.** -/
theorem addDigits_eq_ok_iff {limit n m : Nat} {digits : List Char} (within : n ≤ limit) :
    addDigits limit 10 false n digits = .ok m ↔
      (∀ c ∈ digits, IsDecimalDigit c) ∧ valueFrom n digits = m ∧ m ≤ limit := by
  induction digits generalizing n with
  | nil =>
    constructor
    · intro read
      obtain rfl := Except.ok.inj read
      exact ⟨fun _ member => absurd member List.not_mem_nil, rfl, within⟩
    · rintro ⟨_, rfl, _⟩
      rfl
  | cons c rest ih =>
    rw [List.forall_mem_cons]
    by_cases isDigit : IsDecimalDigit c
    · rw [addDigits_cons_of_digit isDigit]
      split
      case isTrue large =>
        -- Further digits do not make the number smaller.
        have grows := le_valueFrom (n * 10 + (c.toNat - '0'.toNat)) rest
        constructor
        · intro failed
          cases failed
        · rintro ⟨_, rfl, fits⟩
          exact absurd (Nat.lt_of_lt_of_le large (Nat.le_trans grows fits)) (Nat.lt_irrefl _)
      case isFalse small =>
        rw [ih (Nat.le_of_not_lt small)]
        exact and_congr_left fun _ => (and_iff_right isDigit).symm
    · rw [addDigits_cons_of_not_digit isDigit]
      constructor
      · intro failed
        cases failed
      · rintro ⟨⟨digit, _⟩, _⟩
        exact absurd digit isDigit

theorem parseMagnitude_eq_ok_iff {limit m : Nat} {text : List Char} (small : limit ≤ maxUnsigned) :
    parseMagnitude (.fixed 10) text limit = .ok m ↔
      IsDigits text ∧ valueFrom 0 text = m ∧ m ≤ limit := by
  have unsigned : ∀ n, parseUnsigned (.fixed 10) text = .ok n ↔
      IsDigits text ∧ valueFrom 0 text = n ∧ n ≤ maxUnsigned := by
    intro n
    cases text with
    | nil =>
      constructor
      · intro failed
        cases failed
      · rintro ⟨⟨nonempty, _⟩, _⟩
        exact absurd rfl nonempty
    | cons c rest =>
      have digits : addDigits maxUnsigned 10 false 0 (c :: rest) = .ok n ↔ _ :=
        addDigits_eq_ok_iff (Nat.zero_le maxUnsigned)
      exact digits.trans (and_congr_left fun _ => (and_iff_right (List.cons_ne_nil c rest)).symm)
  unfold parseMagnitude
  cases read : parseUnsigned (.fixed 10) text with
  | error fault =>
    constructor
    · intro failed
      cases failed
    · rintro ⟨isDigits, value, fits⟩
      rw [(unsigned m).mpr ⟨isDigits, value, Nat.le_trans fits small⟩] at read
      cases read
  | ok n =>
    obtain ⟨isDigits, value, _⟩ := (unsigned n).mp read
    show (if limit < n then Except.error IntegerFault.tooLarge else .ok n) = .ok m ↔ _
    split
    case isTrue large =>
      constructor
      · intro failed
        cases failed
      · rintro ⟨_, same, fits⟩
        omega
    case isFalse fits =>
      constructor
      · intro same
        obtain rfl := Except.ok.inj same
        exact ⟨isDigits, value, Nat.le_of_not_lt fits⟩
      · rintro ⟨_, same, _⟩
        rw [← value, same]

/-- **A text is read in base ten exactly when it writes a number of 64 bits.** -/
theorem parseSigned_eq_ok_iff {text : List Char} {value : Int} :
    parseSigned (.fixed 10) text = .ok value ↔ Writes text value ∧ FitsWord value := by
  have lower : (1 <<< 63 : Nat) = 9223372036854775808 := rfl
  have upper : (1 <<< 63 : Nat) - 1 = 9223372036854775807 := rfl
  have large : maxUnsigned = 18446744073709551615 := rfl
  have positive : ∀ digits, (parseMagnitude (.fixed 10) digits ((1 <<< 63) - 1)).map Int.ofNat =
      .ok value ↔ (IsDigits digits ∧ value = Int.ofNat (valueFrom 0 digits)) ∧ FitsWord value := by
    intro digits
    rw [map_eq_ok_iff, upper]
    constructor
    · rintro ⟨m, read, rfl⟩
      obtain ⟨isDigits, rfl, fits⟩ := (parseMagnitude_eq_ok_iff (by omega)).mp read
      exact ⟨⟨isDigits, rfl⟩, fitsWord_ofNat.mpr fits⟩
    · rintro ⟨⟨isDigits, rfl⟩, fits⟩
      exact ⟨_, (parseMagnitude_eq_ok_iff (by omega)).mpr
        ⟨isDigits, rfl, fitsWord_ofNat.mp fits⟩, rfl⟩
  unfold parseSigned
  split
  case h_1 digits =>
    rw [map_eq_ok_iff, lower]
    constructor
    · rintro ⟨m, read, rfl⟩
      obtain ⟨isDigits, rfl, fits⟩ := (parseMagnitude_eq_ok_iff (by omega)).mp read
      exact ⟨.minus isDigits, fitsWord_neg_ofNat.mpr fits⟩
    · rintro ⟨writes, fits⟩
      obtain ⟨isDigits, rfl⟩ := writes.of_minus
      exact ⟨_, (parseMagnitude_eq_ok_iff (by omega)).mpr
        ⟨isDigits, rfl, fitsWord_neg_ofNat.mp fits⟩, rfl⟩
  case h_2 digits =>
    rw [positive digits]
    refine and_congr_left fun _ => ⟨?_, Writes.of_plus⟩
    rintro ⟨isDigits, rfl⟩
    exact .plus isDigits
  case h_3 noMinus noPlus =>
    rw [positive text]
    refine and_congr_left fun _ => ⟨?_, ?_⟩
    · rintro ⟨isDigits, rfl⟩
      exact .unsigned isDigits
    · intro writes
      cases writes with
      | unsigned isDigits => exact ⟨isDigits, rfl⟩
      | plus => exact absurd rfl (noPlus _)
      | minus => exact absurd rfl (noMinus _)

end Integer

end Text

end CapLiveness
