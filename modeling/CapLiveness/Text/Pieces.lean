/-!
# Texts cut at a separator

`pieces` cuts a text at every occurrence of a separator and `joined` puts the
separator back. Cutting loses nothing (`joined_pieces`), and no piece holds the
separator (`not_mem_of_mem_pieces`).
-/

set_option autoImplicit false

namespace CapLiveness.Text

/-- The pieces of a text between separators; a text without one is one piece. -/
def pieces (separator : Char) : List Char → List (List Char)
  | [] => [[]]
  | c :: rest =>
    if c = separator then [] :: pieces separator rest
    else match pieces separator rest with
      | [] => [[c]]
      | first :: others => (c :: first) :: others

/-- Pieces with the separator between them. -/
def joined (separator : Char) : List (List Char) → List Char
  | [] => []
  | [piece] => piece
  | piece :: next :: others => piece ++ separator :: joined separator (next :: others)

theorem pieces_ne_nil (separator : Char) (text : List Char) : pieces separator text ≠ [] := by
  cases text with
  | nil => simp [pieces]
  | cons c rest =>
    simp only [pieces]
    split
    · simp
    · split <;> simp

/-- Cutting a text and joining the pieces gives the text back. -/
theorem joined_pieces (separator : Char) (text : List Char) :
    joined separator (pieces separator text) = text := by
  induction text with
  | nil => rfl
  | cons c rest ih =>
    simp only [pieces]
    cases found : pieces separator rest with
    | nil => exact absurd found (pieces_ne_nil separator rest)
    | cons first others =>
      rw [found] at ih
      split
      case isTrue same => simp [joined, ih, same]
      case isFalse =>
        cases others with
        | nil => simpa [joined] using ih
        | cons next others => simpa [joined] using ih

/-- No piece holds the separator. -/
theorem not_mem_of_mem_pieces {separator : Char} {text piece : List Char}
    (h : piece ∈ pieces separator text) : separator ∉ piece := by
  induction text generalizing piece with
  | nil => simp_all [pieces]
  | cons c rest ih =>
    simp only [pieces] at h
    cases found : pieces separator rest with
    | nil => exact absurd found (pieces_ne_nil separator rest)
    | cons first others =>
      rw [found] at h ih
      split at h
      case isTrue =>
        rcases List.mem_cons.mp h with rfl | h
        · simp
        · exact ih h
      case isFalse different =>
        rcases List.mem_cons.mp h with rfl | h
        · simp only [List.mem_cons, not_or]
          exact ⟨fun same => different same.symm, ih (List.mem_cons_self ..)⟩
        · exact ih (List.mem_cons_of_mem _ h)

end CapLiveness.Text
