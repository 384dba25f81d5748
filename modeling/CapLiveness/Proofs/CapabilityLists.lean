import CapLiveness.Proofs.EnumerationIndex

/-!
# Lists of capabilities

A comma-separated list is read element by element. All elements start with a minus sign or
none does; a list of the first kind selects every kind but the listed ones. What a list says
is described here without the reader (`Enumeration.Reads`): its elements are the texts
between the commas (`IsSplit`), and behind the sign each of them is a name that is not empty
and known.

The elements of a list are unique, because joining texts without commas and cutting them
apart again gives them back (`Text.pieces_joined`). So a list says one thing at most, and it
is read if and only if it says something (`Enumeration.isOk_parse_iff`). Writing the names
of a set, with signs or without, and reading them is then the case where every name says its
own kind (`reads_of_names`).
-/

set_option autoImplicit false

namespace CapLiveness

/-! ## Cutting and joining -/

namespace Text

variable {separator : Char}

theorem pieces_of_not_mem {piece : List Char} (plain : separator ∉ piece) :
    pieces separator piece = [piece] := by
  induction piece with
  | nil => rfl
  | cons c rest ih =>
    obtain ⟨different, plainRest⟩ := not_or.mp (mt List.mem_cons.mpr plain)
    rw [pieces, if_neg (Ne.symm different), ih plainRest]

theorem pieces_append {piece : List Char} (plain : separator ∉ piece) (rest : List Char) :
    pieces separator (piece ++ separator :: rest) = piece :: pieces separator rest := by
  induction piece with
  | nil => simp [pieces]
  | cons c more ih =>
    obtain ⟨different, plainMore⟩ := not_or.mp (mt List.mem_cons.mpr plain)
    rw [List.cons_append, pieces, if_neg (Ne.symm different), ih plainMore]

/-- **Joining texts without the separator loses nothing.** -/
theorem pieces_joined {elements : List (List Char)} (nonempty : elements ≠ [])
    (plain : ∀ element ∈ elements, separator ∉ element) :
    pieces separator (joined separator elements) = elements := by
  induction elements with
  | nil => exact absurd rfl nonempty
  | cons first rest ih =>
    obtain ⟨plainFirst, plainRest⟩ := List.forall_mem_cons.mp plain
    cases rest with
    | nil => exact pieces_of_not_mem plainFirst
    | cons second others =>
      rw [joined, pieces_append plainFirst, ih (List.cons_ne_nil _ _) plainRest]

theorem joined_eq_intercalate (elements : List (List Char)) :
    joined separator elements = [separator].intercalate elements := by
  induction elements with
  | nil => rfl
  | cons first rest ih =>
    cases rest with
    | nil => simp [joined]
    | cons second others => rw [joined, ih, List.intercalate_cons_cons]; simp

end Text

/-- Whether some texts are the elements of a comma-separated list. -/
structure IsSplit (list : String) (elements : List String) : Prop where
  nonempty : elements ≠ []
  plain : ∀ element ∈ elements, ',' ∉ element.toList
  joined : ",".intercalate elements = list

/-- **A list has exactly one series of elements**: its pieces. -/
theorem isSplit_iff {list : String} {elements : List String} :
    IsSplit list elements ↔ elements.map String.toList = Text.pieces ',' list.toList := by
  have joined : (",".intercalate elements).toList =
      Text.joined ',' (elements.map String.toList) := by
    rw [String.toList_intercalate, Text.joined_eq_intercalate]
    rfl
  constructor
  · rintro ⟨nonempty, plain, rfl⟩
    rw [joined, Text.pieces_joined (by simpa using nonempty)]
    intro piece member
    obtain ⟨element, listed, rfl⟩ := List.mem_map.mp member
    exact plain element listed
  · intro isPieces
    refine ⟨?_, ?_, ?_⟩
    · rintro rfl
      exact Text.pieces_ne_nil _ _ isPieces.symm
    · intro element listed
      have piece : element.toList ∈ Text.pieces ',' list.toList :=
        isPieces ▸ List.mem_map_of_mem listed
      exact Text.not_mem_of_mem_pieces piece
    · rw [← String.toList_inj, joined, isPieces, Text.joined_pieces]

namespace Enumeration

variable {e : Enumeration} {list : String} {negated : Bool} {names : List String}

/-! ## What a list says -/

/-- A name as it stands in a list. -/
def written (negated : Bool) (name : String) : String := if negated then "-" ++ name else name

/-- Whether a list consists of some names, all of them with a minus sign in front or none,
that are not empty and known. -/
structure Reads (e : Enumeration) (list : String) (negated : Bool) (names : List String) :
    Prop where
  split : IsSplit list (names.map (written negated))
  unsigned : negated = false → ∀ name ∈ names, ∀ rest, name ≠ "-" ++ rest
  known : ∀ name ∈ names, name ≠ "" ∧ ∃ kind, e.lookup name = some kind

theorem isNegated_iff {text : String} :
    isNegated text.toList = true ↔ ∃ rest, text = "-" ++ rest := by
  rw [isNegated, beq_iff_eq]
  constructor
  · intro starts
    obtain ⟨rest, same⟩ := List.head?_eq_some_iff.mp starts
    refine ⟨String.ofList rest, String.toList_inj.mp ?_⟩
    simp [same]
  · rintro ⟨rest, rfl⟩
    rw [String.toList_append]
    rfl

/-! ## Reading one element -/

/-- The name that an element stands for. -/
def elementName (negated : Bool) (element : List Char) : String :=
  String.ofList (if negated then element.tail else element)

/-- Why an element cannot be read. -/
def elementFault? (e : Enumeration) (list : String) (negated : Bool) (element : List Char) :
    Option SelectionError :=
  if isNegated element != negated then some (.mixed list)
  else if elementName negated element = "" then some (.emptyElement list)
  else e.nameFault? (elementName negated element)

theorem addElement_eq (e : Enumeration) (list : String) (negated : Bool) (s : CapSet)
    (element : List Char) :
    e.addElement list negated s element = (e.elementFault? list negated element).elim
      (.ok (s ∪ e.kindNamed (elementName negated element))) .error := by
  have empty : (if negated then element.tail else element).isEmpty = true ↔
      elementName negated element = "" := by
    rw [List.isEmpty_iff, elementName, ← String.toList_inj, String.toList_ofList]
    rfl
  unfold addElement elementFault?
  by_cases mixed : (isNegated element != negated) = true
  · simp only [if_pos mixed]
    rfl
  · simp only [if_neg mixed]
    by_cases isEmpty : elementName negated element = ""
    · rw [if_pos (empty.mpr isEmpty), if_pos isEmpty]
      rfl
    · rw [if_neg (mt empty.mp isEmpty), if_neg isEmpty]
      exact addNamed_eq s _

theorem elementFault?_eq_none_iff {element : List Char} :
    e.elementFault? list negated element = none ↔
      isNegated element = negated ∧ elementName negated element ≠ "" ∧
        ∃ kind, e.lookup (elementName negated element) = some kind := by
  unfold elementFault?
  by_cases sign : isNegated element = negated
  · by_cases empty : elementName negated element = "" <;> simp [sign, empty, nameFault?_eq_none_iff]
  · simp [sign]

theorem elementName_written (negated : Bool) (name : String) :
    elementName negated (written negated name).toList = name := by
  cases negated with
  | false => simp [elementName, written]
  | true => simp [elementName, written]

theorem written_elementName {element : List Char} (sign : isNegated element = negated) :
    (written negated (elementName negated element)).toList = element := by
  cases negated with
  | false => simp [elementName, written]
  | true =>
    obtain ⟨rest, rfl⟩ := List.head?_eq_some_iff.mp (beq_iff_eq.mp sign)
    simp [elementName, written]

theorem isNegated_written {name : String}
    (unsigned : negated = false → ∀ rest, name ≠ "-" ++ rest) :
    isNegated (written negated name).toList = negated := by
  cases negated with
  | false =>
    rw [← Bool.not_eq_true, isNegated_iff]
    rintro ⟨rest, same⟩
    exact unsigned rfl rest same
  | true => exact isNegated_iff.mpr ⟨name, rfl⟩

/-! ## Reading a list -/

/-- The set of the kinds that the elements of a list stand for. -/
def listedKinds (e : Enumeration) (negated : Bool) (elements : List (List Char)) : CapSet :=
  elements.foldl (fun s element => s ∪ e.kindNamed (elementName negated element)) ∅

theorem parse_eq (nonempty : list ≠ "")
    (sign : isNegated ((Text.pieces ',' list.toList).headD []) = negated) :
    e.parse list = ((Text.pieces ',' list.toList).findSome? (e.elementFault? list negated)).elim
      (.ok (if negated then e.complement (e.listedKinds negated (Text.pieces ',' list.toList))
        else e.listedKinds negated (Text.pieces ',' list.toList))) .error := by
  have elements := foldlM_eq_findSome? (e.addElement_eq list negated)
    (Text.pieces ',' list.toList) ∅
  unfold parse
  rw [if_neg nonempty]
  simp only [sign, elements]
  cases (Text.pieces ',' list.toList).findSome? (e.elementFault? list negated) with
  | none => rfl
  | some problem => rfl

namespace Reads

variable (reads : e.Reads list negated names)
include reads

theorem pieces_eq :
    Text.pieces ',' list.toList = names.map fun name => (written negated name).toList := by
  rw [← isSplit_iff.mp reads.split, List.map_map]
  rfl

theorem sign_of_mem {element : List Char} (member : element ∈ Text.pieces ',' list.toList) :
    isNegated element = negated := by
  rw [reads.pieces_eq] at member
  obtain ⟨name, listed, rfl⟩ := List.mem_map.mp member
  exact isNegated_written fun plain => reads.unsigned plain name listed

theorem sign_headD : isNegated ((Text.pieces ',' list.toList).headD []) = negated := by
  cases split : Text.pieces ',' list.toList with
  | nil => exact absurd split (Text.pieces_ne_nil _ _)
  | cons first rest =>
    refine reads.sign_of_mem ?_
    rw [split]
    exact List.mem_cons_self

/-- The empty list has one element, which is empty and so not a name. -/
theorem list_ne_empty : list ≠ "" := by
  rintro rfl
  have single : names.map (fun name => (written negated name).toList) = [[]] := reads.pieces_eq.symm
  obtain ⟨name, rest, rfl, isEmpty, _⟩ := List.map_eq_cons_iff.mp single
  have sameName := elementName_written negated name
  rw [isEmpty] at sameName
  refine (reads.known name List.mem_cons_self).1 (sameName.symm.trans ?_)
  cases negated with
  | false => rfl
  | true => rfl

theorem elementFault?_eq_none {element : List Char}
    (member : element ∈ Text.pieces ',' list.toList) :
    e.elementFault? list negated element = none := by
  refine elementFault?_eq_none_iff.mpr ⟨reads.sign_of_mem member, ?_⟩
  rw [reads.pieces_eq] at member
  obtain ⟨name, listed, rfl⟩ := List.mem_map.mp member
  rw [elementName_written]
  exact reads.known name listed

/-- The kinds of a list are those that its names stand for. -/
theorem mem_listedKinds {k : Nat} :
    k ∈ e.listedKinds negated (Text.pieces ',' list.toList) ↔ ∃ n ∈ names, e.lookup n = some k := by
  rw [listedKinds, CapSet.mem_foldl_union, reads.pieces_eq]
  simp only [CapSet.not_mem_empty, false_or, List.mem_map, mem_kindNamed]
  constructor
  · rintro ⟨_, ⟨name, member, rfl⟩, found⟩
    rw [elementName_written] at found
    exact ⟨name, member, found⟩
  · rintro ⟨name, member, found⟩
    exact ⟨_, ⟨name, member, rfl⟩, by rwa [elementName_written]⟩

/-- **A list is read as what it says.** -/
theorem parse_eq_ok {s : CapSet} (members : ∀ k, k ∈ s ↔ ∃ n ∈ names, e.lookup n = some k) :
    e.parse list = .ok (if negated then e.complement s else s) := by
  have same : e.listedKinds negated (Text.pieces ',' list.toList) = s := CapSet.ext_mem fun k => by
    rw [reads.mem_listedKinds, members]
  rw [parse_eq reads.list_ne_empty reads.sign_headD, elim_eq_ok_iff, List.findSome?_eq_none_iff,
    same]
  exact ⟨fun element member => reads.elementFault?_eq_none member, rfl⟩

end Reads

/-- A list that is read says something. -/
theorem exists_reads {s : CapSet} (isSet : e.parse list = .ok s) (nonempty : list ≠ "") :
    ∃ negated names, e.Reads list negated names := by
  rw [parse_eq nonempty rfl, elim_eq_ok_iff, List.findSome?_eq_none_iff] at isSet
  generalize isNegated ((Text.pieces ',' list.toList).headD []) = negated at isSet
  have fits : ∀ element ∈ Text.pieces ',' list.toList, _ := fun element member =>
    elementFault?_eq_none_iff.mp (isSet.1 element member)
  refine ⟨negated, (Text.pieces ',' list.toList).map (elementName negated), ?_, ?_, ?_⟩
  · rw [isSplit_iff, List.map_map, List.map_map]
    refine (List.map_congr_left fun element member => ?_).trans (List.map_id _)
    exact written_elementName (fits element member).1
  · rintro rfl name member rest rfl
    obtain ⟨element, piece, same⟩ := List.mem_map.mp member
    have signed : isNegated (elementName false element).toList = true :=
      isNegated_iff.mpr ⟨rest, same⟩
    have unsigned := (fits element piece).1
    rw [elementName, String.toList_ofList, if_neg (by simp), unsigned] at signed
    cases signed
  · intro name member
    obtain ⟨element, piece, rfl⟩ := List.mem_map.mp member
    exact (fits element piece).2

/-- **A list is read if and only if it says something.** -/
theorem isOk_parse_iff :
    (∃ s, e.parse list = .ok s) ↔ list = "" ∨ ∃ negated names, e.Reads list negated names := by
  constructor
  · rintro ⟨s, isSet⟩
    by_cases empty : list = ""
    · exact .inl empty
    · exact .inr (exists_reads isSet empty)
  · rintro (rfl | ⟨negated, names, reads⟩)
    · exact ⟨e.all, rfl⟩
    · exact ⟨_, reads.parse_eq_ok fun _ => reads.mem_listedKinds⟩

/-! ## Reading what is written -/

theorem canonicalName_empty : canonicalName "" = "" := by decide +kernel

/-- The names of a set, with or without signs, say the set. -/
theorem reads_of_names (negated : Bool) {s : CapSet} (subset : s ⊆ e.all) (nonempty : s ≠ ∅)
    (plain : ∀ n ∈ e.names, ',' ∉ n.toList ∧ ∀ rest, n ≠ "-" ++ rest) :
    e.Reads (",".intercalate ((e.namesOf s).map (written negated))) negated (e.namesOf s) := by
  have isName : ∀ n ∈ e.namesOf s, n ∈ e.names ∧ ∃ kind, e.lookup n = some kind := by
    intro n member
    obtain ⟨k, inSet, rfl⟩ := mem_namesOf.mp member
    have bound := lt_of_mem_all (subset k inSet)
    exact ⟨List.mem_of_getElem? (exists_name bound), k, lookup_name bound⟩
  refine ⟨⟨?_, ?_, rfl⟩, ?_, ?_⟩
  · intro none
    refine nonempty (CapSet.isEmpty_iff.mp (CapSet.isEmpty_iff_forall.mpr fun k member => ?_))
    have listed : e.name (Int.ofNat k) ∈ e.namesOf s := mem_namesOf.mpr ⟨k, member, rfl⟩
    rw [List.map_eq_nil_iff.mp none] at listed
    cases listed
  · intro element member
    obtain ⟨n, listed, rfl⟩ := List.mem_map.mp member
    have noComma := (plain n (isName n listed).1).1
    cases negated with
    | false => exact noComma
    | true => simpa [written] using noComma
  · intro _ n listed
    exact (plain n (isName n listed).1).2
  · intro n listed
    refine ⟨?_, (isName n listed).2⟩
    rintro rfl
    exact e.indexed.nonempty _ (isName _ listed).1 canonicalName_empty

end Enumeration

/-- **Lists say exactly what they say, and reading undoes writing.** A list is read if it is
empty or consists of known, non-empty names, all with a minus sign in front or none. It
selects every kind, the kinds of the names, or those that are left when these are taken
away. Where no name has a comma in it or a sign in front, the names of a set other than the
empty one are read as the set, and with signs as its complement. -/
theorem lists_exact (e : Enumeration) :
    (∀ list, (∃ s, e.parse list = .ok s) ↔
      list = "" ∨ ∃ negated names, e.Reads list negated names) ∧
    e.parse "" = .ok e.all ∧
    (∀ list negated names, e.Reads list negated names →
      ∃ s, (∀ k, k ∈ s ↔ ∃ n ∈ names, e.lookup n = some k) ∧
        e.parse list = .ok (if negated then e.all \ s else s)) ∧
    ((∀ n ∈ e.names, ',' ∉ n.toList ∧ ∀ rest, n ≠ "-" ++ rest) →
      ∀ s ⊆ e.all, s ≠ ∅ → e.parse (e.format s) = .ok s ∧
        e.parse (",".intercalate ((e.namesOf s).map ("-" ++ ·))) = .ok (e.complement s)) := by
  refine ⟨fun list => Enumeration.isOk_parse_iff, rfl, ?_, ?_⟩
  · intro list negated names reads
    exact ⟨_, fun _ => reads.mem_listedKinds, reads.parse_eq_ok fun _ => reads.mem_listedKinds⟩
  · intro plain s subset nonempty
    have members := Enumeration.mem_iff_lookup subset fun _ => Enumeration.mem_namesOf
    have unsigned := Enumeration.reads_of_names false subset nonempty plain
    have signed := Enumeration.reads_of_names true subset nonempty plain
    refine ⟨?_, signed.parse_eq_ok members⟩
    have same : (e.namesOf s).map (Enumeration.written false) = e.namesOf s := List.map_id _
    rw [same] at unsigned
    exact unsigned.parse_eq_ok members

/-- Two Linux capabilities, spelled in two ways and with signs, select all others. A list with
one sign is not read. Written as a list, the two are read back. -/
theorem lists_exact_linux :
    (∃ s, (∀ k, k ∈ s ↔ k = 12 ∨ k = 5) ∧
        Enumeration.linux.parse "-net_admin,-CAP_KILL" = .ok (Enumeration.linux.all \ s)) ∧
      (¬ ∃ s, Enumeration.linux.parse "NET_ADMIN,-CHOWN" = .ok s) ∧
      Enumeration.linux.parse
        (Enumeration.linux.format ((CapSet.singleton 5).insert 12)) =
          .ok ((CapSet.singleton 5).insert 12) := by
  obtain ⟨isOk, _, selects, roundTrip⟩ := lists_exact Enumeration.linux
  have found : ∀ n k name, Enumeration.linux.names[k]? = some name →
      canonicalName n = canonicalName name → Enumeration.linux.lookup n = some k := by
    intro n k name listed same
    exact Enumeration.lookup_eq_some_iff.mpr ⟨name, listed, same⟩
  have netAdmin := found "net_admin" 12 "CAP_NET_ADMIN" rfl (by decide +kernel)
  have kill := found "CAP_KILL" 5 "CAP_KILL" rfl rfl
  refine ⟨?_, ?_, ?_⟩
  · have reads : Enumeration.linux.Reads "-net_admin,-CAP_KILL" true ["net_admin", "CAP_KILL"] := by
      refine ⟨isSplit_iff.mpr (by decide +kernel), fun unsigned => Bool.noConfusion unsigned, ?_⟩
      rw [List.forall_mem_cons, List.forall_mem_singleton]
      exact ⟨⟨by decide, 12, netAdmin⟩, by decide, 5, kill⟩
    obtain ⟨s, members, isSet⟩ := selects _ _ _ reads
    refine ⟨s, fun k => (members k).trans ?_, isSet⟩
    simp [netAdmin, kill, eq_comm]
  · rintro readable
    rcases (isOk _).mp readable with empty | ⟨negated, names, reads⟩
    · exact absurd empty (by decide)
    · have split : Text.pieces ',' "NET_ADMIN,-CHOWN".toList =
          ["NET_ADMIN".toList, "-CHOWN".toList] := by decide +kernel
      have first := reads.sign_of_mem (split ▸ List.mem_cons_self)
      have second := reads.sign_of_mem (split ▸ List.mem_cons_of_mem _ List.mem_cons_self)
      exact absurd (first.trans second.symm) (by decide)
  · have plain : ∀ n ∈ Enumeration.linux.names,
        ',' ∉ n.toList ∧ Enumeration.isNegated n.toList ≠ true := by decide +kernel
    refine (roundTrip ?_ _ (by decide +kernel) (by decide +kernel)).1
    intro n listed
    refine ⟨(plain n listed).1, fun rest signed => (plain n listed).2 ?_⟩
    exact Enumeration.isNegated_iff.mpr ⟨rest, signed⟩

end CapLiveness
