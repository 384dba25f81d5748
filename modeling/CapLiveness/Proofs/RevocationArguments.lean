import CapLiveness.Proofs.Checked.Lookup
import CapLiveness.Proofs.EnumerationIndex
import CapLiveness.Proofs.PlanOrder

/-!
# The arguments of revocation calls

A revocation call is given the number of kinds that it revokes and then these kinds. The
number is a population count, and the kinds are found bit by bit; that both describe one set
is what the calls rely on. The arguments are read back by leaving out the number and taking
the others as kinds of the enumeration (`Insertion.setOf_arguments`). That needs the bound on
what an analysis computes: no drop set holds a number that is no kind of the program
(`Plan.IsDue.subset_all`).

A written plan lists the names of the kinds beside the arguments. Both are read from the
written form by functions of their own (`Text.Json.kindsByName?`,
`Text.Json.kindsByArguments?`), and both give the set of the call. Writing a plan takes texts
by their bytes and numbers as doubles, so it fails on bytes that are no text and on numbers
that a double would round (`Plan.encode?`). Names are texts and arguments are small, and so
it never does (`Plan.encode?_eq`).
-/

set_option autoImplicit false

namespace CapLiveness

/-! ## Sets and their members -/

/-- A visitor that never stops has seen every member in the end. -/
theorem visitList_collect (ks seen : List Nat) :
    visitList (fun seen k => (seen ++ [k], true)) ks seen = (seen ++ ks, true) := by
  induction ks generalizing seen with
  | nil => simp [visitList]
  | cons k rest ih =>
    show visitList _ rest (seen ++ [k]) = _
    rw [ih, List.append_assoc, List.singleton_append]

namespace CapSet

variable {s t : CapSet}

theorem kinds_inj : s.kinds = t.kinds ↔ s = t := by
  refine ⟨fun same => ext_mem fun k => ?_, congrArg kinds⟩
  rw [← mem_kinds, ← mem_kinds, same]

theorem count_pos (nonempty : s.isEmpty = false) : 1 ≤ s.count := by
  obtain ⟨k, member⟩ := exists_mem_of_isEmpty nonempty
  rw [count_eq_length_kinds]
  exact List.length_pos_of_mem (mem_kinds.mpr member)

/-- The members of a set of kinds make the set. -/
theorem setOf_kinds {e : Enumeration} (subset : s ⊆ e.all) :
    e.setOf (s.kinds.map Int.ofNat) = .ok s := by
  refine Enumeration.setOf_eq_ok_iff.mpr ⟨?_, ext_mem fun k => ?_⟩
  · intro k listed
    obtain ⟨n, member, rfl⟩ := List.mem_map.mp listed
    have bound := Enumeration.lt_of_mem_all (subset n (mem_kinds.mp member))
    exact ⟨Int.natCast_nonneg n, Int.ofNat_lt.mpr bound⟩
  · simp only [mem_foldl_union, not_mem_empty, false_or, List.mem_map, mem_kinds]
    constructor
    · rintro ⟨_, ⟨n, member, rfl⟩, same⟩
      exact (mem_singleton.mp same).1 ▸ member
    · intro member
      exact ⟨Int.ofNat k, ⟨k, member, rfl⟩, mem_singleton.mpr ⟨rfl, lt_of_mem member⟩⟩

end CapSet

namespace Insertion

theorem arguments_inj {i j : Insertion} : i.arguments = j.arguments ↔ i.kinds = j.kinds := by
  constructor
  · intro same
    exact CapSet.kinds_inj.mp (List.cons.inj same).2
  · intro same
    rw [arguments, arguments, same]

theorem le_of_mem_arguments (i : Insertion) {n : Nat} (listed : n ∈ i.arguments) :
    n ≤ maxKinds := by
  rcases List.mem_cons.mp listed with rfl | isKind
  · exact i.kinds.count_le
  · exact Nat.le_of_lt (CapSet.lt_of_mem (CapSet.mem_kinds.mp isKind))

/-- **Arguments are read back** by leaving out the first. -/
theorem setOf_arguments {i : Insertion} {e : Enumeration} (subset : i.kinds ⊆ e.all) :
    e.setOf (i.arguments.tail.map Int.ofNat) = .ok i.kinds :=
  CapSet.setOf_kinds subset

/-- The arguments are the population count of the two words of the set, and then what a visit
hands out, bit by bit. -/
theorem arguments_eq_visit (i : Insertion) :
    i.arguments = (i.kinds.visit (fun seen k => (seen ++ [k], true))
      [(i.kinds.word 0).cpop.toNat + (i.kinds.word 1).cpop.toNat]).1 := by
  rw [CapSet.visit_eq, visitList_collect]
  rfl

end Insertion

/-- A call that is due revokes kinds of the program. -/
theorem Plan.IsDue.subset_all {r : Result} {p : Program} (drops : r.HasDrops p)
    {options : PlanOptions} {i : Insertion} (due : IsDue r options i) :
    i.kinds ⊆ p.enumeration.all := by
  intro k member
  rw [due.kinds] at member
  exact drops.subset_all _ _ k (options.subset_part _ k member)

/-! ## Written plans -/

namespace Text.Json

/-- The value of a text that is given by its bytes, if they are UTF-8. -/
def ofBytes? (bytes : ByteArray) : Option Json := (String.fromUTF8? bytes).map .text

/-- The value of a number, if doubles hold all numbers up to it. -/
def ofNat? (n : Nat) : Option Json :=
  if n ≤ 1 <<< 53 then some (.number (Int.ofNat n)) else none

theorem ofBytes?_toUTF8 (text : String) : ofBytes? text.toUTF8 = some (.text text) := by
  unfold ofBytes? String.fromUTF8?
  rw [String.toUTF8_eq_toByteArray, dif_pos text.isValidUTF8]
  rfl

/-- The member of an object with a key. -/
def member? (key : String) : Json → Option Json
  | .object members => members.lookup key
  | _ => none

/-- The elements of an array. -/
def elements? : Json → Option (List Json)
  | .array elements => some elements
  | _ => none

/-- The text that a value is. -/
def text? : Json → Option String
  | .text value => some value
  | _ => none

/-- The number that a value is. -/
def number? : Json → Option Int
  | .number value => some value
  | _ => none

/-- The set that a written call names. -/
def kindsByName? (e : Enumeration) (call : Json) : Option CapSet := do
  let listed ← call.member? "capabilities"
  let names ← (← listed.elements?).mapM text?
  (e.named names).toOption

/-- The set that a written call has as its arguments. -/
def kindsByArguments? (e : Enumeration) (call : Json) : Option CapSet := do
  let listed ← call.member? "args"
  let arguments ← (← listed.elements?).mapM number?
  (e.setOf arguments.tail).toOption

theorem text?_text (value : String) : (Json.text value).text? = some value := rfl

theorem number?_ofNat (n : Nat) : (Json.number (Int.ofNat n)).number? = some (Int.ofNat n) := rfl

/-- Values that are written one by one are read one by one. -/
theorem mapM_map_eq_some {α β : Type} {write : α → Json} {read : Json → Option β} {value : α → β}
    (reads : ∀ a, read (write a) = some (value a)) (written : List α) :
    (written.map write).mapM read = some (written.map value) := by
  rw [List.mapM_map]
  exact Checked.mapM_eq_some fun a _ => reads a

end Text.Json

namespace Plan

open Text

/-- A call as a JSON value, if all its texts and numbers have one. -/
def encodeCall? (p : Plan) (i : Insertion) : Option Json := do
  let position ← Json.ofBytes? i.position.text.toUTF8
  let function ← Json.ofBytes? (p.program.functionName i.function).toUTF8
  let block ← Json.ofBytes? (p.program.blockName i.block).toUTF8
  let names ← (p.program.enumeration.namesOf i.kinds).mapM (Json.ofBytes? ·.toUTF8)
  let arguments ← i.arguments.mapM Json.ofNat?
  return .object [("position", position), ("function", function), ("block", block),
    ("capabilities", .array names), ("args", .array arguments)]

/-- The plan as a JSON value, if all its texts and numbers have one. -/
def encode? (p : Plan) : Option Json := do
  let primitive ← Json.ofBytes? p.primitive.toUTF8
  let calls ← p.insertions.mapM p.encodeCall?
  return .object [("primitive", primitive), ("insertions", .array calls)]

variable {plan : Plan} {i : Insertion}

theorem encodeCall?_eq : plan.encodeCall? i = some (plan.insertionJson i) := by
  have names : (plan.program.enumeration.namesOf i.kinds).mapM (Json.ofBytes? ·.toUTF8) =
      some ((plan.program.enumeration.namesOf i.kinds).map .text) :=
    Checked.mapM_eq_some fun name _ => Json.ofBytes?_toUTF8 name
  have arguments : i.arguments.mapM Json.ofNat? =
      some (i.arguments.map fun n => .number (Int.ofNat n)) :=
    Checked.mapM_eq_some fun n listed =>
      if_pos (Nat.le_trans (i.le_of_mem_arguments listed) (by decide))
  rw [encodeCall?, names, arguments]
  simp only [Json.ofBytes?_toUTF8, Option.bind_eq_bind, Option.bind_some]
  rfl

/-- **Every plan can be written.** -/
theorem encode?_eq : plan.encode? = some plan.json := by
  have calls : plan.insertions.mapM plan.encodeCall? =
      some (plan.insertions.map plan.insertionJson) :=
    Checked.mapM_eq_some fun _ _ => encodeCall?_eq
  simp only [encode?, Json.ofBytes?_toUTF8, calls, Option.bind_eq_bind, Option.bind_some]
  rfl

/-- The names beside a written call name its set. -/
theorem kindsByName?_insertionJson (subset : i.kinds ⊆ plan.program.enumeration.all) :
    (plan.insertionJson i).kindsByName? plan.program.enumeration = some i.kinds := by
  have named := Enumeration.named_of_names subset fun _ => Enumeration.mem_namesOf
  show ((plan.program.enumeration.namesOf i.kinds).map Json.text).mapM Json.text? >>= _ = _
  rw [Json.mapM_map_eq_some Json.text?_text, Option.bind_eq_bind, Option.bind_some, List.map_id',
    named]
  rfl

/-- The arguments of a written call are those of the call. -/
theorem kindsByArguments?_insertionJson (subset : i.kinds ⊆ plan.program.enumeration.all) :
    (plan.insertionJson i).kindsByArguments? plan.program.enumeration = some i.kinds := by
  show (i.arguments.map fun n => Json.number (Int.ofNat n)).mapM Json.number? >>= _ = _
  rw [Json.mapM_map_eq_some Json.number?_ofNat, Option.bind_eq_bind, Option.bind_some,
    ← List.map_tail, Insertion.setOf_arguments subset]
  rfl

end Plan

/-- **The arguments of revocation calls encode their sets without loss.** For every call of
every plan of an analysed program, the arguments are the number of kinds, at least one, and
then the kinds of the call in increasing order, which are kinds of the program and are read
back as the set. Calls have the same arguments if and only if they have the same set. The plan
can be written, and in the written plan, whose calls are in the same order, names and
arguments are both read back as the sets of the calls. -/
theorem arguments_lossless {p : Program} {config : Config} {r : Result}
    (analyzed : (p.analyze config).outcome = .ok r) (options : PlanOptions) :
    (∀ i ∈ (Plan.ofResult r options).insertions,
      (∃ n kinds, i.arguments = n :: kinds ∧ kinds.length = n ∧ 1 ≤ n ∧ n = i.kinds.count ∧
        kinds.Pairwise (· < ·) ∧ (∀ k ∈ kinds, k < p.enumeration.size) ∧
        p.enumeration.setOf (kinds.map Int.ofNat) = .ok i.kinds) ∧
      i.arguments = (i.kinds.visit (fun seen k => (seen ++ [k], true))
        [(i.kinds.word 0).cpop.toNat + (i.kinds.word 1).cpop.toNat]).1 ∧
      ∀ j : Insertion, i.arguments = j.arguments ↔ i.kinds = j.kinds) ∧
    (∃ written, (Plan.ofResult r options).encode? = some (Plan.ofResult r options).json ∧
      (Plan.ofResult r options).json.member? "insertions" = some (.array written) ∧
      written.map (·.kindsByName? p.enumeration) =
        (Plan.ofResult r options).insertions.map (some ·.kinds) ∧
      written.map (·.kindsByArguments? p.enumeration) =
        (Plan.ofResult r options).insertions.map (some ·.kinds)) := by
  have drops : r.HasDrops p := Program.hasDrops_of_outcome analyzed
  have due : ∀ i ∈ (Plan.ofResult r options).insertions, Plan.IsDue r options i := fun i member =>
    ((drops.isCanonical_insertions options).mem_iff i).mp member
  have program : (Plan.ofResult r options).program = p := drops.program
  constructor
  · intro i member
    have subset := (due i member).subset_all drops
    have positive := CapSet.count_pos (due i member).nonempty
    refine ⟨⟨_, _, rfl, i.kinds.count_eq_length_kinds.symm, positive, rfl, i.kinds.pairwise_kinds,
      fun k listed => ?_, CapSet.setOf_kinds subset⟩, i.arguments_eq_visit,
      fun j => Insertion.arguments_inj⟩
    exact Enumeration.lt_of_mem_all (subset k (CapSet.mem_kinds.mp listed))
  · refine ⟨_, Plan.encode?_eq, rfl, ?_, ?_⟩
    · rw [List.map_map]
      refine List.map_congr_left fun i member => ?_
      have subset := (due i member).subset_all drops
      rw [← program] at subset ⊢
      exact Plan.kindsByName?_insertionJson subset
    · rw [List.map_map]
      refine List.map_congr_left fun i member => ?_
      have subset := (due i member).subset_all drops
      rw [← program] at subset ⊢
      exact Plan.kindsByArguments?_insertionJson subset

/-- In the sample program kind 1 can be revoked after the raise in block 3; the call for it has
one kind and the arguments `[1, 1]`. -/
theorem arguments_lossless_sample :
    ∃ r, (sampleProgram.analyze sampleConfig).outcome = .ok r ∧
      (∃ i ∈ (Plan.ofResult r ⟨"revoke", some (CapSet.singleton 1)⟩).insertions,
        i.block = 3 ∧ i.arguments = [1, 1] ∧
          sampleProgram.enumeration.setOf [1] = .ok i.kinds) ∧
      ∃ written,
        (Plan.ofResult r ⟨"revoke", some (CapSet.singleton 1)⟩).json.member? "insertions" =
          some (.array written) ∧
        written.map (·.kindsByName? sampleProgram.enumeration) =
          (Plan.ofResult r ⟨"revoke", some (CapSet.singleton 1)⟩).insertions.map
            (some ·.kinds) := by
  obtain ⟨r, analyzed, notSkipped⟩ := sampleProgram_analyzed
  have solved := Program.isSolved_of_outcome analyzed notSkipped
  have drops := solved.hasDrops
  obtain ⟨calls, json⟩ := arguments_lossless analyzed ⟨"revoke", some (CapSet.singleton 1)⟩
  -- After block 3 the entry function only returns, and nobody calls it.
  have dead : ¬ sampleProgram.setting.Flows 1 ⟨.liveOut, 3⟩ := by
    refine Setting.not_flows_of_closed
      [⟨.liveOut, 3⟩, ⟨.liveOut, 4⟩, ⟨.liveIn, 4⟩, ⟨.returnLive, 0⟩] ?_ List.mem_cons_self
    decide +kernel
  have dropped : 1 ∈ r.dropEnd.get 3 := by
    refine (solved.mem_dropEnd_iff (b := 3) rfl).mpr ⟨by decide +kernel, ?_, ?_⟩
    · exact .own (by decide +kernel) (by decide +kernel)
    · exact dead
  have part : CapSet.singleton 1 = r.dropEnd.get 3 ∩ CapSet.singleton 1 := by
    refine CapSet.ext_mem fun k => ?_
    rw [CapSet.mem_inter, CapSet.mem_singleton]
    constructor
    · rintro ⟨rfl, small⟩
      exact ⟨dropped, rfl, small⟩
    · exact And.right
  have member : (⟨.blockEnd, 0, 3, CapSet.singleton 1⟩ : Insertion) ∈
      (Plan.ofResult r ⟨"revoke", some (CapSet.singleton 1)⟩).insertions := by
    refine ((drops.isCanonical_insertions _).mem_iff _).mpr ⟨part, rfl, ?_⟩
    rw [drops.program]
    rfl
  obtain ⟨⟨n, kinds, same, _, _, _, _, _, decoded⟩, _⟩ := calls _ member
  obtain ⟨written, _, isWritten, named, _⟩ := json
  refine ⟨r, analyzed, ⟨_, member, rfl, by decide +kernel, ?_⟩, written, isWritten, named⟩
  have listed : kinds = [1] := by
    have arguments : (⟨.blockEnd, 0, 3, CapSet.singleton 1⟩ : Insertion).arguments = [1, 1] := by
      decide +kernel
    exact (List.cons.inj (same.symm.trans arguments)).2
  rw [listed] at decoded
  exact decoded

end CapLiveness
