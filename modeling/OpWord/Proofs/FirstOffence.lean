import OpWord.Proofs.StrictAssembly

/-!
# The first offence

A line that is shaped like an instruction can be wrong in several ways at once, and one of them is
reported.  This module says which (`ofLine_reports_first_offence`):

1. that the name is unknown, whatever the operands are;
2. that there are too many operands, whatever their values are;
3. the first operand, in the order of the slots, that its slot refuses.

If nothing of this is wrong, there is an instruction.  What a slot refuses is said by the limits of
its values (`Layout.limits?`), and only of operands that are written.

Assembly looks at the operands that are written, one after another, and goes on only if the
operand is admitted.  So the fault that it ends with belongs to a slot before which all others were
passed (`admittedAll_eq_error_iff`).  An operand that is left out is not looked at, and so it is
never to blame.  `Line.Reports` is the same without the order of looking, and
`Line.assemble_eq_error_iff` says that assembly goes by it.
-/
namespace OpWord

/-! ### What a slot refuses -/

namespace Layout

/-- The layout has the slot, and the value is not between its limits. -/
def OutOfLimits (l : Layout) (s : Slot) (value : Int) : Prop :=
  match l.limits? s with
  | some (low, high) => ¬ (low ≤ value ∧ value ≤ high)
  | none => False

/-- The layout lacks the slot, and the value is not zero. -/
def Superfluous (l : Layout) (s : Slot) (value : Int) : Prop :=
  l.limits? s = none ∧ value ≠ 0

/-- The slot does not take the value. -/
def Refuses (l : Layout) (s : Slot) (value : Int) : Prop :=
  l.OutOfLimits s value ∨ l.Superfluous s value

variable {l : Layout} {s : Slot} {value : Int}

theorem outOfLimits_iff : l.OutOfLimits s value ↔ l.has s ∧ ¬ l.Admits s value := by
  rw [admits_iff_inRange, InRange, ← isSome_limits?, OutOfLimits]
  cases l.limits? s <;> simp

theorem superfluous_iff : l.Superfluous s value ↔ ¬ l.has s ∧ ¬ l.Admits s value := by
  rw [admits_iff_inRange, InRange, ← isSome_limits?, Superfluous]
  cases l.limits? s <;> simp

/-- What a slot refuses is what it does not admit. -/
theorem not_refuses_iff : ¬ l.Refuses s value ↔ l.Admits s value := by
  rw [Refuses, outOfLimits_iff, superfluous_iff]
  by_cases hs : l.has s <;> simp [hs]

end Layout

namespace Assembly

/-! ### One operand -/

/-- The fault of a value that its slot refuses. -/
inductive Refusal (op : Operation) (s : Slot) (value : Int) : Fault → Prop
  | outOfRange (out : op.layout.OutOfLimits s value) :
    Refusal op s value (.operandOutOfRange op s value)
  | absent (superfluous : op.layout.Superfluous s value) :
    Refusal op s value (.absentOperand op s value)

section Operand

variable {op : Operation} {s : Slot} {value : Int} {fault : Fault}

theorem Refusal.refuses (h : Refusal op s value fault) : op.layout.Refuses s value := by
  cases h with
  | outOfRange out => exact .inl out
  | absent superfluous => exact .inr superfluous

theorem admitted_eq_error_iff :
    admitted op s value = .error fault ↔ Refusal op s value fault := by
  rw [admitted]
  constructor
  · intro h
    split at h
    · cases h
    · next hrefused =>
      split at h
      · next hs =>
        cases h
        exact .outOfRange (Layout.outOfLimits_iff.mpr ⟨hs, hrefused⟩)
      · next hs =>
        cases h
        exact .absent (Layout.superfluous_iff.mpr ⟨hs, hrefused⟩)
  · rintro (out | superfluous)
    · obtain ⟨hs, hrefused⟩ := Layout.outOfLimits_iff.mp out
      rw [if_neg hrefused, if_pos hs]
    · obtain ⟨hs, hrefused⟩ := Layout.superfluous_iff.mp superfluous
      rw [if_neg hrefused, if_neg hs]

theorem exists_admitted_iff :
    (∃ o, admitted op s value = .ok o) ↔ ¬ op.layout.Refuses s value := by
  rw [Layout.not_refuses_iff]
  constructor
  · rintro ⟨o, ho⟩
    obtain ⟨hadmits, rfl⟩ := admitted_eq_ok_iff.mp ho
    exact hadmits
  · intro h
    exact ⟨_, if_pos h⟩

end Operand

/-! ### The operands one after another -/

/-- The value is written for the slot, the slot refuses it, and what is written for the slots
before it is not refused. -/
structure FirstRefused (op : Operation) (operands : List Int) (s : Slot) (value : Int) : Prop where
  written : operands[s.position]? = some value
  refused : op.layout.Refuses s value
  before : ∀ t v, t.position < s.position → operands[t.position]? = some v →
    ¬ op.layout.Refuses t v

section Operands

variable {op : Operation} {values : List Int} {s : Slot} {value : Int} {n : Nat}

/-- What the traversal looks at: the values that are written, each with its slot. -/
theorem getElem?_zip_iff :
    (Slot.all.zip values)[n]? = some (s, value) ↔
      n = s.position ∧ values[s.position]? = some value := by
  have hslot : Slot.all[n]? = some s ↔ n = s.position := by
    rcases n with _ | _ | _ | n <;> cases s <;> simp [Slot.all, Slot.position]
  rw [List.getElem?_zip_eq_some, hslot]
  exact and_congr_right fun hn => by rw [hn]

/-- The traversal ends with the fault of the first operand that is refused. -/
theorem admittedAll_eq_error_iff {fault : Fault} :
    admittedAll op values = .error fault ↔
      ∃ s value, FirstRefused op values s value ∧ Refusal op s value fault := by
  rw [admittedAll, mapM_eq_error_iff]
  constructor
  · rintro ⟨n, ⟨s, value⟩, hmem, herror, hbefore⟩
    obtain ⟨rfl, written⟩ := getElem?_zip_iff.mp hmem
    have refusal := admitted_eq_error_iff.mp herror
    refine ⟨s, value, ⟨written, refusal.refuses, fun t v ht hv => ?_⟩, refusal⟩
    have hpassed := hbefore t.position (t, v) ht (getElem?_zip_iff.mpr ⟨rfl, hv⟩)
    exact exists_admitted_iff.mp hpassed
  · rintro ⟨s, value, ⟨written, -, before⟩, refusal⟩
    refine ⟨s.position, (s, value), getElem?_zip_iff.mpr ⟨rfl, written⟩,
      admitted_eq_error_iff.mpr refusal, ?_⟩
    rintro m ⟨t, v⟩ hm hmem
    obtain ⟨rfl, hv⟩ := getElem?_zip_iff.mp hmem
    exact exists_admitted_iff.mpr (before t v hm hv)

/-- The traversal gets to its end if none of the operands is refused. -/
theorem exists_admittedAll_iff :
    (∃ written, admittedAll op values = .ok written) ↔
      ∀ s value, values[s.position]? = some value → ¬ op.layout.Refuses s value := by
  simp only [admittedAll, mapM_eq_ok_iff]
  rw [exists_forall₂_iff]
  constructor
  · intro h s value hvalue
    have hmem := List.mem_of_getElem? (getElem?_zip_iff.mpr ⟨rfl, hvalue⟩)
    exact exists_admitted_iff.mp (h (s, value) hmem)
  · rintro h ⟨s, value⟩ hmem
    obtain ⟨n, hn⟩ := List.mem_iff_getElem?.mp hmem
    have hvalue := (getElem?_zip_iff.mp hn).2
    exact exists_admitted_iff.mpr (h s value hvalue)

end Operands

namespace Line

variable {l : Line} {op : Operation} {fault : Fault}

/-- With not too many operands, the fault is that of the first operand that is refused. -/
theorem assemble_eq_error_iff_of_few (hop : l.operation? = some op)
    (hcount : l.operands.length ≤ 3) :
    l.assemble = .error fault ↔
      ∃ s value, FirstRefused op l.operands s value ∧ Refusal op s value fault := by
  rw [assemble_of_few hop hcount, bind_eq_error_iff, admittedAll_eq_error_iff, or_iff_left]
  -- encoding never fails
  rintro ⟨written, -, ⟨⟩⟩

theorem exists_assemble_iff_of_few (hop : l.operation? = some op)
    (hcount : l.operands.length ≤ 3) :
    (∃ i, l.assemble = .ok i) ↔
      ∀ s value, l.operands[s.position]? = some value → ¬ op.layout.Refuses s value := by
  rw [← exists_admittedAll_iff, assemble_of_few hop hcount]
  constructor
  · rintro ⟨i, h⟩
    obtain ⟨written, hwritten, -⟩ := bind_eq_ok_iff.mp h
    exact ⟨written, hwritten⟩
  · rintro ⟨written, hwritten⟩
    exact ⟨_, bind_eq_ok_iff.mpr ⟨written, hwritten, rfl⟩⟩

/-! ### The whole line -/

/-- Up to the case of its letters, the name of the line is the mnemonic of a recognized
operation. -/
def Names (l : Line) (op : Operation) : Prop :=
  l.name.toList.map Char.toUpper = op.mnemonic.toList ∧ op ≠ .null

theorem operation?_eq_none_iff : l.operation? = none ↔ ∀ op, ¬ l.Names op := by
  rw [Option.eq_none_iff_forall_ne_some]
  exact forall_congr' fun op => not_congr operation?_eq_some_iff

/-- The faults that are reported of a line. -/
inductive Reports (l : Line) : Fault → Prop
  | unknown (unknown : ∀ op, ¬ l.Names op) : Reports l (.notAnOperation l.name)
  | tooMany {op : Operation} (names : l.Names op) (many : 3 < l.operands.length) :
    Reports l (.tooManyOperands op l.operands)
  | refused {op : Operation} {s : Slot} {value : Int} {fault : Fault} (names : l.Names op)
    (few : l.operands.length ≤ 3) (first : FirstRefused op l.operands s value)
    (refusal : Refusal op s value fault) : Reports l fault

theorem assemble_eq_error_iff : l.assemble = .error fault ↔ l.Reports fault := by
  constructor
  · intro h
    cases hop : l.operation? with
    | none =>
      rw [assemble_of_unknown hop] at h
      cases h
      exact .unknown (operation?_eq_none_iff.mp hop)
    | some op =>
      have names : l.Names op := operation?_eq_some_iff.mp hop
      rcases Nat.lt_or_ge 3 l.operands.length with many | few
      · rw [assemble_of_many hop many] at h
        cases h
        exact .tooMany names many
      · obtain ⟨s, value, first, refusal⟩ := (assemble_eq_error_iff_of_few hop few).mp h
        exact .refused names few first refusal
  · rintro (unknown | ⟨names, many⟩ | ⟨names, few, first, refusal⟩)
    · exact assemble_of_unknown (operation?_eq_none_iff.mpr unknown)
    · exact assemble_of_many (operation?_eq_some_iff.mpr names) many
    · exact (assemble_eq_error_iff_of_few (operation?_eq_some_iff.mpr names) few).mpr
        ⟨_, _, first, refusal⟩

/-- A line is assembled if nothing is to be reported of it. -/
theorem exists_assemble_iff :
    (∃ i, l.assemble = .ok i) ↔
      ∃ op, l.Names op ∧ l.operands.length ≤ 3 ∧
        ∀ s value, l.operands[s.position]? = some value → ¬ op.layout.Refuses s value := by
  constructor
  · rintro ⟨i, h⟩
    obtain ⟨d, hop, hvalues, -, -⟩ := assemble_eq_ok_iff.mp h
    have few : l.operands.length ≤ 3 := (rightpad_operands_eq_iff.mp hvalues).1
    exact ⟨d.operation, operation?_eq_some_iff.mp hop, few,
      (exists_assemble_iff_of_few hop few).mp ⟨i, h⟩⟩
  · rintro ⟨op, names, few, htaken⟩
    exact (exists_assemble_iff_of_few (operation?_eq_some_iff.mpr names) few).mpr htaken

end Line

/-- **The first offence is reported.**  A name that is not the mnemonic of a recognized operation
is reported as it is spelled, whatever the operands are; more than three operands are reported
with all their values, whatever these are; and of three or fewer the first one is reported that
its slot refuses, with its exact value, as out of range where the layout has the slot and as
absent where it lacks it.  The line that is reported is the one given.  If there is nothing to
report, the line comes to an instruction. -/
theorem ofLine_reports_first_offence (number : Nat) (l : Line) :
    (∀ line name, Item.ofLine number l = .diagnostic line (.notAnOperation name) ↔
        line = number ∧ name = l.name ∧ ∀ op, ¬ l.Names op) ∧
      (∀ line op operands,
        Item.ofLine number l = .diagnostic line (.tooManyOperands op operands) ↔
          line = number ∧ l.Names op ∧ operands = l.operands ∧ 3 < l.operands.length) ∧
      (∀ line op s value,
        Item.ofLine number l = .diagnostic line (.operandOutOfRange op s value) ↔
          line = number ∧ l.Names op ∧ l.operands.length ≤ 3 ∧
            FirstRefused op l.operands s value ∧ op.layout.OutOfLimits s value) ∧
      (∀ line op s value,
        Item.ofLine number l = .diagnostic line (.absentOperand op s value) ↔
          line = number ∧ l.Names op ∧ l.operands.length ≤ 3 ∧
            FirstRefused op l.operands s value ∧ op.layout.Superfluous s value) ∧
      ((∃ i, Item.ofLine number l = .instruction i) ↔
        ∃ op, l.Names op ∧ l.operands.length ≤ 3 ∧
          ∀ s value, l.operands[s.position]? = some value → ¬ op.layout.Refuses s value) := by
  refine ⟨?_, ?_, ?_, ?_, ?_⟩
  · intro line name
    rw [ofLine_eq_diagnostic_iff, Line.assemble_eq_error_iff]
    constructor
    · rintro ⟨rfl, unknown | _ | ⟨-, -, -, ⟨⟩⟩⟩
      exact ⟨rfl, rfl, unknown⟩
    · rintro ⟨rfl, rfl, unknown⟩
      exact ⟨rfl, .unknown unknown⟩
  · intro line op operands
    rw [ofLine_eq_diagnostic_iff, Line.assemble_eq_error_iff]
    constructor
    · rintro ⟨rfl, _ | ⟨names, many⟩ | ⟨-, -, -, ⟨⟩⟩⟩
      exact ⟨rfl, names, rfl, many⟩
    · rintro ⟨rfl, names, rfl, many⟩
      exact ⟨rfl, .tooMany names many⟩
  · intro line op s value
    rw [ofLine_eq_diagnostic_iff, Line.assemble_eq_error_iff]
    constructor
    · rintro ⟨rfl, _ | _ | ⟨names, few, first, ⟨out⟩⟩⟩
      exact ⟨rfl, names, few, first, out⟩
    · rintro ⟨rfl, names, few, first, out⟩
      exact ⟨rfl, .refused names few first (.outOfRange out)⟩
  · intro line op s value
    rw [ofLine_eq_diagnostic_iff, Line.assemble_eq_error_iff]
    constructor
    · rintro ⟨rfl, _ | _ | ⟨names, few, first, _ | ⟨superfluous⟩⟩⟩
      exact ⟨rfl, names, few, first, superfluous⟩
    · rintro ⟨rfl, names, few, first, superfluous⟩
      exact ⟨rfl, .refused names few first (.absent superfluous)⟩
  · simp only [ofLine_eq_instruction_iff_assemble]
    exact Line.exists_assemble_iff

end Assembly
end OpWord
