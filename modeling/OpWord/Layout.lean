import OpWord.Placement

/-!
# Operand layouts

An operation has up to three operands, in the slots `A`, `B` and `C`.  Which slots it has, and
in which form its `B` is stored, is its `Layout`.  The wide field of a `B` takes in the field of
`C`, so no layout has both a wide `B` and a `C`.

`Layout.placement?` gives the placement of each slot, and `Layout.Admits` the values that a slot
takes without loss.  Every slot admits zero (`Layout.admits_zero`), which is what an operand
that is not there counts as.
-/
namespace OpWord

/-- The three operands of an instruction, in the order in which they are written. -/
inductive Slot where
  | a
  | b
  | c
  deriving DecidableEq, Repr

namespace Slot

/-- The slots in the order in which they are written. -/
def all : List Slot := [a, b, c]

/-- A slot's name. -/
def text : Slot → String
  | a => "A"
  | b => "B"
  | c => "C"

end Slot

/-- How an operation stores its `B`. -/
inductive BForm where
  /-- In the narrow field. -/
  | narrow
  /-- In the wide field. -/
  | wide
  /-- In the wide field, with the bias added. -/
  | wideSigned
  deriving DecidableEq, Repr

/-- Half of the wide field's range, added to a signed `B` before it is stored. -/
def signedBias : Operand := 131071

/-- The placement of a `B` of this form. -/
def BForm.placement : BForm → Placement
  | narrow => { field := fieldB }
  | wide => { field := fieldBx }
  | wideSigned => { field := fieldBx, bias := signedBias }

/-- `A` in its field. -/
def placementA : Placement where
  field := fieldA

/-- `C` in its field. -/
def placementC : Placement where
  field := fieldC

/-- The ways in which operations take operands. -/
inductive Layout where
  /-- No operand at all. -/
  | bare
  /-- `A` and a narrow `B`. -/
  | ab
  /-- `A`, a narrow `B` and `C`. -/
  | abc
  /-- `A` and a wide `B`. -/
  | abx
  /-- `A` and a signed wide `B`. -/
  | asbx
  /-- A signed wide `B` alone. -/
  | sbx
  deriving DecidableEq, Repr

namespace Layout

/-- Whether there is an `A`. -/
@[simp] def hasA : Layout → Bool
  | bare | sbx => false
  | ab | abc | abx | asbx => true

/-- The form of `B`, if there is one. -/
@[simp] def bForm? : Layout → Option BForm
  | bare => none
  | ab | abc => some .narrow
  | abx => some .wide
  | asbx | sbx => some .wideSigned

/-- Whether there is a `C`. -/
@[simp] def hasC : Layout → Bool
  | abc => true
  | bare | ab | abx | asbx | sbx => false

/-- The placement of a slot, if the layout has the slot. -/
def placement? (l : Layout) : Slot → Option Placement
  | .a => if l.hasA then some placementA else none
  | .b => l.bForm?.map BForm.placement
  | .c => if l.hasC then some placementC else none

/-- Whether the layout has a slot. -/
def has (l : Layout) (s : Slot) : Bool :=
  (l.placement? s).isSome

/-- Whether there is no operand at all. -/
def isBare (l : Layout) : Bool :=
  Slot.all.all fun s => !l.has s

/-- The operands by name, `none` if there are none. -/
def text : Layout → String
  | bare => "none"
  | ab => "A B"
  | abc => "A B C"
  | abx => "A Bx"
  | asbx => "A sBx"
  | sbx => "sBx"

/-- The values that a slot admits: those that fit where the layout places it, and zero alone if
the layout lacks it. -/
def Admits (l : Layout) (s : Slot) (value : Int) : Prop :=
  match l.placement? s with
  | some p => p.Fits value
  | none => value = 0

instance (l : Layout) (s : Slot) (value : Int) : Decidable (l.Admits s value) := by
  unfold Admits
  split <;> infer_instance

/-- Every slot of every layout admits zero. -/
@[simp] theorem admits_zero (l : Layout) (s : Slot) : l.Admits s 0 := by
  cases l <;> cases s <;> decide

end Layout
end OpWord
