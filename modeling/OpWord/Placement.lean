import OpWord.Bitfield

/-!
# Where operands are stored

A word is laid out so:

```
 31        23 22        14 13       6 5      0
|     B      |     C      |    A     | opcode |
|           Bx            |
```

`B` and `C` together are the wide field `Bx`.

A `Placement` is a field together with the bias of what it stores.  A bias makes the stored
number unsigned where the operand is signed: the least operand is stored as zero.  How an
operand is read and written and which values fit (`Placement.Fits`) are all read off its
placement.
-/
namespace OpWord

/-- An operand as it is read and written: a 32 bit number, signed because a jump distance is. -/
abbrev Operand := Int32

/-! ### The fields of a word -/

/-- The bits that name the operation. -/
def opcodeField : Bitfield where
  start := 0
  length := 6

/-- The bits of `A`. -/
def fieldA : Bitfield where
  start := 6
  length := 8

/-- The bits of `C`. -/
def fieldC : Bitfield where
  start := 14
  length := 9

/-- The bits of a wide `B`: those of `C` and of a narrow `B`. -/
def fieldBx : Bitfield where
  start := 14
  length := 18

/-- The bits of a narrow `B`. -/
def fieldB : Bitfield where
  start := 23
  length := 9

/-! ### Placements -/

/-- A field, and the bias that a value gets before it is stored there. -/
structure Placement where
  /-- Where the value is stored. -/
  field : Bitfield
  /-- What is added to a value to get the stored number. -/
  bias : Operand := 0

namespace Placement

/-- The least value that fits: it is stored as zero. -/
def least (p : Placement) : Int :=
  -p.bias.toInt

/-- The greatest value that fits: it is stored as the greatest number of the field. -/
def greatest (p : Placement) : Int :=
  p.field.maxValue.toNat - p.bias.toInt

/-- The values that fit are those between the least and the greatest. -/
def Fits (p : Placement) (value : Int) : Prop :=
  p.least ≤ value ∧ value ≤ p.greatest

instance (p : Placement) (value : Int) : Decidable (p.Fits value) :=
  inferInstanceAs (Decidable (_ ∧ _))

/-- The value stored in `w`. -/
def read (p : Placement) (w : Word) : Operand :=
  Int32.ofBitVec (p.field.extract w) - p.bias

/-- `w` with `value` stored.  Adding the bias wraps around, and the sum is deposited as the
unsigned number that its 32 bits are: a value that does not fit is not refused. -/
def write (p : Placement) (w : Word) (value : Operand) : Word :=
  p.field.deposit w (value + p.bias).toBitVec

end Placement

end OpWord
