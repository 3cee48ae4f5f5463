import OpWord.Text.Numeral

/-!
# Bit fields of a 32 bit word

A `Bitfield` is a run of consecutive bits of a `Word`: where it starts and how many bits it
has.  The run has at least one bit and ends within the word, and both facts are part of the
type, so no shift below is ever by 32 or more.

`extract` reads the run as a number.  `deposit` clears the run and then ORs a value in **as it
is**, without cutting it to the run's width: the excess bits of a value that is too wide land
on the bits above the run, and those past bit 31 are lost (`getLsbD_deposit`).

Bounds that come from outside are checked by `Bitfield.ofBounds`.
-/
namespace OpWord

/-- A code word. -/
abbrev Word := BitVec 32

/-- The number of bits of a word. -/
def wordBits : Nat := 32

/-- A run of `length` consecutive bits of a word, the lowest of them at `start`. -/
structure Bitfield where
  /-- The position of the lowest bit. -/
  start : Nat
  /-- How many bits there are. -/
  length : Nat
  /-- A field is never empty. -/
  length_pos : 0 < length := by decide
  /-- A field ends within the word. -/
  within : start + length ≤ 32 := by decide
  deriving DecidableEq

/-- What keeps two numbers from being the start and length of a field. -/
inductive BoundsError where
  /-- The length is zero. -/
  | noBits
  /-- The last bit lies outside the word. -/
  | outsideWord
  deriving DecidableEq, Repr

/-- The wording of a bounds error. -/
def BoundsError.message : BoundsError → String
  | noBits => "a bitfield must be at least one bit wide"
  | outsideWord => "a bitfield must lie within a 32 bit word"

namespace Bitfield

/-- The field with these bounds.  An empty field is refused as empty wherever it starts. -/
def ofBounds (start length : Nat) : Except BoundsError Bitfield :=
  if length_pos : 0 < length then
    if within : start + length ≤ 32 then .ok ⟨start, length, length_pos, within⟩
    else .error .outsideWord
  else .error .noBits

/-- The word whose set bits are those of the field. -/
def mask (f : Bitfield) : Word :=
  (BitVec.allOnes 32 >>> (32 - f.length)) <<< f.start

/-- The greatest number that the field holds. -/
def maxValue (f : Bitfield) : Word :=
  f.mask >>> f.start

/-- The number that the field holds in `w`. -/
def extract (f : Bitfield) (w : Word) : Word :=
  (w &&& f.mask) >>> f.start

/-- `w` with the field's bits replaced by those of `value`.  The value is not cut to the
field's width: its excess bits are ORed into the bits above the field. -/
def deposit (f : Bitfield) (w value : Word) : Word :=
  (w &&& ~~~f.mask) ||| (value <<< f.start)

/-- The field's bounds, the second one exclusive. -/
def text (f : Bitfield) : String :=
  "[" ++ Numeral.decimalNat f.start ++ ".." ++ Numeral.decimalNat (f.start + f.length) ++ "]"

/-! ### The bits of the results -/

theorem getLsbD_mask (f : Bitfield) (i : Nat) :
    f.mask.getLsbD i = (decide (f.start ≤ i) && decide (i < f.start + f.length)) := by
  have h₁ := f.length_pos
  have h₂ := f.within
  simp only [mask, BitVec.getLsbD_shiftLeft, BitVec.getLsbD_ushiftRight,
    BitVec.getLsbD_allOnes]
  rw [Bool.eq_iff_iff]
  simp only [Bool.and_eq_true, Bool.not_eq_true', decide_eq_true_eq, decide_eq_false_iff_not]
  omega

theorem getLsbD_extract (f : Bitfield) (w : Word) (i : Nat) :
    (f.extract w).getLsbD i = (decide (i < f.length) && w.getLsbD (f.start + i)) := by
  rw [extract, BitVec.getLsbD_ushiftRight, BitVec.getLsbD_and, getLsbD_mask, Bool.and_comm]
  congr 1
  simp

/-- Below the field nothing changes, in the field stands the value, and above it the bits of
the word and the excess bits of the value are joined. -/
theorem getLsbD_deposit (f : Bitfield) (w value : Word) {i : Nat} (hi : i < 32) :
    (f.deposit w value).getLsbD i =
      if i < f.start then w.getLsbD i
      else if i < f.start + f.length then value.getLsbD (i - f.start)
      else (w.getLsbD i || value.getLsbD (i - f.start)) := by
  rw [deposit, BitVec.getLsbD_or, BitVec.getLsbD_and, BitVec.getLsbD_not,
    BitVec.getLsbD_shiftLeft, getLsbD_mask]
  by_cases h₁ : i < f.start
  · simp [hi, h₁, Nat.not_le.mpr h₁]
  · have h₂ : f.start ≤ i := Nat.not_lt.mp h₁
    by_cases h₃ : i < f.start + f.length <;> simp [hi, h₁, h₂, h₃]

end Bitfield
end OpWord
