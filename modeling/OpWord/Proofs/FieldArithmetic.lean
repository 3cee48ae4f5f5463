import OpWord.Proofs.FieldAccess

/-!
# The arithmetic of fields

A field is built of two numbers, or refused (`ofBounds_eq_noBits_iff`,
`ofBounds_eq_outsideWord_iff`, `ofBounds_eq_ok_iff`).  What it then reads and writes can be said
in numbers and bit by bit, wherever the field lies: a field of all 32 bits and one that ends with
the word are no exceptions.

A machine shifts a word by fewer bits than it has and refuses to shift it by more.  The shifts of
`BitVec` know no such limit.  So the computations are repeated here with shifts that may be
refused (`Bitfield.mask?`, `Bitfield.maxValue?`, `Bitfield.extract?`, `Bitfield.deposit?`), and it
is shown that none ever is: the bounds of a field keep every amount below the width of a word.
-/
namespace OpWord

/-! ### Shifts that may be refused -/

/-- A word shifted to the left, by fewer bits than it has. -/
def shiftLeft? (w : Word) (amount : Nat) : Option Word :=
  if amount < wordBits then some (w <<< amount) else none

/-- A word shifted to the right, by fewer bits than it has. -/
def shiftRight? (w : Word) (amount : Nat) : Option Word :=
  if amount < wordBits then some (w >>> amount) else none

namespace Bitfield

/-- The mask, if no shift is refused and the amount of the first is not below zero. -/
def mask? (f : Bitfield) : Option Word :=
  if f.length ≤ wordBits then do
    let ones ← shiftRight? (BitVec.allOnes 32) (wordBits - f.length)
    shiftLeft? ones f.start
  else none

/-- The greatest number that the field holds, if no shift is refused. -/
def maxValue? (f : Bitfield) : Option Word := do
  shiftRight? (← f.mask?) f.start

/-- The number that the field holds in `w`, if no shift is refused. -/
def extract? (f : Bitfield) (w : Word) : Option Word := do
  shiftRight? (w &&& (← f.mask?)) f.start

/-- `w` with `value` deposited in the field, if no shift is refused. -/
def deposit? (f : Bitfield) (w value : Word) : Option Word := do
  let mask ← f.mask?
  let shifted ← shiftLeft? value f.start
  return (w &&& ~~~mask) ||| shifted

section Shifts

variable (f : Bitfield)

theorem start_lt_wordBits : f.start < wordBits := by
  have hpos := f.length_pos
  have hwithin := f.within
  rw [wordBits]
  omega

theorem shiftLeft?_start (w : Word) : shiftLeft? w f.start = some (w <<< f.start) :=
  if_pos f.start_lt_wordBits

theorem shiftRight?_start (w : Word) : shiftRight? w f.start = some (w >>> f.start) :=
  if_pos f.start_lt_wordBits

theorem mask?_eq_mask : f.mask? = some f.mask := by
  have hpos := f.length_pos
  have hwithin := f.within
  have hlength : f.length ≤ wordBits := by
    rw [wordBits]
    omega
  have hamount : wordBits - f.length < wordBits := by omega
  rw [mask?, if_pos hlength, shiftRight?, if_pos hamount]
  exact f.shiftLeft?_start _

/-- No shift is ever refused. -/
theorem shifts_allowed :
    f.mask? = some f.mask ∧ f.maxValue? = some f.maxValue ∧
      (∀ w, f.extract? w = some (f.extract w)) ∧
      ∀ w value, f.deposit? w value = some (f.deposit w value) := by
  refine ⟨f.mask?_eq_mask, ?_, ?_, ?_⟩
  · rw [maxValue?, mask?_eq_mask]
    exact f.shiftRight?_start _
  · intro w
    rw [extract?, mask?_eq_mask]
    exact f.shiftRight?_start _
  · intro w value
    rw [deposit?, mask?_eq_mask, shiftLeft?_start]
    rfl

end Shifts

/-! ### Bounds -/

section Bounds

variable {start length : Nat}

theorem ofBounds_eq_noBits_iff : ofBounds start length = .error .noBits ↔ length = 0 := by
  rw [ofBounds]
  split
  · next hpos => split <;> simp [Nat.ne_of_gt hpos]
  · next hpos => simpa using hpos

theorem ofBounds_eq_outsideWord_iff :
    ofBounds start length = .error .outsideWord ↔ 0 < length ∧ 32 < start + length := by
  rw [ofBounds]
  split
  · next hpos => split <;> simp [hpos] <;> omega
  · next hpos => simp [hpos]

theorem ofBounds_eq_ok_iff {f : Bitfield} :
    ofBounds start length = .ok f ↔ f.start = start ∧ f.length = length := by
  constructor
  · intro h
    rw [ofBounds] at h
    split at h
    · split at h
      · cases h
        exact ⟨rfl, rfl⟩
      · cases h
    · cases h
  · rintro ⟨rfl, rfl⟩
    rw [ofBounds, dif_pos f.length_pos, dif_pos f.within]

theorem exists_ofBounds_iff :
    (∃ f, ofBounds start length = .ok f) ↔ 0 < length ∧ start + length ≤ 32 := by
  constructor
  · rintro ⟨f, hf⟩
    obtain ⟨rfl, rfl⟩ := ofBounds_eq_ok_iff.mp hf
    exact ⟨f.length_pos, f.within⟩
  · rintro ⟨hpos, hwithin⟩
    exact ⟨⟨start, length, hpos, hwithin⟩, ofBounds_eq_ok_iff.mpr ⟨rfl, rfl⟩⟩

end Bounds

/-! ### Bits and numbers -/

theorem getLsbD_mask_iff (f : Bitfield) (i : Nat) : f.mask.getLsbD i = true ↔ f.Covers i := by
  rw [getLsbD_mask, Bool.and_eq_true, decide_eq_true_eq, decide_eq_true_eq, Covers]

/-- What a field reads is a digit of the word, for digits of the field's length. -/
theorem toNat_extract_eq_mod (f : Bitfield) (w : Word) :
    (f.extract w).toNat = w.toNat / 2 ^ f.start % 2 ^ f.length := by
  rw [toNat_extract, BitVec.extractLsb'_toNat, Nat.shiftRight_eq_div_pow]

/-- **Fields are read and written exactly, with the excess of a value going upward.**  Bounds are
refused if there is no bit, and else if a bit lies outside the word; all others are those of a
field, and then no shift is by 32 bits or more.  The mask has the bits of the field.  What is read
is the word divided by two to the start, modulo two to the length, and the greatest number is the
one of all ones.  A deposit leaves the bits below the field, puts those of the value into it, and
joins the excess bits of the value with the bits above it.  So what is read after a deposit is
the value modulo two to the length, what was read can be written back, and a deposit leaves no
trace of an earlier one whose value was not too long. -/
theorem exact_arithmetic :
    (∀ start length : Nat,
        (ofBounds start length = .error .noBits ↔ length = 0) ∧
        (ofBounds start length = .error .outsideWord ↔ 0 < length ∧ 32 < start + length) ∧
        ((∃ f, ofBounds start length = .ok f) ↔ 0 < length ∧ start + length ≤ 32) ∧
        ∀ f, ofBounds start length = .ok f ↔ f.start = start ∧ f.length = length) ∧
      ∀ f : Bitfield,
        (f.mask? = some f.mask ∧ f.maxValue? = some f.maxValue ∧
          (∀ w, f.extract? w = some (f.extract w)) ∧
          ∀ w value, f.deposit? w value = some (f.deposit w value)) ∧
        (∀ i, f.mask.getLsbD i = true ↔ f.start ≤ i ∧ i < f.start + f.length) ∧
        f.maxValue.toNat = 2 ^ f.length - 1 ∧
        (∀ w, (f.extract w).toNat = w.toNat / 2 ^ f.start % 2 ^ f.length) ∧
        (∀ w value, ∀ i < 32, (f.deposit w value).getLsbD i =
          if i < f.start then w.getLsbD i
          else if i < f.start + f.length then value.getLsbD (i - f.start)
          else (w.getLsbD i || value.getLsbD (i - f.start))) ∧
        (∀ w value, (f.extract (f.deposit w value)).toNat = value.toNat % 2 ^ f.length) ∧
        (∀ w, f.deposit w (f.extract w) = w) ∧
        ∀ w value value', value.toNat < 2 ^ f.length →
          f.deposit (f.deposit w value) value' = f.deposit w value' := by
  constructor
  · intro start length
    exact ⟨ofBounds_eq_noBits_iff, ofBounds_eq_outsideWord_iff, exists_ofBounds_iff,
      fun f => ofBounds_eq_ok_iff⟩
  · intro f
    refine ⟨f.shifts_allowed, f.getLsbD_mask_iff, f.toNat_maxValue, f.toNat_extract_eq_mod,
      fun w value i hi => f.getLsbD_deposit w value hi, f.toNat_extract_deposit,
      f.deposit_extract, ?_⟩
    intro w value value' hvalue
    exact f.deposit_deposit w (le_maxValue_iff.mpr hvalue) value'

/-- The field of the whole word has no bit above it: a deposit replaces everything. -/
example : (ofBounds 0 32).toOption.map (fun f => f.deposit 0x12345678 0xFFFFFFFF) =
    some 0xFFFFFFFF := by decide

end Bitfield
end OpWord
