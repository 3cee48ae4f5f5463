import Mathlib.Algebra.Group.Int.Defs
import Mathlib.Algebra.Group.Nat.Defs
import OpWord.Placement

/-!
# Reading and writing fields

What a deposit does to a piece of a word is decided by where the piece lies.  Below the field
nothing changes, within the field stands the value, and above it the excess bits of the value
are ORed in.  `extractLsb'_deposit_of_below`, `extractLsb'_deposit_of_within` and
`extractLsb'_deposit_of_above` say so for a piece of any length, and the reading of whole fields
follows from them.

A value that fits has no excess bits, so depositing it changes no bit outside the field
(`getLsbD_deposit_of_not_covers`).  Then a field reads back what was deposited in it, what it
read can be deposited again (`deposit_extract`), a later value replaces it without a trace
(`deposit_deposit`), and a field that shares no bit with it is untouched
(`extract_deposit_of_disjoint`).

The same is then said of placements, where a bias stands between the value and the stored
number: what is read always fits (`Placement.Exact.fits_read`), and what fits is read back
(`Placement.read_write`).
-/
namespace OpWord
namespace Bitfield

variable (f : Bitfield) (w value : Word) {start length : Nat}

/-! ### Pieces of a word after a deposit -/

theorem extractLsb'_deposit_of_below (h : start + length ≤ f.start) :
    (f.deposit w value).extractLsb' start length = w.extractLsb' start length := by
  apply BitVec.eq_of_getLsbD_eq
  intro i hi
  have hf := f.within
  rw [BitVec.getLsbD_extractLsb', BitVec.getLsbD_extractLsb',
    f.getLsbD_deposit w value (by omega : start + i < 32),
    if_pos (by omega : start + i < f.start)]

theorem extractLsb'_deposit_of_within (hs : f.start ≤ start)
    (he : start + length ≤ f.start + f.length) :
    (f.deposit w value).extractLsb' start length =
      value.extractLsb' (start - f.start) length := by
  apply BitVec.eq_of_getLsbD_eq
  intro i hi
  have hf := f.within
  rw [BitVec.getLsbD_extractLsb', BitVec.getLsbD_extractLsb',
    f.getLsbD_deposit w value (by omega : start + i < 32),
    if_neg (by omega : ¬ start + i < f.start),
    if_pos (by omega : start + i < f.start + f.length),
    show start + i - f.start = start - f.start + i from by omega]

theorem extractLsb'_deposit_of_above (hs : f.start + f.length ≤ start)
    (he : start + length ≤ 32) :
    (f.deposit w value).extractLsb' start length =
      w.extractLsb' start length ||| value.extractLsb' (start - f.start) length := by
  apply BitVec.eq_of_getLsbD_eq
  intro i hi
  rw [BitVec.getLsbD_or, BitVec.getLsbD_extractLsb', BitVec.getLsbD_extractLsb',
    BitVec.getLsbD_extractLsb', f.getLsbD_deposit w value (by omega : start + i < 32),
    if_neg (by omega : ¬ start + i < f.start),
    if_neg (by omega : ¬ start + i < f.start + f.length),
    show start + i - f.start = start - f.start + i from by omega]
  simp [hi]

/-- What lies below the field stays, taken together as a number. -/
theorem toNat_deposit_mod : (f.deposit w value).toNat % 2 ^ f.start = w.toNat % 2 ^ f.start := by
  have hbelow := f.extractLsb'_deposit_of_below w value (Nat.le_of_eq (Nat.zero_add f.start))
  have htoNat := congrArg BitVec.toNat hbelow
  rwa [BitVec.extractLsb'_toNat, BitVec.extractLsb'_toNat, Nat.shiftRight_zero,
    Nat.shiftRight_zero] at htoNat

/-! ### Fields as pieces -/

/-- A field is the piece of the word that its bounds name. -/
theorem extract_eq_setWidth : f.extract w = (w.extractLsb' f.start f.length).setWidth 32 := by
  apply BitVec.eq_of_getLsbD_eq
  intro i hi
  rw [f.getLsbD_extract, BitVec.getLsbD_setWidth, BitVec.getLsbD_extractLsb']
  simp [hi]

theorem toNat_extract : (f.extract w).toNat = (w.extractLsb' f.start f.length).toNat := by
  have hf := f.within
  rw [extract_eq_setWidth, BitVec.toNat_setWidth_of_le (by omega)]

theorem toNat_extract_lt : (f.extract w).toNat < 2 ^ f.length := by
  rw [toNat_extract]
  exact BitVec.isLt _

/-- The greatest number of a field is the one whose bits are all set. -/
theorem toNat_maxValue : f.maxValue.toNat = 2 ^ f.length - 1 := by
  have hf := f.within
  have h : f.maxValue = f.extract (BitVec.allOnes 32) := by
    rw [maxValue, extract, BitVec.allOnes_and]
  have hall : (BitVec.allOnes 32).extractLsb' f.start f.length = BitVec.allOnes f.length := by
    apply BitVec.eq_of_getLsbD_eq
    intro i hi
    rw [BitVec.getLsbD_extractLsb', BitVec.getLsbD_allOnes, BitVec.getLsbD_allOnes]
    simp [hi, show f.start + i < 32 from by omega]
  rw [h, toNat_extract, hall, BitVec.toNat_allOnes]

theorem toNat_extract_le_maxValue : (f.extract w).toNat ≤ f.maxValue.toNat := by
  have h := f.toNat_extract_lt w
  rw [toNat_maxValue]
  omega

/-- A field reads what was deposited in it, as far as the field reaches. -/
theorem toNat_extract_deposit :
    (f.extract (f.deposit w value)).toNat = value.toNat % 2 ^ f.length := by
  rw [toNat_extract, f.extractLsb'_deposit_of_within w value (Nat.le_refl _) (Nat.le_refl _),
    Nat.sub_self, BitVec.extractLsb'_toNat, Nat.shiftRight_zero]

/-- A value that fits reads back as it is. -/
theorem extract_deposit {value : Word} (h : value.toNat ≤ f.maxValue.toNat) :
    f.extract (f.deposit w value) = value := by
  have hpow := Nat.two_pow_pos f.length
  rw [toNat_maxValue] at h
  apply BitVec.eq_of_toNat_eq
  rw [toNat_extract_deposit]
  exact Nat.mod_eq_of_lt (by omega)

/-! ### Bits inside and outside -/

/-- The bit of a word at this position belongs to the field. -/
def Covers (f : Bitfield) (i : Nat) : Prop :=
  f.start ≤ i ∧ i < f.start + f.length

instance (f : Bitfield) (i : Nat) : Decidable (f.Covers i) :=
  inferInstanceAs (Decidable (_ ∧ _))

section Bits

variable {f w} {v value : Word} {i : Nat}

theorem le_maxValue_iff : value.toNat ≤ f.maxValue.toNat ↔ value.toNat < 2 ^ f.length := by
  have hpow := Nat.two_pow_pos f.length
  rw [toNat_maxValue]
  omega

theorem getLsbD_eq_false_of_length_le (h : value.toNat ≤ f.maxValue.toNat) (hi : f.length ≤ i) :
    value.getLsbD i = false := by
  rw [← BitVec.testBit_toNat]
  exact Nat.testBit_lt_two_pow
    (Nat.lt_of_lt_of_le (le_maxValue_iff.mp h) (Nat.pow_le_pow_right (by decide) hi))

/-- A value that fits changes no bit outside the field. -/
theorem getLsbD_deposit_of_not_covers (h : value.toNat ≤ f.maxValue.toNat) (hi : ¬ f.Covers i) :
    (f.deposit w value).getLsbD i = w.getLsbD i := by
  by_cases hword : i < 32
  · rw [Covers] at hi
    rw [f.getLsbD_deposit w value hword]
    split
    · rfl
    · -- above the field the value has no bit left
      rw [if_neg (by omega), getLsbD_eq_false_of_length_le h (by omega), Bool.or_false]
  · rw [BitVec.getLsbD_of_ge _ _ (Nat.not_lt.mp hword),
      BitVec.getLsbD_of_ge _ _ (Nat.not_lt.mp hword)]

/-- A bit of the field is a bit of the number that is read. -/
theorem getLsbD_of_covers (hi : f.Covers i) :
    w.getLsbD i = (f.extract w).getLsbD (i - f.start) := by
  obtain ⟨hlow, hhigh⟩ := hi
  rw [getLsbD_extract, Nat.add_sub_cancel' hlow, decide_eq_true (by omega), Bool.true_and]

/-- A word is what a field reads and the bits outside of it. -/
theorem eq_of_extract_eq (hextract : f.extract v = f.extract w)
    (hbits : ∀ i < 32, ¬ f.Covers i → v.getLsbD i = w.getLsbD i) : v = w := by
  apply BitVec.eq_of_getLsbD_eq
  intro i hword
  by_cases hi : f.Covers i
  · rw [getLsbD_of_covers hi, hextract, ← getLsbD_of_covers hi]
  · exact hbits i hword hi

end Bits

/-- What is read can be written back, and nothing changes. -/
theorem deposit_extract : f.deposit w (f.extract w) = w := by
  have hfits := f.toNat_extract_le_maxValue w
  exact eq_of_extract_eq (f.extract_deposit w hfits)
    fun i _ hi => getLsbD_deposit_of_not_covers hfits hi

/-- A second value replaces one that fits, and leaves no trace of it. -/
theorem deposit_deposit {value : Word} (h : value.toNat ≤ f.maxValue.toNat) (value' : Word) :
    f.deposit (f.deposit w value) value' = f.deposit w value' := by
  apply eq_of_extract_eq
  · apply BitVec.eq_of_toNat_eq
    rw [toNat_extract_deposit, toNat_extract_deposit]
  · intro i hword hi
    rw [f.getLsbD_deposit _ value' hword, f.getLsbD_deposit w value' hword,
      getLsbD_deposit_of_not_covers h hi]

/-! ### Two fields -/

variable {f} {g : Bitfield}

/-- Two fields that share no bit. -/
def Disjoint (f g : Bitfield) : Prop :=
  f.start + f.length ≤ g.start ∨ g.start + g.length ≤ f.start

instance (f g : Bitfield) : Decidable (f.Disjoint g) :=
  inferInstanceAs (Decidable (_ ∨ _))

/-- No deposit reaches down: the fields below it are untouched, whatever the value. -/
theorem extract_deposit_of_below (h : f.start + f.length ≤ g.start) :
    f.extract (g.deposit w value) = f.extract w := by
  rw [extract_eq_setWidth, extract_eq_setWidth, extractLsb'_deposit_of_below g w value h]

/-- A deposit reaches up only with the excess bits of its value, and a value that fits has
none. -/
theorem extract_deposit_of_disjoint {value : Word} (h : f.Disjoint g)
    (hv : value.toNat ≤ g.maxValue.toNat) : f.extract (g.deposit w value) = f.extract w := by
  apply BitVec.eq_of_getLsbD_eq
  intro i _
  rw [getLsbD_extract, getLsbD_extract]
  by_cases hi : i < f.length
  · have houtside : ¬ g.Covers (f.start + i) := by
      rw [Disjoint] at h
      rw [Covers]
      omega
    rw [getLsbD_deposit_of_not_covers hv houtside]
  · rw [decide_eq_false hi, Bool.false_and, Bool.false_and]

end Bitfield

/-! ### Operands as unsigned numbers -/

namespace Operand

/-- The bits of an operand, as an unsigned number, are its value modulo `2 ^ 32`. -/
theorem toNat_toBitVec (v : Operand) : (v.toBitVec.toNat : Int) = v.toInt % 2 ^ 32 := by
  have hlt := v.toBitVec.isLt
  have h : v.toInt % ((2 ^ 32 : Nat) : Int) = v.toBitVec.toNat % ((2 ^ 32 : Nat) : Int) := by
    rw [← Int32.toInt_toBitVec, BitVec.toInt_eq_toNat_bmod, Int.bmod_emod]
  omega

theorem toNat_toBitVec_add (v bias : Operand) :
    ((v + bias).toBitVec.toNat : Int) = (v.toInt + bias.toInt) % 2 ^ 32 := by
  rw [toNat_toBitVec, Int32.toInt_add]
  exact Int.bmod_emod

theorem toInt_eq_zero_iff {v : Operand} : v.toInt = 0 ↔ v = 0 := by
  rw [← Int32.toInt_zero, Int32.toInt_inj]

theorem toInt_ofBitVec {x : Word} (h : x.toNat < 2 ^ 31) :
    (Int32.ofBitVec x).toInt = x.toNat := by
  rw [Int32.toInt, Int32.toBitVec_ofBitVec]
  exact BitVec.toInt_eq_toNat_of_lt (by omega)

end Operand

/-! ### Placements -/

namespace Placement

variable {p : Placement} {value : Operand}

/-- A placement is exact if taking the bias off a stored number never wraps around: the field
leaves the sign bit free and the bias is not negative. -/
structure Exact (p : Placement) : Prop where
  length_lt : p.field.length < 32
  bias_nonneg : 0 ≤ p.bias.toInt

/-- What is read is the stored number less the bias. -/
theorem Exact.toInt_read (h : p.Exact) (w : Word) :
    (p.read w).toInt = (p.field.extract w).toNat - p.bias.toInt := by
  have hlt := p.field.toNat_extract_lt w
  have hpow : 2 ^ p.field.length ≤ 2 ^ 31 :=
    Nat.pow_le_pow_right (by decide) (Nat.le_of_lt_succ h.length_lt)
  have hbias := h.bias_nonneg
  have hbias' := p.bias.toInt_lt
  rw [read, Int32.toInt_sub, Operand.toInt_ofBitVec (by omega)]
  exact Int.bmod_eq_of_le (by omega) (by omega)

/-- What is read fits. -/
theorem Exact.fits_read (h : p.Exact) (w : Word) : p.Fits (p.read w).toInt := by
  have hle := p.field.toNat_extract_le_maxValue w
  rw [Fits, least, greatest, h.toInt_read]
  omega

/-- What fits is stored with the bias added and without wrapping around, so the field has room
for it. -/
theorem toNat_stored_le (h : p.Fits value.toInt) :
    (value + p.bias).toBitVec.toNat ≤ p.field.maxValue.toNat := by
  have hlow := h.1
  have hhigh := h.2
  have hmax := p.field.maxValue.isLt
  have hstored := Operand.toNat_toBitVec_add value p.bias
  rw [least] at hlow
  rw [greatest] at hhigh
  omega

/-- What fits is read back. -/
theorem read_write (h : p.Fits value.toInt) (w : Word) : p.read (p.write w value) = value := by
  rw [read, write, Bitfield.extract_deposit _ _ (toNat_stored_le h)]
  exact Int32.add_sub_cancel value p.bias

/-- A placement reads the same of two words exactly if its field does. -/
theorem read_eq_read_iff {w w' : Word} :
    p.read w = p.read w' ↔ p.field.extract w = p.field.extract w' := by
  constructor
  · intro h
    have hstored := congrArg (fun o => (o + p.bias).toBitVec) h
    simpa only [read, Int32.sub_add_cancel, Int32.toBitVec_ofBitVec] using hstored
  · intro h
    rw [read, read, h]

/-- What fits leaves the disjoint fields alone. -/
theorem extract_write_of_disjoint {g : Bitfield} (hd : g.Disjoint p.field)
    (h : p.Fits value.toInt) (w : Word) : g.extract (p.write w value) = g.extract w :=
  Bitfield.extract_deposit_of_disjoint w hd (toNat_stored_le h)

end Placement
end OpWord
