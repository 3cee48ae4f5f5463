import Mathlib.Data.List.Pairwise
import OpWord.Proofs.FieldAccess

/-!
# Deposits in disjoint fields

A word is put together by deposits in its fields, one after another.  If no two of the fields
share a bit and each value fits in its field, the order makes no difference, every field is left
with its own value, and a field that is disjoint from all of them holds what it held before
(`separate_deposits_any_order`).

This rests on two deposits that are next to each other.  Either order leaves the same word
(`Bitfield.deposit_comm`), because neither deposit touches a bit of the other's field.  Both
conditions are needed for that.  The excess bits of a value that does not fit land in the fields
above, where a later deposit clears them and an earlier one does not.
-/
namespace OpWord

/-! ### Two deposits -/

/-- Deposits of values that fit in disjoint fields can change places. -/
theorem Bitfield.deposit_comm {f g : Bitfield} {u v : Word} (h : f.Disjoint g)
    (hu : u.toNat ≤ f.maxValue.toNat) (hv : v.toNat ≤ g.maxValue.toNat) (w : Word) :
    g.deposit (f.deposit w u) v = f.deposit (g.deposit w v) u := by
  apply eq_of_extract_eq (f := f)
  · -- `f` reads its own value, which the deposit in `g` does not reach
    rw [extract_deposit_of_disjoint _ h hv, extract_deposit _ _ hu, extract_deposit _ _ hu]
  · intro i hword hi
    rw [getLsbD_deposit_of_not_covers hu hi, g.getLsbD_deposit _ v hword,
      g.getLsbD_deposit w v hword, getLsbD_deposit_of_not_covers hu hi]

/-! ### Runs of deposits -/

/-- A value to be deposited in a field. -/
structure Deposit where
  /-- The field. -/
  field : Bitfield
  /-- The value. -/
  value : Word
  deriving DecidableEq

/-- The word after some deposits, one after another. -/
def depositAll (w : Word) (ds : List Deposit) : Word :=
  ds.foldl (fun w d => d.field.deposit w d.value) w

/-- Each value fits in its field, and no two of the fields share a bit. -/
structure Separate (ds : List Deposit) : Prop where
  fits : ∀ d ∈ ds, d.value.toNat ≤ d.field.maxValue.toNat
  disjoint : ds.Pairwise fun d e => d.field.Disjoint e.field

variable {d : Deposit} {ds ds' : List Deposit}

theorem depositAll_cons (w : Word) (d : Deposit) (ds : List Deposit) :
    depositAll w (d :: ds) = depositAll (d.field.deposit w d.value) ds := rfl

theorem separate_cons_iff :
    Separate (d :: ds) ↔
      d.value.toNat ≤ d.field.maxValue.toNat ∧ (∀ e ∈ ds, d.field.Disjoint e.field) ∧
        Separate ds := by
  constructor
  · rintro ⟨hfits, hdisjoint⟩
    obtain ⟨hd, hds⟩ := List.forall_mem_cons.mp hfits
    obtain ⟨hfirst, hrest⟩ := List.pairwise_cons.mp hdisjoint
    exact ⟨hd, hfirst, hds, hrest⟩
  · rintro ⟨hd, hfirst, hds, hrest⟩
    exact ⟨List.forall_mem_cons.mpr ⟨hd, hds⟩, List.pairwise_cons.mpr ⟨hfirst, hrest⟩⟩

/-- Any two of the deposits can change places, so they can be put in any order. -/
theorem depositAll_perm (h : Separate ds) (hperm : ds'.Perm ds) (w : Word) :
    depositAll w ds' = depositAll w ds := by
  have hsymm : Std.Symm fun d e : Deposit => d.field.Disjoint e.field := ⟨fun _ _ => Or.symm⟩
  symm
  apply hperm.symm.foldl_eq'
  intro d hd e he w
  by_cases hde : d = e
  · rw [hde]
  · have hfields : d.field.Disjoint e.field := h.disjoint.forall hd he hde
    exact Bitfield.deposit_comm hfields (h.fits d hd) (h.fits e he) w

/-- A field is untouched by deposits in fields that are disjoint from it. -/
theorem extract_depositAll_of_disjoint {f : Bitfield} (h : Separate ds)
    (hf : ∀ d ∈ ds, f.Disjoint d.field) (w : Word) :
    f.extract (depositAll w ds) = f.extract w := by
  induction ds generalizing w with
  | nil => rfl
  | cons d ds ih =>
    obtain ⟨hfits, -, hrest⟩ := separate_cons_iff.mp h
    obtain ⟨hd, hds⟩ := List.forall_mem_cons.mp hf
    rw [depositAll_cons, ih hrest hds, Bitfield.extract_deposit_of_disjoint w hd hfits]

/-- Every field is left with its own value, since none of the later deposits touches it. -/
theorem extract_depositAll_of_mem (h : Separate ds) (hd : d ∈ ds) (w : Word) :
    d.field.extract (depositAll w ds) = d.value := by
  induction ds generalizing w with
  | nil => exact absurd hd List.not_mem_nil
  | cons e ds ih =>
    obtain ⟨hfits, hfirst, hrest⟩ := separate_cons_iff.mp h
    rw [depositAll_cons]
    rcases List.mem_cons.mp hd with rfl | hd
    · rw [extract_depositAll_of_disjoint hrest hfirst, Bitfield.extract_deposit _ _ hfits]
    · exact ih hrest hd _

/-- **Deposits in disjoint fields can be made in any order.**  Take values that fit in their
fields, and fields of which no two share a bit.  Whatever the word is that they are deposited in,
each order of the deposits leaves the same word.  Every field reads its own value in it, and a
field that is disjoint from all of them reads what it read before. -/
theorem separate_deposits_any_order (h : Separate ds) (w : Word) :
    (∀ ds', ds'.Perm ds → depositAll w ds' = depositAll w ds) ∧
      (∀ d ∈ ds, d.field.extract (depositAll w ds) = d.value) ∧
      ∀ f : Bitfield, (∀ d ∈ ds, f.Disjoint d.field) →
        f.extract (depositAll w ds) = f.extract w := by
  refine ⟨?_, ?_, ?_⟩
  · intro ds' hperm
    exact depositAll_perm h hperm w
  · intro d hd
    exact extract_depositAll_of_mem h hd w
  · intro f hf
    exact extract_depositAll_of_disjoint h hf w

/-- The opcode and two operands in a word whose bits are all set, each value as great as its field
allows or zero.  The field of `C` between them stays as it is. -/
theorem separate_deposits_any_order_around_c :
    Separate [⟨opcodeField, 0⟩, ⟨fieldA, 255⟩, ⟨fieldB, 0⟩] ∧
      depositAll 0xFFFFFFFF [⟨fieldB, 0⟩, ⟨opcodeField, 0⟩, ⟨fieldA, 255⟩] =
        depositAll 0xFFFFFFFF [⟨opcodeField, 0⟩, ⟨fieldA, 255⟩, ⟨fieldB, 0⟩] ∧
      fieldA.extract (depositAll 0xFFFFFFFF [⟨opcodeField, 0⟩, ⟨fieldA, 255⟩, ⟨fieldB, 0⟩]) =
        255 ∧
      fieldC.extract (depositAll 0xFFFFFFFF [⟨opcodeField, 0⟩, ⟨fieldA, 255⟩, ⟨fieldB, 0⟩]) =
        fieldC.extract 0xFFFFFFFF := by
  have h : Separate [⟨opcodeField, 0⟩, ⟨fieldA, 255⟩, ⟨fieldB, 0⟩] := ⟨by decide, by decide⟩
  obtain ⟨horder, hown, hother⟩ := separate_deposits_any_order h 0xFFFFFFFF
  exact ⟨h, horder _ (by decide), hown ⟨fieldA, 255⟩ (by decide), hother fieldC (by decide)⟩

/-- A value of ten bits in the field of `C`, which has nine: the tenth lands in the field of `B`,
and is lost only if `B` comes later. -/
example : depositAll 0 [⟨fieldC, 0x200⟩, ⟨fieldB, 0⟩] = 0 ∧
    depositAll 0 [⟨fieldB, 0⟩, ⟨fieldC, 0x200⟩] = 0x00800000 := by decide

end OpWord
