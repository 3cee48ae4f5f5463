import Mathlib.Data.List.Induction
import OpWord.Instruction.Edit
import OpWord.Proofs.Codec

/-!
# Writing operands in any order

Operands that fit can be written in any order and as often as one likes: of each the value that
was written last is left, and nothing else of the word has changed (`writes_independent`).

This rests on one write only.  It changes no bit but those of its field
(`getLsbD_set_of_not_covers`), and the fields of a layout are disjoint, although those of
different layouts are not.  What holds of a run of writes follows by taking the last one off.
Then two runs that leave the same values leave the same word, because every bit either belongs to
a field, whose value is known, or was never touched (`writeAll_congr`).
-/
namespace OpWord

/-! ### Runs of writes -/

/-- A value written to a slot. -/
structure Write where
  /-- The slot. -/
  slot : Slot
  /-- The value. -/
  value : Operand
  deriving DecidableEq

/-- A write as an edit. -/
def Write.edit (w : Write) : Edit :=
  .operand w.slot w.value

/-- The value that was written last to a slot, if there is one. -/
def lastValue? (writes : List Write) (s : Slot) : Option Operand :=
  (writes.filter fun w => w.slot = s).getLast?.map Write.value

/-- The values written to slots of the layout fit there.  Those written to other slots may be
anything. -/
def Layout.Takes (l : Layout) (writes : List Write) : Prop :=
  ∀ w ∈ writes, l.has w.slot → l.Admits w.slot w.value.toInt

instance (l : Layout) (writes : List Write) : Decidable (l.Takes writes) :=
  inferInstanceAs (Decidable (∀ w ∈ writes, l.has w.slot → l.Admits w.slot w.value.toInt))

/-- The instruction after some writes, one after another. -/
def Instruction.writeAll (i : Instruction) (writes : List Write) : Instruction :=
  i.editAll (writes.map Write.edit)

section LastValue

variable {writes : List Write} {w : Write} {s : Slot}

theorem lastValue?_append_self (h : w.slot = s) : lastValue? (writes ++ [w]) s = some w.value := by
  simp [lastValue?, h]

theorem lastValue?_append_of_ne (h : w.slot ≠ s) :
    lastValue? (writes ++ [w]) s = lastValue? writes s := by
  simp [lastValue?, h]

/-- The last value was written. -/
theorem mem_of_lastValue? {value : Operand} (h : lastValue? writes s = some value) :
    ⟨s, value⟩ ∈ writes := by
  obtain ⟨w, hw, rfl⟩ := Option.map_eq_some_iff.mp h
  obtain ⟨hmem, hslot⟩ := List.mem_filter.mp (List.mem_of_getLast? hw)
  rw [← of_decide_eq_true hslot]
  exact hmem

end LastValue

/-- The operands in the order in which they are written. -/
def Decoded.writes (d : Decoded) : List Write :=
  Slot.all.map fun s => { slot := s, value := d.get s }

theorem Decoded.lastValue?_writes (d : Decoded) (s : Slot) :
    lastValue? d.writes s = some (d.get s) := by
  cases s <;> rfl

namespace Instruction

variable {i : Instruction} {writes writes' : List Write} {s : Slot} {n : Nat}

/-! ### One write -/

/-- A write of a value that fits changes no bit outside its field. -/
theorem getLsbD_set_of_not_covers {value : Operand}
    (hfits : i.layout.has s → i.layout.Admits s value.toInt)
    (hbit : ∀ p ∈ i.layout.placement? s, ¬ p.field.Covers n) :
    (i.set s value).word.getLsbD n = i.word.getLsbD n := by
  cases hp : i.layout.placement? s with
  | none => rw [set_of_absent hp]
  | some p =>
    have hhas := Layout.has_of_placement? hp
    rw [set_of_placement hp]
    exact Bitfield.getLsbD_deposit_of_not_covers
      (Placement.toNat_stored_le ((Layout.admits_iff_fits hp _).mp (hfits hhas))) (hbit p hp)

/-! ### Runs -/

@[simp] theorem writeAll_append (i : Instruction) (writes : List Write) (w : Write) :
    i.writeAll (writes ++ [w]) = (i.writeAll writes).set w.slot w.value := by
  rw [writeAll, editAll, List.map_append, List.foldl_append]
  rfl

/-- Writes never change the operation, whatever the values. -/
@[simp] theorem code_writeAll (i : Instruction) (writes : List Write) :
    (i.writeAll writes).code = i.code := by
  induction writes using List.reverseRecOn with
  | nil => rfl
  | append_singleton writes w ih => simp [ih]

@[simp] theorem layout_writeAll (i : Instruction) (writes : List Write) :
    (i.writeAll writes).layout = i.layout := by
  rw [layout, layout, operation, operation, code_writeAll]

/-- What is left of each operand is the value written last. -/
theorem get_writeAll (h : i.layout.Takes writes) (hs : i.layout.has s) :
    (i.writeAll writes).get s = (lastValue? writes s).getD (i.get s) := by
  induction writes using List.reverseRecOn with
  | nil => rfl
  | append_singleton writes w ih =>
    have hrest := ih fun w' hw' => h w' (List.mem_append_left [w] hw')
    have hlayout := layout_writeAll i writes
    have hfits : i.layout.has w.slot → (i.writeAll writes).layout.Admits w.slot w.value.toInt := by
      rw [hlayout]
      exact h w List.mem_concat_self
    rw [writeAll_append]
    by_cases hslot : w.slot = s
    · subst hslot
      rw [lastValue?_append_self rfl, get_set_self (hfits hs)]
      rfl
    · -- the last write is of another operand, or of one that the layout lacks
      rw [lastValue?_append_of_ne hslot, ← hrest]
      cases hhas : i.layout.has w.slot with
      | false => rw [set_of_absent (Layout.placement?_of_not_has (hlayout ▸ hhas))]
      | true => exact get_set_of_ne (Ne.symm hslot) (hfits hhas)

/-- The bits outside the fields that are written stay. -/
theorem getLsbD_writeAll (h : i.layout.Takes writes)
    (hbit : ∀ w ∈ writes, ∀ p ∈ i.layout.placement? w.slot, ¬ p.field.Covers n) :
    (i.writeAll writes).word.getLsbD n = i.word.getLsbD n := by
  induction writes using List.reverseRecOn with
  | nil => rfl
  | append_singleton writes w ih =>
    have hrest := ih (fun w' hw' => h w' (List.mem_append_left [w] hw'))
      (fun w' hw' => hbit w' (List.mem_append_left [w] hw'))
    have hfits := h w List.mem_concat_self
    have hlast := hbit w List.mem_concat_self
    rw [← layout_writeAll i writes] at hfits hlast
    rw [writeAll_append, getLsbD_set_of_not_covers hfits hlast, hrest]

/-- Only the last value of each operand counts. -/
theorem writeAll_congr (h : i.layout.Takes writes) (h' : i.layout.Takes writes')
    (hlast : ∀ s, i.layout.has s → lastValue? writes s = lastValue? writes' s) :
    i.writeAll writes = i.writeAll writes' := by
  suffices hword : (i.writeAll writes).word = (i.writeAll writes').word from congrArg mk hword
  apply BitVec.eq_of_getLsbD_eq
  intro n _
  by_cases hcovered : ∃ s, ∃ p ∈ i.layout.placement? s, p.field.Covers n
  · -- the bit belongs to an operand, and the operand reads the same
    obtain ⟨s, p, hp, hbit⟩ := hcovered
    have hhas := Layout.has_of_placement? hp
    have hget : (i.writeAll writes).get s = (i.writeAll writes').get s := by
      rw [get_writeAll h hhas, get_writeAll h' hhas, hlast s hhas]
    rw [get_of_placement ((layout_writeAll i writes).symm ▸ hp),
      get_of_placement ((layout_writeAll i writes').symm ▸ hp), Placement.read_eq_read_iff] at hget
    rw [Bitfield.getLsbD_of_covers hbit, hget, ← Bitfield.getLsbD_of_covers hbit]
  · have hbit : ∀ s, ∀ p ∈ i.layout.placement? s, ¬ p.field.Covers n :=
      fun s p hp hcovers => hcovered ⟨s, p, hp, hcovers⟩
    rw [getLsbD_writeAll h fun w _ => hbit w.slot, getLsbD_writeAll h' fun w _ => hbit w.slot]

/-- The encoding is made by writing the operands in order. -/
theorem encode_eq_writeAll (d : Decoded) :
    d.encode = (({} : Instruction).setOperation d.operation).writeAll d.writes := rfl

/-- Whatever the order of the writes, they encode the last values. -/
theorem writeAll_eq_encode {d : Decoded} (h : d.operation.layout.Takes writes)
    (hlast : ∀ s, d.operation.layout.has s → lastValue? writes s = some (d.get s)) :
    (({} : Instruction).setOperation d.operation).writeAll writes = d.encode := by
  have hlayout := layout_setOperation {} d.operation
  have hordered : d.operation.layout.Takes d.writes := by
    intro w hw hs
    obtain ⟨s, -, rfl⟩ := List.mem_map.mp hw
    exact h _ (mem_of_lastValue? (hlast s hs)) hs
  rw [encode_eq_writeAll]
  rw [← hlayout] at h hordered hlast
  exact writeAll_congr h hordered fun s hs => (hlast s hs).trans (d.lastValue?_writes s).symm

/-- **Operands that fit are independent of each other, and the last write wins.**  Take writes of
operands in any order and number, with values that fit where the layout has the operand.  They
keep the opcode bits, each operand is left with the value written last, and all bits outside the
fields that were written are as before.  So writes that end with the same values leave the same
word, and from a word of zeros and an operation they lead to the encoding. -/
theorem writes_independent (h : i.layout.Takes writes) :
    (i.writeAll writes).code = i.code ∧
      (∀ s, i.layout.has s →
        (i.writeAll writes).get s = (lastValue? writes s).getD (i.get s)) ∧
      (∀ n, (∀ w ∈ writes, ∀ p ∈ i.layout.placement? w.slot, ¬ p.field.Covers n) →
        (i.writeAll writes).word.getLsbD n = i.word.getLsbD n) ∧
      (∀ writes', i.layout.Takes writes' →
        (∀ s, i.layout.has s → lastValue? writes' s = lastValue? writes s) →
        i.writeAll writes' = i.writeAll writes) ∧
      ∀ d : Decoded, i = ({} : Instruction).setOperation d.operation →
        (∀ s, i.layout.has s → lastValue? writes s = some (d.get s)) →
        i.writeAll writes = d.encode := by
  refine ⟨code_writeAll i writes, fun s => get_writeAll h, fun n => getLsbD_writeAll h,
    fun writes' h' hlast => writeAll_congr h' h hlast, ?_⟩
  rintro d rfl hlast
  rw [layout_setOperation] at h hlast
  exact writeAll_eq_encode h hlast

/-- The first write of `B` leaves no trace, and that of the absent `C` none either, though its
value fits nowhere. -/
theorem writes_independent_overwritten :
    (({} : Instruction).setOperation .forLoop).layout.Takes
        [⟨.b, 131072⟩, ⟨.c, -1⟩, ⟨.a, 255⟩, ⟨.b, -131071⟩] ∧
      ((({} : Instruction).setOperation .forLoop).writeAll
          [⟨.b, 131072⟩, ⟨.c, -1⟩, ⟨.a, 255⟩, ⟨.b, -131071⟩]).get .b = -131071 ∧
      (({} : Instruction).setOperation .forLoop).writeAll
          [⟨.b, 131072⟩, ⟨.c, -1⟩, ⟨.a, 255⟩, ⟨.b, -131071⟩] =
        (Decoded.mk .forLoop 255 (-131071) (-1)).encode := by
  have htakes : (({} : Instruction).setOperation .forLoop).layout.Takes
      [⟨.b, 131072⟩, ⟨.c, -1⟩, ⟨.a, 255⟩, ⟨.b, -131071⟩] := by decide
  obtain ⟨-, hget, -, -, hencode⟩ := writes_independent htakes
  refine ⟨htakes, hget .b (by decide), hencode ⟨.forLoop, 255, -131071, -1⟩ rfl ?_⟩
  intro s _
  cases s <;> rfl

end Instruction
end OpWord
