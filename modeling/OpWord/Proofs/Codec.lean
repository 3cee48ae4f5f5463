import Mathlib.Data.Set.Function
import Mathlib.Tactic.TFAE
import OpWord.Instruction.Decoded
import OpWord.Proofs.OperandAccess

/-!
# The codec and its domain

An operation with operands can be encoded whatever the operands are, but only some come back.
They are the ones of `Decoded.Admissible`, which goes by the range of each slot in numbers
(`Layout.limits?`): an operand that the layout lacks has to be zero.

The three descriptions of these are the same (`tfae_admissible`): the operands are in range,
what is encoded decodes to itself, some word decodes to it.  The last one gives the direction
that looks hardest, namely that nothing out of range survives a round trip by accident.  It
needs no look at how the excess bits spill, since whatever a word decodes to is in range.
-/
namespace OpWord

/-! ### The ranges in numbers -/

namespace Layout

/-- The least and the greatest value that a slot takes, if the layout has the slot. -/
def limits? (l : Layout) : Slot → Option (Int × Int)
  | .a => if l.hasA then some (0, 255) else none
  | .b =>
    match l.bForm? with
    | some .narrow => some (0, 511)
    | some .wide => some (0, 262143)
    | some .wideSigned => some (-131071, 131072)
    | none => none
  | .c => if l.hasC then some (0, 511) else none

/-- The value is between the limits of the slot, and zero if the layout lacks the slot. -/
def InRange (l : Layout) (s : Slot) (value : Int) : Prop :=
  match l.limits? s with
  | some (low, high) => low ≤ value ∧ value ≤ high
  | none => value = 0

variable {l : Layout} {s : Slot} {value : Int}

/-- The limits are those of what fits. -/
theorem admits_iff_inRange : l.Admits s value ↔ l.InRange s value := by
  cases l <;> cases s <;> exact Iff.rfl

theorem isSome_limits? (l : Layout) (s : Slot) : (l.limits? s).isSome = l.has s := by
  cases l <;> cases s <;> rfl

end Layout

namespace Decoded

/-- An operand by its slot. -/
@[simp] def get (d : Decoded) : Slot → Operand
  | .a => d.a
  | .b => d.b
  | .c => d.c

/-- Every operand is in the range that its slot has in the layout of the operation. -/
def Admissible (d : Decoded) : Prop :=
  ∀ s, d.operation.layout.InRange s (d.get s).toInt

theorem admissible_iff {d : Decoded} :
    d.Admissible ↔ ∀ s, d.operation.layout.Admits s (d.get s).toInt :=
  forall_congr' fun _ => Layout.admits_iff_inRange.symm

/-! ### Encoding and decoding -/

@[simp] theorem get_decode (i : Instruction) (s : Slot) : i.decode.get s = i.get s := by
  cases s <;> rfl

/-- Whatever a word decodes to is in range. -/
theorem admissible_decode (i : Instruction) : i.decode.Admissible := by
  rw [admissible_iff]
  intro s
  rw [get_decode]
  exact i.admits_get s

@[simp] theorem operation_encode (d : Decoded) : d.encode.operation = d.operation := by
  simp [encode]

/-- Operands in range are read back.  Each write leaves what the others wrote. -/
theorem get_encode {d : Decoded} (h : d.Admissible) (s : Slot) :
    d.encode.get s = d.get s := by
  rw [admissible_iff] at h
  have ha : (({} : Instruction).setOperation d.operation).layout.Admits .a d.a.toInt := by
    simpa using h .a
  have hb : ((({} : Instruction).setOperation d.operation).set .a d.a).layout.Admits .b
      d.b.toInt := by
    simpa using h .b
  have hc : (((({} : Instruction).setOperation d.operation).set .a d.a).set .b d.b).layout.Admits
      .c d.c.toInt := by
    simpa using h .c
  rw [encode]
  -- each operand is read where it was written last, behind the writes that came after
  cases s with
  | a =>
    rw [Instruction.get_set_of_ne (by decide) hc, Instruction.get_set_of_ne (by decide) hb]
    exact Instruction.get_set_self ha
  | b =>
    rw [Instruction.get_set_of_ne (by decide) hc]
    exact Instruction.get_set_self hb
  | c => exact Instruction.get_set_self hc

theorem ext_get {d e : Decoded} (hop : d.operation = e.operation)
    (hget : ∀ s, d.get s = e.get s) : d = e := by
  obtain ⟨op, a, b, c⟩ := d
  obtain ⟨op', a', b', c'⟩ := e
  rw [Decoded.mk.injEq]
  exact ⟨hop, hget .a, hget .b, hget .c⟩

theorem decode_encode {d : Decoded} (h : d.Admissible) : d.encode.decode = d := by
  apply ext_get
  · exact operation_encode d
  · intro s
    rw [get_decode, get_encode h]

/-- The canonical form means the same. -/
@[simp] theorem decode_canonical (i : Instruction) : i.canonical.decode = i.decode :=
  decode_encode (admissible_decode i)

/-! ### The domain of the codec -/

/-- **The domain of the codec.**  That the operands are in range, that the encoding decodes to
what was encoded, and that some word decodes to it, all say the same.  So the words decode to
exactly the operations with operands in range, and on these the encoding is injective. -/
theorem tfae_admissible :
    (∀ d : Decoded,
      [d.Admissible, d.encode.decode = d, ∃ w : Word, (Instruction.mk w).decode = d].TFAE) ∧
    Set.range (fun w : Word => (Instruction.mk w).decode) = {d | d.Admissible} ∧
    Set.InjOn (fun d : Decoded => d.encode.word) {d | d.Admissible} := by
  refine ⟨?_, ?_, ?_⟩
  · intro d
    tfae_have 1 → 2 := decode_encode
    tfae_have 2 → 3 := fun h => ⟨d.encode.word, h⟩
    tfae_have 3 → 1 := by
      rintro ⟨w, rfl⟩
      exact admissible_decode _
    tfae_finish
  · ext d
    constructor
    · rintro ⟨w, rfl⟩
      exact admissible_decode _
    · intro h
      exact ⟨d.encode.word, decode_encode h⟩
  · intro d hd e he h
    have hencode : d.encode = e.encode := congrArg Instruction.mk h
    rw [← decode_encode hd, hencode, decode_encode he]

end Decoded
end OpWord
