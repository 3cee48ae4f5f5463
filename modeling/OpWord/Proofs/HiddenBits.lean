import OpWord.Proofs.Canonical

/-!
# Hidden bits

Two words may decode alike and still differ in the bits that their layout does not use.  Such
bits are hidden: no read shows them.  They are there all the same when an operand is written,
and a value that is too wide is ORed into bits that are used and bits that are not.  So it has
to be shown that they stay hidden, as long as the operation stays (`Edit.keepsOperation`).

One fact carries all the others.  A write on the canonical form, which has no hidden bits, is
read as the same write on the word itself (`decode_set_canonical`).  It is shown on the four
parts, layout by layout.  The delicate layout is the one of `A` and a narrow `B`, where the
excess bits of `A` go through the unused part and on into `B`: what they meet in that part is
hidden with it, and `B` gets the same bits whatever the part held.

What follows from it for runs of edits is `hidden_bits_unobservable`.
-/
namespace OpWord

/-- The edits that leave the operation as it is: writes of operands, and taking the canonical
form. -/
def Edit.keepsOperation : Edit → Bool
  | .operand _ _ | .canonical => true
  | .operation _ | .code _ => false

/-! ### Writes on the parts -/

namespace Parts

variable {p : Parts}

/-- Writes go by the layout, and do the same on the parts that are used. -/
theorem clear_set_clear (p : Parts) (slot : Slot) (value : Int) :
    ((p.clear p.layout).set slot value).clear p.layout =
      (p.set slot value).clear p.layout := by
  have hlayout := p.layout_clear p.layout
  cases hl : p.layout with
  | bare | abc | abx | asbx => rfl
  | ab =>
    -- the unused part is cleared whatever was ORed into it, and no write carries it elsewhere
    rw [hl] at hlayout
    cases slot <;> simp only [set, hl, hlayout] <;> rfl
  | sbx =>
    rw [hl] at hlayout
    cases slot <;> simp only [set, hl, hlayout] <;> rfl

theorem canonical_of_lt (h : p.opcode.toNat < Operation.count) :
    p.canonical = p.clear p.layout := by
  rw [canonical, if_neg (Nat.not_le.mpr h)]

theorem canonical_of_le (h : Operation.count ≤ p.opcode.toNat) :
    p.canonical = { opcode := 38, a := 0, c := 0, b := 0 } := by
  rw [canonical, if_pos h]

/-- A write does nothing where the opcode part names no operation. -/
theorem set_of_le (h : Operation.count ≤ p.opcode.toNat) (slot : Slot) (value : Int) :
    p.set slot value = p := by
  have hbare : p.layout = .bare := by
    rw [layout, Operation.ofCode_of_le h]
    rfl
  cases slot <;> rw [set, hbare] <;> rfl

/-- **What is hidden before a write is hidden after it**: the write may as well be made on the
canonical parts. -/
theorem canonical_set_canonical (p : Parts) (slot : Slot) (value : Int) :
    (p.canonical.set slot value).canonical = (p.set slot value).canonical := by
  rcases Nat.lt_or_ge p.opcode.toNat Operation.count with hlt | hge
  · have hset : (p.set slot value).opcode.toNat < Operation.count := by simpa using hlt
    have hclear : ((p.clear p.layout).set slot value).opcode.toNat < Operation.count := by
      simpa using hlt
    rw [canonical_of_lt hlt, canonical_of_lt hclear, canonical_of_lt hset]
    simpa using p.clear_set_clear slot value
  · -- nothing is written, neither here nor there
    have hnull : Operation.count ≤ p.canonical.opcode.toNat := by
      rw [canonical_of_le hge]
      decide
    rw [set_of_le hge, set_of_le hnull, canonical_of_le hnull, canonical_of_le hge]

end Parts

/-! ### Writes on the word -/

namespace Instruction

variable {i j : Instruction}

/-- A write on the canonical form is read as the same write on the word itself. -/
theorem decode_set_canonical (i : Instruction) (slot : Slot) (value : Operand) :
    (i.canonical.set slot value).decode = (i.set slot value).decode := by
  have hword : (i.canonical.set slot value).canonical.word = (i.set slot value).canonical.word := by
    apply Parts.ofWord_injective
    simpa using (Parts.ofWord i.word).canonical_set_canonical slot value.toInt
  exact canonical_eq_iff.mp (congrArg mk hword)

/-- Words that decode alike do so after the same write. -/
theorem decode_set_congr (h : i.decode = j.decode) (slot : Slot) (value : Operand) :
    (i.set slot value).decode = (j.set slot value).decode := by
  rw [← decode_set_canonical i, canonical_eq_iff.mpr h, decode_set_canonical j]

@[simp] theorem operation_canonical (i : Instruction) : i.canonical.operation = i.operation :=
  congrArg Decoded.operation (Decoded.decode_canonical i)

/-! ### Words that name no operation -/

theorem placement?_of_null (h : i.operation = .null) (slot : Slot) :
    i.layout.placement? slot = none := by
  rw [layout, h]
  cases slot <;> rfl

theorem decode_of_null (h : i.operation = .null) : i.decode = ⟨.null, 0, 0, 0⟩ := by
  rw [decode, h, get_of_absent (placement?_of_null h .a), get_of_absent (placement?_of_null h .b),
    get_of_absent (placement?_of_null h .c)]

theorem set_of_null (h : i.operation = .null) (slot : Slot) (value : Operand) :
    i.set slot value = i :=
  set_of_absent (placement?_of_null h slot) value

/-! ### Runs -/

section Run

variable {e : Edit} {edits : List Edit}

/-- **One step.**  Words that decode alike do so after the same edit. -/
theorem decode_edit_congr (he : e.keepsOperation) (h : i.decode = j.decode) :
    (i.edit e).decode = (j.edit e).decode := by
  cases e with
  | operation op => cases he
  | code code => cases he
  | operand slot value => exact decode_set_congr h slot value
  | canonical =>
    simpa [edit] using h

theorem operation_edit (he : e.keepsOperation) (i : Instruction) :
    (i.edit e).operation = i.operation := by
  cases e with
  | operation op => cases he
  | code code => cases he
  | operand slot value => exact operation_set i slot value
  | canonical => exact operation_canonical i

/-- Words that decode alike do so after every edit of a run. -/
theorem map_decode_history_congr (hedits : ∀ e ∈ edits, e.keepsOperation)
    (h : i.decode = j.decode) :
    (i.history edits).map decode = (j.history edits).map decode := by
  induction edits generalizing i j with
  | nil => simp [history, h]
  | cons e edits ih =>
    obtain ⟨he, hedits⟩ := List.forall_mem_cons.mp hedits
    simp only [history, List.map_cons, h, ih hedits (decode_edit_congr he h)]

theorem decode_editAll_congr (hedits : ∀ e ∈ edits, e.keepsOperation)
    (h : i.decode = j.decode) : (i.editAll edits).decode = (j.editAll edits).decode := by
  have hlast := congrArg List.getLast? (map_decode_history_congr hedits h)
  rw [List.getLast?_map, List.getLast?_map, getLast?_history, getLast?_history] at hlast
  exact Option.some.inj hlast

/-- Taking the canonical form on the way changes nothing that is read at the end. -/
theorem decode_editAll_filter (hedits : ∀ e ∈ edits, e.keepsOperation) (i : Instruction) :
    (i.editAll (edits.filter (· ≠ .canonical))).decode = (i.editAll edits).decode := by
  induction edits generalizing i with
  | nil => rfl
  | cons e edits ih =>
    obtain ⟨-, hrest⟩ := List.forall_mem_cons.mp hedits
    by_cases he : e = .canonical
    · rw [List.filter_cons_of_neg (by simpa using he), ih hrest, he]
      exact decode_editAll_congr hrest (Decoded.decode_canonical i).symm
    · rw [List.filter_cons_of_pos (by simpa using he)]
      exact ih hrest (i.edit e)

theorem operation_of_mem_history (hedits : ∀ e ∈ edits, e.keepsOperation) {k : Instruction}
    (hk : k ∈ i.history edits) : k.operation = i.operation := by
  induction edits generalizing i with
  | nil => rw [List.mem_singleton.mp hk]
  | cons e edits ih =>
    obtain ⟨he, hedits⟩ := List.forall_mem_cons.mp hedits
    rcases List.mem_cons.mp hk with rfl | hk
    · rfl
    · rw [ih hedits hk, operation_edit he]

/-- **Hidden bits are unobservable.**  Take any run of edits that keep the operation, with
values of any size.  Words that decode alike at the start do so after every edit.  Taking the
canonical form more often or less often, and at whatever points of the run, changes nothing that
is read in the end.  The operation is the one of the start throughout, and if that is none,
there is nothing but `null` and zeros to be read and no write changes the word. -/
theorem hidden_bits_unobservable (hedits : ∀ e ∈ edits, e.keepsOperation) :
    (∀ i j : Instruction, i.decode = j.decode →
        (i.history edits).map decode = (j.history edits).map decode) ∧
      (∀ (i : Instruction) (edits' : List Edit),
        edits'.filter (· ≠ .canonical) = edits.filter (· ≠ .canonical) →
          (i.editAll edits').decode = (i.editAll edits).decode) ∧
      ∀ i : Instruction, ∀ k ∈ i.history edits,
        k.decode.operation = i.decode.operation ∧
          (38 ≤ i.word.toNat % 64 →
            k.decode = ⟨.null, 0, 0, 0⟩ ∧ ∀ slot value, k.set slot value = k) := by
  refine ⟨fun i j h => map_decode_history_congr hedits h, ?_, ?_⟩
  · intro i edits' hfilter
    have hedits' : ∀ e ∈ edits', e.keepsOperation := by
      intro e he
      by_cases hcanonical : e = .canonical
      · rw [hcanonical]
        rfl
      · have hmem : e ∈ edits'.filter (· ≠ .canonical) :=
          List.mem_filter.mpr ⟨he, by simpa using hcanonical⟩
        rw [hfilter] at hmem
        exact hedits e (List.mem_filter.mp hmem).1
    rw [← decode_editAll_filter hedits, ← decode_editAll_filter hedits', hfilter]
  · intro i k hk
    have hop := operation_of_mem_history hedits hk
    refine ⟨hop, fun h => ?_⟩
    have hnull : k.operation = .null := hop.trans (operation_eq_null_iff.mpr h)
    exact ⟨decode_of_null hnull, set_of_null hnull⟩

/-- The second word has all of the unused bits set.  The value for `A` goes through them and sets
a bit of `B`, and the canonical form then clears them. -/
theorem hidden_bits_unobservable_wide_a :
    ((∀ e ∈ [Edit.operand .a 131072, .canonical, .operand .c 7], e.keepsOperation) ∧
        (mk 0x01000040).decode = (mk 0x017FC040).decode ∧
        [Edit.operand .a 131072, .operand .c 7].filter (· ≠ .canonical) =
          [Edit.operand .a 131072, .canonical, .operand .c 7].filter (· ≠ .canonical)) ∧
      ((mk 0x01000040).history [.operand .a 131072, .canonical, .operand .c 7]).map decode =
          ((mk 0x017FC040).history [.operand .a 131072, .canonical, .operand .c 7]).map decode ∧
        ((mk 0x017FC040).editAll [.operand .a 131072, .operand .c 7]).decode =
          ((mk 0x017FC040).editAll [.operand .a 131072, .canonical, .operand .c 7]).decode := by
  have hedits : ∀ e ∈ [Edit.operand .a 131072, .canonical, .operand .c 7],
      e.keepsOperation := by decide
  have hdecode : (mk 0x01000040).decode = (mk 0x017FC040).decode := by decide
  have hfilter : [Edit.operand .a 131072, .operand .c 7].filter (· ≠ .canonical) =
      [Edit.operand .a 131072, .canonical, .operand .c 7].filter (· ≠ .canonical) := by decide
  obtain ⟨hhistory, hfinal, -⟩ := hidden_bits_unobservable hedits
  exact ⟨⟨hedits, hdecode, hfilter⟩, hhistory _ _ hdecode, hfinal _ _ hfilter⟩

end Run

end Instruction
end OpWord
