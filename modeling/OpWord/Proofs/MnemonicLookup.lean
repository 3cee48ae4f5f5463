import OpWord.Proofs.ReadBack

/-!
# Mnemonics as names

Two things have to fit for an operation to be named in a text.  The name has to be found where
names are looked up, and it has to be taken whole where a line is taken apart.

The look-up disregards the case of the 26 letters of ASCII and nothing else
(`Operation.ofMnemonic?_eq_some_iff_toUpper`).  So what is found consists of letters only
(`Operation.isAlpha_of_ofMnemonic?`), and a character that merely has one of these letters for
its capital is not among them.

The reader of a line takes a letter, and then letters and digits for as long as there are any
(`Assembly.leadingName?`).  What the look-up finds is therefore taken to its end
(`Assembly.leadingName?_of_name`), also where another mnemonic is the front of it, as `TEST` is of
`TESTSET`.  A name that stands alone is then a line without operands, and without operands every
operation can be assembled (`Assembly.Line.assemble_of_no_operands`).
-/
namespace OpWord

/-! ### What the look-up finds -/

/-- Only a letter has a capital letter for its capital. -/
theorem isAlpha_of_isUpper_toUpper {c : Char} (h : c.toUpper.isUpper) : c.isAlpha := by
  apply Bool.or_eq_true_iff.mpr
  by_cases hlower : c.isLower
  · exact Or.inr hlower
  · -- what is no small letter is its own capital
    have hself : c.toUpper = c := by
      apply dif_neg
      rintro ⟨hlow, hhigh⟩
      exact hlower (Bool.and_eq_true_iff.mpr ⟨decide_eq_true hlow, decide_eq_true hhigh⟩)
    rw [hself] at h
    exact Or.inl h

namespace Operation

variable {name : String} {op : Operation}

theorem ofMnemonic?_eq_some_iff_toUpper :
    ofMnemonic? name = some op ↔ name.toUpper = op.mnemonic := by
  rw [ofMnemonic?_eq_some_iff, ← String.toList_inj, String.toUpper, String.toList_map]

theorem ofMnemonic?_eq_none_iff :
    ofMnemonic? name = none ↔ ∀ op : Operation, name.toUpper ≠ op.mnemonic := by
  rw [Option.eq_none_iff_forall_ne_some]
  exact forall_congr' fun op => not_congr ofMnemonic?_eq_some_iff_toUpper

theorem isUpper_of_mem_mnemonic (op : Operation) : ∀ c ∈ op.mnemonic.toList, c.isUpper := by
  have hall : op.mnemonic.toList.all Char.isUpper = true := by
    cases op <;> rfl
  exact List.all_eq_true.mp hall

/-- Whatever is found is written with the letters of ASCII. -/
theorem isAlpha_of_ofMnemonic? (h : ofMnemonic? name = some op) :
    ∀ c ∈ name.toList, c.isAlpha := by
  intro c hc
  have hmem : c.toUpper ∈ op.mnemonic.toList := by
    rw [← ofMnemonic?_eq_some_iff.mp h]
    exact List.mem_map_of_mem hc
  exact isAlpha_of_isUpper_toUpper (op.isUpper_of_mem_mnemonic _ hmem)

end Operation

namespace Assembly

open Grammar

/-! ### The name at the front of a line -/

theorem leadingName?_of_name {name : List Char} (h : Name name) :
    leadingName? name = some (name, []) := by
  have hend : leadingName? (name ++ []) = some (name, []) := leadingName?_append h nofun
  rwa [List.append_nil] at hend

/-- What the look-up finds is a name. -/
theorem name_of_ofMnemonic? {name : String} {op : Operation}
    (h : Operation.ofMnemonic? name = some op) : Name name.toList := by
  have halpha := Operation.isAlpha_of_ofMnemonic? h
  have hnamed := op.name_mnemonic
  rw [← Operation.ofMnemonic?_eq_some_iff.mp h] at hnamed
  generalize name.toList = cs at halpha hnamed
  rcases cs with _ | ⟨c, cs⟩
  · cases hnamed
  · obtain ⟨letter, rest⟩ := List.forall_mem_cons.mp halpha
    exact .mk letter fun d hd => isAlphanum_of_isAlpha (rest d hd)

/-! ### A name alone on its line -/

/-- A text that is a name has no line but this name. -/
theorem lines_of_name {cs : List Char} (h : Name cs) : lines cs = [cs] := by
  have hname := isAlphanum_of_name h
  have hnewline : '\n' ∉ cs := not_mem_of_forall hname rfl
  have hreturn : '\r' ∉ cs := not_mem_of_forall hname rfl
  have hjoined : lines (['\n'].intercalate [cs]) = [cs] := by
    apply lines_intercalate
    all_goals rw [List.forall_mem_singleton]
    · exact hnewline
    · exact fun hlast => hreturn (List.mem_of_getLast? hlast)
    · obtain ⟨letter, rest⟩ := h
      exact List.cons_ne_nil _ _
  rwa [List.intercalate_singleton] at hjoined

/-- A name that is the whole line is read as it stands, and with no operands. -/
theorem Line.read_of_name {cs : List Char} (h : Name cs) :
    Line.read cs = .ok { name := String.ofList cs, operands := [] } := by
  have hstart := isGap_head?_name h []
  rw [List.append_nil] at hstart
  have hskip : skipGaps ([] ++ cs) = cs := skipGaps_append nofun hstart
  rw [List.nil_append] at hskip
  rw [Line.read, hskip, leadingName?_of_name h]
  rfl

/-- Every operation can be assembled without operands. -/
theorem Line.assemble_of_no_operands {l : Line} {op : Operation} (hop : l.operation? = some op)
    (hnone : l.operands = []) : l.assemble = .ok (Decoded.mk op 0 0 0).encode := by
  rw [assemble, hop, hnone]
  rfl

/-- A text that is the name of an operation is parsed to the instruction of this operation with
no operand set. -/
theorem parse_of_ofMnemonic? {name : String} {op : Operation}
    (h : Operation.ofMnemonic? name = some op) (hop : op ≠ .null) :
    parse name = .ok [.instruction (Decoded.mk op 0 0 0).encode] := by
  have hname := name_of_ofMnemonic? h
  have hread := Line.read_of_name hname
  rw [String.ofList_toList] at hread
  have hoperation : Line.operation? { name := name, operands := [] } = some op :=
    Line.operation?_eq_some_iff.mpr ⟨Operation.ofMnemonic?_eq_some_iff.mp h, hop⟩
  have hitem : Item.ofLine 1 { name := name, operands := [] } =
      .instruction (Decoded.mk op 0 0 0).encode :=
    ofLine_eq_instruction_iff_assemble.mpr (Line.assemble_of_no_operands hoperation rfl)
  rw [parse_eq_parseLines, lines_of_name hname,
    parseLines_cons_of_isLine (read_eq_ok_iff.mp hread), hitem]
  rfl

end Assembly

/-- **Names are mnemonics in any case, and each is one token.**  A name is looked up to an
operation exactly if in capitals it is the mnemonic of the operation.  Only the letters of ASCII
have capitals here.  Every other name is looked up to nothing, such as one with a character that is
not of ASCII, whatever the capital of this is elsewhere, and `SELFOP`, which is not what `SELF` is
called.  So no name stands for two operations.  Each name that is looked up to an operation is
taken to its end where lines are taken apart, and as a text of its own it is assembled, unless it
is a spelling of `NULL`. -/
theorem mnemonic_lookup_exact (name : String) :
    (∀ op, Operation.ofMnemonic? name = some op ↔ name.toUpper = op.mnemonic) ∧
      (Operation.ofMnemonic? name = none ↔ ∀ op : Operation, name.toUpper ≠ op.mnemonic) ∧
      (∀ op op' : Operation, name.toUpper = op.mnemonic → name.toUpper = op'.mnemonic →
        op = op') ∧
      ((∃ c ∈ name.toList, 128 ≤ c.toNat) → Operation.ofMnemonic? name = none) ∧
      (name.toUpper = "SELFOP" → Operation.ofMnemonic? name = none) ∧
      ∀ op, Operation.ofMnemonic? name = some op →
        Assembly.leadingName? name.toList = some (name.toList, []) ∧
        (op ≠ .null →
          Assembly.parse name = .ok [.instruction (Decoded.mk op 0 0 0).encode]) := by
  refine ⟨fun op => Operation.ofMnemonic?_eq_some_iff_toUpper, Operation.ofMnemonic?_eq_none_iff,
    ?_, ?_, ?_, ?_⟩
  · intro op op' h h'
    rw [← Operation.ofMnemonic?_eq_some_iff_toUpper] at h h'
    exact Option.some.inj (h.symm.trans h')
  · rintro ⟨c, hc, hascii⟩
    rw [Option.eq_none_iff_forall_ne_some]
    intro op h
    have hrange := Assembly.toNat_of_isAlpha (Operation.isAlpha_of_ofMnemonic? h c hc)
    omega
  · intro h
    rw [Operation.ofMnemonic?_eq_none_iff, h]
    intro op
    cases op <;> decide
  · intro op h
    exact ⟨Assembly.leadingName?_of_name (Assembly.name_of_ofMnemonic? h),
      Assembly.parse_of_ofMnemonic? h⟩

/-- A name that ends in another mnemonic, one with a long s, which has the capital `S` in other
alphabets, and one that is not what the operation is called. -/
theorem mnemonic_lookup_exact_lookalikes :
    (Operation.ofMnemonic? "tForLoop" = some .tforLoop ∧
        Assembly.leadingName? "tForLoop".toList = some ("tForLoop".toList, []) ∧
        Assembly.parse "tForLoop" = .ok [.instruction (Decoded.mk .tforLoop 0 0 0).encode]) ∧
      ((∃ c ∈ "\u017Felf".toList, 128 ≤ c.toNat) ∧ Operation.ofMnemonic? "\u017Felf" = none) ∧
      "SelfOp".toUpper = "SELFOP" ∧ Operation.ofMnemonic? "SelfOp" = none := by
  have hfound : Operation.ofMnemonic? "tForLoop" = some .tforLoop := by decide
  have hlong : ∃ c ∈ "\u017Felf".toList, 128 ≤ c.toNat :=
    ⟨'\u017F', by decide, by decide⟩
  have hself : "SelfOp".toUpper = "SELFOP" := by
    rw [← String.toList_inj, String.toUpper, String.toList_map]
    rfl
  obtain ⟨-, -, -, -, -, htaken⟩ := mnemonic_lookup_exact "tForLoop"
  obtain ⟨-, -, -, hascii, -, -⟩ := mnemonic_lookup_exact "\u017Felf"
  obtain ⟨-, -, -, -, hspelled, -⟩ := mnemonic_lookup_exact "SelfOp"
  obtain ⟨hend, hparse⟩ := htaken .tforLoop hfound
  exact ⟨⟨hfound, hend, hparse (by decide)⟩, ⟨hlong, hascii hlong⟩, hself, hspelled hself⟩

end OpWord
