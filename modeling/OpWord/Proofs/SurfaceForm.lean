import OpWord.Proofs.LineByLine
import OpWord.Proofs.StrictAssembly

/-!
# Surface form

The same program can be written in many ways.  Lines may be indented, parts may be set apart by
more gaps or fewer, comments may be added, names may be in another case, numbers may have zeros
in front, and zeros at the end of the operands may be left out.  None of this makes a difference
to what is assembled, or to what is found wrong (`parse_congr_of_sameContent`).

The grammar has already done away with gaps, comments and zeros in front, since a line says no
more than a name and the values of its operands.  What is left are the case of the name and the
zeros at the end (`SameContent`).  The name is only looked up.  Of the operands only those are
looked at that are written, and a zero that is written passes, whatever its slot is, to the value
that it has when it is left out (`Line.assemble_of_padded`, `Line.assemble_congr`).  There is one
fault that repeats the name, so there the two spellings stay apart (`Item.SameUpToSpelling`).
-/
namespace OpWord.Assembly

open Grammar

/-! ### Lines with the same content -/

/-- Two names that differ at most in the case of their letters. -/
def SameName (name name' : String) : Prop :=
  name.toList.map Char.toUpper = name'.toList.map Char.toUpper

instance (name name' : String) : Decidable (SameName name name') :=
  inferInstanceAs (Decidable (_ = _))

/-- Two lists of operands that are equal, or that both leave out no more than zeros at the end:
neither has more than three, and filled up with zeros to three they are equal. -/
def SameOperands (operands operands' : List Int) : Prop :=
  operands = operands' ∨
    (operands.length ≤ 3 ∧ operands'.length ≤ 3 ∧
      operands.rightpad 3 0 = operands'.rightpad 3 0)

instance (operands operands' : List Int) : Decidable (SameOperands operands operands') :=
  inferInstanceAs (Decidable (_ ∨ _))

/-- Two lines that say the same: nothing at all, or the same operation and operands. -/
inductive SameContent : List Char → List Char → Prop
  | blank {line line' : List Char} (blank : Blank line) (blank' : Blank line') :
    SameContent line line'
  | instruction {line line' : List Char} {l l' : Line} (isLine : IsLine line l)
    (isLine' : IsLine line' l') (name : SameName l.name l'.name)
    (operands : SameOperands l.operands l'.operands) : SameContent line line'

/-- Two items that are equal, or that both report an unknown name on the same line, the name
perhaps in another case. -/
inductive Item.SameUpToSpelling : Item → Item → Prop
  | same (item : Item) : SameUpToSpelling item item
  | unknownName {number : Nat} {name name' : String} (sameName : SameName name name') :
    SameUpToSpelling (.diagnostic number (.notAnOperation name))
      (.diagnostic number (.notAnOperation name'))

/-! ### One line -/

/-- What is wrong with an operand is never that the name is unknown. -/
theorem admitted_ne_unknown (op : Operation) (slot : Slot) (value : Int) (name : String) :
    admitted op slot value ≠ .error (.notAnOperation name) := by
  intro h
  rw [admitted] at h
  split at h
  · cases h
  · split at h <;> cases h

namespace Line

variable {l l' : Line}

/-- The case of a name makes no difference to what it names. -/
theorem operation?_congr (h : SameName l.name l'.name) : l.operation? = l'.operation? := by
  have hop : Operation.ofMnemonic? l.name = Operation.ofMnemonic? l'.name := by
    apply Option.ext
    intro op
    rw [Operation.ofMnemonic?_eq_some_iff, Operation.ofMnemonic?_eq_some_iff, h]
  rw [operation?, operation?, hop]

/-- The operand of each slot is the same, written or left out. -/
theorem operand_congr (h : SameOperands l.operands l'.operands) (slot : Slot) :
    l.operand slot = l'.operand slot := by
  rcases h with h | ⟨hcount, hcount', hpad⟩
  · rw [operand, operand, h]
  · have hvalues := rightpad_operands_eq_iff.mpr ⟨hcount', rfl, rfl, rfl⟩
    obtain ⟨-, ha, hb, hc⟩ := rightpad_operands_eq_iff.mp (hpad.trans hvalues)
    cases slot with
    | a => exact ha
    | b => exact hb
    | c => exact hc

/-- Lines that name the same operation are assembled alike, down to the fault. -/
theorem assemble_congr {op : Operation} (h : l.operation? = some op)
    (h' : l'.operation? = some op) (hoperands : SameOperands l.operands l'.operands) :
    l.assemble = l'.assemble := by
  rcases hoperands with heq | hoperands
  · rw [assemble, assemble, h, h', heq]
  · -- zeros are left out, and every slot takes zero
    have hsame := operand_congr (.inr hoperands)
    obtain ⟨hfew, hfew', -⟩ := hoperands
    rw [assemble_of_padded h hfew, assemble_of_padded h' hfew', hsame, hsame, hsame]

/-- Only the line's own name is ever reported as unknown. -/
theorem name_of_assemble {name : String} (h : l.assemble = .error (.notAnOperation name)) :
    l.name = name := by
  cases hop : l.operation? with
  | none =>
    rw [assemble_of_unknown hop] at h
    cases h
    rfl
  | some op =>
    -- every other fault is about the operands
    rcases Nat.lt_or_ge maxOperands l.operands.length with hmany | hfew
    · rw [assemble_of_many hop hmany] at h
      cases h
    · rw [assemble_of_few hop hfew] at h
      obtain h | ⟨written, -, ⟨⟩⟩ := bind_eq_error_iff.mp h
      obtain ⟨n, ⟨slot, value⟩, -, h, -⟩ := mapM_eq_error_iff.mp h
      exact absurd h (admitted_ne_unknown op slot value name)

end Line

/-- Lines that say the same come to the same item. -/
theorem ofLine_congr {l l' : Line} (hname : SameName l.name l'.name)
    (hoperands : SameOperands l.operands l'.operands) (number : Nat) :
    Item.SameUpToSpelling (Item.ofLine number l) (Item.ofLine number l') := by
  have hop := Line.operation?_congr hname
  cases h : l.operation? with
  | none =>
    rw [Item.ofLine, Item.ofLine, Line.assemble_of_unknown h,
      Line.assemble_of_unknown (hop ▸ h)]
    exact .unknownName hname
  | some op =>
    rw [Item.ofLine, Item.ofLine, Line.assemble_congr h (hop ▸ h) hoperands]
    exact .same _

/-! ### Whole texts -/

/-- Every name that is reported as unknown stands in the text, on the line that is reported and
spelled in this way. -/
def SpelledAsIn (text : String) (items : List Item) : Prop :=
  ∀ number name, Item.diagnostic number (.notAnOperation name) ∈ items →
    ∃ line l, (line, number) ∈ (lines text.toList).zipIdx 1 ∧ IsLine line l ∧ l.name = name

theorem spelledAsIn_of_parse {text : String} {items : List Item} (h : parse text = .ok items) :
    SpelledAsIn text items := by
  intro number name hmem
  obtain ⟨line, l, number', hline, hl, hitem⟩ := exists_line_of_mem_parse h hmem
  obtain ⟨rfl, hfault⟩ := ofLine_eq_diagnostic_iff.mp hitem.symm
  exact ⟨line, l, hline, hl, Line.name_of_assemble hfault⟩

/-- Lines that say the same one by one are parsed to the same items, from whatever number on. -/
theorem parseLines_congr {ls ls' : List (List Char)} (h : List.Forall₂ SameContent ls ls')
    (first : Nat) :
    ∃ items items', parseLines ls first = .ok items ∧ parseLines ls' first = .ok items' ∧
      List.Forall₂ Item.SameUpToSpelling items items' := by
  induction h generalizing first with
  | nil => exact ⟨[], [], parseLines_nil first, parseLines_nil first, .nil⟩
  | cons hline hrest ih =>
    obtain ⟨items, items', hitems, hitems', hsame⟩ := ih (first + 1)
    cases hline with
    | blank blank blank' =>
      rw [parseLines_cons_of_blank (isBlank_iff.mpr blank),
        parseLines_cons_of_blank (isBlank_iff.mpr blank')]
      exact ⟨items, items', hitems, hitems', hsame⟩
    | instruction isLine isLine' name operands =>
      rw [parseLines_cons_of_isLine isLine, parseLines_cons_of_isLine isLine', hitems, hitems']
      exact ⟨_, _, rfl, rfl, .cons (ofLine_congr name operands first) hsame⟩

/-- **The surface form makes no difference.**  Take two texts whose lines say the same, one by
one: both are blank, or both are in the grammar, with names that differ at most in case and with
operands that differ at most by zeros left out at the end.  Then both texts parse, and to the
same items with the same numbers.  Only where a name is unknown does each text keep its own
spelling of it. -/
theorem parse_congr_of_sameContent {s t : String}
    (h : List.Forall₂ SameContent (lines s.toList) (lines t.toList)) :
    ∃ items items', parse s = .ok items ∧ parse t = .ok items' ∧
      List.Forall₂ Item.SameUpToSpelling items items' ∧
      SpelledAsIn s items ∧ SpelledAsIn t items' := by
  obtain ⟨items, items', hs, ht, hsame⟩ := parseLines_congr h 1
  exact ⟨items, items', hs, ht, hsame, spelledAsIn_of_parse hs, spelledAsIn_of_parse ht⟩

/-- Two texts that differ in gaps, case, comments, zeros in front and a zero left out, with a
name that is unknown in both. -/
theorem parse_congr_of_sameContent_respelled :
    List.Forall₂ SameContent (lines "\tLOADK (0, 1, 0) ; one\r\n\nFrob(007)".toList)
        (lines "loadk(00,1)\n  ; nothing\nFROB ( 7 )\n".toList) ∧
      ∃ items items', parse "\tLOADK (0, 1, 0) ; one\r\n\nFrob(007)" = .ok items ∧
        parse "loadk(00,1)\n  ; nothing\nFROB ( 7 )\n" = .ok items' ∧
        List.Forall₂ Item.SameUpToSpelling items items' ∧
        SpelledAsIn "\tLOADK (0, 1, 0) ; one\r\n\nFrob(007)" items ∧
        SpelledAsIn "loadk(00,1)\n  ; nothing\nFROB ( 7 )\n" items' := by
  have hs : lines "\tLOADK (0, 1, 0) ; one\r\n\nFrob(007)".toList =
      ["\tLOADK (0, 1, 0) ; one".toList, [], "Frob(007)".toList] := by decide
  have ht : lines "loadk(00,1)\n  ; nothing\nFROB ( 7 )\n".toList =
      ["loadk(00,1)".toList, "  ; nothing".toList, "FROB ( 7 )".toList] := by decide
  have hfirst : SameContent "\tLOADK (0, 1, 0) ; one".toList "loadk(00,1)".toList := by
    have h : IsLine "\tLOADK (0, 1, 0) ; one".toList ⟨"LOADK", [0, 1, 0]⟩ :=
      read_eq_ok_iff.mp rfl
    have h' : IsLine "loadk(00,1)".toList ⟨"loadk", [0, 1]⟩ := read_eq_ok_iff.mp rfl
    exact .instruction h h' (by decide) (by decide)
  have hsecond : SameContent [] "  ; nothing".toList :=
    .blank (isBlank_iff.mp rfl) (isBlank_iff.mp rfl)
  have hthird : SameContent "Frob(007)".toList "FROB ( 7 )".toList := by
    have h : IsLine "Frob(007)".toList ⟨"Frob", [7]⟩ := read_eq_ok_iff.mp rfl
    have h' : IsLine "FROB ( 7 )".toList ⟨"FROB", [7]⟩ := read_eq_ok_iff.mp rfl
    exact .instruction h h' (by decide) (by decide)
  have hlines : List.Forall₂ SameContent
      (lines "\tLOADK (0, 1, 0) ; one\r\n\nFrob(007)".toList)
      (lines "loadk(00,1)\n  ; nothing\nFROB ( 7 )\n".toList) := by
    rw [hs, ht]
    exact .cons hfirst (.cons hsecond (.cons hthird .nil))
  exact ⟨hlines, parse_congr_of_sameContent hlines⟩

end OpWord.Assembly
