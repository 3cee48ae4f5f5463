import OpWord.Proofs.TextParsing

/-!
# Parsing line by line

`parse` numbers the lines of a text, drops those that are blank and reads the others in turn.
`parseLines` does so for any lines and any number to start from, which is what an induction on
the lines needs, and `parse` is the case of all lines of a text, numbered from one
(`parse_eq_parseLines`).

Two facts are used by what follows.

* The numbers only end up in diagnostics, so lines that are numbered from further on yield the
  same items up to that (`parseLines_add`).
* Lines that follow each other are parsed one part after the other
  (`parseLines_append`), so the first line that is malformed decides
  (`parseLines_eq_error_iff`).
-/
namespace OpWord.Assembly

open Grammar

/-- The items of some lines, the first of which has the given number. -/
def parseLines (ls : List (List Char)) (first : Nat) : Except ShapeError (List Item) :=
  ((ls.zipIdx first).filter fun (line, _) => !isBlank line).mapM
    fun (line, number) => parseLine line number

theorem parse_eq_parseLines (text : String) :
    parse text = parseLines (lines text.toList) 1 := rfl

variable {ls ls' : List (List Char)} {line : List Char} {first : Nat}

/-! ### One line, and one part after another -/

theorem parseLines_nil (first : Nat) : parseLines [] first = .ok [] := rfl

theorem parseLines_cons_of_blank (h : isBlank line = true) :
    parseLines (line :: ls) first = parseLines ls (first + 1) := by
  rw [parseLines, List.zipIdx_cons, List.filter_cons_of_neg (by simp [h])]
  rfl

theorem parseLines_cons_of_not_blank (h : isBlank line = false) :
    parseLines (line :: ls) first = (do
      let item ← parseLine line first
      let items ← parseLines ls (first + 1)
      return item :: items) := by
  rw [parseLines, List.zipIdx_cons, List.filter_cons_of_pos (by simp [h]), List.mapM_cons]
  rfl

theorem parseLines_cons_of_isLine {l : Line} (h : IsLine line l) :
    parseLines (line :: ls) first =
      (parseLines ls (first + 1)).map (Item.ofLine first l :: ·) := by
  have hblank : isBlank line = false := by
    rw [← Bool.not_eq_true, isBlank_iff]
    exact not_blank_of_isLine h
  rw [parseLines_cons_of_not_blank hblank, parseLine_eq_ok_iff.mpr ⟨l, h, rfl⟩]
  cases parseLines ls (first + 1) <;> rfl

theorem parseLines_append :
    parseLines (ls ++ ls') first = (do
      let items ← parseLines ls first
      let items' ← parseLines ls' (first + ls.length)
      return items ++ items') := by
  rw [parseLines, List.zipIdx_append, List.filter_append, List.mapM_append]
  rfl

/-! ### The numbers of the lines -/

/-- The item with the number of its line raised, if it is a diagnostic. -/
def Item.raise (offset : Nat) : Item → Item
  | instruction i => instruction i
  | diagnostic line fault => diagnostic (line + offset) fault

theorem ofLine_add (number offset : Nat) (l : Line) :
    Item.ofLine (number + offset) l = (Item.ofLine number l).raise offset := by
  rw [Item.ofLine, Item.ofLine]
  cases l.assemble <;> rfl

theorem parseLine_add (line : List Char) (number offset : Nat) :
    parseLine line (number + offset) = (parseLine line number).map (Item.raise offset) := by
  rw [parseLine, parseLine]
  cases Line.read line with
  | error e => rfl
  | ok l => exact congrArg Except.ok (ofLine_add number offset l)

/-- Lines that are numbered from further on yield the same items, with the numbers raised. -/
theorem parseLines_add (ls : List (List Char)) (first offset : Nat) :
    parseLines ls (first + offset) =
      (parseLines ls first).map (List.map (Item.raise offset)) := by
  induction ls generalizing first with
  | nil => rfl
  | cons line ls ih =>
    have hnext : first + offset + 1 = first + 1 + offset := Nat.add_right_comm first offset 1
    by_cases hblank : isBlank line
    · rw [parseLines_cons_of_blank hblank, parseLines_cons_of_blank hblank, hnext, ih]
    · rw [Bool.not_eq_true] at hblank
      rw [parseLines_cons_of_not_blank hblank, parseLines_cons_of_not_blank hblank,
        parseLine_add, hnext, ih]
      cases parseLine line first with
      | error e => rfl
      | ok item => cases parseLines ls (first + 1) <;> rfl

/-! ### The first malformed line -/

/-- A line that is neither blank nor in the grammar. -/
def Malformed (line : List Char) : Prop :=
  ¬ Blank line ∧ ¬ ∃ l, IsLine line l

/-- The malformed lines are those that are not skipped and cannot be read. -/
theorem malformed_iff : Malformed line ↔ isBlank line = false ∧ ∃ e, Line.read line = .error e := by
  rw [Malformed, ← isBlank_iff, Bool.not_eq_true]
  simp only [← read_eq_ok_iff]
  cases Line.read line <;> simp

instance : DecidablePred Malformed := fun line =>
  decidable_of_iff (isBlank line = false ∧ (Line.read line).isOk = false) <| by
    rw [malformed_iff]
    cases Line.read line <;> simp [Except.isOk, Except.toBool]

/-- Lines fail to parse exactly if one of them is malformed, and with the error of the first
such line. -/
theorem parseLines_eq_error_iff {e : ShapeError} :
    parseLines ls first = .error e ↔
      ∃ line, ls.find? (fun l => Malformed l) = some line ∧ Line.read line = .error e := by
  induction ls generalizing first with
  | nil => simp [parseLines_nil]
  | cons line ls ih =>
    by_cases hblank : isBlank line
    · have hformed : ¬ Malformed line := by simp [malformed_iff, hblank]
      rw [parseLines_cons_of_blank hblank, ih, List.find?_cons_of_neg (by simpa using hformed)]
    · rw [Bool.not_eq_true] at hblank
      rw [parseLines_cons_of_not_blank hblank]
      cases hread : Line.read line with
      | error e' =>
        -- this line is the first that is malformed, and its error is the one of the whole
        have hmalformed : Malformed line := malformed_iff.mpr ⟨hblank, e', hread⟩
        rw [List.find?_cons_of_pos (by simpa using hmalformed), parseLine, hread]
        simp [bind, Except.bind, hread]
      | ok l =>
        have hformed : ¬ Malformed line := by simp [malformed_iff, hread]
        rw [List.find?_cons_of_neg (by simpa using hformed), ← @ih (first + 1), parseLine,
          hread]
        cases parseLines ls (first + 1) <;> simp [bind, Except.bind, pure, Except.pure]

end OpWord.Assembly
