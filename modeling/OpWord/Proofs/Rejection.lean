import OpWord.Proofs.LineByLine

/-!
# Lines that are rejected

A text that does not parse is rejected for one of its lines, and the error shows what is wrong
there.  The line is the first that is malformed, whatever stands before or after it.  What is
shown is where a name should have started, or else what is left over behind the instruction
(`Grammar.Reported`).

Nothing that goes wrong inside the brackets is ever reported as such.  Brackets that are not in
the grammar count as no brackets, and then the text from the opening one on is left over.  So
the parts of the line that count are those of the grammar, each as long as it can be: gaps, a
name, brackets if there are any in the grammar, and gaps.

Main statement: `parse_eq_error_iff_first_malformed`.
-/
namespace OpWord.Assembly

namespace Grammar

/-- Operands in brackets, with gaps in front of them, are what the text starts with. -/
def StartsWithBrackets (cs : List Char) : Prop :=
  ∃ list vs rest, list ≠ [] ∧ Trailing list vs ∧ cs = list ++ rest

/-- What is reported of a line that cannot be read. -/
inductive Reported : List Char → ShapeError → Prop
  /-- No name starts where the gaps end. -/
  | letterExpected {lead rest : List Char} (leading : Gaps lead)
    (lead_ends : ∀ c ∈ rest.head?, isGap c = false)
    (no_letter : ∀ c ∈ rest.head?, c.isAlpha = false) :
    Reported (lead ++ rest) (.letterExpected (String.ofList rest))
  /-- Something follows the name, the brackets if there are any, and the gaps behind them. -/
  | leftOver {lead name list gap rest : List Char} {vs : List Int} (leading : Gaps lead)
    (named : Name name)
    (name_ends : ∀ c ∈ (list ++ (gap ++ rest)).head?, c.isAlphanum = false)
    (trailing : Trailing list vs)
    (brackets_taken : list = [] → ¬ StartsWithBrackets (gap ++ rest))
    (gaps : Gaps gap) (gap_ends : ∀ c ∈ rest.head?, isGap c = false) :
    Reported (lead ++ (name ++ (list ++ (gap ++ rest)))) (.leftOver (String.ofList rest))

end Grammar

open Grammar

/-- What an error shows of the line. -/
def ShapeError.input : ShapeError → String
  | letterExpected found => found
  | leftOver rest => rest

/-! ### Rejected lines -/

section Line

variable {line : List Char} {e : ShapeError}

theorem operandList?_skipGaps_eq_none_iff {cs : List Char} :
    operandList? (skipGaps cs) = none ↔ ¬ StartsWithBrackets cs := by
  constructor
  · rintro h ⟨list, vs, rest, hlist⟩
    rw [operandList?_skipGaps_eq_some_iff.mpr ⟨list, hlist⟩] at h
    cases h
  · intro h
    refine Option.eq_none_iff_forall_ne_some.mpr ?_
    rintro ⟨vs, rest⟩ hsome
    obtain ⟨list, hlist⟩ := operandList?_skipGaps_eq_some_iff.mp hsome
    exact h ⟨list, vs, rest, hlist⟩

theorem any_head?_eq_false_iff {p : Char → Bool} {cs : List Char} :
    cs.head?.any p = false ↔ ∀ c ∈ cs.head?, p c = false := by
  cases cs <;> simp

theorem reported_of_read (h : Line.read line = .error e) : Reported line e := by
  obtain ⟨lead, start, rfl, leading, lead_ends, hparts⟩ := exists_parts line
  cases hletter : start.head?.any Char.isAlpha with
  | false =>
    rw [read_append_of_no_letter leading lead_ends hletter] at h
    cases h
    exact .letterExpected leading lead_ends (any_head?_eq_false_iff.mp hletter)
  | true =>
    obtain ⟨name, list, gap, rest, vs, rfl, named, name_ends, trailing, taken, gaps, gap_ends⟩ :=
      hparts hletter
    rw [read_append leading named name_ends trailing taken gaps gap_ends] at h
    split at h
    · cases h
    · cases h
      exact .leftOver leading named name_ends trailing
        (fun hlist => operandList?_skipGaps_eq_none_iff.mp (taken hlist)) gaps gap_ends

/-- A line that is not in the grammar is rejected with what is reported of it. -/
theorem read_of_reported (hline : ¬ ∃ l, IsLine line l) (h : Reported line e) :
    Line.read line = .error e := by
  cases h with
  | letterExpected leading lead_ends no_letter =>
    exact read_append_of_no_letter leading lead_ends (any_head?_eq_false_iff.mpr no_letter)
  | leftOver leading named name_ends trailing brackets_taken gaps gap_ends =>
    next lead name list gap rest vs =>
    have htaken : list = [] → operandList? (skipGaps (gap ++ rest)) = none := fun hlist =>
      operandList?_skipGaps_eq_none_iff.mpr (brackets_taken hlist)
    -- with nothing left over but a comment, the line would be in the grammar
    have hleft : ¬ rest.head?.all (· == ';') = true := fun hall =>
      hline ⟨_, .mk leading named trailing gaps (comment_of_head? hall)⟩
    rw [read_append leading named name_ends trailing htaken gaps gap_ends, if_neg hleft]

/-- **A line is rejected exactly if it is not in the grammar**, and with what is reported of
it. -/
theorem read_eq_error_iff :
    Line.read line = .error e ↔ (¬ ∃ l, IsLine line l) ∧ Reported line e := by
  constructor
  · intro h
    refine ⟨?_, reported_of_read h⟩
    rintro ⟨l, hl⟩
    rw [read_of_isLine hl] at h
    cases h
  · rintro ⟨hline, hreported⟩
    exact read_of_reported hline hreported

/-- What is reported of a malformed line is the end of it, and not empty.  What is left over does
not start with what the line could have gone on with. -/
theorem input_of_reported (hline : Malformed line) (h : Reported line e) :
    e.input ≠ "" ∧ e.input.toList <:+ line ∧
      ∀ rest, e = .leftOver rest → ∀ c ∈ rest.toList.head?, c ≠ ' ' ∧ c ≠ '\t' ∧ c ≠ ';' := by
  obtain ⟨hblank, hgrammar⟩ := hline
  cases h with
  | letterExpected leading lead_ends no_letter =>
    next lead rest =>
    refine ⟨?_, ?_, nofun⟩
    · -- gaps alone are a blank line
      intro hnil
      have hrest : rest = [] := by simpa [ShapeError.input] using hnil
      refine hblank (isBlank_iff.mp ?_)
      have hwhite : ∀ c ∈ lead, isWhiteSpace c = true := fun c hc =>
        isWhiteSpace_of_isGap (leading c hc)
      rw [hrest, List.append_nil, isBlank, List.dropWhile_eq_nil_iff.mpr hwhite]
    · rw [ShapeError.input, String.toList_ofList]
      exact List.suffix_append lead rest
  | leftOver leading named name_ends trailing brackets_taken gaps gap_ends =>
    next lead name list gap rest vs =>
    have hcomment : ¬ Comment rest := fun hcomment =>
      hgrammar ⟨_, .mk leading named trailing gaps hcomment⟩
    refine ⟨?_, ?_, ?_⟩
    · intro hnil
      have hrest : rest = [] := by simpa [ShapeError.input] using hnil
      exact hcomment (hrest ▸ .none)
    · refine ⟨lead ++ (name ++ (list ++ gap)), ?_⟩
      simp only [ShapeError.input, String.toList_ofList, List.append_assoc]
    · rintro _ ⟨⟩ c hc
      rw [String.toList_ofList] at hc
      have hgap := gap_ends c hc
      refine ⟨?_, ?_, ?_⟩
      · rintro rfl
        cases hgap
      · rintro rfl
        cases hgap
      · rintro rfl
        obtain ⟨rest', rfl⟩ : ∃ rest', rest = ';' :: rest' := List.head?_eq_some_iff.mp hc
        exact hcomment (.some rest')

end Line

/-! ### Rejected texts -/

/-- **A text is rejected for its first malformed line.**  It fails to parse exactly if some line
of it is neither blank nor in the grammar.  The error is then what is reported of the first such
line; neither the lines around it nor the faults in lines of the grammar have any part in it.
It shows the end of that line, which is not empty, and what is left over never starts with a
space, a tab or a semicolon. -/
theorem parse_eq_error_iff_first_malformed (text : String) :
    ((∃ e, parse text = .error e) ↔ ∃ line ∈ lines text.toList, Malformed line) ∧
      (∀ e, parse text = .error e ↔
        ∃ before line after, lines text.toList = before ++ line :: after ∧
          (∀ l ∈ before, ¬ Malformed l) ∧ Malformed line ∧ Reported line e) ∧
      ∀ line e, Malformed line → Reported line e →
        e.input ≠ "" ∧ e.input.toList <:+ line ∧
          ∀ rest, e = .leftOver rest → ∀ c ∈ rest.toList.head?, c ≠ ' ' ∧ c ≠ '\t' ∧ c ≠ ';' := by
  refine ⟨?_, ?_, fun line e => input_of_reported⟩
  · simp only [parse_eq_parseLines, parseLines_eq_error_iff]
    constructor
    · rintro ⟨e, line, hfind, -⟩
      exact ⟨line, List.mem_of_find?_eq_some hfind, by simpa using List.find?_some hfind⟩
    · rintro ⟨line, hmem, hline⟩
      have hsome : ((lines text.toList).find? fun l => Malformed l).isSome :=
        List.find?_isSome.mpr ⟨line, hmem, decide_eq_true hline⟩
      obtain ⟨first, hfirst⟩ := Option.isSome_iff_exists.mp hsome
      have hmalformed : Malformed first := by simpa using List.find?_some hfirst
      obtain ⟨-, e, he⟩ := malformed_iff.mp hmalformed
      exact ⟨e, first, hfirst, he⟩
  · intro e
    rw [parse_eq_parseLines, parseLines_eq_error_iff]
    constructor
    · rintro ⟨line, hfind, hread⟩
      obtain ⟨hline, before, after, hlines, hbefore⟩ := List.find?_eq_some_iff_append.mp hfind
      have hreported := (read_eq_error_iff.mp hread).2
      refine ⟨before, line, after, hlines, ?_, of_decide_eq_true hline, hreported⟩
      intro l hl
      simpa using hbefore l hl
    · rintro ⟨before, line, after, hlines, hbefore, hline, hreported⟩
      refine ⟨line, ?_, read_eq_error_iff.mpr ⟨hline.2, hreported⟩⟩
      rw [List.find?_eq_some_iff_append]
      refine ⟨decide_eq_true hline, before, after, hlines, ?_⟩
      intro l hl
      simpa using hbefore l hl

end OpWord.Assembly
