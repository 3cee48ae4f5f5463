import OpWord.Proofs.Grammar

/-!
# Lines are read by the grammar

`read_eq_ok_iff`: a line is read exactly if it is in the grammar, and as what the grammar says.

It is proved part by part, from the inside out, and each part has one lemma for the two
directions.  Integers are read as far as digits go.  An operand is a piece between commas with
gaps on either side.  Commas and closing brackets stand in no operand, so that cutting at them
finds the pieces of the grammar.

A whole line is cut at the places where its parts cannot go on, a name for one where no letter
and no digit follows it (`leadingName?_append`).  Every line has such parts
(`exists_parts`), these are the parts that the reader finds, and whether it accepts the line
depends on what follows them (`read_append`, `read_append_of_no_letter`).
-/
namespace OpWord.Assembly

open Grammar

/-! ### Integers -/

theorem exists_of_readNat? {cs rest : List Char} {n : Nat}
    (h : Numeral.readNat? cs = some (n, rest)) :
    ∃ ds, Digits ds n ∧ cs = ds ++ rest ∧ ∀ c ∈ rest.head?, c.isDigit = false := by
  rw [Numeral.readNat?] at h
  split at h
  · cases h
  · next hne =>
    cases h
    exact ⟨_, ⟨hne, fun _ => List.mem_takeWhile_imp⟩, List.takeWhile_append_dropWhile.symm,
      head?_dropWhile_eq_false _ _⟩

theorem readDecimal?_append {cs rest : List Char} {v : Int} (h : Integer cs v)
    (hr : ∀ c ∈ rest.head?, c.isDigit = false) :
    Numeral.readDecimal? (cs ++ rest) = some (v, rest) := by
  cases h with
  | nonneg digits =>
    obtain ⟨hne, hds⟩ := digits
    exact Numeral.readDecimal?_append_of_digits hne hds hr
  | minus digits =>
    obtain ⟨hne, hds⟩ := digits
    exact Numeral.readDecimal?_minus_append hne hds hr

theorem exists_of_readDecimal? {cs rest : List Char} {v : Int}
    (h : Numeral.readDecimal? cs = some (v, rest)) :
    ∃ text, Integer text v ∧ cs = text ++ rest ∧
      ∀ c ∈ rest.head?, c.isDigit = false := by
  rw [Numeral.readDecimal?.eq_def] at h
  split at h
  · obtain ⟨⟨n, rest'⟩, hread, he⟩ := Option.map_eq_some_iff.mp h
    cases he
    obtain ⟨ds, hds, rfl, hr⟩ := exists_of_readNat? hread
    exact ⟨'-' :: ds, .minus hds, rfl, hr⟩
  · obtain ⟨⟨n, rest'⟩, hread, he⟩ := Option.map_eq_some_iff.mp h
    cases he
    obtain ⟨ds, hds, rfl, hr⟩ := exists_of_readNat? hread
    exact ⟨ds, .nonneg hds, rfl, hr⟩

/-! ### Operands -/

theorem skipGaps_append {g rest : List Char} (hg : Gaps g)
    (hr : ∀ c ∈ rest.head?, isGap c = false) : skipGaps (g ++ rest) = rest :=
  dropWhile_append_eq_right hg hr

/-- An integer starts with a sign or a digit, so with no gap. -/
theorem exists_cons_of_integer {cs : List Char} {v : Int} (h : Integer cs v) :
    ∃ c cs', cs = c :: cs' ∧ isGap c = false := by
  cases h with
  | nonneg digits =>
    obtain ⟨hne, hds⟩ := digits
    obtain ⟨d, ds, rfl⟩ := List.exists_cons_of_ne_nil hne
    exact ⟨d, ds, rfl, isGap_of_isAlphanum (isAlphanum_of_isDigit (hds d List.mem_cons_self))⟩
  | @minus ds n digits => exact ⟨'-', ds, rfl, rfl⟩

theorem isOperandValue_iff {v : Int} :
    isOperandValue v = true ↔ -2 ^ 63 ≤ v ∧ v ≤ 2 ^ 63 - 1 := by
  have hmin : Int64.minValue.toInt = -2 ^ 63 := rfl
  have hmax : Int64.maxValue.toInt = 2 ^ 63 - 1 := rfl
  rw [isOperandValue, Bool.and_eq_true, decide_eq_true_eq, decide_eq_true_eq, hmin, hmax]

theorem operand?_eq_some_iff {piece : List Char} {v : Int} :
    operand? piece = some v ↔
      ∃ g cs g', piece = g ++ (cs ++ g') ∧ Gaps g ∧ Number cs v ∧ Gaps g' := by
  rw [operand?]
  constructor
  · intro h
    obtain ⟨g, rest, rfl, -, hskip, hg, -⟩ := exists_run isGap piece
    rw [skipGaps, hskip] at h
    split at h
    · next v' rest' hread =>
      split at h
      · next hok =>
        cases h
        obtain ⟨hval, hrest⟩ := Bool.and_eq_true_iff.mp hok
        obtain ⟨low, high⟩ := isOperandValue_iff.mp hval
        obtain ⟨cs, hcs, rfl, -⟩ := exists_of_readDecimal? hread
        exact ⟨g, cs, rest', rfl, hg, ⟨hcs, low, high⟩, List.all_eq_true.mp hrest⟩
      · cases h
    · cases h
  · rintro ⟨g, cs, g', rfl, hg, ⟨hcs, low, high⟩, hg'⟩
    have hdigit : ∀ c ∈ g'.head?, c.isDigit = false := fun c hc =>
      isDigit_of_isGap (hg' c (List.mem_of_mem_head? hc))
    have hfirst : ∀ c ∈ (cs ++ g').head?, isGap c = false := by
      obtain ⟨d, ds, rfl, hd⟩ := exists_cons_of_integer hcs
      rintro c ⟨⟩
      exact hd
    rw [skipGaps_append hg hfirst, readDecimal?_append hcs hdigit]
    have hok : (isOperandValue v && g'.all isGap) = true :=
      Bool.and_eq_true_iff.mpr ⟨isOperandValue_iff.mpr ⟨low, high⟩, List.all_eq_true.mpr hg'⟩
    exact if_pos hok

/-! ### Between the brackets -/

theorem not_mem_integer {cs : List Char} {v : Int} {d : Char} (h : Integer cs v)
    (hdigit : d.isDigit = false) (hminus : d ≠ '-') : d ∉ cs := by
  cases h with
  | nonneg digits =>
    obtain ⟨-, hds⟩ := digits
    exact not_mem_of_forall hds hdigit
  | minus digits =>
    obtain ⟨-, hds⟩ := digits
    exact List.not_mem_cons_of_ne_of_not_mem hminus (not_mem_of_forall hds hdigit)

theorem comma_not_mem_piece {g cs g' : List Char} {v : Int} (hg : Gaps g) (hcs : Number cs v)
    (hg' : Gaps g') : ',' ∉ g ++ (cs ++ g') := by
  rw [List.mem_append, List.mem_append]
  rintro (h | h | h)
  · exact not_mem_of_forall hg rfl h
  · exact not_mem_integer hcs.integer rfl (by decide) h
  · exact not_mem_of_forall hg' rfl h

/-- The pieces between commas are operands with gaps around them. -/
theorem mapM_operand?_splitOn {cs : List Char} {vs : List Int} (h : Operands cs vs)
    {g g' : List Char} (hg : Gaps g) (hg' : Gaps g') :
    ((g ++ (cs ++ g')).splitOn ',').mapM operand? = some vs := by
  induction h generalizing g g' with
  | @one cs v number =>
    rw [List.splitOn_eq_singleton (comma_not_mem_piece hg number hg'), List.mapM_cons,
      operand?_eq_some_iff.mpr ⟨g, cs, g', rfl, hg, number, hg'⟩]
    rfl
  | @cons cs g₁ g₂ rest v vs number before after operands ih =>
    have hcomma := comma_not_mem_piece hg number before
    have hshape : g ++ (cs ++ g₁ ++ ',' :: (g₂ ++ rest) ++ g') =
        g ++ (cs ++ g₁) ++ ',' :: (g₂ ++ (rest ++ g')) := by
      simp only [List.append_assoc, List.cons_append]
    rw [hshape, List.splitOn_append_cons_self_of_not_mem hcomma, List.mapM_cons,
      operand?_eq_some_iff.mpr ⟨g, cs, g₁, rfl, hg, number, before⟩, ih after hg']
    rfl

/-- Operands with gaps around them are what the pieces between commas make up.  The induction is
on the pieces: the gap after an operand and the one at the front of the next piece stand on the
two sides of a comma. -/
theorem exists_operands_of_mapM {pieces : List (List Char)} {vs : List Int} (hne : pieces ≠ [])
    (h : pieces.mapM operand? = some vs) :
    ∃ g cs g', [','].intercalate pieces = g ++ (cs ++ g') ∧ Gaps g ∧ Operands cs vs ∧ Gaps g' := by
  induction pieces generalizing vs with
  | nil => exact absurd rfl hne
  | cons piece pieces ih =>
    rw [List.mapM_cons] at h
    obtain ⟨v, hv, h⟩ := Option.bind_eq_some_iff.mp h
    obtain ⟨vs', hvs, h⟩ := Option.bind_eq_some_iff.mp h
    cases h
    obtain ⟨g, cs, g₁, rfl, hg, hcs, hg₁⟩ := operand?_eq_some_iff.mp hv
    cases pieces with
    | nil =>
      cases hvs
      exact ⟨g, cs, g₁, List.intercalate_singleton, hg, .one hcs, hg₁⟩
    | cons next pieces =>
      -- `g₁` ends this piece and `g₂` starts the next one, with a comma between them
      obtain ⟨g₂, rest, g', hrest, hg₂, hoperands, hg'⟩ := ih (List.cons_ne_nil _ _) hvs
      refine ⟨g, cs ++ g₁ ++ ',' :: (g₂ ++ rest), g', ?_, hg, .cons hcs hg₁ hg₂ hoperands, hg'⟩
      rw [List.intercalate_cons_cons, hrest]
      simp only [List.append_assoc, List.cons_append, List.nil_append]

theorem exists_cons_of_operands {cs : List Char} {vs : List Int} (h : Operands cs vs) :
    ∃ c cs', cs = c :: cs' ∧ isGap c = false := by
  cases h with
  | one number => exact exists_cons_of_integer number.integer
  | cons number _ _ _ =>
    obtain ⟨c, cs', rfl, hc⟩ := exists_cons_of_integer number.integer
    exact ⟨c, _, rfl, hc⟩

theorem operands?_eq_some_iff {inside : List Char} {vs : List Int} :
    operands? inside = some vs ↔ Inside inside vs := by
  rw [operands?]
  constructor
  · intro h
    split at h
    · next hall =>
      cases h
      exact .none (List.all_eq_true.mp hall)
    · obtain ⟨g, cs, g', hinside, hg, hcs, hg'⟩ :=
        exists_operands_of_mapM (List.splitOn_ne_nil ',' inside) h
      rw [List.intercalate_splitOn] at hinside
      rw [hinside, ← List.append_assoc]
      exact .some hg hcs hg'
  · intro h
    cases h with
    | none gaps => exact if_pos (List.all_eq_true.mpr gaps)
    | @some g cs g' vs before operands after =>
      have hnot : ¬ (g ++ cs ++ g').all isGap = true := by
        obtain ⟨c, cs', rfl, hc⟩ := exists_cons_of_operands operands
        intro hall
        have hgap := List.all_eq_true.mp hall c (by simp)
        rw [hc] at hgap
        cases hgap
      rw [if_neg hnot, List.append_assoc]
      exact mapM_operand?_splitOn operands before after

/-- No bracket closes inside the brackets. -/
theorem bracket_not_mem_operands {cs : List Char} {vs : List Int} (h : Operands cs vs) :
    ')' ∉ cs := by
  induction h with
  | one number => exact not_mem_integer number.integer rfl (by decide)
  | cons number before after operands ih =>
    simp only [List.mem_append, List.mem_cons]
    rintro ((h | h) | h | h | h)
    · exact not_mem_integer number.integer rfl (by decide) h
    · exact not_mem_of_forall before rfl h
    · exact absurd h (by decide)
    · exact not_mem_of_forall after rfl h
    · exact ih h

theorem bracket_not_mem_inside {cs : List Char} {vs : List Int} (h : Inside cs vs) :
    ')' ∉ cs := by
  cases h with
  | none gaps => exact not_mem_of_forall gaps rfl
  | some before operands after =>
    rw [List.mem_append, List.mem_append]
    rintro ((h | h) | h)
    · exact not_mem_of_forall before rfl h
    · exact bracket_not_mem_operands operands h
    · exact not_mem_of_forall after rfl h

/-! ### The brackets -/

/-- The first bracket that closes is the one that ends the operands. -/
theorem operandList?_eq_some_iff {cs rest : List Char} {vs : List Int} :
    operandList? cs = some (vs, rest) ↔
      ∃ inside, cs = '(' :: (inside ++ ')' :: rest) ∧ Inside inside vs := by
  constructor
  · intro h
    rw [operandList?.eq_def] at h
    split at h
    · next cs =>
      obtain ⟨inside, rest', hcs, htake, hdrop, -, hstop⟩ := exists_run (· != ')') cs
      rw [htake, hdrop] at h
      cases rest' with
      | nil => cases h
      | cons c rest' =>
        obtain ⟨vs', hvs, he⟩ := Option.map_eq_some_iff.mp h
        cases he
        -- what ended the run is the closing bracket
        have hc : c = ')' := bne_eq_false_iff_eq.mp (hstop c rfl)
        exact ⟨inside, by rw [hcs, hc], operands?_eq_some_iff.mp hvs⟩
    · cases h
  · rintro ⟨inside, rfl, h⟩
    have hinside : ∀ c ∈ inside, (c != ')') = true := by
      intro c hc
      exact bne_iff_ne.mpr fun heq => bracket_not_mem_inside h (heq ▸ hc)
    have hstop : ∀ c ∈ (')' :: rest).head?, (c != ')') = false := by
      rintro c ⟨⟩
      rfl
    rw [operandList?, takeWhile_append_eq_left hinside hstop,
      dropWhile_append_eq_right hinside hstop, operands?_eq_some_iff.mpr h]
    rfl

/-- Brackets with gaps in front are found exactly if the text starts with them. -/
theorem operandList?_skipGaps_eq_some_iff {cs rest : List Char} {vs : List Int} :
    operandList? (skipGaps cs) = some (vs, rest) ↔
      ∃ list, list ≠ [] ∧ Trailing list vs ∧ cs = list ++ rest := by
  constructor
  · intro h
    obtain ⟨inside, hinside, hcontent⟩ := operandList?_eq_some_iff.mp h
    obtain ⟨g, rest', rfl, -, hskip, hg, -⟩ := exists_run isGap cs
    rw [skipGaps, hskip] at hinside
    refine ⟨g ++ '(' :: (inside ++ [')']), by simp, .brackets hg hcontent, ?_⟩
    rw [hinside]
    simp only [List.append_assoc, List.cons_append, List.nil_append]
  · rintro ⟨list, hne, htrailing, rfl⟩
    cases htrailing with
    | none => exact absurd rfl hne
    | @brackets g inside vs gaps content =>
      have hshape :
          g ++ '(' :: (inside ++ [')']) ++ rest = g ++ '(' :: (inside ++ ')' :: rest) := by
        simp only [List.append_assoc, List.cons_append, List.nil_append]
      have hstop : ∀ c ∈ ('(' :: (inside ++ ')' :: rest)).head?, isGap c = false := by
        rintro c ⟨⟩
        rfl
      rw [hshape, skipGaps_append gaps hstop]
      exact operandList?_eq_some_iff.mpr ⟨inside, rfl, content⟩

/-- What follows a name is taken as far as the grammar allows.  If the brackets are not well
formed, nothing is taken, not even the gaps in front of them. -/
theorem trailingOperands_append {list rest : List Char} {vs : List Int} (h : Trailing list vs)
    (hr : list = [] → operandList? (skipGaps rest) = none) :
    trailingOperands (list ++ rest) = (vs, rest) := by
  rw [trailingOperands]
  cases h with
  | none => rw [List.nil_append, hr rfl, Option.getD_none]
  | brackets gaps content =>
    rw [operandList?_skipGaps_eq_some_iff.mpr ⟨_, by simp, .brackets gaps content, rfl⟩,
      Option.getD_some]

/-- There is always a part that is taken, if only the empty one. -/
theorem exists_trailing (cs : List Char) :
    ∃ list vs rest, cs = list ++ rest ∧ Trailing list vs ∧
      (list = [] → operandList? (skipGaps rest) = none) := by
  cases h : operandList? (skipGaps cs) with
  | none => exact ⟨[], [], cs, rfl, .none, fun _ => h⟩
  | some found =>
    obtain ⟨vs, rest⟩ := found
    obtain ⟨list, hne, htrailing, rfl⟩ := operandList?_skipGaps_eq_some_iff.mp h
    exact ⟨list, vs, rest, rfl, htrailing, fun hnil => absurd hnil hne⟩

/-! ### Lines -/

/-- What a comment starts with, if there is one. -/
theorem head?_comment {comment : List Char} (h : Comment comment) :
    ∀ c ∈ comment.head?, c = ';' := by
  cases h with
  | none => rintro c ⟨⟩
  | some cs =>
    rintro c ⟨⟩
    rfl

theorem isGap_head?_comment {comment : List Char} (h : Comment comment) :
    ∀ c ∈ comment.head?, isGap c = false := by
  intro c hc
  rw [head?_comment h c hc]
  rfl

theorem skipGaps_comment {gap comment : List Char} (hg : Gaps gap) (hc : Comment comment) :
    skipGaps (gap ++ comment) = comment :=
  skipGaps_append hg (isGap_head?_comment hc)

/-- A name ends where the grammar lets it end: neither a gap, a bracket nor a comment goes on as
a name does. -/
theorem head?_trailing {list gap comment : List Char} {vs : List Int} (h : Trailing list vs)
    (hg : Gaps gap) (hc : Comment comment) :
    ∀ c ∈ (list ++ (gap ++ comment)).head?, c.isAlphanum = false := by
  intro c hmem
  have hgaps : ∀ {g rest : List Char}, Gaps g → (∀ c ∈ rest.head?, c.isAlphanum = false) →
      c ∈ (g ++ rest).head? → c.isAlphanum = false := by
    intro g rest hg hrest hmem
    cases g with
    | nil => exact hrest c hmem
    | cons d g =>
      cases hmem
      exact isAlphanum_of_isGap (hg c List.mem_cons_self)
  cases h with
  | none =>
    refine hgaps hg ?_ hmem
    intro c hcomment
    rw [head?_comment hc c hcomment]
    rfl
  | brackets gaps content =>
    rw [List.append_assoc] at hmem
    refine hgaps gaps ?_ hmem
    rintro c ⟨⟩
    rfl

/-- A name starts with a letter, so with no gap. -/
theorem isGap_head?_name {name : List Char} (h : Name name) (rest : List Char) :
    ∀ c ∈ (name ++ rest).head?, isGap c = false := by
  obtain ⟨letter, -⟩ := h
  rintro c ⟨⟩
  exact isGap_of_isAlphanum (isAlphanum_of_isAlpha letter)

/-- A name is taken to the place where it cannot go on. -/
theorem leadingName?_append {name rest : List Char} (h : Name name)
    (hstop : ∀ c ∈ rest.head?, c.isAlphanum = false) :
    leadingName? (name ++ rest) = some (name, rest) := by
  have hname := isAlphanum_of_name h
  obtain ⟨letter, -⟩ := h
  rw [leadingName?, takeWhile_append_eq_left hname hstop, dropWhile_append_eq_right hname hstop]
  exact if_pos letter

/-- The parts of a line are found if each is as long as it can be, and what follows them
decides. -/
theorem read_append {lead name list gap rest : List Char} {vs : List Int} (leading : Gaps lead)
    (named : Name name) (name_ends : ∀ c ∈ (list ++ (gap ++ rest)).head?, c.isAlphanum = false)
    (trailing : Trailing list vs)
    (taken : list = [] → operandList? (skipGaps (gap ++ rest)) = none) (gaps : Gaps gap)
    (gap_ends : ∀ c ∈ rest.head?, isGap c = false) :
    Line.read (lead ++ (name ++ (list ++ (gap ++ rest)))) =
      if rest.head?.all (· == ';') then .ok { name := String.ofList name, operands := vs }
      else .error (.leftOver (String.ofList rest)) := by
  have hstart := isGap_head?_name named (list ++ (gap ++ rest))
  rw [Line.read, skipGaps_append leading hstart, leadingName?_append named name_ends]
  dsimp only
  rw [trailingOperands_append trailing taken]
  dsimp only
  rw [skipGaps_append gaps gap_ends]

/-- Where no letter follows the gaps in front, no name is found. -/
theorem read_append_of_no_letter {lead rest : List Char} (leading : Gaps lead)
    (lead_ends : ∀ c ∈ rest.head?, isGap c = false)
    (no_letter : rest.head?.any Char.isAlpha = false) :
    Line.read (lead ++ rest) = .error (.letterExpected (String.ofList rest)) := by
  have hnone : leadingName? rest = none := if_neg (Bool.eq_false_iff.mp no_letter)
  rw [Line.read, skipGaps_append leading lead_ends, hnone]

theorem read_of_isLine {line : List Char} {l : Line} (h : IsLine line l) :
    Line.read line = .ok l := by
  obtain ⟨leading, named, trailing, gaps, commented⟩ := h
  next lead name list gap comment vs =>
  -- where the name is all there is, neither an end nor a comment passes for brackets
  have htaken : list = [] → operandList? (skipGaps (gap ++ comment)) = none := by
    rintro -
    rw [skipGaps_comment gaps commented]
    cases commented <;> rfl
  have hend : comment.head?.all (· == ';') = true := by
    cases commented <;> rfl
  rw [read_append leading named (head?_trailing trailing gaps commented) trailing htaken gaps
    (isGap_head?_comment commented), if_pos hend]

/-- A run of letters and digits is a name if a letter is what the text starts with. -/
theorem name_of_head? {name after : List Char} (hname : ∀ c ∈ name, c.isAlphanum)
    (hstop : ∀ c ∈ after.head?, c.isAlphanum = false)
    (hletter : (name ++ after).head?.any Char.isAlpha = true) : Name name := by
  cases name with
  | nil =>
    obtain ⟨c, hc, hletter⟩ := (Option.any_eq_true _ _).mp hletter
    have hno := hstop c hc
    rw [isAlphanum_of_isAlpha hletter] at hno
    cases hno
  | cons c cs =>
    exact ⟨by simpa using hletter, fun d hd => hname d (List.mem_cons_of_mem c hd)⟩

/-- Every line has gaps in front, and behind them, if a letter follows, the parts that are
read. -/
theorem exists_parts (line : List Char) :
    ∃ lead start, line = lead ++ start ∧ Gaps lead ∧ (∀ c ∈ start.head?, isGap c = false) ∧
      (start.head?.any Char.isAlpha = true →
        ∃ name list gap rest vs, start = name ++ (list ++ (gap ++ rest)) ∧ Name name ∧
          (∀ c ∈ (list ++ (gap ++ rest)).head?, c.isAlphanum = false) ∧ Trailing list vs ∧
          (list = [] → operandList? (skipGaps (gap ++ rest)) = none) ∧ Gaps gap ∧
          ∀ c ∈ rest.head?, isGap c = false) := by
  obtain ⟨lead, start, hline, -, -, hlead, hlead_ends⟩ := exists_run isGap line
  refine ⟨lead, start, hline, hlead, hlead_ends, fun hletter => ?_⟩
  obtain ⟨name, after, rfl, -, -, hname, hname_ends⟩ := exists_run Char.isAlphanum start
  obtain ⟨list, vs, rest, rfl, htrailing, htaken⟩ := exists_trailing after
  obtain ⟨gap, rest, rfl, -, -, hgap, hgap_ends⟩ := exists_run isGap rest
  exact ⟨name, list, gap, rest, vs, rfl, name_of_head? hname hname_ends hletter, hname_ends,
    htrailing, htaken, hgap, hgap_ends⟩

theorem comment_of_head? {cs : List Char} (h : cs.head?.all (· == ';') = true) : Comment cs := by
  cases cs with
  | nil => exact .none
  | cons c cs =>
    have hc : c = ';' := by simpa using h
    rw [hc]
    exact .some cs

theorem isLine_of_read {line : List Char} {l : Line} (h : Line.read line = .ok l) :
    IsLine line l := by
  obtain ⟨lead, start, rfl, leading, lead_ends, hparts⟩ := exists_parts line
  cases hletter : start.head?.any Char.isAlpha with
  | false =>
    rw [read_append_of_no_letter leading lead_ends hletter] at h
    cases h
  | true =>
    obtain ⟨name, list, gap, rest, vs, rfl, named, name_ends, trailing, taken, gaps, gap_ends⟩ :=
      hparts hletter
    rw [read_append leading named name_ends trailing taken gaps gap_ends] at h
    split at h
    · next hend =>
      cases h
      exact .mk leading named trailing gaps (comment_of_head? hend)
    · cases h

/-- **A line is read exactly if it is in the grammar**, and as what the grammar says. -/
theorem read_eq_ok_iff {line : List Char} {l : Line} :
    Line.read line = .ok l ↔ IsLine line l :=
  ⟨isLine_of_read, read_of_isLine⟩

end OpWord.Assembly
