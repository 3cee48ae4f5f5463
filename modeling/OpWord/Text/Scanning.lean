/-!
# Lines, blank space and runs

What a text is cut into before anything in it is read.

* `lines` cuts a text at its newlines.  A newline ends a line, so nothing follows the last one of
  a text that ends with it.  A carriage return directly before a newline belongs to the line's
  end and not to the line.  In what follows the last newline a carriage return has no such
  meaning and stays.
* Two classes of characters stand for empty space.  `isGap` is the space and the tab, which may
  stand between the parts of a line.  `isWhiteSpace` are the characters with the Unicode property
  `White_Space`, and a line with no others is blank.  The first class lies in the second
  (`isWhiteSpace_of_isGap`).
* A run is what a text starts with for as long as its characters are of one class.
  `List.takeWhile` gives the run and `List.dropWhile` what follows it, which does not go on as
  the run does (`head?_dropWhile_eq_false`).

A text that is put together of a run and of something that does not go on in this way is cut at
the same place again (`takeWhile_append_eq_left`, `dropWhile_append_eq_right`), and every text
is put together so (`exists_run`).
-/
namespace OpWord

/-! ### Lines -/

/-- A line without the carriage return at its end, if one is there. -/
def dropReturn (line : List Char) : List Char :=
  if line.getLast? = some '\r' then line.dropLast else line

/-- The lines of a text. -/
def lines (cs : List Char) : List (List Char) :=
  let pieces := cs.splitOn '\n'
  pieces.dropLast.map dropReturn ++ pieces.getLast?.toList.filter (· ≠ [])

/-! ### Blank space -/

/-- The code points with the property `White_Space`, in runs: the first and the last of each. -/
def whiteSpaceRuns : List (Nat × Nat) :=
  [(0x0009, 0x000D), (0x0020, 0x0020), (0x0085, 0x0085), (0x00A0, 0x00A0), (0x1680, 0x1680),
   (0x2000, 0x200A), (0x2028, 0x2029), (0x202F, 0x202F), (0x205F, 0x205F), (0x3000, 0x3000)]

/-- Whether a character has the property `White_Space`. -/
def isWhiteSpace (c : Char) : Bool :=
  whiteSpaceRuns.any fun (first, last) => first ≤ c.toNat && c.toNat ≤ last

/-- Whether a character is a space or a tab. -/
def isGap (c : Char) : Bool :=
  c == ' ' || c == '\t'

theorem isWhiteSpace_of_isGap {c : Char} (h : isGap c) : isWhiteSpace c := by
  rw [isGap, Bool.or_eq_true, beq_iff_eq, beq_iff_eq] at h
  obtain rfl | rfl := h <;> decide

/-- What follows the spaces and tabs at the front. -/
def skipGaps (cs : List Char) : List Char :=
  cs.dropWhile isGap

/-! ### Runs -/

section Run

variable {p : Char → Bool} {cs rest : List Char}

theorem takeWhile_append_eq_left (h : ∀ c ∈ cs, p c) (hr : ∀ c ∈ rest.head?, p c = false) :
    (cs ++ rest).takeWhile p = cs := by
  rw [List.takeWhile_append_of_pos h]
  cases rest with
  | nil => rw [List.takeWhile_nil, List.append_nil]
  | cons c rest =>
    rw [List.takeWhile_cons_of_neg (by simp [hr c rfl]), List.append_nil]

theorem dropWhile_append_eq_right (h : ∀ c ∈ cs, p c) (hr : ∀ c ∈ rest.head?, p c = false) :
    (cs ++ rest).dropWhile p = rest := by
  rw [List.dropWhile_append_of_pos h]
  cases rest with
  | nil => rfl
  | cons c rest => rw [List.dropWhile_cons_of_neg (by simp [hr c rfl])]

/-- What a run leaves does not go on as the run does. -/
theorem head?_dropWhile_eq_false (p : Char → Bool) (cs : List Char) :
    ∀ c ∈ (cs.dropWhile p).head?, p c = false := by
  intro c hc
  have h := List.head?_dropWhile_not p cs
  rw [hc] at h
  exact h

/-- A run from the front splits the text. -/
theorem exists_run (p : Char → Bool) (cs : List Char) :
    ∃ run rest, cs = run ++ rest ∧ cs.takeWhile p = run ∧ cs.dropWhile p = rest ∧
      (∀ c ∈ run, p c) ∧ ∀ c ∈ rest.head?, p c = false :=
  ⟨cs.takeWhile p, cs.dropWhile p, List.takeWhile_append_dropWhile.symm, rfl, rfl,
    List.all_eq_true.mp List.all_takeWhile, head?_dropWhile_eq_false p cs⟩

end Run
end OpWord
