import OpWord.Proofs.LineByLine

/-!
# Joined texts

Two texts with a newline between them parse as they do apart, one after the other, and the line
numbers of the second go on from those of the first (`parse_append_newline`).  The first error
of the two is the error of the whole.

The joined text is cut at the newlines of the two and at the one between them, so the pieces of
the first come before the lines of the second (`lines_append_newline`).  Now the pieces of a
text are nearly its lines (`map_dropReturn_splitOn`).  They differ at the end, in two ways.  A
text that ends with a newline has an empty piece behind it and no line there; but an empty line
is blank and yields nothing.  And a carriage return at the very end of a text belongs to its last
line, until a newline follows it; this is what has to be excluded.
-/
namespace OpWord

/-! ### Pieces and lines -/

section Pieces

variable {cs ds : List Char}

/-- There is one piece more than there are separators. -/
theorem length_splitOn (sep : Char) (cs : List Char) :
    (cs.splitOn sep).length = cs.count sep + 1 := by
  induction cs with
  | nil => rfl
  | cons c cs ih =>
    rw [List.splitOn_cons_eq_if_modifyHead, List.count_cons]
    split <;> simp [*]

/-- What is joined ends with the last of its pieces. -/
theorem getLast_suffix_intercalate (sep : List Char) {pieces : List (List Char)}
    (hne : pieces ≠ []) : pieces.getLast hne <:+ sep.intercalate pieces := by
  induction pieces with
  | nil => exact absurd rfl hne
  | cons piece pieces ih =>
    cases pieces with
    | nil => simp
    | cons next pieces =>
      rw [List.getLast_cons (List.cons_ne_nil next pieces), List.intercalate_cons_cons]
      exact (ih (List.cons_ne_nil next pieces)).trans (List.suffix_append _ _)

/-- A carriage return at the end of the last piece is one at the end of the text. -/
theorem dropReturn_getLast_splitOn (h : cs.getLast? ≠ some '\r') :
    dropReturn ((cs.splitOn '\n').getLast (List.splitOn_ne_nil '\n' cs)) =
      (cs.splitOn '\n').getLast (List.splitOn_ne_nil '\n' cs) := by
  have hsuffix := getLast_suffix_intercalate ['\n'] (List.splitOn_ne_nil '\n' cs)
  rw [List.intercalate_splitOn] at hsuffix
  obtain ⟨front, hfront⟩ := hsuffix
  refine if_neg fun hreturn => h ?_
  rw [← hfront, List.getLast?_append, hreturn]
  rfl

/-- Apart from an empty piece at the end, the pieces are the lines. -/
theorem map_dropReturn_splitOn (h : cs.getLast? ≠ some '\r') :
    ∃ rest, (cs.splitOn '\n').map dropReturn = lines cs ++ rest ∧ ∀ line ∈ rest, line = [] := by
  have hne := List.splitOn_ne_nil '\n' cs
  have hlast : (cs.splitOn '\n').getLast?.toList = [(cs.splitOn '\n').getLast hne] := by
    rw [List.getLast?_eq_some_getLast hne, Option.toList_some]
  have hpieces : (cs.splitOn '\n').map dropReturn =
      (cs.splitOn '\n').dropLast.map dropReturn ++ [(cs.splitOn '\n').getLast hne] := by
    conv_lhs => rw [← List.dropLast_append_getLast hne]
    rw [List.map_append, List.map_singleton, dropReturn_getLast_splitOn h]
  rw [hpieces, lines, hlast]
  by_cases hnil : (cs.splitOn '\n').getLast hne = []
  · exact ⟨[[]], by simp [hnil], by simp⟩
  · exact ⟨[], by simp [hnil], by simp⟩

/-- A newline in a text ends a piece, and the lines of what follows it come after. -/
theorem lines_append_newline (cs ds : List Char) :
    lines (cs ++ '\n' :: ds) = (cs.splitOn '\n').map dropReturn ++ lines ds := by
  have hne := List.splitOn_ne_nil '\n' ds
  have hlast : (cs.splitOn '\n' ++ ds.splitOn '\n').getLast? = (ds.splitOn '\n').getLast? := by
    rw [List.getLast?_append, List.getLast?_eq_some_getLast hne]
    rfl
  rw [lines, List.splitOn_append_cons_self, lines, hlast, List.dropLast_append_of_ne_nil hne,
    List.map_append, List.append_assoc]

end Pieces

namespace Assembly

/-! ### Parsing the parts -/

/-- Empty lines at the end yield nothing. -/
theorem parseLines_append_of_nil {ls rest : List (List Char)} (h : ∀ line ∈ rest, line = [])
    (first : Nat) : parseLines (ls ++ rest) first = parseLines ls first := by
  have hrest : ∀ number, parseLines rest number = .ok [] := by
    induction rest with
    | nil => exact parseLines_nil
    | cons line rest ih =>
      intro number
      have hblank : isBlank line = true := by
        rw [h line List.mem_cons_self]
        rfl
      rw [parseLines_cons_of_blank hblank]
      exact ih (fun l hl => h l (List.mem_cons_of_mem line hl)) (number + 1)
  rw [parseLines_append, hrest]
  cases parseLines ls first with
  | error e => rfl
  | ok items => exact congrArg Except.ok (List.append_nil items)

/-- **Joined texts parse one after the other.**  The lines of the second text are numbered on
from those of the first, an unfinished line at the end of the first among them. -/
theorem parse_append_newline {s : String} (hs : s.toList.getLast? ≠ some '\r') (t : String) :
    parse (s ++ "\n" ++ t) = (do
      let items ← parse s
      let items' ← parse t
      return items ++ items'.map (Item.raise (s.toList.count '\n' + 1))) := by
  have htext : (s ++ "\n" ++ t).toList = s.toList ++ '\n' :: t.toList := by
    simp [String.toList_append]
  have hlength : ((s.toList.splitOn '\n').map dropReturn).length = s.toList.count '\n' + 1 := by
    rw [List.length_map, length_splitOn]
  obtain ⟨rest, hpieces, hrest⟩ := map_dropReturn_splitOn hs
  rw [parse_eq_parseLines, htext, lines_append_newline, parseLines_append, hlength,
    parseLines_add, hpieces, parseLines_append_of_nil hrest, parse_eq_parseLines s,
    parse_eq_parseLines t]
  cases parseLines (lines s.toList) 1 with
  | error e => rfl
  | ok items => cases parseLines (lines t.toList) 1 <;> rfl

/-- **Parsing is a homomorphism for joining texts.**  If the first text does not parse, the
joined text has its error, and if only the second does not, it has the error of that one.  If
both parse, the items are those of the first and then those of the second, with the numbers in
its diagnostics raised by the number of lines before it, and nothing else changed.  A newline at
the end of a text makes no difference. -/
theorem parse_joined {s : String} (hs : s.toList.getLast? ≠ some '\r') (t : String) :
    (∀ e, parse s = .error e → parse (s ++ "\n" ++ t) = .error e) ∧
      (∀ items e, parse s = .ok items → parse t = .error e →
        parse (s ++ "\n" ++ t) = .error e) ∧
      (∀ items items', parse s = .ok items → parse t = .ok items' →
        parse (s ++ "\n" ++ t) =
          .ok (items ++ items'.map (Item.raise (s.toList.count '\n' + 1)))) ∧
      parse (s ++ "\n") = parse s := by
  rw [parse_append_newline hs t]
  refine ⟨?_, ?_, ?_, ?_⟩
  · intro e h
    rw [h]
    rfl
  · intro items e h h'
    rw [h, h']
    rfl
  · intro items items' h h'
    rw [h, h']
    rfl
  · have hempty := parse_append_newline hs ""
    rw [String.append_empty] at hempty
    rw [hempty]
    cases parse s with
    | error e => rfl
    | ok items => exact congrArg Except.ok (List.append_nil items)

/-- The first text ends with a newline of its own, and the second with a line that has none. -/
theorem parse_joined_faults :
    ("LOADK (0, 1)\r\nFROB\n".toList.getLast? ≠ some '\r' ∧
        parse "LOADK (0, 1)\r\nFROB\n" =
          .ok [.instruction ⟨16385⟩, .diagnostic 2 (.notAnOperation "FROB")] ∧
        parse "; note\nNULL" = .ok [.diagnostic 2 (.notAnOperation "NULL")]) ∧
      parse ("LOADK (0, 1)\r\nFROB\n" ++ "\n" ++ "; note\nNULL") =
        .ok [.instruction ⟨16385⟩, .diagnostic 2 (.notAnOperation "FROB"),
          .diagnostic 5 (.notAnOperation "NULL")] := by
  have hend : "LOADK (0, 1)\r\nFROB\n".toList.getLast? ≠ some '\r' := by decide
  have hfirst : parse "LOADK (0, 1)\r\nFROB\n" =
      .ok [.instruction ⟨16385⟩, .diagnostic 2 (.notAnOperation "FROB")] := by rfl
  have hsecond : parse "; note\nNULL" = .ok [.diagnostic 2 (.notAnOperation "NULL")] := by rfl
  exact ⟨⟨hend, hfirst, hsecond⟩, (parse_joined hend "; note\nNULL").2.2.1 _ _ hfirst hsecond⟩

end Assembly
end OpWord
