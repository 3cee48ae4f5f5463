import OpWord.Proofs.Joining

/-!
# Line endings

A line may end with a newline, or with a carriage return and a newline.  It makes no difference to
a text which of the two its lines end with (`parse_withReturns`).

More than that is true: the lines are the same (`lines_withReturns`), so nothing that goes by the
lines can tell the two texts apart, neither the blank lines nor the numbers nor what an error
shows.  It is shown by cutting the text behind its first newline.  The line before it gets a
carriage return at its end and loses it again, as long as it had none there to begin with.  What
follows the last newline gets none and loses none, not even one that stands at the very end.
-/
namespace OpWord

/-- The text with a carriage return put in front of each newline. -/
def withReturns (cs : List Char) : List Char :=
  cs.flatMap fun c => if c = '\n' then ['\r', '\n'] else [c]

section Lines

variable {cs line rest : List Char}

theorem withReturns_of_not_mem (h : '\n' ∉ cs) : withReturns cs = cs := by
  induction cs with
  | nil => rfl
  | cons c cs ih =>
    have hc : c ≠ '\n' := (List.ne_of_not_mem_cons h).symm
    rw [withReturns, List.flatMap_cons, if_neg hc, List.singleton_append]
    exact congrArg (c :: ·) (ih (List.not_mem_of_not_mem_cons h))

/-- The first line gets a carriage return, and so do those that follow. -/
theorem withReturns_append (h : '\n' ∉ line) :
    withReturns (line ++ '\n' :: rest) = line ++ ['\r'] ++ '\n' :: withReturns rest := by
  have hline : line.flatMap (fun c => if c = '\n' then ['\r', '\n'] else [c]) = line :=
    withReturns_of_not_mem h
  rw [withReturns, List.flatMap_append, List.flatMap_cons, if_pos rfl, hline, withReturns]
  simp

/-- A newline ends the first line, less the carriage return before it. -/
theorem lines_append_of_not_mem (h : '\n' ∉ line) :
    lines (line ++ '\n' :: rest) = dropReturn line :: lines rest := by
  rw [lines_append_newline, List.splitOn_eq_singleton h]
  rfl

theorem dropReturn_append_return (line : List Char) : dropReturn (line ++ ['\r']) = line := by
  rw [dropReturn, List.getLast?_concat, if_pos rfl, List.dropLast_concat]

/-- A carriage return at the end of the first line would stand right before the newline. -/
theorem dropReturn_eq_self (h : ¬ ['\r', '\n'] <:+: line ++ '\n' :: rest) :
    dropReturn line = line := by
  refine if_neg fun hlast => h ?_
  obtain ⟨front, rfl⟩ := List.getLast?_eq_some_iff.mp hlast
  exact ⟨front, rest, by simp⟩

/-- **The lines do not depend on how they end.** -/
theorem lines_withReturns (h : ¬ ['\r', '\n'] <:+: cs) : lines (withReturns cs) = lines cs := by
  induction hlength : cs.length using Nat.strongRecOn generalizing cs with
  | ind n ih =>
    by_cases hmem : '\n' ∈ cs
    · obtain ⟨line, rest, rfl, hline⟩ := List.eq_append_cons_of_mem hmem
      have hrest : ¬ ['\r', '\n'] <:+: rest := fun hrest =>
        h (hrest.trans ((List.suffix_cons _ _).trans (List.suffix_append _ _)).isInfix)
      have hshort : rest.length < n := by
        rw [← hlength, List.length_append, List.length_cons]
        omega
      have hreturn : '\n' ∉ line ++ ['\r'] := by simp [hline]
      rw [withReturns_append hline, lines_append_of_not_mem hreturn, dropReturn_append_return,
        lines_append_of_not_mem hline, dropReturn_eq_self h, ih rest.length hshort hrest rfl]
    · rw [withReturns_of_not_mem hmem]

end Lines

namespace Assembly

/-- **Line endings make no difference.**  Take a text in which no carriage return stands right
before a newline; there may be others, also at the very end.  With a carriage return put in front
of each newline it parses to the same items with the same numbers, or it is rejected with the
same error, which shows the same. -/
theorem parse_withReturns {text : String} (h : ¬ ['\r', '\n'] <:+: text.toList) :
    parse (String.ofList (withReturns text.toList)) = parse text := by
  rw [parse_eq_parseLines, parse_eq_parseLines, String.toList_ofList, lines_withReturns h]

/-- Carriage returns at the start of a line and at the very end of the text stay where they
are. -/
theorem parse_withReturns_stray :
    ¬ ['\r', '\n'] <:+: "\r; note\nLOADK (0, 1)\n\nFROB\n\r".toList ∧
      parse (String.ofList (withReturns "\r; note\nLOADK (0, 1)\n\nFROB\n\r".toList)) =
        .ok [.instruction ⟨16385⟩, .diagnostic 4 (.notAnOperation "FROB")] := by
  have hstray : ¬ ['\r', '\n'] <:+: "\r; note\nLOADK (0, 1)\n\nFROB\n\r".toList := by
    simp [List.infix_cons_iff]
  have hparse : parse "\r; note\nLOADK (0, 1)\n\nFROB\n\r" =
      .ok [.instruction ⟨16385⟩, .diagnostic 4 (.notAnOperation "FROB")] := by rfl
  exact ⟨hstray, (parse_withReturns hstray).trans hparse⟩

/-- A second carriage return before a newline would be left in the line. -/
example : parse "MOVE\r\n" = .ok [.instruction ⟨0⟩] ∧
    parse (String.ofList (withReturns "MOVE\r\n".toList)) = .error (.leftOver "\r") :=
  ⟨rfl, rfl⟩

end Assembly
end OpWord
