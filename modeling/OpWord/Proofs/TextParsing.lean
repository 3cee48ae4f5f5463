import Mathlib.Data.List.DropRight
import Mathlib.Data.List.Forall2
import OpWord.Assembly.Program
import OpWord.Proofs.LineReading

/-!
# Texts are parsed by the grammar

A text parses exactly if each of its lines is blank or in the grammar of a line
(`parse_iff_grammar`), and then it yields one item for each line that is not blank, in order,
made of the line's number, its name as it is spelled and the values of its operands.

Blank is meant in the wide sense here: white space of any kind is taken off both ends of the
line, and nothing or a comment is left (`Blank`).  The two classes of lines share no line, since
a name starts with a letter (`not_blank_of_isLine`).
-/
namespace OpWord.Assembly

open Grammar

/-! ### Blank lines -/

/-- A line without the white space at both ends. -/
def trim (line : List Char) : List Char :=
  (line.dropWhile isWhiteSpace).rdropWhile isWhiteSpace

/-- Nothing is left of the line when it is trimmed, or a comment. -/
def Blank (line : List Char) : Prop :=
  trim line = [] ∨ ∃ rest, trim line = ';' :: rest

/-- Trimming the end keeps what the line starts with. -/
theorem exists_trim_eq_cons {line rest : List Char} {c : Char}
    (h : line.dropWhile isWhiteSpace = c :: rest) : ∃ rest', trim line = c :: rest' := by
  have hc : isWhiteSpace c = false := by
    apply head?_dropWhile_eq_false isWhiteSpace line
    rw [h]
    rfl
  obtain ⟨suffix, hsuffix⟩ := List.rdropWhile_prefix isWhiteSpace (l := c :: rest)
  rw [trim, h]
  cases htrim : (c :: rest).rdropWhile isWhiteSpace with
  | nil =>
    -- `c` itself is not white space, so it is not trimmed away
    have hall := List.rdropWhile_eq_nil_iff.mp htrim c List.mem_cons_self
    rw [hc] at hall
    cases hall
  | cons d rest' =>
    rw [htrim] at hsuffix
    rw [(List.cons.inj hsuffix).1]
    exact ⟨rest', rfl⟩

theorem isBlank_iff {line : List Char} : isBlank line = true ↔ Blank line := by
  rw [isBlank, Blank]
  cases h : line.dropWhile isWhiteSpace with
  | nil =>
    have htrim : trim line = [] := by
      rw [trim, h]
      exact List.rdropWhile_nil _
    exact ⟨fun _ => Or.inl htrim, fun _ => rfl⟩
  | cons c rest =>
    obtain ⟨rest', htrim⟩ := exists_trim_eq_cons h
    rw [htrim]
    constructor
    · intro hc
      exact Or.inr ⟨rest', by rw [beq_iff_eq.mp hc]⟩
    · rintro (hnil | ⟨rest'', hcons⟩)
      · cases hnil
      · exact beq_iff_eq.mpr (List.cons.inj hcons).1

instance : DecidablePred Blank :=
  fun _ => decidable_of_iff _ isBlank_iff

theorem isWhiteSpace_of_isAlpha {c : Char} (h : c.isAlpha) : isWhiteSpace c = false := by
  have hrange := toNat_of_isAlpha h
  rw [isWhiteSpace, List.any_eq_false]
  rintro ⟨first, last⟩ hrun hc
  simp only [whiteSpaceRuns, List.mem_cons, Prod.mk.injEq, List.not_mem_nil, or_false] at hrun
  simp only [Bool.and_eq_true, decide_eq_true_eq] at hc
  omega

/-- No line of the grammar is blank: a letter is the first that is left of it. -/
theorem not_blank_of_isLine {line : List Char} {l : Line} (h : IsLine line l) : ¬ Blank line := by
  obtain ⟨leading, named, trailing, gaps, commented⟩ := h
  obtain ⟨letter, tail⟩ := named
  next lead list gap comment vs c cs =>
  have hlead : ∀ d ∈ lead, isWhiteSpace d := fun d hd => isWhiteSpace_of_isGap (leading d hd)
  have hstop : ∀ d ∈ (c :: cs ++ (list ++ (gap ++ comment))).head?, isWhiteSpace d = false := by
    rintro d ⟨⟩
    exact isWhiteSpace_of_isAlpha letter
  obtain ⟨rest, htrim⟩ : ∃ rest, trim (lead ++ (c :: cs ++ (list ++ (gap ++ comment)))) =
      c :: rest := exists_trim_eq_cons (dropWhile_append_eq_right hlead hstop)
  rw [Blank, htrim]
  rintro (hnil | ⟨rest', hcons⟩)
  · cases hnil
  · rw [(List.cons.inj hcons).1] at letter
    cases letter

/-! ### Traversals that may fail -/

section Traversal

variable {α β ε : Type} {f : α → Except ε β}

theorem bind_eq_ok_iff {x : Except ε α} {b : β} :
    x >>= f = .ok b ↔ ∃ a, x = .ok a ∧ f a = .ok b := by
  cases x with
  | error e =>
    constructor
    · intro h
      cases h
    · rintro ⟨a, h, -⟩
      cases h
  | ok a =>
    constructor
    · intro h
      exact ⟨a, rfl, h⟩
    · rintro ⟨a', h, hf⟩
      cases h
      exact hf

theorem bind_eq_error_iff {x : Except ε α} {e : ε} :
    x >>= f = .error e ↔ x = .error e ∨ ∃ a, x = .ok a ∧ f a = .error e := by
  cases x with
  | error e' =>
    constructor
    · intro h
      cases h
      exact Or.inl rfl
    · rintro (h | ⟨a, h, -⟩)
      · cases h
        rfl
      · cases h
  | ok a =>
    constructor
    · intro h
      exact Or.inr ⟨a, rfl, h⟩
    · rintro (h | ⟨a', h, hf⟩)
      · cases h
      · cases h
        exact hf

theorem mapM_eq_ok_iff {xs : List α} {ys : List β} :
    xs.mapM f = .ok ys ↔ List.Forall₂ (fun x y => f x = .ok y) xs ys := by
  induction xs generalizing ys with
  | nil =>
    rw [List.mapM_nil, List.forall₂_nil_left_iff]
    constructor
    · intro h
      cases h
      rfl
    · rintro rfl
      rfl
  | cons x xs ih =>
    rw [List.mapM_cons, List.forall₂_cons_left_iff, bind_eq_ok_iff]
    constructor
    · rintro ⟨y, hy, h⟩
      obtain ⟨ys', hys, h⟩ := bind_eq_ok_iff.mp h
      cases h
      exact ⟨y, ys', hy, ih.mp hys, rfl⟩
    · rintro ⟨y, ys', hy, hys, rfl⟩
      exact ⟨y, hy, bind_eq_ok_iff.mpr ⟨ys', ih.mpr hys, rfl⟩⟩

/-- A traversal fails for the first position at which a step fails. -/
theorem mapM_eq_error_iff {xs : List α} {e : ε} :
    xs.mapM f = .error e ↔
      ∃ (n : Nat) (x : α), xs[n]? = some x ∧ f x = .error e ∧
        ∀ m y, m < n → xs[m]? = some y → ∃ b, f y = .ok b := by
  induction xs with
  | nil =>
    rw [List.mapM_nil]
    constructor
    · intro h
      cases h
    · rintro ⟨n, x, ⟨⟩, -⟩
  | cons x xs ih =>
    rw [List.mapM_cons, bind_eq_error_iff]
    constructor
    · rintro (hx | ⟨b, hx, h⟩)
      · exact ⟨0, x, rfl, hx, fun m _ hm => absurd hm (Nat.not_lt_zero m)⟩
      · obtain h | ⟨ys, -, ⟨⟩⟩ := bind_eq_error_iff.mp h
        obtain ⟨n, y, hy, he, hbefore⟩ := ih.mp h
        refine ⟨n + 1, y, hy, he, ?_⟩
        rintro (_ | m) z hm hz
        · cases hz
          exact ⟨b, hx⟩
        · exact hbefore m z (Nat.lt_of_succ_lt_succ hm) hz
    · rintro ⟨_ | n, y, hy, he, hbefore⟩
      · cases hy
        exact Or.inl he
      · obtain ⟨b, hb⟩ := hbefore 0 x n.succ_pos rfl
        have hrest : xs.mapM f = .error e :=
          ih.mpr ⟨n, y, hy, he, fun m z hm hz => hbefore (m + 1) z (Nat.succ_lt_succ hm) hz⟩
        exact Or.inr ⟨b, hb, bind_eq_error_iff.mpr (Or.inl hrest)⟩

theorem exists_forall₂_iff {R : α → β → Prop} {xs : List α} :
    (∃ ys, List.Forall₂ R xs ys) ↔ ∀ x ∈ xs, ∃ y, R x y := by
  induction xs with
  | nil => exact ⟨fun _ => nofun, fun _ => ⟨[], .nil⟩⟩
  | cons x xs ih =>
    rw [List.forall_mem_cons, ← ih]
    constructor
    · rintro ⟨_, _ | ⟨h, hs⟩⟩
      exact ⟨⟨_, h⟩, _, hs⟩
    · rintro ⟨⟨y, h⟩, ys, hs⟩
      exact ⟨y :: ys, .cons h hs⟩

end Traversal

/-! ### Texts -/

theorem parseLine_eq_ok_iff {line : List Char} {number : Nat} {item : Item} :
    parseLine line number = .ok item ↔ ∃ l, IsLine line l ∧ item = Item.ofLine number l := by
  rw [parseLine, bind_eq_ok_iff]
  constructor
  · rintro ⟨l, hl, h⟩
    cases h
    exact ⟨l, read_eq_ok_iff.mp hl, rfl⟩
  · rintro ⟨l, hl, rfl⟩
    exact ⟨l, read_eq_ok_iff.mpr hl, rfl⟩

theorem numberedLines_eq_filter (text : String) :
    numberedLines text =
      ((lines text.toList).zipIdx 1).filter fun numbered => ¬ Blank numbered.1 := by
  rw [numberedLines]
  apply List.filter_congr
  rintro ⟨line, number⟩ -
  show (!isBlank line) = decide (¬ Blank line)
  rw [Bool.eq_iff_iff, Bool.not_eq_true', decide_eq_true_eq, ← isBlank_iff, Bool.not_eq_true]

/-- A text parses to the items of its lines that say something. -/
theorem parse_eq_ok_iff {text : String} {items : List Item} :
    parse text = .ok items ↔
      List.Forall₂ (fun numbered item => ∃ l, IsLine numbered.1 l ∧ item = Item.ofLine numbered.2 l)
        (((lines text.toList).zipIdx 1).filter fun numbered => ¬ Blank numbered.1) items := by
  rw [parse, mapM_eq_ok_iff, numberedLines_eq_filter]
  simp only [parseLine_eq_ok_iff]

/-- Every item is that of some line of the grammar, and has the number of this line. -/
theorem exists_line_of_mem_parse {text : String} {items : List Item} {item : Item}
    (h : parse text = .ok items) (hitem : item ∈ items) :
    ∃ line l number, (line, number) ∈ (lines text.toList).zipIdx 1 ∧ IsLine line l ∧
      item = Item.ofLine number l := by
  have hlines := parse_eq_ok_iff.mp h
  obtain ⟨n, hn, rfl⟩ := List.getElem_of_mem hitem
  obtain ⟨l, hl, hofLine⟩ := hlines.get (hlines.length_eq ▸ hn) hn
  have hmem := (List.mem_filter.mp (List.get_mem _ ⟨n, hlines.length_eq ▸ hn⟩)).1
  exact ⟨_, l, _, hmem, hl, hofLine⟩

/-- The name is all the letters and digits that stand where the gaps in front end. -/
theorem name_of_isLine {line : List Char} {l : Line} (h : IsLine line l) :
    l.name.toList = (line.dropWhile isGap).takeWhile Char.isAlphanum := by
  obtain ⟨leading, named, trailing, gaps, commented⟩ := h
  rw [String.toList_ofList, dropWhile_append_eq_right leading (isGap_head?_name named _),
    takeWhile_append_eq_left (isAlphanum_of_name named) (head?_trailing trailing gaps commented)]

/-- **The texts that parse are those of the grammar, and they parse to what the grammar says.**
A text parses exactly if every line of it is blank or in the grammar of a line.  The items are
those of the lines that are not blank, in order and with the lines' numbers, counted from one.
What such a line says is its name as it is spelled, up to the last letter or digit that belongs
to it, and the values of its operands. -/
theorem parse_iff_grammar (text : String) :
    ((∃ items, parse text = .ok items) ↔
        ∀ line ∈ lines text.toList, Blank line ∨ ∃ l, IsLine line l) ∧
      ∀ items, parse text = .ok items ↔
        List.Forall₂
          (fun numbered item => ∃ l, IsLine numbered.1 l ∧
            l.name.toList = (numbered.1.dropWhile isGap).takeWhile Char.isAlphanum ∧
            item = Item.ofLine numbered.2 l)
          (((lines text.toList).zipIdx 1).filter fun numbered => ¬ Blank numbered.1) items := by
  constructor
  · simp only [parse_eq_ok_iff]
    rw [exists_forall₂_iff]
    constructor
    · intro h line hline
      by_cases hblank : Blank line
      · exact Or.inl hblank
      · -- the line stands among the numbered ones, under some number
        rw [← List.zipIdx_map_fst 1 (lines text.toList)] at hline
        obtain ⟨numbered, hmem, rfl⟩ := List.mem_map.mp hline
        obtain ⟨_, l, hl, -⟩ := h numbered (List.mem_filter.mpr ⟨hmem, decide_eq_true hblank⟩)
        exact Or.inr ⟨l, hl⟩
    · rintro h ⟨line, number⟩ hmem
      obtain ⟨hmem, hblank⟩ := List.mem_filter.mp hmem
      obtain hb | ⟨l, hl⟩ := h line (List.fst_mem_of_mem_zipIdx hmem)
      · exact absurd hb (of_decide_eq_true hblank)
      · exact ⟨_, l, hl, rfl⟩
  · intro items
    rw [parse_eq_ok_iff]
    constructor
    · apply List.Forall₂.imp
      rintro numbered item ⟨l, hl, hitem⟩
      exact ⟨l, hl, name_of_isLine hl, hitem⟩
    · apply List.Forall₂.imp
      rintro numbered item ⟨l, hl, -, hitem⟩
      exact ⟨l, hl, hitem⟩

end OpWord.Assembly
