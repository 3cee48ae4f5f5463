import Mathlib.Algebra.Group.Int.Defs
import Mathlib.Data.List.TakeWhile
import OpWord.Assembly.Line

/-!
# The grammar of a line

What a line of assembly text may look like, said without the reader: a line is made of parts,
and each part is a class of texts.  In the usual notation, with `ws` for a space or a tab:

```
integer   = [ "-" ] digit+
operands  = number ( ws* "," ws* number )*
brackets  = "(" ws* [ operands ] ws* ")"
line      = ws* letter ( letter | digit )* [ ws* brackets ] ws* [ ";" any* ]
```

A number is an integer of at most 64 bits with its sign.  Where a part has a value, the class
relates the texts to their values.

`Line.read` takes a line apart from the left and never looks back, and it cuts the brackets at
their first closing bracket and at every comma.  That this reads the grammar, and nothing else,
is `read_eq_ok_iff`.
-/
namespace OpWord.Assembly

/-! ### The parts of a line -/

namespace Grammar

/-- Spaces and tabs. -/
def Gaps (cs : List Char) : Prop :=
  ∀ c ∈ cs, isGap c

/-- A letter, and after it letters and digits. -/
inductive Name : List Char → Prop
  | mk {c : Char} {cs : List Char} (letter : c.isAlpha) (rest : ∀ d ∈ cs, d.isAlphanum) :
    Name (c :: cs)

/-- Digits, at least one of them, and their value. -/
inductive Digits : List Char → Nat → Prop
  | mk {ds : List Char} (ne_nil : ds ≠ []) (digits : ∀ d ∈ ds, d.isDigit) :
    Digits ds (Nat.ofDigitChars 10 ds 0)

/-- An integer in base ten.  There may be zeros in front. -/
inductive Integer : List Char → Int → Prop
  | nonneg {ds : List Char} {n : Nat} (digits : Digits ds n) : Integer ds n
  | minus {ds : List Char} {n : Nat} (digits : Digits ds n) : Integer ('-' :: ds) (-n)

/-- An integer of 64 bits with a sign. -/
structure Number (cs : List Char) (value : Int) : Prop where
  integer : Integer cs value
  low : -2 ^ 63 ≤ value
  high : value ≤ 2 ^ 63 - 1

/-- Operands with commas between them, at least one of them. -/
inductive Operands : List Char → List Int → Prop
  | one {cs : List Char} {v : Int} (number : Number cs v) : Operands cs [v]
  | cons {cs g g' rest : List Char} {v : Int} {vs : List Int} (number : Number cs v)
    (before : Gaps g) (after : Gaps g') (operands : Operands rest vs) :
    Operands (cs ++ g ++ ',' :: (g' ++ rest)) (v :: vs)

/-- What may stand between two brackets. -/
inductive Inside : List Char → List Int → Prop
  | none {g : List Char} (gaps : Gaps g) : Inside g []
  | some {g cs g' : List Char} {vs : List Int} (before : Gaps g) (operands : Operands cs vs)
    (after : Gaps g') : Inside (g ++ cs ++ g') vs

/-- What may stand between a name and what follows the instruction: nothing at all, or operands
in brackets. -/
inductive Trailing : List Char → List Int → Prop
  | none : Trailing [] []
  | brackets {g inside : List Char} {vs : List Int} (gaps : Gaps g) (content : Inside inside vs) :
    Trailing (g ++ '(' :: (inside ++ [')'])) vs

/-- Nothing at all, or a semicolon and whatever follows it. -/
inductive Comment : List Char → Prop
  | none : Comment []
  | some (cs : List Char) : Comment (';' :: cs)

/-- A whole line, and what it says. -/
inductive IsLine : List Char → Line → Prop
  | mk {lead name list gap comment : List Char} {operands : List Int} (leading : Gaps lead)
    (named : Name name) (trailing : Trailing list operands) (gaps : Gaps gap)
    (commented : Comment comment) :
    IsLine (lead ++ (name ++ (list ++ (gap ++ comment)))) { name := String.ofList name, operands }

end Grammar

/-! ### Classes of characters -/

section Characters

variable {p : Char → Bool} {cs : List Char} {c d : Char}

theorem not_mem_of_forall (h : ∀ c ∈ cs, p c) (hd : p d = false) : d ∉ cs := by
  intro hmem
  have hp := h d hmem
  rw [hd] at hp
  cases hp

/-- The letters are those of ASCII, the capitals and the small ones. -/
theorem toNat_of_isAlpha {c : Char} (h : c.isAlpha) :
    65 ≤ c.toNat ∧ c.toNat ≤ 90 ∨ 97 ≤ c.toNat ∧ c.toNat ≤ 122 := by
  rcases Bool.or_eq_true_iff.mp h with hupper | hlower
  · obtain ⟨hlow, hhigh⟩ := of_decide_eq_true hupper
    exact Or.inl ⟨UInt32.le_iff_toNat_le.mp hlow, UInt32.le_iff_toNat_le.mp hhigh⟩
  · obtain ⟨hlow, hhigh⟩ := Bool.and_eq_true_iff.mp hlower
    exact Or.inr ⟨UInt32.le_iff_toNat_le.mp (of_decide_eq_true hlow),
      UInt32.le_iff_toNat_le.mp (of_decide_eq_true hhigh)⟩

theorem isAlphanum_of_isGap {c : Char} (h : isGap c) : c.isAlphanum = false := by
  rw [isGap, Bool.or_eq_true, beq_iff_eq, beq_iff_eq] at h
  rcases h with rfl | rfl <;> rfl

theorem isGap_of_isAlphanum {c : Char} (h : c.isAlphanum) : isGap c = false := by
  cases hg : isGap c with
  | false => rfl
  | true =>
    rw [isAlphanum_of_isGap hg] at h
    cases h

theorem isAlphanum_of_isDigit {c : Char} (h : c.isDigit) : c.isAlphanum := by
  rw [Char.isAlphanum, h, Bool.or_true]

theorem isAlphanum_of_isAlpha {c : Char} (h : c.isAlpha) : c.isAlphanum := by
  rw [Char.isAlphanum, h, Bool.true_or]

/-- Every character of a name is a letter or a digit. -/
theorem isAlphanum_of_name (h : Grammar.Name cs) : ∀ d ∈ cs, d.isAlphanum := by
  obtain ⟨letter, rest⟩ := h
  rintro d (_ | ⟨_, hd⟩)
  · exact isAlphanum_of_isAlpha letter
  · exact rest d hd

theorem isDigit_of_isGap {c : Char} (h : isGap c) : c.isDigit = false := by
  cases hd : c.isDigit with
  | false => rfl
  | true =>
    rw [isGap_of_isAlphanum (isAlphanum_of_isDigit hd)] at h
    cases h

end Characters

end OpWord.Assembly
