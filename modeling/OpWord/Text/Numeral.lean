import OpWord.Text.Scanning

/-!
# Numerals

How numbers are written and read.

* `decimal` writes an integer in base ten, with a sign only if it is negative and without
  leading zeros.
* `hexadecimal` writes the lowest digits of a number in base sixteen, a fixed number of them,
  with the capital letters `A` to `F`.
* `readDecimal?` reads an integer at the front of a text and gives back what follows it.  It
  accepts leading zeros and a minus sign, and no plus sign.

What is written reads back (`readDecimal?_decimal`).
-/
namespace OpWord.Numeral

/-! ### Writing -/

/-- A natural number in base ten. -/
def decimalNat (n : Nat) : String :=
  String.ofList (Nat.toDigits 10 n)

/-- An integer in base ten. -/
def decimal : Int → String
  | .ofNat n => decimalNat n
  | .negSucc n => "-" ++ decimalNat (n + 1)

/-- The lowest `count` digits of `n` in base sixteen, the highest of them first. -/
def hexDigits : (count n : Nat) → List Char
  | 0, _ => []
  | count + 1, n => hexDigits count (n / 16) ++ [(Nat.digitChar (n % 16)).toUpper]

/-- The lowest `count` digits of `n` in base sixteen. -/
def hexadecimal (count n : Nat) : String :=
  String.ofList (hexDigits count n)

/-! ### Reading -/

/-- The number that the digits at the front of `cs` denote, and what follows them.  There is at
least one digit, and all that stand there are taken. -/
def readNat? (cs : List Char) : Option (Nat × List Char) :=
  match cs.takeWhile Char.isDigit with
  | [] => none
  | ds => some (Nat.ofDigitChars 10 ds 0, cs.dropWhile Char.isDigit)

/-- The integer at the front of `cs`, and what follows it. -/
def readDecimal? (cs : List Char) : Option (Int × List Char) :=
  match cs with
  | '-' :: cs => (readNat? cs).map fun (n, rest) => (-(n : Int), rest)
  | cs => (readNat? cs).map fun (n, rest) => ((n : Int), rest)

/-! ### Reading back -/

section ReadBack

variable {ds rest : List Char}

/-- Digits are read as far as they go. -/
theorem readNat?_append (hne : ds ≠ []) (hd : ∀ c ∈ ds, c.isDigit)
    (hr : ∀ c ∈ rest.head?, c.isDigit = false) :
    readNat? (ds ++ rest) = some (Nat.ofDigitChars 10 ds 0, rest) := by
  rw [readNat?, takeWhile_append_eq_left hd hr, dropWhile_append_eq_right hd hr]
  split
  · exact absurd rfl hne
  · rfl

/-- Digits do not start with a minus sign. -/
theorem append_ne_minus (hne : ds ≠ []) (hd : ∀ c ∈ ds, c.isDigit) (cs : List Char) :
    ds ++ rest ≠ '-' :: cs := by
  obtain ⟨d, ds, rfl⟩ := List.exists_cons_of_ne_nil hne
  intro h
  have hdigit := hd d List.mem_cons_self
  rw [(List.cons.inj h).1] at hdigit
  cases hdigit

theorem readDecimal?_append_of_digits (hne : ds ≠ []) (hd : ∀ c ∈ ds, c.isDigit)
    (hr : ∀ c ∈ rest.head?, c.isDigit = false) :
    readDecimal? (ds ++ rest) = some ((Nat.ofDigitChars 10 ds 0 : Int), rest) := by
  rw [readDecimal?, readNat?_append hne hd hr]
  · rfl
  · exact fun cs h => append_ne_minus hne hd cs h

theorem readDecimal?_minus_append (hne : ds ≠ []) (hd : ∀ c ∈ ds, c.isDigit)
    (hr : ∀ c ∈ rest.head?, c.isDigit = false) :
    readDecimal? ('-' :: ds ++ rest) = some (-(Nat.ofDigitChars 10 ds 0 : Int), rest) := by
  rw [List.cons_append, readDecimal?, readNat?_append hne hd hr]
  rfl

theorem isDigit_of_mem_toDigits (n : Nat) : ∀ c ∈ Nat.toDigits 10 n, c.isDigit :=
  fun _ => Nat.isDigit_of_mem_toDigits (by decide) (by decide)

/-- A written integer reads back, whatever follows it but a digit. -/
theorem readDecimal?_decimal (i : Int) (hr : ∀ c ∈ rest.head?, c.isDigit = false) :
    readDecimal? ((decimal i).toList ++ rest) = some (i, rest) := by
  cases i with
  | ofNat n =>
    rw [decimal, decimalNat, String.toList_ofList,
      readDecimal?_append_of_digits Nat.toDigits_ne_nil (isDigit_of_mem_toDigits n) hr,
      Nat.ofDigitChars_ten_toDigits]
    rfl
  | negSucc n =>
    have hread := readDecimal?_minus_append Nat.toDigits_ne_nil
      (isDigit_of_mem_toDigits (n + 1)) hr
    rw [Nat.ofDigitChars_ten_toDigits] at hread
    rw [decimal, decimalNat, String.toList_append, String.toList_ofList, String.toList_ofList]
    exact hread

end ReadBack

end OpWord.Numeral
