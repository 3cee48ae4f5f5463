import OpWord.Listing
import OpWord.Proofs.ReadBack
import OpWord.Proofs.TableReading

/-!
# The text of a listing

A listing is printed as a table with six columns.  Its titles and cells are plain
(`Listing.plain_table`): numerals and mnemonics have no space, no separator and no newline in
them.  So the two laws of plain tables hold of every listing, whatever its words are and however
many there are.

* The table is rectangular, and cells stand in their columns (`Listing.text_rectangular`).
* The cells can be read back, and with them the words, so the text of a listing determines its
  words (`Listing.text_determines_words`).

A word is read back from its eight digits in base sixteen.  These are its lowest eight
(`Numeral.readHexadecimal?_hexDigits`), and a word has no more.
-/
namespace OpWord

/-! ### Hexadecimal numerals -/

namespace Numeral

/-- The digits in base sixteen, in the order of their values. -/
def hexAlphabet : List Char :=
  "0123456789ABCDEF".toList

/-- The number that some digits in base sixteen denote, if all of them are such digits. -/
def readHexadecimal? (cs : List Char) : Option Nat :=
  cs.foldlM (fun n c => (hexAlphabet.idxOf? c).map (16 * n + ·)) 0

theorem idxOf?_toUpper_digitChar : ∀ d < 16,
    hexAlphabet.idxOf? (Nat.digitChar d).toUpper = some d := by
  decide

theorem toUpper_digitChar_mem : ∀ d < 16, (Nat.digitChar d).toUpper ∈ hexAlphabet := by
  decide

theorem length_hexDigits (count n : Nat) : (hexDigits count n).length = count := by
  induction count generalizing n with
  | zero => rfl
  | succ count ih => rw [hexDigits, List.length_append, ih, List.length_singleton]

theorem mem_hexAlphabet_of_mem_hexDigits {count n : Nat} :
    ∀ c ∈ hexDigits count n, c ∈ hexAlphabet := by
  induction count generalizing n with
  | zero => exact nofun
  | succ count ih =>
    rw [hexDigits, List.forall_mem_append]
    refine ⟨ih, ?_⟩
    rw [List.forall_mem_singleton]
    exact toUpper_digitChar_mem (n % 16) (Nat.mod_lt n (by decide))

/-- As many digits as are written are read back. -/
theorem readHexadecimal?_hexDigits (count n : Nat) :
    readHexadecimal? (hexDigits count n) = some (n % 16 ^ count) := by
  induction count generalizing n with
  | zero => simp [hexDigits, readHexadecimal?, Nat.mod_one]
  | succ count ih =>
    have hdigit := idxOf?_toUpper_digitChar (n % 16) (Nat.mod_lt n (by decide))
    have hmod : 16 * (n / 16 % 16 ^ count) + n % 16 = n % 16 ^ (count + 1) := by
      rw [Nat.pow_succ', Nat.mod_mul, Nat.add_comm]
    have ih := ih (n / 16)
    rw [readHexadecimal?] at ih ⊢
    rw [hexDigits, List.foldlM_append, ih]
    simp [hdigit, hmod]

end Numeral

/-! ### Plain cells -/

theorem plain_of_forall {cell : String} {p : Char → Bool} (h : ∀ c ∈ cell.toList, p c)
    (hspace : p ' ' = false) (hseparator : p '│' = false) (hnewline : p '\n' = false) :
    Plain cell where
  space := Assembly.not_mem_of_forall h hspace
  separator := Assembly.not_mem_of_forall h hseparator
  newline := Assembly.not_mem_of_forall h hnewline

theorem plain_decimal (v : Int) : Plain (Numeral.decimal v) where
  space := Assembly.not_mem_integer (Numeral.integer_decimal v) rfl (by decide)
  separator := Assembly.not_mem_integer (Numeral.integer_decimal v) rfl (by decide)
  newline := Assembly.not_mem_integer (Numeral.integer_decimal v) rfl (by decide)

theorem plain_hexadecimal (count n : Nat) : Plain (Numeral.hexadecimal count n) := by
  have hdigit : ∀ c ∈ (Numeral.hexadecimal count n).toList,
      decide (c ∈ Numeral.hexAlphabet) = true := by
    rw [Numeral.hexadecimal, String.toList_ofList]
    exact fun c hc => decide_eq_true (Numeral.mem_hexAlphabet_of_mem_hexDigits c hc)
  exact plain_of_forall hdigit (by decide) (by decide) (by decide)

theorem plain_mnemonic (op : Operation) : Plain op.mnemonic :=
  plain_of_forall (Assembly.isAlphanum_of_name op.name_mnemonic) rfl rfl rfl

namespace Listing

theorem plain_title : ∀ col ∈ columns, Plain col.title := by
  have hletter : columns.all (fun col => col.title.toList.all Char.isAlphanum) = true := rfl
  simp only [List.all_eq_true] at hletter
  exact fun col hcol => plain_of_forall (hletter col hcol) rfl rfl rfl

theorem plain_cell (r : Row) : ∀ col ∈ columns, Plain (col.cell r) := by
  simp only [columns, List.forall_mem_cons]
  exact ⟨plain_decimal _, plain_hexadecimal 8 _, plain_mnemonic _, plain_decimal _,
    plain_decimal _, plain_decimal _, nofun⟩

theorem plain_table (l : Listing) : l.table.Plain where
  columns_ne_nil := List.cons_ne_nil _ _
  content := by
    intro content hcontent
    rcases List.mem_cons.mp hcontent with rfl | hcontent
    · exact plain_title
    · obtain ⟨r, -, rfl⟩ := List.mem_map.mp hcontent
      exact plain_cell r

/-! ### The shape of the text -/

/-- What a listing shows of a word at a position. -/
def shownCells (w : Word) (index : Nat) : List String :=
  let d := (Instruction.mk w).decode
  [Numeral.decimal index, Numeral.hexadecimal 8 w.toNat, d.operation.mnemonic,
    Numeral.decimal d.a.toInt, Numeral.decimal d.b.toInt, Numeral.decimal d.c.toInt]

/-- The words that the second cells of a printed listing denote. -/
def readWords (text : String) : List (Option Nat) :=
  (readRows text).map fun cells => cells[1]?.bind fun cell => Numeral.readHexadecimal? cell.toList

theorem readRows_text_ofWords (words : List Word) :
    readRows (ofWords words).text = words.zipIdx.map fun (w, i) => shownCells w i := by
  have hrows : (ofWords words).table.rows =
      words.zipIdx.map fun (w, i) => { index := i, instruction := ⟨w⟩ } := by
    show (ofWords words).rows = _
    rw [rows, ofWords, List.zipIdx_map, List.map_map]
    rfl
  rw [text, Table.readRows_text (ofWords words).plain_table, hrows, List.map_map]
  rfl

theorem readWords_text_ofWords (words : List Word) :
    readWords (ofWords words).text = words.map fun w => some w.toNat := by
  have hword : ∀ w : Word, Numeral.readHexadecimal? (Numeral.hexDigits 8 w.toNat) =
      some w.toNat := by
    intro w
    rw [Numeral.readHexadecimal?_hexDigits]
    exact congrArg some (Nat.mod_eq_of_lt w.isLt)
  rw [readWords, readRows_text_ofWords, List.map_map]
  conv_rhs => rw [← List.zipIdx_map_fst 0 words, List.map_map]
  apply List.map_congr_left
  rintro ⟨w, i⟩ -
  simpa [shownCells, Numeral.hexadecimal] using hword w

/-- Different words have different listings. -/
theorem text_ofWords_injective : Function.Injective fun words => (ofWords words).text := by
  intro words words' h
  have hread := congrArg readWords h
  simp only [readWords_text_ofWords] at hread
  have hword : Function.Injective fun w : Word => some w.toNat := fun w w' hw =>
    BitVec.eq_of_toNat_eq (Option.some.inj hw)
  exact List.map_injective_iff.mpr hword hread

/-- **The text of a listing determines its words.**  Cut into lines and at the separators, and
with the spaces taken off, it has six cells for each word and in order: the position, the word in
eight digits in base sixteen with capital letters, and what the word decodes to, by the mnemonic
and the three operands.  The second cells denote the words again, so listings with the same text
have the same words. -/
theorem text_determines_words (words : List Word) :
    readRows (ofWords words).text = (words.zipIdx.map fun (w, i) => shownCells w i) ∧
      (∀ cells ∈ readRows (ofWords words).text, ∃ cell, cells[1]? = some cell ∧
        cell.length = 8 ∧ ∀ c ∈ cell.toList, c ∈ Numeral.hexAlphabet) ∧
      readWords (ofWords words).text = (words.map fun w => some w.toNat) ∧
      ∀ words', (ofWords words').text = (ofWords words).text ↔ words' = words := by
  refine ⟨readRows_text_ofWords words, ?_, readWords_text_ofWords words,
    fun words' => text_ofWords_injective.eq_iff⟩
  rw [readRows_text_ofWords, List.forall_mem_map]
  rintro ⟨w, i⟩ -
  refine ⟨Numeral.hexadecimal 8 w.toNat, rfl, ?_, ?_⟩
  · rw [Numeral.hexadecimal, String.length_ofList, Numeral.length_hexDigits]
  · rw [Numeral.hexadecimal, String.toList_ofList]
    exact Numeral.mem_hexAlphabet_of_mem_hexDigits

end Listing
end OpWord
