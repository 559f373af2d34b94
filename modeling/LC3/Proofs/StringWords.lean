import LC3.Proofs.LabelAddresses
import LC3.Proofs.LiteralGrammar
import Mathlib.Data.List.Basic

/-!
# The words of string data

A line of string data puts the bytes of its string into memory, one word each, and a zero behind
them. Of a literal in ASCII characters, an item takes one word if its code is below `0x80`. A code
from `0x80` on is that of a character with two bytes, and takes two words. The address of the next
line is the one behind the zero.
-/

namespace LC3

section

variable {c : Char}

theorem utf8EncodeChar_of_lt (ascii : c.toNat < 128) :
    String.utf8EncodeChar c = [UInt8.ofNat c.toNat] := by
  have single : c.val.toNat ≤ 127 := Nat.le_of_lt_succ ascii
  rw [String.utf8EncodeChar]
  exact if_pos single

theorem utf8EncodeChar_of_le (beyond : 128 ≤ c.toNat) (small : c.toNat < 256) :
    String.utf8EncodeChar c =
      [UInt8.ofNat (0xC0 + c.toNat / 64), UInt8.ofNat (0x80 + c.toNat % 64)] := by
  have value : c.val.toNat = c.toNat := rfl
  have first : c.toNat / 64 % 32 + 192 = 0xC0 + c.toNat / 64 := by omega
  have second : c.toNat % 64 + 128 = 0x80 + c.toNat % 64 := by omega
  have several : ¬c.toNat ≤ 127 := by omega
  have two : c.toNat ≤ 2047 := by omega
  simp only [String.utf8EncodeChar, value, if_neg several, if_pos two, first, second]

end

theorem Word.ofByte_ofNat {n : Nat} (small : n < 256) :
    Word.ofByte (UInt8.ofNat n) = BitVec.ofNat 16 n := by
  apply BitVec.eq_of_toNat_eq
  have byte : (UInt8.ofNat n).toBitVec.toNat = n := UInt8.toNat_ofNat_of_lt' small
  rw [Word.ofByte, BitVec.toNat_setWidth, byte, BitVec.toNat_ofNat]

namespace StringLiteral.Item

/-- The words that stand for the item in memory: its code, or the two bytes of the character with
this code. -/
def words (i : Item) : List Word :=
  let n := i.char.toNat
  if n < 128 then [BitVec.ofNat 16 n]
  else [BitVec.ofNat 16 (0xC0 + n / 64), BitVec.ofNat 16 (0x80 + n % 64)]

def isWide (i : Item) : Bool := 128 ≤ i.char.toNat

theorem toNat_ofNat_of_lt {n : Nat} (small : n < 256) : (Char.ofNat n).toNat = n := by
  have valid : n.isValidChar := .inl (by omega)
  rw [Char.ofNat, dif_pos valid]
  exact UInt32.toNat_ofNatLT

/-- An item in ASCII characters stands for a character with a code of one byte. -/
theorem toNat_char_lt {i : Item} (ascii : ∀ d ∈ i.text, d.toNat < 128) : i.char.toNat < 256 := by
  cases i with
  | plain c ordinary =>
    have := ascii c List.mem_cons_self
    exact Nat.lt_trans this (by decide)
  | letter l c known =>
    have table : ∀ p ∈ letters, p.2.toNat < 256 := by decide
    exact table (l, c) known
  | code high low h l first second =>
    have small : 16 * h + l < 256 := by
      have := first.small
      have := second.small
      omega
    rw [char, toNat_ofNat_of_lt small]
    exact small
  | plusCode low l digit =>
    have small : l < 256 := Nat.lt_trans digit.small (by decide)
    rw [char, toNat_ofNat_of_lt small]
    exact small

theorem map_utf8EncodeChar {i : Item} (ascii : ∀ d ∈ i.text, d.toNat < 128) :
    (String.utf8EncodeChar i.char).map Word.ofByte = i.words := by
  have small := toNat_char_lt ascii
  rw [words]
  split
  · next low =>
    rw [utf8EncodeChar_of_lt low, List.map_singleton, Word.ofByte_ofNat small]
  · next wide =>
    rw [utf8EncodeChar_of_le (Nat.le_of_not_lt wide) small, List.map_cons, List.map_singleton,
      Word.ofByte_ofNat (by omega), Word.ofByte_ofNat (by omega)]

theorem textWords_map_char {items : List Item}
    (ascii : ∀ d ∈ literal items, d.toNat < 128) :
    textWords (string items) = items.flatMap words := by
  have inside : ∀ i ∈ items, ∀ d ∈ i.text, d.toNat < 128 := by
    intro i present d written
    have within : d ∈ items.flatMap text := List.mem_flatMap.mpr ⟨i, present, written⟩
    exact ascii d (by simp [literal, within])
  rw [textWords, string, String.toList_ofList, List.flatMap_map, List.map_flatMap]
  exact List.flatMap_congr fun i present => map_utf8EncodeChar (inside i present)

theorem length_words (items : List Item) :
    (items.flatMap words).length = items.length + items.countP isWide := by
  induction items with
  | nil => rfl
  | cons i items ih =>
    rw [List.flatMap_cons, List.length_append, ih, List.length_cons, List.countP_cons]
    by_cases wide : i.char.toNat < 128
    · have narrow : ¬i.isWide = true := by simp [isWide, wide]
      rw [words, if_pos wide, if_neg narrow, List.length_singleton]
      omega
    · have wide' : i.isWide = true := by simpa [isWide] using wide
      rw [words, if_neg wide, if_pos wide', List.length_cons, List.length_singleton]
      omega

/-- Without a wide item, the words are the codes of the items. -/
theorem words_of_narrow {items : List Item} (narrow : items.countP isWide = 0) :
    items.flatMap words = items.map fun i => BitVec.ofNat 16 i.char.toNat := by
  have single : ∀ i ∈ items, i.words = [BitVec.ofNat 16 i.char.toNat] := by
    intro i present
    have low : i.char.toNat < 128 := by
      simpa [isWide] using List.countP_eq_zero.mp narrow i present
    rw [words, if_pos low]
  rw [List.flatMap_congr single, ← List.map_eq_flatMap]

end StringLiteral.Item

namespace Line

/-- The line puts the string into memory. -/
structure IsData (line : Line) (s : String) : Prop where
  coded : line.opcode = some ".STRINGZ"
  operands : line.operands = [.string s]

variable {line : Line} {s : String}

theorem IsData.find? (data : line.IsData s) :
    Form.find? ".STRINGZ" line.operands = some ⟨".STRINGZ", [.string], .text⟩ := by
  rw [data.operands]
  rfl

theorem IsData.nextAddress (data : line.IsData s) (a : Word) :
    line.nextAddress ⟨".STRINGZ", [.string], .text⟩ a =
      .ok (a + BitVec.ofNat 16 (textWords s).length + 1) := by
  simp only [Line.nextAddress, data.operands, length_textWords]

/-- The first pass goes on behind the bytes and the zero. -/
theorem IsData.collectFrom (data : line.IsData s) {known declared : Labels} {a : Word}
    (declares : line.declare known a = .ok declared) (rest : List Line) :
    Labels.collectFrom known a (line :: rest) =
      Labels.collectFrom declared (a + BitVec.ofNat 16 (textWords s).length + 1) rest := by
  have found : line.form? = .ok (some ⟨".STRINGZ", [.string], .text⟩) := by
    simp only [form?, data.coded, data.find?]
  rw [Labels.collectFrom, declares]
  simp only [found, Template.isFinish, data.nextAddress a, Bool.false_eq_true, if_false]

/-- The second pass writes the bytes and the zero, and goes on behind them. -/
theorem IsData.emit (data : line.IsData s) (m : Machine) (labels : Labels) (a : Word)
    (rest : List Line) :
    m.emit labels a (line :: rest) =
      (m.writeAll a (textWords s ++ [0])).emit labels
        (a + BitVec.ofNat 16 (textWords s).length + 1) rest := by
  have resolved : Slot.resolveAll labels a [.string] line.operands = .ok [.text s] := by
    rw [data.operands]
    rfl
  have made : line.contents? labels a = .ok (some (.words (textWords s ++ [0]))) :=
    contents?_of_form _ data.coded data.find? resolved (data.nextAddress a) rfl
  have behind : a + BitVec.ofNat 16 (textWords s ++ [0]).length =
      a + BitVec.ofNat 16 (textWords s).length + 1 := by
    rw [length_textWords]
    exact Contents.next_text a s
  simp only [Machine.emit_cons, made, behind]

end Line

namespace StringLiteral

/-- Wherever a literal in ASCII characters stands, it is read as its string. A line of string data
with that string writes the words of the items, in their order, and a zero, and in both passes the
next line has the address behind the zero. There is one word for each item, which is the code of the
item, and one word more for each code from `0x80` on. -/
theorem string_data_words {items : List Item} (ascii : ∀ d ∈ Item.literal items, d.toNat < 128) :
    (∀ (c : Cursor) (after : List Char), c.rest = Item.literal items ++ after →
      c.operand = .ok (.string (Item.string items),
        ⟨c.offset + byteLength (Item.literal items), after⟩)) ∧
    (∀ line : Line, line.IsData (Item.string items) → ∀ (a : Word) (rest : List Line),
      let behind := a + BitVec.ofNat 16 (items.length + items.countP Item.isWide) + 1
      (∀ known declared, line.declare known a = .ok declared →
        Labels.collectFrom known a (line :: rest) = Labels.collectFrom declared behind rest) ∧
      ∀ (m : Machine) (labels : Labels),
        m.emit labels a (line :: rest) =
            (m.writeAll a (items.flatMap Item.words ++ [0])).emit labels behind rest ∧
          (items.length + items.countP Item.isWide < 65536 → ∀ b,
            (m.emit labels a [line]).2.peek b =
              (items.flatMap Item.words ++ [0])[(b - a).toNat]?.getD (m.peek b))) ∧
    (items.countP Item.isWide = 0 →
      items.flatMap Item.words = items.map fun i => BitVec.ofNat 16 i.char.toNat) := by
  have written := Item.textWords_map_char ascii
  have size : (textWords (Item.string items)).length =
      items.length + items.countP Item.isWide := by rw [written, Item.length_words]
  refine ⟨fun c after ahead => ?_, fun line data a rest => ?_, Item.words_of_narrow⟩
  · exact Cursor.operand_eq_string_iff.mpr ⟨items, after, ahead, rfl, rfl⟩
  · rw [← size, ← written]
    refine ⟨fun known declared declares => data.collectFrom declares rest,
      fun m labels => ⟨data.emit m labels a rest, fun small b => ?_⟩⟩
    have fits : (textWords (Item.string items) ++ [0]).length ≤ 65536 := by
      rw [List.length_append, List.length_singleton]
      exact small
    rw [data.emit]
    exact m.peek_writeAll a b fits

def wideItems : List Item :=
  [.plain 'A' (by decide), .letter 'n' '\n' (by decide),
    .code 'f' 'F' 15 15 ⟨by decide, .inl rfl⟩ ⟨by decide, .inr rfl⟩]

/-- The three items take four words, and a zero. -/
theorem wide_data_words :
    (∀ d ∈ Item.literal wideItems, d.toNat < 128) ∧
      (Cursor.start "\"A\\n\\xfF\";".toList).operand =
        .ok (.string "A\n\u00ff", ⟨9, [';']⟩) ∧
      ∀ (line : Line) (m : Machine), line.IsData "A\n\u00ff" →
        m.emit [] 0xFFFD [line] = (.ok (), m.writeAll 0xFFFD [0x41, 0x0A, 0xC3, 0xBF, 0]) ∧
          (m.emit [] 0xFFFD [line]).2.peek 0 = 0xBF := by
  have ascii : ∀ d ∈ Item.literal wideItems, d.toNat < 128 := by
    simp [wideItems, Item.literal, Item.text]
  obtain ⟨read, data, -⟩ := string_data_words ascii
  refine ⟨ascii, read (.start _) [';'] rfl, fun line m isData => ?_⟩
  obtain ⟨written, cells⟩ := (data line isData 0xFFFD []).2 m []
  exact ⟨written, cells (by decide) 0⟩

def wideLines : List Line :=
  [{ opcode := some ".STRINGZ", operands := [.string "\u0080"], number := 1, span := ⟨0, 15⟩ },
    { label := some "NEXT", number := 2, span := ⟨16, 4⟩ }]

/-- The code is put into memory as two words, and the next line is behind three. -/
theorem high_code_takes_two_words :
    Source.parse ".STRINGZ \"\\x80\"\nNEXT" = .ok wideLines ∧
      (Machine.new.assemble wideLines).1 = .ok [("NEXT", 3)] ∧
      (Machine.new.assemble wideLines).2.peek 0 ≠ 0x80 ∧
      (Machine.new.assemble wideLines).2.peek 0 = 0xC2 ∧
      (Machine.new.assemble wideLines).2.peek 1 = 0x80 ∧
      (Machine.new.assemble wideLines).2.peek 2 = 0 := by
  refine ⟨by decide +kernel, rfl, ?_⟩
  decide +kernel

end StringLiteral

end LC3
