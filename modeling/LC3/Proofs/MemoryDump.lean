import LC3.Dump
import LC3.Proofs.CanonicalWords
import LC3.Machine
import Mathlib.Algebra.Group.Nat.Defs
import Mathlib.Data.Nat.Find

/-!
# A memory dump loses nothing

The lines of a memory dump stand for rows of the memory, in their order: a row line for the first
row and for each row that is not all zero, and one gap for each run of the rows between them. A row
line begins with the address and the bytes of its row in hexadecimal, and no byte of the memory can
break it. Reading these columns into an empty memory gives the memory back.
-/

namespace LC3

/-- Memories with the same words at all addresses are the same. -/
theorem Memory.ext_read {m m' : Memory} (same : ∀ a, m.read a = m'.read a) : m = m' := by
  obtain ⟨cells⟩ := m
  obtain ⟨cells'⟩ := m'
  congr 1
  apply Vector.ext
  intro i inside
  have address : (BitVec.ofNat 16 i).toNat = i := Nat.mod_eq_of_lt inside
  simpa [Memory.read, Vector.get, address] using same (BitVec.ofNat 16 i)

namespace Dump

/-- The row has a line of its own. -/
def Shown (m : Memory) (row : Nat) : Prop := row = 0 ∨ isBlankRow (rowWords m row) = false

instance (m : Memory) (row : Nat) : Decidable (Shown m row) := by
  unfold Shown
  infer_instance

/-- The rows from the first to the last have no lines of their own, and those beside them do. -/
structure HiddenRun (m : Memory) (first last : Nat) : Prop where
  ordered : first ≤ last
  inside : last < rowCount
  hidden : ∀ row, first ≤ row → row ≤ last → ¬Shown m row
  before : Shown m (first - 1)
  after : last + 1 = rowCount ∨ Shown m (last + 1)

/-- The line of a row that is shown, or the gap of a run of hidden rows, at the first of them. -/
inductive StandsFor (m : Memory) : Nat → Entry → Prop
  | row {row : Nat} (inside : row < rowCount) (shown : Shown m row) :
      StandsFor m row (.row (row * wordsPerRow) (rowWords m row))
  | gap {first last : Nat} (run : HiddenRun m first last) : StandsFor m first .gap

/-- The line that stands for the row, if there is one. -/
def entryOf? (m : Memory) (row : Nat) : Option Entry :=
  if Shown m row then some (.row (row * wordsPerRow) (rowWords m row))
  else if Shown m (row - 1) then some .gap
  else none

/-- The columns of a row line that show its address and its bytes. -/
def leading (address : Nat) (words : List Word) : List Char :=
  '0' :: 'x' :: (Hex.fixedUpper 4 address ++ ' ' :: ' ' ::
    words.flatMap fun w => w.hexBytes ++ [' ', ' '])

/-- The rest of a row line: its characters and instructions. -/
def trailing (mode : LiteralMode) (words : List Word) : List Char :=
  (words.flatMap fun w => [byteChar w.highByte, byteChar w.lowByte]) ++
    ' ' :: ("; ".intercalate (words.map fun w => disassemble w mode)).toList

/-- The text goes on in the same line. -/
def Unbroken (text : List Char) : Prop := ∀ c ∈ text, c ≠ '\n' ∧ c ≠ '\r'

instance (text : List Char) : Decidable (Unbroken text) := List.decidableBAll _ text

/-- The address has eight characters with the blanks behind it, and each word seven. -/
def leadingWidth : Nat := 8 + wordsPerRow * 7

/-- The address and hexadecimal columns of the lines of a dump. -/
def columns (text : String) : List (List Char) :=
  (Source.rawLines text.toList).map (List.take leadingWidth)

def number? (digits : List Char) : Option Nat :=
  NumberToken.value? 16 StringLiteral.hexValue? digits

def readWords? : List Char → Option (List Word)
  | [] => some []
  | a :: b :: ' ' :: c :: d :: ' ' :: ' ' :: rest =>
    match number? [a, b], number? [c, d], readWords? rest with
    | some high, some low, some words => some (BitVec.ofNat 16 (256 * high + low) :: words)
    | _, _, _ => none
  | _ => none

/-- The address and the words of a row line; a gap has none. -/
def readRow? : List Char → Option (Word × List Word)
  | '0' :: 'x' :: a :: b :: c :: d :: ' ' :: ' ' :: rest =>
    match number? [a, b, c, d], readWords? rest with
    | some address, some words => some (BitVec.ofNat 16 address, words)
    | _, _ => none
  | _ => none

/-- The memory with the words that the lines show. -/
def restore (m : Memory) : List (List Char) → Memory
  | [] => m
  | line :: lines =>
    match readRow? line with
    | some (address, words) => restore (m.writeAll address words) lines
    | none => restore m lines

/-- Each row is looked at with the knowledge whether the row before it is shown. -/
theorem entriesFrom_eq (m : Memory) (row n : Nat) (afterGap : Bool)
    (known : 0 < row → (afterGap = true ↔ ¬Shown m (row - 1))) :
    entriesFrom m row afterGap n = (List.range' row n).filterMap (entryOf? m) := by
  induction n generalizing row afterGap with
  | zero => rfl
  | succ n ih =>
    have shown_iff : ¬(decide (0 < row) && isBlankRow (rowWords m row)) = true ↔ Shown m row := by
      cases row <;> simp [Shown]
    rw [entriesFrom, List.range'_succ, List.filterMap_cons, entryOf?]
    by_cases shown : Shown m row
    · rw [if_neg (shown_iff.mpr shown), if_pos shown]
      have next := ih (row + 1) false fun _ => by simpa using shown
      simp only [next]
    · have positive : 0 < row := Nat.pos_of_ne_zero fun first => shown (.inl first)
      have next := ih (row + 1) true fun _ => by simpa using shown
      rw [if_pos (not_not.mp (mt shown_iff.mp shown)), if_neg shown]
      by_cases earlier : Shown m (row - 1)
      · have fresh : ¬afterGap = true := mt (known positive).mp (not_not.mpr earlier)
        simp only [if_neg fresh, if_pos earlier, next]
      · simp only [if_pos ((known positive).mpr earlier), if_neg earlier, next]

theorem entries_eq (m : Memory) : entries m = (List.range rowCount).filterMap (entryOf? m) := by
  rw [entries, entriesFrom_eq m 0 rowCount false (by simp), List.range_eq_range']

/-- A hidden row behind a shown one begins a run. -/
theorem exists_hiddenRun {m : Memory} {first : Nat} (inside : first < rowCount)
    (hidden : ¬Shown m first) (before : Shown m (first - 1)) : ∃ last, HiddenRun m first last := by
  -- The run stops before the next row that is shown, or with the memory.
  have ends : ∃ stop, first < stop ∧ (stop = rowCount ∨ Shown m stop) :=
    ⟨rowCount, inside, .inl rfl⟩
  obtain ⟨later, stops⟩ := Nat.find_spec ends
  have bound : Nat.find ends ≤ rowCount := Nat.find_min' ends ⟨inside, .inl rfl⟩
  refine ⟨Nat.find ends - 1, ?_, ?_, ?_, before, ?_⟩
  · omega
  · omega
  · intro row atLeast atMost shown
    rcases Nat.eq_or_lt_of_le atLeast with rfl | after
    · exact hidden shown
    · exact Nat.find_min ends (show row < Nat.find ends by omega) ⟨after, .inr shown⟩
  · rwa [Nat.sub_add_cancel (by omega)]

theorem entryOf?_eq_some_iff {m : Memory} {row : Nat} (inside : row < rowCount) {e : Entry} :
    entryOf? m row = some e ↔ StandsFor m row e := by
  rw [entryOf?]
  constructor
  · intro found
    split at found
    · next shown =>
      cases found
      exact .row inside shown
    · next hidden =>
      split at found
      · next before =>
        cases found
        obtain ⟨last, run⟩ := exists_hiddenRun inside hidden before
        exact .gap run
      · cases found
  · rintro (⟨-, shown⟩ | run)
    · rw [if_pos shown]
    · rw [if_neg (run.hidden row le_rfl run.ordered), if_pos run.before]

theorem StandsFor.inside {m : Memory} {row : Nat} {e : Entry} (stands : StandsFor m row e) :
    row < rowCount := by
  cases stands with
  | row inside => exact inside
  | gap run => exact Nat.lt_of_le_of_lt run.ordered run.inside

/-- The entries of a dump are those that stand for rows, in the order of the rows. -/
theorem exists_placed (m : Memory) :
    ∃ placed : List (Nat × Entry), placed.Pairwise (·.1 < ·.1) ∧
      (∀ row e, (row, e) ∈ placed ↔ StandsFor m row e) ∧ entries m = placed.map Prod.snd := by
  refine ⟨(List.range rowCount).filterMap fun row => (entryOf? m row).map (row, ·), ?_, ?_, ?_⟩
  · refine List.pairwise_filterMap.mpr (List.pairwise_lt_range.imp ?_)
    intro row row' less p found p' found'
    obtain ⟨e, -, rfl⟩ := Option.map_eq_some_iff.mp found
    obtain ⟨e', -, rfl⟩ := Option.map_eq_some_iff.mp found'
    exact less
  · intro row e
    simp only [List.mem_filterMap, List.mem_range, Option.map_eq_some_iff, Prod.mk.injEq]
    constructor
    · rintro ⟨row, inside, e, found, rfl, rfl⟩
      exact (entryOf?_eq_some_iff inside).mp found
    · intro stands
      exact ⟨row, stands.inside, e, (entryOf?_eq_some_iff stands.inside).mpr stands, rfl, rfl⟩
  · simp [entries_eq, List.map_filterMap, Function.comp_def]

theorem unbroken_append {text text' : List Char} :
    Unbroken (text ++ text') ↔ Unbroken text ∧ Unbroken text' := List.forall_mem_append

theorem unbroken_flatMap {α : Type} {f : α → List Char} (xs : List α)
    (unbroken : ∀ x, Unbroken (f x)) : Unbroken (xs.flatMap f) := by
  intro c present
  obtain ⟨x, -, inside⟩ := List.mem_flatMap.mp present
  exact unbroken x c inside

theorem unbroken_fixedUpper (width n : Nat) : Unbroken (Hex.fixedUpper width n) := by
  have digits : ∀ d < 16, Unbroken [(Nat.digitChar d).toUpper] := by decide
  induction width generalizing n with
  | zero => exact nofun
  | succ width ih =>
    rw [Hex.fixedUpper, Hex.fixed, List.map_append]
    exact unbroken_append.mpr ⟨ih _, digits _ (Nat.mod_lt n (by decide))⟩

theorem unbroken_hexBytes (w : Word) : Unbroken (w.hexBytes ++ [' ', ' ']) := by
  have bytes : Unbroken w.hexBytes := unbroken_append.mpr
    ⟨unbroken_fixedUpper 2 _, List.forall_mem_cons.mpr ⟨by decide, unbroken_fixedUpper 2 _⟩⟩
  exact unbroken_append.mpr ⟨bytes, by decide⟩

/-- A byte is shown as a character in its line, whatever it is. -/
theorem unbroken_byteChar (b : UInt8) : Unbroken [byteChar b] := by
  have visible : ∀ n < 0x7F, 0x20 ≤ n → Unbroken [Char.ofNat n] := by decide
  unfold byteChar
  split
  · next range => exact visible b.toNat range.2 range.1
  · decide

theorem unbroken_disassemble (w : Word) (mode : LiteralMode) :
    Unbroken (disassemble w mode).toList := by
  rw [disassemble_eq_text]
  cases assembled : (Instruction.decode w).isAssembled with
  | true =>
    have isLine := Instruction.isLine_text assembled mode
    intro c present
    exact ⟨fun feed => isLine.no_feed (feed ▸ present),
      fun ret => isLine.no_return (ret ▸ present)⟩
  | false =>
    have idle : ∀ text ∈ Instruction.idleTexts, Unbroken text.toList := by decide
    exact idle _ (Instruction.text_mem_idleTexts assembled mode)

theorem unbroken_leading (address : Nat) (words : List Word) :
    Unbroken (leading address words) := by
  have bytes := unbroken_flatMap words unbroken_hexBytes
  have mark : Unbroken ['0', 'x'] := by decide
  have gap : Unbroken [' ', ' '] := by decide
  exact unbroken_append.mpr ⟨mark, unbroken_append.mpr ⟨unbroken_fixedUpper 4 address,
    unbroken_append.mpr ⟨gap, bytes⟩⟩⟩

theorem unbroken_trailing (mode : LiteralMode) (words : List Word) :
    Unbroken (trailing mode words) := by
  have characters := unbroken_flatMap words fun w => unbroken_append.mpr
    ⟨unbroken_byteChar w.highByte, unbroken_byteChar w.lowByte⟩
  refine unbroken_append.mpr ⟨characters, List.forall_mem_cons.mpr ⟨by decide, ?_⟩⟩
  intro c present
  rw [String.toList_intercalate] at present
  rcases Source.mem_intercalate present with between | ⟨text, listed, inside⟩
  · have separator : Unbroken "; ".toList := by decide
    exact separator c between
  · simp only [List.map_map, List.mem_map, Function.comp_apply] at listed
    obtain ⟨w, -, rfl⟩ := listed
    exact unbroken_disassemble w mode c inside

theorem toList_text_row (mode : LiteralMode) (address : Nat) (words : List Word) :
    ((Entry.row address words).text mode).toList =
      leading address words ++ trailing mode words ++ ['\n'] := by
  simp [Entry.text, leading, trailing]

theorem toList_text_gap (mode : LiteralMode) :
    (Entry.gap.text mode).toList = [' ', ' ', ' ', '*', '\n'] := by
  simp [Entry.text]

/-- Each entry is one line. -/
theorem exists_unbroken_text (mode : LiteralMode) (e : Entry) :
    ∃ text, Unbroken text ∧ (e.text mode).toList = text ++ ['\n'] := by
  cases e with
  | row address words =>
    exact ⟨_, unbroken_append.mpr ⟨unbroken_leading address words, unbroken_trailing mode words⟩,
      toList_text_row mode address words⟩
  | gap => exact ⟨[' ', ' ', ' ', '*'], by decide, toList_text_gap mode⟩

theorem rawLines_entries (mode : LiteralMode) (es : List Entry) :
    Source.rawLines (es.flatMap fun e => (e.text mode).toList) =
      es.map fun e => (e.text mode).toList := by
  induction es with
  | nil => rw [List.flatMap_nil, List.map_nil, Source.rawLines]
  | cons e es ih =>
    obtain ⟨text, unbroken, shown⟩ := exists_unbroken_text mode e
    have clean : '\n' ∉ text := fun present => (unbroken _ present).1 rfl
    rw [List.flatMap_cons, List.map_cons, shown, List.append_assoc, List.singleton_append,
      Source.rawLines_cons clean, ih]

/-- The lines of a dump are its entries. -/
theorem rawLines_memory (m : Machine) (mode : LiteralMode) :
    Source.rawLines (memory m mode).toList =
      (entries m.memory).map fun e => (e.text mode).toList := by
  rw [memory, String.toList_join, List.flatMap_map]
  exact rawLines_entries mode _

/-- Hexadecimal digits are read as the number, if they are enough for it. -/
theorem number?_fixedUpper (width : Nat) {n : Nat} (fits : n < 16 ^ width) :
    number? (Hex.fixedUpper width n) = some n := by
  induction width generalizing n with
  | zero =>
    rw [Nat.pow_zero, Nat.lt_one_iff] at fits
    rw [fits]
    rfl
  | succ width ih =>
    rw [Nat.pow_succ] at fits
    have higher := ih (n := n / 16) (by omega)
    have last := NumberToken.readsDigits_hexadecimal.digit (n % 16) (Nat.mod_lt n (by decide))
    rw [number?, NumberToken.value?] at higher ⊢
    rw [Hex.fixedUpper, Hex.fixed, List.map_append, NumberToken.go_append, ← Hex.fixedUpper,
      higher]
    simp only [List.map_cons, List.map_nil, Option.bind_some, NumberToken.value?.go, last,
      Nat.div_add_mod]

theorem ofNat_bytes (w : Word) :
    BitVec.ofNat 16 (256 * w.highByte.toNat + w.lowByte.toNat) = w := by
  have high : w.highByte.toNat = w.toNat / 256 := by
    simp [Word.highByte, Nat.shiftRight_eq_div_pow]
    omega
  have low : w.lowByte.toNat = w.toNat % 256 := by
    simp [Word.lowByte]
  rw [high, low, Nat.div_add_mod, BitVec.ofNat_toNat, BitVec.setWidth_eq]

theorem readWords?_hexBytes (words : List Word) :
    readWords? (words.flatMap fun w => w.hexBytes ++ [' ', ' ']) = some words := by
  induction words with
  | nil => rfl
  | cons w words ih =>
    have high := number?_fixedUpper 2 (n := w.highByte.toNat) w.highByte.toNat_lt
    have low := number?_fixedUpper 2 (n := w.lowByte.toNat) w.lowByte.toNat_lt
    have step : readWords? ((w :: words).flatMap fun w => w.hexBytes ++ [' ', ' ']) =
        match number? (Hex.fixedUpper 2 w.highByte.toNat),
          number? (Hex.fixedUpper 2 w.lowByte.toNat),
          readWords? (words.flatMap fun w => w.hexBytes ++ [' ', ' ']) with
        | some high, some low, some words =>
          some (BitVec.ofNat 16 (256 * high + low) :: words)
        | _, _, _ => none := rfl
    rw [step, high, low, ih]
    simp only [ofNat_bytes]

/-- The columns of a row line give its address and its words. -/
theorem readRow?_leading {address : Nat} (small : address < 65536) (words : List Word) :
    readRow? (leading address words) = some (BitVec.ofNat 16 address, words) := by
  have read := number?_fixedUpper 4 small
  have step : readRow? (leading address words) =
      match number? (Hex.fixedUpper 4 address),
        readWords? (words.flatMap fun w => w.hexBytes ++ [' ', ' ']) with
      | some address, some words => some (BitVec.ofNat 16 address, words)
      | _, _ => none := rfl
  rw [step, read, readWords?_hexBytes]

theorem length_leading (address : Nat) {words : List Word} (full : words.length = wordsPerRow) :
    (leading address words).length = leadingWidth := by
  have bytes : ∀ ws : List Word,
      (ws.flatMap fun w => w.hexBytes ++ [' ', ' ']).length = ws.length * 7 := by
    intro ws
    simp [List.length_flatMap, Word.hexBytes, Hex.fixedUpper, Hex.length_fixed, List.map_const']
  simp [leading, bytes, full, leadingWidth, Hex.fixedUpper, Hex.length_fixed]
  omega

/-- The text of a row begins with its columns. -/
theorem take_text_row (mode : LiteralMode) (address : Nat) {words : List Word}
    (full : words.length = wordsPerRow) :
    ((Entry.row address words).text mode).toList.take leadingWidth = leading address words := by
  rw [toList_text_row, List.append_assoc, List.take_left' (length_leading address full)]

/-- What a line of a dump adds to the memory. -/
theorem restore_row (m : Memory) (mode : LiteralMode) {address : Nat} (small : address < 65536)
    {words : List Word} (full : words.length = wordsPerRow) (lines : List (List Char)) :
    restore m (((Entry.row address words).text mode).toList.take leadingWidth :: lines) =
      restore (m.writeAll (BitVec.ofNat 16 address) words) lines := by
  rw [restore, take_text_row mode address full, readRow?_leading small]

theorem restore_gap (m : Memory) (mode : LiteralMode) (lines : List (List Char)) :
    restore m ((Entry.gap.text mode).toList.take leadingWidth :: lines) = restore m lines := by
  have unread : readRow? ((Entry.gap.text mode).toList.take leadingWidth) = none := by
    rw [toList_text_gap]
    rfl
  rw [restore, unread]

theorem length_rowWords (m : Memory) (row : Nat) : (rowWords m row).length = wordsPerRow := by
  simp [rowWords, Memory.readMany]

/-- The words of a row are the cells at the addresses of the row. -/
theorem rowWords_getElem? (m : Memory) {row : Nat} (inside : row < rowCount) (a : Word) :
    (rowWords m row)[(a - BitVec.ofNat 16 (row * wordsPerRow)).toNat]? =
      if a.toNat / wordsPerRow = row then some (m.read a) else none := by
  have eight : wordsPerRow = 8 := rfl
  have bound : row < 8192 := inside
  have start : (BitVec.ofNat 16 (row * wordsPerRow)).toNat = row * 8 := by
    rw [eight, BitVec.toNat_ofNat]
    omega
  by_cases within : a.toNat / wordsPerRow = row
  · have distance : (a - BitVec.ofNat 16 (row * wordsPerRow)).toNat < wordsPerRow := by
      rw [eight] at within
      bv_omega
    have reached : BitVec.ofNat 16 (row * wordsPerRow) +
        BitVec.ofNat 16 (a - BitVec.ofNat 16 (row * wordsPerRow)).toNat = a := by
      rw [BitVec.ofNat_toNat, BitVec.setWidth_eq, BitVec.add_comm, BitVec.sub_add_cancel]
    rw [if_pos within, rowWords, Memory.readMany, List.getElem?_map,
      List.getElem?_range distance, Option.map_some, reached]
  · rw [if_neg within, List.getElem?_eq_none]
    rw [length_rowWords]
    rw [eight] at within
    bv_omega

/-- The second memory has the rows before this one, and nothing else. -/
def HasRows (m m' : Memory) (row : Nat) : Prop :=
  ∀ a, m'.read a = if a.toNat / wordsPerRow < row then m.read a else 0

theorem HasRows.writeAll {m m' : Memory} {row : Nat} (inside : row < rowCount)
    (has : HasRows m m' row) :
    HasRows m (m'.writeAll (BitVec.ofNat 16 (row * wordsPerRow)) (rowWords m row)) (row + 1) := by
  intro a
  have fits : (rowWords m row).length ≤ 65536 := by rw [length_rowWords]; decide
  rw [Memory.read_writeAll _ _ _ fits, rowWords_getElem? m inside]
  split
  · next within => rw [if_pos (by omega), Option.getD_some]
  · next outside =>
    rw [Option.getD_none, has a]
    simp only [show a.toNat / wordsPerRow < row + 1 ↔ a.toNat / wordsPerRow < row by omega]

/-- A hidden row is zero, as an unwritten one. -/
theorem HasRows.skip {m m' : Memory} {row : Nat} (inside : row < rowCount)
    (has : HasRows m m' row) (hidden : ¬Shown m row) : HasRows m m' (row + 1) := by
  intro a
  rw [has a]
  by_cases within : a.toNat / wordsPerRow = row
  · have blank : isBlankRow (rowWords m row) = true := by
      simpa [Shown] using fun h => hidden (.inr h)
    have cell := rowWords_getElem? m inside a
    rw [if_pos within] at cell
    have zero : m.read a = 0 := by
      simpa using List.all_eq_true.mp blank _ (List.mem_of_getElem? cell)
    rw [zero, ite_self, ite_self]
  · simp only [show a.toNat / wordsPerRow < row + 1 ↔ a.toNat / wordsPerRow < row by omega]

/-- The lines from a row on complete a memory that has the rows before it. -/
theorem restore_rows {m m' : Memory} {row n : Nat} (mode : LiteralMode)
    (remaining : row + n = rowCount) (has : HasRows m m' row) :
    restore m' (((List.range' row n).filterMap (entryOf? m)).map fun e =>
      (e.text mode).toList.take leadingWidth) = m := by
  -- A row that is shown is written, and one that is not is zero before and after.
  induction n generalizing row m' with
  | zero =>
    rw [List.range'_zero, List.filterMap_nil, List.map_nil, restore]
    apply Memory.ext_read
    intro a
    have within : a.toNat / wordsPerRow < row := by
      rw [← Nat.add_zero row, remaining]
      exact Nat.div_lt_of_lt_mul a.isLt
    rw [has a, if_pos within]
  | succ n ih =>
    have inside : row < rowCount := by omega
    have remaining' : row + 1 + n = rowCount := by omega
    rw [List.range'_succ, List.filterMap_cons, entryOf?]
    by_cases shown : Shown m row
    · have small : row * wordsPerRow < 65536 := (Nat.mul_lt_mul_right (by decide)).mpr inside
      simp only [if_pos shown, List.map_cons, restore_row _ mode small (length_rowWords m row)]
      exact ih remaining' (has.writeAll inside)
    · have next := ih remaining' (has.skip inside shown)
      simp only [if_neg shown]
      split
      · exact next
      · next e found =>
        split at found
        · cases found
          rw [List.map_cons, restore_gap, next]
        · cases found

/-- The memory is what the columns of its dump show. -/
theorem restore_columns (m : Machine) (mode : LiteralMode) :
    restore .zero (columns (memory m mode)) = m.memory := by
  have empty : HasRows m.memory .zero 0 := by
    intro a
    simp
  rw [columns, rawLines_memory, entries_eq, List.range_eq_range', List.map_map]
  exact restore_rows mode (Nat.zero_add rowCount) empty

/-- The columns do not depend on the mode. -/
theorem columns_memory (m : Machine) (mode mode' : LiteralMode) :
    columns (memory m mode) = columns (memory m mode') := by
  rw [columns, columns, rawLines_memory, rawLines_memory, List.map_map, List.map_map, entries_eq]
  apply List.map_congr_left
  intro e listed
  cases e with
  | gap => simp only [Function.comp_apply, toList_text_gap]
  | row address words =>
    obtain ⟨row, inside, found⟩ := List.mem_filterMap.mp listed
    have full : words.length = wordsPerRow := by
      cases (entryOf?_eq_some_iff (List.mem_range.mp inside)).mp found
      exact length_rowWords m.memory row
    simp only [Function.comp_apply, take_text_row _ address full]

/-- A memory dump loses nothing. Its lines stand for the rows of the memory in their order; a row
line begins with the columns of its address and its bytes and goes on without a line break; the
columns give the memory back, so that they are those of another machine only if the memories are
the same. -/
theorem memory_dump_loses_nothing (m : Machine) (mode : LiteralMode) :
    (∃ placed : List (Nat × Entry), placed.Pairwise (·.1 < ·.1) ∧
      (∀ row e, (row, e) ∈ placed ↔ StandsFor m.memory row e) ∧
      Source.rawLines (memory m mode).toList = placed.map fun p => (p.2.text mode).toList) ∧
    (∀ address words, ∃ rest, Unbroken (leading address words ++ rest) ∧
      ((Entry.row address words).text mode).toList = leading address words ++ rest ++ ['\n']) ∧
    (Entry.gap.text mode).toList = [' ', ' ', ' ', '*', '\n'] ∧
    restore .zero (columns (memory m mode)) = m.memory ∧
    ∀ (m' : Machine) (mode' : LiteralMode),
      columns (memory m' mode') = columns (memory m mode) ↔ m'.memory = m.memory := by
  refine ⟨?_, fun address words => ?_, toList_text_gap mode, restore_columns m mode,
    fun m' mode' => ⟨fun same => ?_, fun same => ?_⟩⟩
  · obtain ⟨placed, ordered, stand, listed⟩ := exists_placed m.memory
    refine ⟨placed, ordered, stand, ?_⟩
    rw [rawLines_memory, listed, List.map_map]
    rfl
  · exact ⟨trailing mode words, unbroken_append.mpr
      ⟨unbroken_leading address words, unbroken_trailing mode words⟩,
      toList_text_row mode address words⟩
  · rw [← restore_columns m' mode', same, restore_columns]
  · rw [columns_memory m' mode' mode, memory, memory, same]

end Dump

end LC3
