import LC3.Machine

/-!
# Strings in memory

A string is the run of characters from an address up to the first zero, with one character a word
or, when packed, two. What a string trap collects is cut off at a limit; a text that stays below the
limit is a whole string. Words without a zero are a string once they are written with a zero behind
them, and the bytes of a text without the zero character are such words.
-/

namespace LC3.Memory

/-- The `i`th character from the address. A packed word holds two, the low byte first. -/
def character (m : Memory) (packed : Bool) (a : Word) (i : Nat) : Word :=
  if packed then
    let w := m.read (a + BitVec.ofNat 16 (i / 2))
    Word.ofByte (if i % 2 = 0 then w.lowByte else w.highByte)
  else m.read (a + BitVec.ofNat 16 i)

/-- The text is the whole string at the address. -/
structure IsString (m : Memory) (packed : Bool) (a : Word) (text : List Word) : Prop where
  characters : ∀ i (inside : i < text.length), text[i] = m.character packed a i
  nonzero : ∀ c ∈ text, c ≠ 0
  terminated : m.character packed a text.length = 0

/-- The first nonzero values of a function, when there are fewer than were asked for. -/
theorem takeWhile_range (f : Nat → Word) {n : Nat} {text : List Word}
    (collected : text = ((List.range n).map f).takeWhile (· ≠ 0)) (short : text.length < n) :
    (∀ i (inside : i < text.length), text[i] = f i) ∧ (∀ c ∈ text, c ≠ 0) ∧
      f text.length = 0 := by
  have split := List.takeWhile_append_dropWhile (p := (· ≠ 0)) (l := (List.range n).map f)
  rw [← collected] at split
  have first : ∀ i (inside : i < text.length), text[i] = f i := by
    intro i inside
    have same := congrArg (·[i]?) split
    have within : text[i]? = some (f i) := by
      simpa [List.getElem?_append_left inside, List.getElem?_range (Nat.lt_trans inside short)]
        using same
    exact (List.getElem?_eq_some_iff.mp within).2
  refine ⟨first, ?_, ?_⟩
  · intro c present
    rw [collected] at present
    simpa using List.all_eq_true.mp List.all_takeWhile c present
  · -- The character that ended the collection is the first of the rest.
    have rest := congrArg (·[text.length]?) split
    have ended := List.head?_dropWhile_not (p := (· ≠ 0)) (l := (List.range n).map f)
    rw [List.head?_eq_getElem?] at ended
    simp only [List.getElem?_append_right (Nat.le_refl _), Nat.sub_self, List.getElem?_map,
      List.getElem?_range short, Option.map_some] at rest
    rw [rest] at ended
    simpa using ended

theorem takeWhile_append_of_nonzero {cs : List Word} (nonzero : ∀ c ∈ cs, c ≠ 0)
    (rest : List Word) : (cs ++ rest).takeWhile (· ≠ 0) = cs ++ rest.takeWhile (· ≠ 0) :=
  List.takeWhile_append_of_pos (by simpa using nonzero)

/-- If the first zero is among the values, those in front of it are taken. -/
theorem takeWhile_range_of_zero (f : Nat → Word) {n limit : Nat} (zero : f n = 0)
    (nonzero : ∀ i < n, f i ≠ 0) (inside : n < limit) :
    ((List.range limit).map f).takeWhile (· ≠ 0) = (List.range n).map f := by
  obtain ⟨extra, rfl⟩ := Nat.exists_eq_add_of_lt inside
  have first : ∀ c ∈ (List.range n).map f, c ≠ 0 := by simpa using nonzero
  rw [Nat.add_assoc, List.range_add, List.map_append, takeWhile_append_of_nonzero first,
    List.range_succ_eq_map]
  simp [zero]

theorem textAt_eq (m : Memory) (a : Word) (limit : Nat) :
    m.textAt a limit =
      ((List.range limit).map (m.character false a)).takeWhile (· ≠ 0) := rfl

theorem flatMap_readMany (m : Memory) (a : Word) (n : Nat) :
    ((m.readMany a n).flatMap fun w => [Word.ofByte w.lowByte, Word.ofByte w.highByte]) =
      (List.range (2 * n)).map (m.character true a) := by
  induction n with
  | zero => rfl
  | succ n ih =>
    have even : 2 * n / 2 = n ∧ 2 * n % 2 = 0 := by omega
    have odd : (2 * n + 1) / 2 = n ∧ (2 * n + 1) % 2 = 1 := by omega
    have pair : List.range (2 * (n + 1)) = List.range (2 * n) ++ [2 * n, 2 * n + 1] := by
      rw [Nat.mul_succ, List.range_succ, List.range_succ, List.append_assoc]
      rfl
    rw [readMany, List.range_succ, List.map_append, List.flatMap_append, ← readMany, ih, pair,
      List.map_append]
    simp [character, even, odd]

/-- A text that a string trap collects is the whole string, if it is below the limit. -/
theorem isString_textAt (m : Memory) (a : Word) {limit : Nat}
    (short : (m.textAt a limit).length < limit) : m.IsString false a (m.textAt a limit) := by
  obtain ⟨characters, nonzero, terminated⟩ := takeWhile_range _ (textAt_eq m a limit) short
  exact ⟨characters, nonzero, terminated⟩

theorem isString_packedTextAt (m : Memory) (a : Word) {limit : Nat}
    (short : (m.packedTextAt a limit).length < limit) :
    m.IsString true a (m.packedTextAt a limit) := by
  have collected : m.packedTextAt a limit =
      ((List.range (2 * ((limit + 1) / 2))).map (m.character true a)).takeWhile (· ≠ 0) := by
    rw [packedTextAt, flatMap_readMany]
  obtain ⟨characters, nonzero, terminated⟩ := takeWhile_range _ collected (by omega)
  exact ⟨characters, nonzero, terminated⟩

/-- A string that is below the limit is collected whole. -/
theorem textAt_of_isString {m : Memory} {a : Word} {text : List Word} {limit : Nat}
    (isString : m.IsString false a text) (short : text.length < limit) :
    m.textAt a limit = text := by
  have nonzero : ∀ i < text.length, m.character false a i ≠ 0 := by
    intro i inside
    rw [← isString.characters i inside]
    exact isString.nonzero _ (List.getElem_mem inside)
  rw [textAt_eq, takeWhile_range_of_zero _ isString.terminated nonzero short]
  refine List.ext_getElem (by simp) fun i _ inside => ?_
  simpa using (isString.characters i inside).symm

/-- Words without a zero are a string where they were written with a zero behind them. -/
theorem isString_writeAll (m : Memory) (a : Word) {text : List Word} (nonzero : ∀ c ∈ text, c ≠ 0)
    (fits : text.length < 65536) : (m.writeAll a (text ++ [0])).IsString false a text := by
  have cell : ∀ i (inside : i < (text ++ [0]).length),
      (m.writeAll a (text ++ [0])).character false a i = (text ++ [0])[i] := by
    intro i inside
    rw [List.length_append, List.length_singleton] at inside
    have distance : (a + BitVec.ofNat 16 i - a).toNat = i := by
      rw [BitVec.add_comm, BitVec.add_sub_cancel, BitVec.toNat_ofNat]
      exact Nat.mod_eq_of_lt (by omega)
    rw [character, if_neg Bool.false_ne_true, read_writeAll _ _ _ (by simp; omega), distance,
      List.getElem?_eq_getElem (by simpa using inside), Option.getD_some]
  refine ⟨fun i inside => ?_, nonzero, ?_⟩
  · rw [cell i (by simpa using Nat.lt_succ_of_lt inside), List.getElem_append_left inside]
  · rw [cell _ (by simp), List.getElem_concat_length rfl]

end LC3.Memory

namespace LC3

theorem ne_zero_of_mem_utf8EncodeChar {c : Char} (nonzero : c ≠ '\x00') {b : UInt8}
    (present : b ∈ String.utf8EncodeChar c) : b ≠ 0 := by
  have byte : ∀ n, 0 < n → n < 256 → UInt8.ofNat n ≠ 0 := by
    intro n positive small zero
    have := congrArg UInt8.toNat zero
    rw [UInt8.toNat_ofNat_of_lt' small] at this
    simp at this
    omega
  have code : c.val.toNat ≠ 0 := by
    intro zero
    exact nonzero (Char.ext (UInt32.toNat_inj.mp zero))
  unfold String.utf8EncodeChar at present
  dsimp only at present
  repeat' split at present
  all_goals
    simp only [List.mem_cons, List.not_mem_nil, or_false] at present
  · subst present
    exact byte _ (by omega) (by omega)
  · rcases present with rfl | rfl <;> exact byte _ (by omega) (by omega)
  · rcases present with rfl | rfl | rfl <;> exact byte _ (by omega) (by omega)
  · rcases present with rfl | rfl | rfl | rfl <;> exact byte _ (by omega) (by omega)

theorem Word.ofByte_ne_zero {b : UInt8} (nonzero : b ≠ 0) : Word.ofByte b ≠ 0 := by
  intro zero
  have low := congrArg (BitVec.setWidth 8) zero
  rw [Word.ofByte, BitVec.setWidth_setWidth_of_le _ (by decide), BitVec.setWidth_eq] at low
  exact nonzero (UInt8.toBitVec_inj.mp low)

/-- The words of a text are nonzero, but for the character zero. -/
theorem ne_zero_of_mem_textWords {s : String} (clean : '\x00' ∉ s.toList) {w : Word}
    (present : w ∈ textWords s) : w ≠ 0 := by
  obtain ⟨b, encoded, rfl⟩ := List.mem_map.mp present
  obtain ⟨c, inside, byte⟩ := List.mem_flatMap.mp encoded
  refine Word.ofByte_ne_zero (ne_zero_of_mem_utf8EncodeChar ?_ byte)
  rintro rfl
  exact clean inside

end LC3
