import LC3.Proofs.ReaderOutcomes

/-!
# Offsets in a text

A cursor only moves over whole characters. Here a text is read by byte offsets instead, with a check
wherever a step could go wrong: a slice has to begin and end between characters of the text, a
difference must not be negative, and a round of a loop that goes on has to have moved on inside the
text. At the offset of a cursor these checks do not fail.
-/

namespace LC3

namespace Checked

/-- The text before and after so many bytes. There is none past the end or inside a character. -/
def cut? : List Char → Nat → Option (List Char × List Char)
  | text, 0 => some ([], text)
  | [], _ + 1 => none
  | c :: text, n + 1 =>
    if c.utf8Size ≤ n + 1 then
      (cut? text (n + 1 - c.utf8Size)).map fun (before, after) => (c :: before, after)
    else none

def from? (text : List Char) (offset : Nat) : Option (List Char) := (cut? text offset).map Prod.snd

def upTo? (text : List Char) (offset : Nat) : Option (List Char) := (cut? text offset).map Prod.fst

def between? (text : List Char) (first last : Nat) : Option (List Char) := do
  let before ← upTo? text last
  from? before first

def distance? (first last : Nat) : Option Nat := if first ≤ last then some (last - first) else none

/-- What a round of a loop comes to: it goes on from an offset, or the loop has its result. -/
inductive Round (σ β : Type)
  | again (offset : Nat) (state : σ)
  | done (result : β)

variable {σ β : Type}

/-- Repeats a round. There is no result if a check in a round fails, or if a round that goes on has
not moved on inside the text. -/
def loop? (text : List Char) (round : Nat → σ → Option (Round σ β)) (offset : Nat) (state : σ) :
    Option β :=
  match round offset state with
  | none => none
  | some (.done result) => some result
  | some (.again next state') =>
    if offset < next ∧ next ≤ byteLength text then loop? text round next state' else none
termination_by byteLength text - offset

section

variable (text : List Char)

/-- Moves on by so many bytes, at most to the end. -/
def advance (offset n : Nat) : Nat := min (offset + n) (byteLength text)

def first? (offset : Nat) : Option (Option Char) := (from? text offset).map List.head?

/-- The next character, and the offset after it. -/
def bump? (offset : Nat) : Option (Option Char × Nat) := do
  match ← first? text offset with
  | none => some (none, offset)
  | some c => some (some c, advance text offset c.utf8Size)

end

/-- The offset is not past the end of the text, and not inside a character. -/
def IsPlace (text : List Char) (offset : Nat) : Prop :=
  (⟨offset⟩ : String.Pos.Raw).IsValid (String.ofList text)

/-- A loop comes to a result. Each round begins at a place in the text and fails no check, and a
round that goes on has moved on. -/
inductive Runs (text : List Char) (round : Nat → σ → Option (Round σ β)) : Nat → σ → β → Prop
  | done {offset : Nat} {state : σ} {result : β} (place : IsPlace text offset)
      (stops : round offset state = some (.done result)) : Runs text round offset state result
  | again {offset next : Nat} {state state' : σ} {result : β} (place : IsPlace text offset)
      (goesOn : round offset state = some (.again next state')) (forward : offset < next)
      (others : Runs text round next state' result) : Runs text round offset state result

variable {text : List Char}

theorem utf8ByteSize_ofList (text : List Char) :
    (String.ofList text).utf8ByteSize = byteLength text := by
  induction text with
  | nil => rfl
  | cons c text ih =>
    rw [← List.singleton_append, String.ofList_append, String.utf8ByteSize_append, ih,
      ← String.singleton_eq_ofList, String.utf8ByteSize_singleton]
    rfl

theorem IsPlace.le_byteLength {offset : Nat} (place : IsPlace text offset) :
    offset ≤ byteLength text := by
  rw [← utf8ByteSize_ofList]
  exact place.le_rawEndPos

section

variable {round : Nat → σ → Option (Round σ β)} {offset : Nat} {state : σ} {result : β}

theorem Runs.place (runs : Runs text round offset state result) : IsPlace text offset := by
  cases runs <;> assumption

/-- A loop that comes to a result has it. -/
theorem Runs.loop?_eq (runs : Runs text round offset state result) :
    loop? text round offset state = some result := by
  induction runs with
  | done place stops => rw [loop?, stops]
  | again place goesOn forward others ih =>
    rw [loop?, goesOn]
    simp only [if_pos (And.intro forward others.place.le_byteLength), ih]

end

theorem cut?_eq_some_iff {n : Nat} {before after : List Char} :
    cut? text n = some (before, after) ↔ text = before ++ after ∧ byteLength before = n := by
  fun_induction cut? text n generalizing before with
  | case1 text =>
    constructor
    · intro cut
      cases cut
      exact ⟨rfl, rfl⟩
    · rintro ⟨rfl, empty⟩
      cases before with
      | nil => rfl
      | cons c before =>
        have positive := c.utf8Size_pos
        rw [byteLength_cons] at empty
        omega
  | case2 n =>
    constructor
    · exact nofun
    · rintro ⟨whole, size⟩
      cases (List.append_eq_nil_iff.mp whole.symm).1
      cases size
  | case3 c text n fits ih =>
    constructor
    · intro cut
      obtain ⟨⟨before, after⟩, cut, same⟩ := Option.map_eq_some_iff.mp cut
      cases same
      obtain ⟨rfl, size⟩ := ih.mp cut
      refine ⟨rfl, ?_⟩
      rw [byteLength_cons, size]
      omega
    · rintro ⟨whole, size⟩
      cases before with
      | nil => cases size
      | cons d before =>
        cases whole
        rw [byteLength_cons] at size
        rw [ih.mpr ⟨rfl, by omega⟩]
        rfl
  | case4 c text n large =>
    constructor
    · exact nofun
    · rintro ⟨whole, size⟩
      cases before with
      | nil => cases size
      | cons d before =>
        cases whole
        rw [byteLength_cons] at size
        omega

variable {c next : Cursor}

/-- The cursor is in the text, behind as many bytes as its offset says. -/
def Inside (text : List Char) (c : Cursor) : Prop :=
  ∃ passed, text = passed ++ c.rest ∧ c.offset = byteLength passed

theorem inside_start (text : List Char) : Inside text (Cursor.start text) := ⟨[], rfl, rfl⟩

namespace Inside

theorem of_precedes (inside : Inside text c) (precedes : c.Precedes next) : Inside text next := by
  obtain ⟨passed, rfl, offset⟩ := inside
  obtain ⟨between, shape⟩ := precedes.suffix
  refine ⟨passed ++ between, by rw [List.append_assoc, shape], ?_⟩
  rw [precedes.offset_eq shape.symm, offset, byteLength_append]

theorem isPlace (inside : Inside text c) : IsPlace text c.offset := by
  obtain ⟨passed, rfl, offset⟩ := inside
  refine String.Pos.Raw.isValid_iff_exists_append.mpr
    ⟨String.ofList passed, String.ofList c.rest, String.ofList_append, ?_⟩
  rw [offset, ← utf8ByteSize_ofList]
  rfl

theorem from?_eq (inside : Inside text c) : from? text c.offset = some c.rest := by
  obtain ⟨passed, whole, offset⟩ := inside
  rw [from?, cut?_eq_some_iff.mpr ⟨whole, offset.symm⟩]
  rfl

theorem first?_eq (inside : Inside text c) : first? text c.offset = some c.rest.head? := by
  rw [first?, inside.from?_eq]
  rfl

/-- The text between two cursors. -/
theorem between?_eq {passed : List Char} (inside : Inside text c) (precedes : c.Precedes next)
    (shape : c.rest = passed ++ next.rest) : between? text c.offset next.offset = some passed := by
  obtain ⟨before, whole, offset⟩ := inside
  have last : upTo? text next.offset = some (before ++ passed) := by
    rw [upTo?, cut?_eq_some_iff.mpr ⟨by rw [whole, shape, List.append_assoc], ?_⟩]
    · rfl
    · rw [byteLength_append, precedes.offset_eq shape, offset]
  have first : from? (before ++ passed) c.offset = some passed := by
    rw [from?, cut?_eq_some_iff.mpr ⟨rfl, offset.symm⟩]
    rfl
  rw [between?, last]
  exact first

/-- Moving on by the bytes of the text that follows. -/
theorem advance_eq {rest : List Char} (inside : Inside text c) (passed : List Char)
    (shape : c.rest = passed ++ rest) :
    advance text c.offset (byteLength passed) = (c.moveTo rest).offset := by
  obtain ⟨before, whole, offset⟩ := inside
  simp only [advance, Cursor.moveTo, whole, shape, byteLength_append, offset]
  omega

theorem bump?_nil (inside : Inside text c) (ended : c.rest = []) :
    bump? text c.offset = some (none, c.offset) := by
  rw [bump?, inside.first?_eq, ended]
  rfl

theorem bump?_cons {d : Char} {rest : List Char} (inside : Inside text c)
    (ahead : c.rest = d :: rest) :
    bump? text c.offset = some (some d, (c.moveTo rest).offset) := by
  have moved := inside.advance_eq [d] ahead
  rw [bump?, inside.first?_eq, ahead, ← moved]
  rfl

/-- A cursor is given by the text in front of it. -/
theorem eq_of_rest (inside : Inside text c) (inside' : Inside text next)
    (same : c.rest = next.rest) : c = next := by
  obtain ⟨passed, whole, offset⟩ := inside
  obtain ⟨passed', whole', offset'⟩ := inside'
  obtain ⟨start, rest⟩ := c
  obtain ⟨start', rest'⟩ := next
  cases same
  cases List.append_cancel_right (whole.symm.trans whole')
  cases offset.trans offset'.symm
  rfl

end Inside

/-- A text can be cut at its places, and nowhere else. -/
theorem isSome_from?_iff {offset : Nat} :
    (from? text offset).isSome = true ↔ IsPlace text offset := by
  constructor
  · intro cut
    obtain ⟨rest, found⟩ := Option.isSome_iff_exists.mp cut
    obtain ⟨⟨passed, after⟩, cut, rfl⟩ := Option.map_eq_some_iff.mp found
    obtain ⟨whole, size⟩ := cut?_eq_some_iff.mp cut
    exact Inside.isPlace (c := ⟨offset, after⟩) ⟨passed, whole, size.symm⟩
  · intro place
    obtain ⟨passed, after, whole, size⟩ := String.Pos.Raw.isValid_iff_exists_append.mp place
    have inside : Inside text ⟨offset, after.toList⟩ := by
      refine ⟨passed.toList, ?_, ?_⟩
      · rw [← String.toList_append, ← whole, String.toList_ofList]
      · rw [← utf8ByteSize_ofList, String.ofList_toList]
        exact congrArg String.Pos.Raw.byteIdx size
    rw [inside.from?_eq]
    rfl

example : from? ['é', 'b'] 1 = none := by decide

/-- A cursor with less text in front of it has moved on. -/
theorem offset_lt_of_length_lt (precedes : c.Precedes next)
    (shorter : next.rest.length < c.rest.length) : c.offset < next.offset := by
  obtain ⟨passed, whole⟩ := precedes.suffix
  rw [precedes.offset_eq whole.symm]
  cases passed with
  | nil =>
    rw [← whole, List.nil_append] at shorter
    exact absurd shorter (Nat.lt_irrefl _)
  | cons d passed =>
    have positive := d.utf8Size_pos
    rw [byteLength_cons]
    omega

/-- The length of the text from a cursor on, as it is measured from a later one. -/
theorem distance?_eq (precedes : c.Precedes next) : ∃ passed,
    distance? c.offset next.offset = some passed ∧
      byteLength next.rest + passed = byteLength c.rest := by
  obtain ⟨passed, whole⟩ := precedes.suffix
  have offset := precedes.offset_eq whole.symm
  refine ⟨byteLength passed, ?_, ?_⟩
  · rw [distance?, if_pos (by omega), offset, Nat.add_sub_cancel_left]
  · rw [← whole, byteLength_append, Nat.add_comm]

theorem precedes_tail {d : Char} {rest : List Char} (ahead : c.rest = d :: rest) :
    c.Precedes (c.moveTo rest) :=
  Cursor.precedes_moveTo ⟨[d], ahead.symm⟩

end Checked

end LC3
