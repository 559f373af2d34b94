import LC3.Symbol

/-!
# Memory and registers

Both are total: every word is an address, and every register has a value. A read after a write
gives the written value at the written address and the old one elsewhere.
-/

namespace LC3

/-- One cell for each address. -/
structure Memory where
  cells : Vector Word 65536

namespace Memory

def zero : Memory := ⟨Vector.replicate 65536 0⟩

def read (m : Memory) (a : Word) : Word := m.cells.get ⟨a.toNat, a.isLt⟩

def write (m : Memory) (a w : Word) : Memory := ⟨m.cells.set a.toNat w a.isLt⟩

/-- Writes the words at consecutive addresses; the address after the last one is zero. -/
def writeAll (m : Memory) (a : Word) : List Word → Memory
  | [] => m
  | w :: ws => (m.write a w).writeAll (a + 1) ws

def readMany (m : Memory) (a : Word) (n : Nat) : List Word :=
  (List.range n).map fun i => m.read (a + BitVec.ofNat 16 i)

/-- The characters of a string with one character a word, cut at the first zero and otherwise
after `limit` characters. -/
def textAt (m : Memory) (a : Word) (limit : Nat) : List Word :=
  (m.readMany a limit).takeWhile (· ≠ 0)

/-- The characters of a string with two characters a word, the low byte first. The last word read
may carry it one character past the limit. -/
def packedTextAt (m : Memory) (a : Word) (limit : Nat) : List Word :=
  ((m.readMany a ((limit + 1) / 2)).flatMap fun w =>
    [Word.ofByte w.lowByte, Word.ofByte w.highByte]).takeWhile (· ≠ 0)

@[simp] theorem read_zero (a : Word) : zero.read a = 0 := by
  simp [zero, read, Vector.get]

theorem read_write (m : Memory) (a b w : Word) :
    (m.write a w).read b = if a = b then w else m.read b := by
  have h : a.toNat = b.toNat ↔ a = b := ⟨fun e => BitVec.eq_of_toNat_eq e, fun e => by rw [e]⟩
  change (m.cells.set a.toNat w a.isLt)[b.toNat] = if a = b then w else m.cells[b.toNat]
  rw [Vector.getElem_set]
  simp only [h]

/-- A cell holds the word that was written there, and otherwise what it held before. -/
theorem read_writeAll (m : Memory) (a b : Word) {ws : List Word} (fits : ws.length ≤ 65536) :
    (m.writeAll a ws).read b = ws[(b - a).toNat]?.getD (m.read b) := by
  induction ws generalizing m a with
  | nil => rfl
  | cons w ws ih =>
    rw [List.length_cons] at fits
    rw [writeAll, ih (m.write a w) (a + 1) (by omega), read_write]
    by_cases here : a = b
    · -- The words that follow are too few to reach the first cell again.
      subst here
      have distance : (a - (a + 1)).toNat = 65535 := by bv_omega
      rw [distance, List.getElem?_eq_none (by omega), BitVec.sub_self, if_pos rfl]
      rfl
    · have distance : (b - a).toNat = (b - (a + 1)).toNat + 1 := by bv_omega
      rw [if_neg here, distance, List.getElem?_cons_succ]

end Memory

structure Registers where
  cells : Vector Word 8

namespace Registers

def zero : Registers := ⟨Vector.replicate 8 0⟩

def get (r : Registers) (i : Register) : Word := r.cells.get ⟨i.index.toNat, i.index.isLt⟩

def set (r : Registers) (i : Register) (w : Word) : Registers :=
  ⟨r.cells.set i.index.toNat w i.index.isLt⟩

theorem get_set (r : Registers) (i j : Register) (w : Word) :
    (r.set i w).get j = if i = j then w else r.get j := by
  have h : i.index.toNat = j.index.toNat ↔ i = j := by
    constructor
    · intro e
      cases i
      cases j
      exact congrArg Register.mk (BitVec.eq_of_toNat_eq e)
    · intro e
      rw [e]
  change (r.cells.set i.index.toNat w i.index.isLt)[j.index.toNat] =
    if i = j then w else r.cells[j.index.toNat]
  rw [Vector.getElem_set]
  simp only [h]

end Registers

end LC3
