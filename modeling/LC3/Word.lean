/-!
# Words and their bit fields

A word has sixteen bits and serves as cell, register, instruction and address; arithmetic on
addresses wraps. Instructions store signed values in narrower fields. `narrow` squeezes a word
into a field and never fails: a value that is too wide loses its high bits and keeps its sign.
-/

namespace LC3

abbrev Word := BitVec 16

namespace Word

/-- The byte as a word with a clear high half. -/
def ofByte (b : UInt8) : Word := b.toBitVec.setWidth 16

def lowByte (w : Word) : UInt8 := UInt8.ofBitVec (w.setWidth 8)

def highByte (w : Word) : UInt8 := UInt8.ofBitVec (w.extractLsb' 8 8)

/-- Keeps the low `n` bits and sets the highest of them when the word is negative. -/
def narrow (w : Word) (n : Nat) : BitVec n :=
  if w.msb then w.setWidth n ||| BitVec.twoPow n (n - 1) else w.setWidth n

/-- The narrowed value in the low bits of a word that is clear above them. -/
def compress (w : Word) (n : Nat) : Word := (w.narrow n).setWidth 16

/-- The `n` bits from bit `start` up. -/
def field (w : Word) (start n : Nat) : BitVec n := w.extractLsb' start n

def unsignedField (w : Word) (start n : Nat) : Word := (w.field start n).setWidth 16

/-- Sets all bits from `n` up when bit `n - 1` is set, and leaves the word alone otherwise. -/
def extend (w : Word) (n : Nat) : Word :=
  if w.getLsbD (n - 1) then w ||| ~~~(BitVec.allOnes n).setWidth 16 else w

/-- The field as a signed word. -/
def signedField (w : Word) (start n : Nat) : Word := (w.unsignedField start n).extend n

end Word

end LC3
