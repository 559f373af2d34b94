import LC3.Word

/-!
# Bounded queues

The machine and its host exchange words through two queues of a fixed capacity. Neither side ever
waits on a queue: a word that does not fit is refused, and an empty queue has nothing to give.
-/

namespace LC3

/-- Words in arrival order, never more than the capacity. -/
structure Queue where
  items : List Word
  capacity : Nat
  length_le : items.length ≤ capacity

namespace Queue

def empty (capacity : Nat) : Queue := ⟨[], capacity, Nat.zero_le _⟩

def defaultCapacity : Nat := 64

def length (q : Queue) : Nat := q.items.length

def isEmpty (q : Queue) : Bool := q.items.isEmpty

def isFull (q : Queue) : Bool := q.capacity ≤ q.length

/-- How many words can be pushed before the queue is full. -/
def free (q : Queue) : Nat := q.capacity - q.length

/-- Appends all the words, or none when they do not fit. -/
def append? (q : Queue) (words : List Word) : Option Queue :=
  if h : words.length ≤ q.free then
    some ⟨q.items ++ words, q.capacity, by
      have := q.length_le
      simp only [free, length] at h
      simp only [List.length_append]
      omega⟩
  else none

/-- Appends one word, or refuses it when the queue is full. -/
def push? (q : Queue) (w : Word) : Option Queue := q.append? [w]

/-- Appends words up to the first that does not fit, and counts those appended. -/
def fill (q : Queue) (words : List Word) : Nat × Queue :=
  (min q.free words.length, ⟨q.items ++ words.take q.free, q.capacity, by
    have := q.length_le
    simp only [free, length, List.length_append, List.length_take]
    omega⟩)

def pop? (q : Queue) : Option (Word × Queue) :=
  match h : q.items with
  | [] => none
  | w :: rest => some (w, ⟨rest, q.capacity, by
      have := q.length_le
      rw [h, List.length_cons] at this
      omega⟩)

def drain (q : Queue) : List Word × Queue := (q.items, empty q.capacity)

theorem append?_items {q q' : Queue} {words : List Word} (h : q.append? words = some q') :
    q'.items = q.items ++ words ∧ q'.capacity = q.capacity := by
  unfold append? at h
  split at h
  · cases h
    exact ⟨rfl, rfl⟩
  · exact absurd h (by simp)

end Queue

/-- The UTF-8 bytes of a text, one word each. -/
def textWords (s : String) : List Word := (s.toList.flatMap String.utf8EncodeChar).map Word.ofByte

end LC3
