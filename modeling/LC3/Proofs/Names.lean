import LC3.Proofs.Reading

/-!
# Names in upper case

Folding a token to upper case makes it neither end elsewhere nor become another kind of token. So a
name that was read from a token in any case is read from its own text again.
-/

namespace LC3

/-- A property of a character and its upper case has to hold of the lower-case letters, and where
both are the same. -/
theorem toUpper_induction {P : Char → Char → Prop} (same : ∀ c, P c c)
    (letter : ∀ n < 26, P (Char.ofNat (97 + n)) (Char.ofNat (97 + n)).toUpper) (c : Char) :
    P c c.toUpper := by
  by_cases low : 97 ≤ c.toNat ∧ c.toNat ≤ 122
  · have shifted : c = Char.ofNat (97 + (c.toNat - 97)) := by
      rw [Nat.add_sub_cancel' low.1, Char.ofNat_toNat]
    rw [shifted]
    exact letter _ (by omega)
  · have unchanged : c.toUpper = c := dif_neg low
    rw [unchanged]
    exact same c

theorem endsToken_toUpper (c : Char) : endsToken c.toUpper = endsToken c :=
  toUpper_induction (P := fun c d => endsToken d = endsToken c) (fun _ => rfl) (by decide) c

theorem toUpper_toUpper (c : Char) : c.toUpper.toUpper = c.toUpper :=
  toUpper_induction (P := fun c d => d.toUpper = c.toUpper) (fun _ => rfl) (by decide) c

variable {token : List Char}

theorem map_toUpper_toUpper (token : List Char) :
    (token.map Char.toUpper).map Char.toUpper = token.map Char.toUpper := by
  simp only [List.map_map, Function.comp_def, toUpper_toUpper]

theorem IsToken.toUpper (isToken : IsToken token) : IsToken (token.map Char.toUpper) where
  nonempty := by simpa using isToken.nonempty
  unbroken := by
    intro d present
    obtain ⟨c, inside, rfl⟩ := List.mem_map.mp present
    rw [endsToken_toUpper, isToken.unbroken c inside]

/-- A token names a register in either case or in neither. -/
theorem Register.ofName?_map_toUpper (token : List Char) :
    ofName? (token.map Char.toUpper) = ofName? token := by
  have letters : ∀ c : Char, (c.toUpper = 'R' ∨ c.toUpper = 'r') ↔ (c = 'R' ∨ c = 'r') :=
    toUpper_induction (P := fun c d => (d = 'R' ∨ d = 'r') ↔ (c = 'R' ∨ c = 'r'))
      (fun _ => .rfl) (by decide)
  have digits : ∀ c : Char, ('0' ≤ c.toUpper ∧ c.toUpper ≤ '7') ↔ ('0' ≤ c ∧ c ≤ '7') :=
    toUpper_induction (P := fun c d => ('0' ≤ d ∧ d ≤ '7') ↔ ('0' ≤ c ∧ c ≤ '7'))
      (fun _ => .rfl) (by decide)
  have digit : ∀ c : Char, '0' ≤ c ∧ c ≤ '7' → c.toUpper = c :=
    toUpper_induction (P := fun c d => '0' ≤ c ∧ c ≤ '7' → d = c) (fun _ _ => rfl) (by decide)
  match token with
  | [letter, d] =>
    simp only [List.map_cons, List.map_nil, ofName?, letters, digits]
    split
    · next range => rw [digit d range.2]
    · rfl
  | [] => rfl
  | [_] => rfl
  | _ :: _ :: _ :: _ => rfl

/-- A token that is read as a name has the name as its text. -/
theorem isName_foldCase (isToken : IsToken token) (unquoted : token.head? ≠ some '"')
    (unnamed : Register.ofName? token = none)
    (classified : NumberToken.classify (token.map Char.toUpper) = .name) :
    IsName (Cursor.foldCase token) := by
  have quote : ∀ c : Char, c.toUpper = '"' → c = '"' :=
    toUpper_induction (P := fun c d => d = '"' → c = '"') (fun _ => id) (by decide)
  constructor <;> rw [Cursor.foldCase, String.toList_ofList]
  · exact isToken.toUpper
  · exact map_toUpper_toUpper token
  · intro first
    obtain ⟨c, others, rfl⟩ := List.exists_cons_of_ne_nil isToken.nonempty
    have upper : c.toUpper = '"' := by simpa using first
    exact unquoted (by rw [quote c upper]; rfl)
  · exact (Register.ofName?_map_toUpper token).trans unnamed
  · exact classified

theorem isLabel_foldCase (isToken : IsToken token)
    (unknown : ¬Keyword.isKeyword (Cursor.foldCase token) = true) :
    IsLabel (Cursor.foldCase token) where
  isToken := by
    rw [Cursor.foldCase, String.toList_ofList]
    exact isToken.toUpper
  folded := by
    rw [Cursor.foldCase, String.toList_ofList]
    exact map_toUpper_toUpper token
  unknown := Bool.eq_false_iff.mpr unknown

end LC3
