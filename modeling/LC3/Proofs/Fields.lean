import LC3.Word
import Mathlib.Algebra.Group.Int.Defs

/-!
# Signed fields keep the values that fit

Narrowing cuts a word down to a field and sign extension widens the field again. The round trip
gives back every word whose signed value the field can hold.
-/

namespace LC3.Word

/-- The signed value of the word is one of those that `n` bits can hold. -/
def Fits (w : Word) (n : Nat) : Prop :=
  -2 ^ (n - 1) ≤ w.toInt ∧ w.toInt ≤ 2 ^ (n - 1) - 1

instance (w : Word) (n : Nat) : Decidable (w.Fits n) := inferInstanceAs (Decidable (_ ∧ _))

theorem signExtend_setWidth {w : Word} {n : Nat} (positive : 0 < n) (small : n ≤ 16)
    (fits : w.Fits n) : (w.setWidth n).signExtend 16 = w := by
  obtain ⟨low, high⟩ := fits
  have double : ((2 ^ n : Nat) : Int) = 2 * 2 ^ (n - 1) := by
    obtain ⟨k, rfl⟩ : ∃ k, n = k + 1 := ⟨n - 1, by omega⟩
    rw [Nat.pow_succ, Nat.mul_comm, Nat.add_sub_cancel]
    push_cast
    rfl
  have same : Int.bmod w.toNat (2 ^ n) = Int.bmod w.toInt (2 ^ n) := by
    rw [BitVec.toInt_eq_toNat_bmod]
    exact (Int.bmod_bmod_of_dvd (Nat.pow_dvd_pow 2 small)).symm
  apply BitVec.eq_of_toInt_eq
  rw [BitVec.toInt_signExtend_of_le small, BitVec.toInt_setWidth, same]
  exact Int.bmod_eq_of_le_mul_two (by omega) (by omega)

/-- A value that fits has its sign in the field already, so narrowing forces no bit. -/
theorem narrow_eq_setWidth {w : Word} {n : Nat} (positive : 0 < n) (small : n ≤ 16)
    (fits : w.Fits n) : w.narrow n = w.setWidth n := by
  have sign : (w.setWidth n).msb = w.msb := by
    have widened := congrArg BitVec.msb (signExtend_setWidth positive small fits)
    rcases Nat.lt_or_eq_of_le small with less | rfl
    · rw [BitVec.msb_signExtend, if_neg (by omega)] at widened
      simpa using widened
    · rw [BitVec.setWidth_eq]
  rw [narrow]
  split
  · next negative =>
    have top : (w.setWidth n).getLsbD (n - 1) = true := by
      rw [← BitVec.msb_eq_getLsbD_last, sign, negative]
    apply BitVec.eq_of_getLsbD_eq
    intro i hi
    rw [BitVec.getLsbD_or, BitVec.getLsbD_twoPow]
    by_cases last : n - 1 = i
    · rw [← last, top, Bool.true_or]
    · simp [last]
  · rfl

theorem signExtend_narrow {w : Word} {n : Nat} (positive : 0 < n) (small : n ≤ 16)
    (fits : w.Fits n) : (w.narrow n).signExtend 16 = w := by
  rw [narrow_eq_setWidth positive small fits, signExtend_setWidth positive small fits]

/-- The extension of a field is narrowed to the field again. -/
theorem narrow_signExtend {n : Nat} (positive : 0 < n) (small : n ≤ 16) (v : BitVec n) :
    narrow (v.signExtend 16) n = v := by
  have value : (v.signExtend 16).toInt = v.toInt := BitVec.toInt_signExtend_of_le small
  have fits : Fits (v.signExtend 16) n := by
    have low := BitVec.le_toInt v
    have high := BitVec.toInt_lt (x := v)
    exact ⟨value ▸ low, value ▸ Int.le_sub_one_of_lt high⟩
  have back := congrArg BitVec.toInt (signExtend_narrow positive small fits)
  rw [BitVec.toInt_signExtend_of_le small, value] at back
  exact BitVec.eq_of_toInt_eq back

/-- So is a byte with a clear high half. -/
theorem narrow_setWidth (v : BitVec 8) : narrow (v.setWidth 16) 8 = v := by
  have sign : (v.setWidth 16).msb = false := by
    rw [BitVec.msb_setWidth, BitVec.getLsbD_of_ge v (16 - 1) (by decide), Bool.and_false]
  rw [narrow, sign, if_neg Bool.false_ne_true, BitVec.setWidth_setWidth_of_le v (by decide),
    BitVec.setWidth_eq]

/-- Extending the low bits of a word is the sign extension of the field they are. -/
theorem extend_setWidth {n : Nat} (positive : 0 < n) (small : n ≤ 16) (v : BitVec n) :
    extend (v.setWidth 16) n = v.signExtend 16 := by
  have top : (v.setWidth 16).getLsbD (n - 1) = v.msb := by
    rw [BitVec.getLsbD_setWidth, BitVec.msb_eq_getLsbD_last]
    simp only [Bool.and_eq_right_iff_imp, decide_eq_true_eq]
    omega
  rw [extend, top]
  apply BitVec.eq_of_getLsbD_eq
  intro i hi
  cases sign : v.msb with
  | true =>
    rw [if_pos rfl, BitVec.getLsbD_or, BitVec.getLsbD_signExtend, BitVec.getLsbD_not]
    by_cases inside : i < n <;> simp [sign, inside, hi]
  | false =>
    rw [if_neg Bool.false_ne_true, BitVec.getLsbD_signExtend]
    by_cases inside : i < n
    · simp [inside, hi]
    · simp [inside, hi, sign, BitVec.getLsbD_of_ge v i (by omega)]

theorem signedField_eq_signExtend {n : Nat} (positive : 0 < n) (small : n ≤ 16) (w : Word)
    (start : Nat) : w.signedField start n = (w.field start n).signExtend 16 :=
  extend_setWidth positive small _

/-- A single bit as a word. -/
theorem unsignedField_single (w : Word) (k : Nat) :
    w.unsignedField k 1 = if w.getLsbD k then 1 else 0 := by
  have bit : w.field k 1 = BitVec.ofBool (w.getLsbD k) := by
    apply BitVec.eq_of_getLsbD_eq
    intro i hi
    obtain rfl : i = 0 := by omega
    simp [field]
  rw [unsignedField, bit]
  cases w.getLsbD k <;> rfl

/-- The low bits of a field are a field. -/
theorem extractLsb'_field (w : Word) {start n k : Nat} (inside : k ≤ n) :
    (w.field start n).extractLsb' 0 k = w.field start k := by
  apply BitVec.eq_of_getLsbD_eq
  intro i hi
  have within : i < n := by omega
  simp [field, hi, within]

/-- A field can be cut out of the word that holds it alone. -/
theorem field_unsignedField (w : Word) {start n : Nat} (small : n ≤ 16) :
    (w.unsignedField start n).field 0 n = w.field start n := by
  apply BitVec.eq_of_getLsbD_eq
  intro i hi
  have within : i < 16 := by omega
  simp [unsignedField, field, hi, within]

theorem extend_compress {n : Nat} (positive : 0 < n) (small : n ≤ 16) (w : Word) :
    (w.compress n).extend n = (w.narrow n).signExtend 16 := extend_setWidth positive small _

/-- The word that a signed field of `n` bits makes of an operand: the operand itself if it fits, and
otherwise what compressing leaves of it. -/
def operandValue (w : Word) (n : Nat) : Word := if w.Fits n then w else (w.compress n).extend n

theorem signExtend_narrow_eq_operandValue {n : Nat} (positive : 0 < n) (small : n ≤ 16)
    (w : Word) : (w.narrow n).signExtend 16 = w.operandValue n := by
  rw [operandValue]
  split
  · next fits => exact signExtend_narrow positive small fits
  · exact (extend_compress positive small w).symm

/-- The word that an eight-bit vector makes of an operand: the operand itself if it fits. -/
def vectorValue (w : Word) : Word := if w.toNat < 256 then w else w.compress 8

theorem setWidth_narrow_eq_vectorValue (w : Word) : (w.narrow 8).setWidth 16 = w.vectorValue := by
  rw [vectorValue]
  split
  · next small =>
    have sign : w.msb = false := by
      rw [BitVec.msb_eq_decide, decide_eq_false_iff_not]
      omega
    rw [narrow, sign, if_neg Bool.false_ne_true]
    apply BitVec.eq_of_toNat_eq
    rw [BitVec.toNat_setWidth, BitVec.toNat_setWidth]
    omega
  · rfl

end LC3.Word
