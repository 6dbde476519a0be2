import Nhop.Foundation.Address

/-!
Numbers as runs of octets, the most significant one first.

A number that fits is read back from its octets (`digitsValue_octets`), and every
run of octets is that of the number it is read as (`octets_digitsValue`).
-/

namespace Nhop.Foundation

/-- The last `count` octets of a number. -/
def octets : ℕ → ℕ → List UInt8
  | 0, _ => []
  | count + 1, n => octets count (n / 256) ++ [UInt8.ofNat n]

@[simp] theorem length_octets (count n : ℕ) : (octets count n).length = count := by
  induction count generalizing n with
  | zero => rfl
  | succ count ih => rw [octets, List.length_append, ih, List.length_singleton]

theorem digitsValue_append (digits : List ℕ) (digit radix : ℕ) :
    digitsValue radix (digits ++ [digit]) = digitsValue radix digits * radix + digit := by
  simp [digitsValue]

/-- **A number is read back from its octets**, as far as they hold it. -/
theorem digitsValue_octets (count n : ℕ) :
    digitsValue 256 ((octets count n).map UInt8.toNat) = n % 256 ^ count := by
  induction count generalizing n with
  | zero => simp [octets, digitsValue, Nat.mod_one]
  | succ count ih =>
      have hlast : (UInt8.ofNat n).toNat = n % 256 := UInt8.toNat_ofNat
      have hsplit : n % (256 * 256 ^ count) = n % 256 + 256 * (n / 256 % 256 ^ count) :=
        Nat.mod_mul
      rw [octets, List.map_append, List.map_singleton, digitsValue_append, ih, hlast, pow_succ',
        hsplit]
      omega

/-- **And octets from the number.** The induction is on them from their end. -/
theorem octets_digitsValue (bytes : List UInt8) :
    octets bytes.length (digitsValue 256 (bytes.map UInt8.toNat)) = bytes := by
  induction bytes using List.reverseRecOn with
  | nil => rfl
  | append_singleton bytes byte ih =>
      have hbyte : byte.toNat < 256 := byte.toNat_lt
      have hlast : UInt8.ofNat
          (digitsValue 256 (bytes.map UInt8.toNat) * 256 + byte.toNat) = byte := by
        apply UInt8.toNat_inj.mp
        rw [UInt8.toNat_ofNat']
        omega
      have hrest : (digitsValue 256 (bytes.map UInt8.toNat) * 256 + byte.toNat) / 256 =
          digitsValue 256 (bytes.map UInt8.toNat) := by omega
      rw [List.length_append, List.length_singleton, List.map_append, List.map_singleton,
        digitsValue_append, octets, hrest, ih, hlast]

theorem digitsValue_lt (bytes : List UInt8) :
    digitsValue 256 (bytes.map UInt8.toNat) < 256 ^ bytes.length := by
  rw [← octets_digitsValue bytes, digitsValue_octets, length_octets]
  exact Nat.mod_lt _ (Nat.pow_pos (by omega))

end Nhop.Foundation
