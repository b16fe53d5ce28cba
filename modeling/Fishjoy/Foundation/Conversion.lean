import Mathlib.Data.UInt

-- The conversions between an `int` and a `uint64_t`.
namespace Conversion

def narrow (x : UInt64) : Int32 := x.toUInt32.toInt32

def widen (i : Int32) : UInt64 := i.toInt64.toUInt64

-- The value is taken modulo 2^32, with the upper half below zero.
theorem narrow_toInt (x : UInt64) : (narrow x).toInt =
    if x.toNat % 2^32 < 2^31 then (x.toNat % 2^32 : Int) else x.toNat % 2^32-2^32 := by
  change (x.toUInt32.toBitVec).toInt = _
  rw [BitVec.toInt_eq_toNat_cond]
  change (if 2*x.toUInt32.toNat < 2^32 then (x.toUInt32.toNat : Int) else x.toUInt32.toNat-(2^32 : Nat)) = _
  rw [UInt64.toNat_toUInt32]
  split <;> split <;> omega

theorem widen_toNat (i : Int32) : ((widen i).toNat : Int) = if 0 ≤ i.toInt then i.toInt else i.toInt+2^64 := by
  have value : (i.toInt64.toBitVec).toInt = i.toInt := Int32.toInt_toInt64 i
  rw [BitVec.toInt_eq_toNat_cond] at value
  have bound := i.toInt64.toBitVec.isLt
  have upper := i.toInt_lt
  change (i.toInt64.toBitVec.toNat : Int) = _
  split at value <;> split <;> omega

theorem narrow_widen (i : Int32) : narrow (widen i) = i := by
  apply Int32.toInt.inj
  have value := widen_toNat i
  have lower := i.le_toInt
  have upper := i.toInt_lt
  rw [narrow_toInt]
  split at value <;> split <;> omega

end Conversion
