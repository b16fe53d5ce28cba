import Fishjoy.ByteArrayCodec
import Mathlib.Algebra.Ring.Int.Defs

namespace Fishjoy.Zigzag

-- The value of a signed operation by its exact result; an overflow is undefined.
def signed (w : Nat) (exact : Int) : Option (BitVec w) :=
  if -2^(w-1) ≤ exact ∧ exact < 2^(w-1) then some (.ofInt w exact) else none

def EncodeZigzag (v : BitVec w) : Option (BitVec w) :=
  if v.toInt < 0 then do
    let negated ← signed w (-v.toInt)
    return negated*2-1
  else signed w (v.toInt*2)

def EncodeZigzag32 (v : Int32) : Option UInt32 := (EncodeZigzag v.toBitVec).map .ofBitVec

def EncodeZigzag64 (v : Int64) : Option UInt64 := (EncodeZigzag v.toBitVec).map .ofBitVec

section Writers
variable (b : ByteArray) (memory : Nat → UInt8)

def writeInt32 (value : Int32) : Option (Except ByteArray.Fault ByteArray) :=
  (EncodeZigzag32 value).map (b.writeUint32 memory)

def writeInt64 (value : Int64) : Option (Except ByteArray.Fault ByteArray) :=
  (EncodeZigzag64 value).map (b.writeUint64 memory)

end Writers

theorem signed_isSome {exact : Int} : (signed w exact).isSome = true ↔ -2^(w-1) ≤ exact ∧ exact < 2^(w-1) := by
  unfold signed
  split
  · rename_i fits
    exact iff_of_true rfl fits
  · rename_i outside
    exact iff_of_false Bool.false_ne_true outside

theorem signed_value {exact : Int} (defined : signed w exact = some x) : x = .ofInt w exact := by
  unfold signed at defined
  split at defined
  · exact (Option.some.inj defined).symm
  · cases defined

-- Twice the value needs a bit more than the value, and the least value has no negative.
theorem EncodeZigzag_isSome (v : BitVec (k+2)) :
    (EncodeZigzag v).isSome = true ↔ -2^(k+1) < v.toInt ∧ v.toInt < 2^k := by
  have above : v.toInt < 2^(k+1) := v.toInt_lt
  have double : (2 : Int)^(k+1) = 2^k*2 := Int.pow_succ 2 k
  have positive : (0 : Int) < 2^k := Int.pow_pos (by decide)
  unfold EncodeZigzag
  split
  · rename_i negative
    have bind_isSome : ((signed (k+2) (-v.toInt)).bind fun negated => some (negated*2-1)).isSome =
        (signed (k+2) (-v.toInt)).isSome := by
      cases signed (k+2) (-v.toInt) <;> rfl
    refine (Bool.coe_iff_coe.mpr bind_isSome).trans (signed_isSome.trans ?_)
    change -2^(k+1) ≤ -v.toInt ∧ -v.toInt < 2^(k+1) ↔ _
    omega
  · rename_i nonnegative
    refine signed_isSome.trans ?_
    change -2^(k+1) ≤ v.toInt*2 ∧ v.toInt*2 < 2^(k+1) ↔ _
    omega

-- Where nothing overflows, the value is that of wrapping arithmetic.
theorem EncodeZigzag_value {v : BitVec w} (defined : EncodeZigzag v = some code) :
    code = if v.toInt < 0 then -v*2-1 else v*2 := by
  unfold EncodeZigzag at defined
  split at defined
  · rename_i negative
    obtain ⟨negated,fits,same⟩ := Option.bind_eq_some_iff.mp defined
    have same := Option.some.inj same
    rw [signed_value fits,BitVec.ofInt_neg,BitVec.ofInt_toInt] at same
    rw [if_pos negative,same]
  · rename_i nonnegative
    rw [if_neg nonnegative,signed_value defined,BitVec.ofInt_mul,BitVec.ofInt_toInt]
    rfl

theorem EncodeZigzag32_value {v : Int32} (defined : EncodeZigzag32 v = some code) : code = Fishjoy.EncodeZigzag32 v := by
  obtain ⟨bits,fits,rfl⟩ := Option.map_eq_some_iff.mp defined
  rw [EncodeZigzag_value fits]
  unfold Fishjoy.EncodeZigzag32
  have sign : v < 0 ↔ v.toBitVec.toInt < 0 := Int32.lt_iff_toInt_lt
  by_cases negative : v < 0
  · rw [if_pos negative,if_pos (sign.mp negative)]
    rfl
  · rw [if_neg negative,if_neg (mt sign.mpr negative)]
    rfl

theorem EncodeZigzag64_value {v : Int64} (defined : EncodeZigzag64 v = some code) : code = Fishjoy.EncodeZigzag64 v := by
  obtain ⟨bits,fits,rfl⟩ := Option.map_eq_some_iff.mp defined
  rw [EncodeZigzag_value fits]
  unfold Fishjoy.EncodeZigzag64
  have sign : v < 0 ↔ v.toBitVec.toInt < 0 := Int64.lt_iff_toInt_lt
  by_cases negative : v < 0
  · rw [if_pos negative,if_pos (sign.mp negative)]
    rfl
  · rw [if_neg negative,if_neg (mt sign.mpr negative)]
    rfl

section Defined
variable (b : ByteArray) (memory : Nat → UInt8)

-- The writers of the codec are these, where they are defined.
theorem writeInt32_value {value : Int32} (defined : writeInt32 b memory value = some result) :
    result = b.writeInt32 memory value := by
  obtain ⟨code,fits,rfl⟩ := Option.map_eq_some_iff.mp defined
  rw [EncodeZigzag32_value fits]
  rfl

theorem writeInt64_value {value : Int64} (defined : writeInt64 b memory value = some result) :
    result = b.writeInt64 memory value := by
  obtain ⟨code,fits,rfl⟩ := Option.map_eq_some_iff.mp defined
  rw [EncodeZigzag64_value fits]
  rfl

theorem writeInt32_isSome (value : Int32) :
    (writeInt32 b memory value).isSome = true ↔ -2^31 < value.toInt ∧ value.toInt < 2^30 := by
  unfold writeInt32 EncodeZigzag32
  rw [Option.isSome_map,Option.isSome_map]
  exact EncodeZigzag_isSome value.toBitVec

theorem writeInt64_isSome (value : Int64) :
    (writeInt64 b memory value).isSome = true ↔ -2^63 < value.toInt ∧ value.toInt < 2^62 := by
  unfold writeInt64 EncodeZigzag64
  rw [Option.isSome_map,Option.isSome_map]
  exact EncodeZigzag_isSome value.toBitVec

end Defined

theorem writers_defined (b : ByteArray) (memory : Nat → UInt8) (v : Int32) (w : Int64) :
    ((writeInt32 b memory v).isSome = true ↔ -2^31 < v.toInt ∧ v.toInt < 2^30) ∧
    ((writeInt64 b memory w).isSome = true ↔ -2^63 < w.toInt ∧ w.toInt < 2^62) :=
  ⟨writeInt32_isSome b memory v,writeInt64_isSome b memory w⟩

theorem quarter_overflows : ¬∀ (b : ByteArray) (memory : Nat → UInt8) (v : Int32) (w : Int64),
    (writeInt32 b memory v).isSome = true ∧ (writeInt64 b memory w).isSome = true := by
  intro always
  have quarter := (writeInt32_isSome _ _ _).mp (always (.initial 4096 fun _ => 0) (fun _ => 0) 1073741824 0).1
  exact absurd quarter.2 (by decide)

end Fishjoy.Zigzag
