import Mathlib.Data.Nat.Bitwise
import Mathlib.Tactic.Ring

namespace Words

-- The bytes of a number in `count` bytes, least significant first.
def littleBytes : Nat → Nat → List UInt8
  | 0,_ => []
  | count+1,value => UInt8.ofNat value :: littleBytes count (value/256)

def ofLittleBytes : List UInt8 → Nat
  | [] => 0
  | byte :: rest => byte.toNat+256*ofLittleBytes rest

theorem littleBytes_length (count value : Nat) : (littleBytes count value).length = count := by
  induction count generalizing value with
  | zero => rfl
  | succ count ih => simp [littleBytes,ih]

theorem ofLittleBytes_littleBytes (small : value < 256^count) : ofLittleBytes (littleBytes count value) = value := by
  induction count generalizing value with
  | zero => simp only [Nat.pow_zero,Nat.lt_one_iff] at small; rw [small]; rfl
  | succ count ih =>
      have less : value/256 < 256^count := Nat.div_lt_of_lt_mul (by rw [Nat.pow_succ] at small; omega)
      rw [littleBytes,ofLittleBytes,ih less,UInt8.toNat_ofNat']
      exact Nat.mod_add_div value 256

theorem littleBytes_ofLittleBytes (bytes : List UInt8) : littleBytes bytes.length (ofLittleBytes bytes) = bytes := by
  induction bytes with
  | nil => rfl
  | cons byte rest ih =>
      have small := byte.toNat_lt
      have high : (byte.toNat+256*ofLittleBytes rest)/256 = ofLittleBytes rest := by omega
      have low : UInt8.ofNat (byte.toNat+256*ofLittleBytes rest) = byte := by
        apply UInt8.toNat_inj.mp
        rw [UInt8.toNat_ofNat']
        omega
      rw [List.length_cons,ofLittleBytes,littleBytes,high,low,ih]

-- Seven bits a byte, least significant first, with the top bit on all bytes
-- but the last.
theorem varint_low (value : Nat) : (value &&& 0x7F) ||| 0x80 = value%128+128 := by
  have mask : value &&& 0x7F = value%128 := Nat.and_two_pow_sub_one_eq_mod value 7
  have set := Nat.two_pow_add_eq_or_of_lt (i := 7) (Nat.mod_lt value (by decide)) 1
  rw [mask,Nat.or_comm,Nat.add_comm]
  exact set.symm

theorem or_shifted (below : result < 2^i) (fits : value*2^i < 2^width) :
    result ||| value <<< i % 2^width = result+value*2^i := by
  rw [Nat.shiftLeft_eq,Nat.mod_eq_of_lt fits,Nat.mul_comm value,Nat.or_comm,
    ←Nat.two_pow_add_eq_or_of_lt below,Nat.add_comm]

-- Zigzag: the sign goes to the lowest bit.
theorem low_bit (e : BitVec (k+1)) : (e &&& 1).toNat = e.toNat%2 := by
  have one : (1 : BitVec (k+1)).toNat = 1 := BitVec.toNat_one (Nat.succ_pos k)
  rw [BitVec.toNat_and,one]
  exact Nat.and_one_is_mod e.toNat

theorem half (e : BitVec w) : (e >>> 1).toNat = e.toNat/2 := by
  rw [BitVec.toNat_ushiftRight,Nat.shiftRight_one]

theorem double (v : BitVec w) : (v*2).toNat = v.toNat*2%2^w := by
  rw [BitVec.toNat_mul,show (2 : BitVec w).toNat = 2%2^w from BitVec.toNat_ofNat 2 w,Nat.mul_mod_mod]

theorem zigzag_nonneg (v : BitVec (k+1)) (sign : v.toNat < 2^k) :
    ((v*2) >>> 1) ^^^ -(v*2 &&& 1) = v := by
  have whole : (v*2).toNat = v.toNat*2 := by
    rw [double,Nat.mod_eq_of_lt (by rw [Nat.pow_succ]; omega)]
  have even : v*2 &&& 1 = 0 := by
    apply BitVec.eq_of_toNat_eq
    rw [low_bit,whole,Nat.mul_mod_left]
    rfl
  have still : -(0 : BitVec (k+1)) = 0 := BitVec.neg_zero _
  have unchanged : (v*2) >>> 1 ^^^ (0 : BitVec (k+1)) = (v*2) >>> 1 := BitVec.xor_zero
  rw [even,still,unchanged]
  apply BitVec.eq_of_toNat_eq
  rw [half,whole,Nat.mul_div_cancel _ (by decide)]

-- At the least number the doubling overflows to zero and the decrement wraps.
theorem zigzag_neg (v : BitVec (k+1)) (sign : 2^k ≤ v.toNat) :
    ((-v*2-1) >>> 1) ^^^ -((-v*2-1) &&& 1) = v := by
  have bound := v.isLt
  have some := Nat.two_pow_pos k
  have one : (1 : BitVec (k+1)).toNat = 1 := BitVec.toNat_one (Nat.succ_pos k)
  have whole : (-v*2-1).toNat = (2^(k+1)-v.toNat)*2-1 := by
    rw [BitVec.toNat_sub,double,BitVec.toNat_neg,one,Nat.mod_eq_of_lt (show 2^(k+1)-v.toNat < 2^(k+1) by omega)]
    rw [Nat.pow_succ] at bound ⊢
    by_cases least : v.toNat = 2^k
    · have wraps : (2^k*2-v.toNat)*2 = 2^k*2 := by omega
      rw [wraps,Nat.mod_self,Nat.add_zero,Nat.mod_eq_of_lt (by omega)]
    · have less : (2^k*2-v.toNat)*2 < 2^k*2 := by omega
      rw [Nat.mod_eq_of_lt less,Nat.mod_eq_sub_mod (by omega),Nat.mod_eq_of_lt (by omega)]
      omega
  have odd : (-v*2-1) &&& 1 = 1 := by
    apply BitVec.eq_of_toNat_eq
    rw [low_bit,whole,one]
    omega
  have ones : -(1 : BitVec (k+1)) = BitVec.allOnes (k+1) := BitVec.neg_one_eq_allOnes
  rw [odd,ones,BitVec.xor_allOnes]
  apply BitVec.eq_of_toNat_eq
  rw [BitVec.toNat_not,half,whole]
  omega

end Words
