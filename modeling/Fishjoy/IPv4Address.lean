import Fishjoy.ByteArray
import Fishjoy.Foundation.ByteReverse
import Mathlib.Data.Nat.Bitwise
import Mathlib.Data.UInt

namespace Fishjoy
open ByteReverse

inductive Undefined where
  | shift
  | overflow
  | index
  deriving DecidableEq

-- The shift is one of the `int` 1 by `sizeof(T) * 8 - bits`, a `size_t`.
def CreateMask (width : UInt64) (bits : UInt32) : Except Undefined Int32 :=
  let shift := width-bits.toUInt64
  if 32 ≤ shift then .error .shift
  else
    let power := (1 : Int32) <<< shift.toUInt32.toInt32
    if power = Int32.minValue then .error .overflow else .ok (power-1)

def lowBits (n : Nat) : Int32 := Int32.ofNat (2^n-1)

-- The mask has its low `width - bits` bits set, as long as these are at most 30.
theorem CreateMask_low {width : UInt64} {bits : UInt32} {n : Nat} (shift : width-bits.toUInt64 = UInt64.ofNat n)
    (small : n < 31) : CreateMask width bits = .ok (lowBits n) := by
  have table : ∀ n < 31, (if 32 ≤ UInt64.ofNat n then Except.error Undefined.shift
      else if (1 : Int32) <<< (UInt64.ofNat n).toUInt32.toInt32 = Int32.minValue then .error .overflow
      else .ok ((1 : Int32) <<< (UInt64.ofNat n).toUInt32.toInt32-1)) = .ok (lowBits n) := by decide
  unfold CreateMask
  rw [shift]
  exact table n small

theorem lowBits_bit (n i : Nat) : (lowBits n).toUInt32.toBitVec.getLsbD i = (decide (i < 32) && decide (i < n)) := by
  have same : (lowBits n).toUInt32.toBitVec = BitVec.ofNat 32 (2^n-1) := rfl
  rw [same,BitVec.getLsbD_ofNat,Nat.testBit_two_pow_sub_one]

-- `addr` is `sin_addr.s_addr` as the host reads it.
structure SockaddrIn where
  family : UInt16
  port : UInt16
  addr : UInt32
  deriving DecidableEq

def AF_INET : UInt16 := 2

def bswap_32 (x : UInt32) : UInt32 := ⟨reverse x.toBitVec⟩

def byteswapOnLittleEndian (host : Endian) (t : UInt32) : UInt32 :=
  match host with
  | .little => bswap_32 t
  | .big => t

-- The `IPAddress::ptr` they return may be null.
namespace IPv4Address

def broadcastAddress (host : Endian) (m_addr : SockaddrIn) (prefixLen : UInt32) : Except Undefined (Option SockaddrIn) :=
  if 32 < prefixLen then .ok none
  else (CreateMask 32 prefixLen).map fun mask =>
    some {m_addr with addr := m_addr.addr ||| byteswapOnLittleEndian host mask.toUInt32}

def networkAddress (host : Endian) (m_addr : SockaddrIn) (prefixLen : UInt32) : Except Undefined (Option SockaddrIn) :=
  if 32 < prefixLen then .ok none
  else (CreateMask 32 prefixLen).map fun mask =>
    some {m_addr with addr := m_addr.addr &&& byteswapOnLittleEndian host (~~~mask.toUInt32)}

def subnetMask (host : Endian) (prefixLen : UInt32) : Except Undefined (Option SockaddrIn) :=
  (CreateMask 32 prefixLen).map fun mask =>
    some ⟨AF_INET,0,~~~byteswapOnLittleEndian host mask.toUInt32⟩

-- The address in host order.
def hostAddr (host : Endian) (m_addr : SockaddrIn) : UInt32 := byteswapOnLittleEndian host m_addr.addr

-- The functions return as they should for the mask `m`.
structure Masked (host : Endian) (a : SockaddrIn) (prefixLen m : UInt32) : Prop where
  mask : ∀ k < 32, m.toBitVec.getMsbD k = decide (k < prefixLen.toNat)
  network : ∃ n, networkAddress host a prefixLen = .ok (some n) ∧ hostAddr host n = hostAddr host a &&& m ∧
    n.port = a.port ∧ n.family = a.family
  broadcast : ∃ b, broadcastAddress host a prefixLen = .ok (some b) ∧ hostAddr host b = hostAddr host a ||| ~~~m ∧
    b.port = a.port ∧ b.family = a.family
  subnet : ∃ s, subnetMask host prefixLen = .ok (some s) ∧ hostAddr host s = m

variable {host : Endian} {x y : UInt32}

theorem byteswap_byteswap : byteswapOnLittleEndian host (byteswapOnLittleEndian host x) = x := by
  cases host with
  | little => exact UInt32.toBitVec_inj.mp reverse_reverse
  | big => rfl

theorem byteswap_and : byteswapOnLittleEndian host (x &&& y) =
    byteswapOnLittleEndian host x &&& byteswapOnLittleEndian host y := by
  cases host with
  | little => exact UInt32.toBitVec_inj.mp reverse_and
  | big => rfl

theorem byteswap_or : byteswapOnLittleEndian host (x ||| y) =
    byteswapOnLittleEndian host x ||| byteswapOnLittleEndian host y := by
  cases host with
  | little => exact UInt32.toBitVec_inj.mp reverse_or
  | big => rfl

theorem byteswap_not : byteswapOnLittleEndian host (~~~x) = ~~~byteswapOnLittleEndian host x := by
  cases host with
  | little => exact UInt32.toBitVec_inj.mp reverse_not
  | big => rfl

variable {a : SockaddrIn} {prefixLen : UInt32}

theorem CreateMask_prefix (accepted : prefixLen ≤ 32) (two : 2 ≤ prefixLen) :
    CreateMask 32 prefixLen = .ok (lowBits (32-prefixLen.toNat)) := by
  have upper : prefixLen.toNat ≤ 32 := UInt32.le_iff_toNat_le.mp accepted
  have lower : 2 ≤ prefixLen.toNat := UInt32.le_iff_toNat_le.mp two
  have wide : prefixLen.toUInt64 ≤ 32 := UInt64.le_iff_toNat_le.mpr (by simpa using upper)
  refine CreateMask_low ?_ (by omega)
  apply UInt64.toNat.inj
  have small : 32-prefixLen.toNat < UInt64.size := Nat.lt_of_le_of_lt (Nat.sub_le _ _) (by decide)
  rw [UInt64.toNat_sub_of_le _ _ wide,UInt64.toNat_ofNat_of_lt' small]
  simp

theorem lowBits_mask {p : Nat} (upper : p ≤ 32) (k : Nat) (bound : k < 32) :
    (~~~(lowBits (32-p)).toUInt32).toBitVec.getMsbD k = decide (k < p) := by
  rw [UInt32.toBitVec_not,BitVec.getMsbD_not,BitVec.getMsbD_eq_getLsbD,lowBits_bit]
  have place : decide (32-1-k < 32-p) = !decide (k < p) := by
    rw [←decide_not]
    exact decide_eq_decide.mpr (by omega)
  rw [decide_eq_true bound,decide_eq_true (show 32-1-k < 32 by omega),place]
  simp

-- With no bit or one bit the shift or the subtraction overflows.
theorem CreateMask_short (short : ¬2 ≤ prefixLen) : ∃ u, CreateMask 32 prefixLen = .error u := by
  have value : prefixLen.toNat < 2 := by
    rwa [UInt32.le_iff_toNat_le,Nat.not_le] at short
  have cases01 : prefixLen = 0 ∨ prefixLen = 1 := by
    rw [←UInt32.toNat_inj,←UInt32.toNat_inj]
    simp only [UInt32.reduceToNat]
    omega
  rcases cases01 with rfl | rfl
  · exact ⟨.shift,by decide⟩
  · exact ⟨.overflow,by decide⟩

theorem masked (accepted : prefixLen ≤ 32) (two : 2 ≤ prefixLen) :
    Masked host a prefixLen (~~~(lowBits (32-prefixLen.toNat)).toUInt32) := by
  have inside : ¬32 < prefixLen := UInt32.not_lt.mpr accepted
  have mask := lowBits_mask (UInt32.le_iff_toNat_le.mp accepted)
  have created := CreateMask_prefix accepted two
  generalize lowBits (32-prefixLen.toNat) = low at mask created
  constructor
  · exact mask
  · refine ⟨{a with addr := a.addr &&& byteswapOnLittleEndian host (~~~low.toUInt32)},?_,?_,rfl,rfl⟩
    · rw [networkAddress,if_neg inside,created,Except.map]
    · rw [hostAddr,byteswap_and,byteswap_byteswap,hostAddr]
  · refine ⟨{a with addr := a.addr ||| byteswapOnLittleEndian host low.toUInt32},?_,?_,rfl,rfl⟩
    · rw [broadcastAddress,if_neg inside,created,Except.map]
    · rw [hostAddr,byteswap_or,byteswap_byteswap,hostAddr,UInt32.not_not]
  · refine ⟨⟨AF_INET,0,~~~byteswapOnLittleEndian host low.toUInt32⟩,?_,?_⟩
    · rw [subnetMask,created,Except.map]
    · rw [hostAddr,byteswap_not,byteswap_byteswap]

theorem prefixes_exactly (host : Endian) (a : SockaddrIn) (prefixLen : UInt32) (accepted : prefixLen ≤ 32) :
    (∃ m, Masked host a prefixLen m) ↔ 2 ≤ prefixLen := by
  constructor
  · intro ⟨_,_,⟨_,done,_⟩,_,_⟩
    apply Decidable.by_contra
    intro short
    obtain ⟨u,undefined⟩ := CreateMask_short short
    rw [networkAddress,undefined] at done
    split at done <;> cases done
  · exact fun two => ⟨_,masked accepted two⟩

theorem prefixes_exactly_class : ∃ m, Masked .little ⟨AF_INET,80,0x0100A8C0⟩ 24 m :=
  (prefixes_exactly .little _ 24 (by decide)).mpr (by decide)

theorem zero_prefix_undefined : ¬∀ (host : Endian) (a : SockaddrIn) (prefixLen : UInt32), prefixLen ≤ 32 →
    ∃ m, Masked host a prefixLen m := by
  intro always
  obtain ⟨_,_,⟨_,done,_⟩,_,_⟩ := always .little ⟨AF_INET,0,0⟩ 0 (by decide)
  cases done

end IPv4Address
end Fishjoy
