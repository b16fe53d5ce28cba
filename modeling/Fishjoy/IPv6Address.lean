import Fishjoy.IPv4Address

namespace Fishjoy

structure SockaddrIn6 where
  family : UInt16
  port : UInt16
  flowinfo : UInt32
  addr : Vector UInt8 16
  scopeId : UInt32
  deriving DecidableEq

def AF_INET6 : UInt16 := 10

namespace IPv6Address

-- `CreateMask<uint8_t>`
def byteMask (bits : UInt32) : Except Undefined UInt8 := (CreateMask 8 bits).map fun mask => mask.toUInt32.toUInt8

-- An assignment to `s6_addr[i]`.
def assign (bytes : Vector UInt8 16) (i : Nat) (change : UInt8 → UInt8) : Except Undefined (Vector UInt8 16) :=
  if bound : i < 16 then .ok (bytes.set i (change bytes[i])) else .error .index

-- The loops that fill a range of the bytes.
def fill (value : UInt8) : Nat → Nat → Vector UInt8 16 → Except Undefined (Vector UInt8 16)
  | _,0,bytes => .ok bytes
  | i,count+1,bytes => (assign bytes i fun _ => value).bind (fill value (i+1) count)

def broadcastAddress (m_addr : SockaddrIn6) (prefixLen : UInt32) : Except Undefined SockaddrIn6 := do
  let i := prefixLen.toNat/8
  let mask ← byteMask (prefixLen % 8)
  let bytes ← assign m_addr.addr i (· ||| mask)
  let bytes ← fill 0xff (i+1) (16-(i+1)) bytes
  .ok {m_addr with addr := bytes}

def networkAddress (m_addr : SockaddrIn6) (prefixLen : UInt32) : Except Undefined SockaddrIn6 := do
  let i := prefixLen.toNat/8
  let mask ← byteMask (prefixLen % 8)
  let bytes ← assign m_addr.addr i (· &&& mask)
  let bytes ← fill 0 (i+1) (16-(i+1)) bytes
  .ok {m_addr with addr := bytes}

def subnetMask (prefixLen : UInt32) : Except Undefined SockaddrIn6 := do
  let i := prefixLen.toNat/8
  let mask ← byteMask (prefixLen % 8)
  let bytes ← assign (Vector.replicate 16 0) i fun _ => ~~~mask
  let bytes ← fill 0xff 0 i bytes
  .ok ⟨AF_INET6,0,0,bytes,0⟩

def byteAt (bytes : Vector UInt8 16) (j : Nat) : UInt8 := if inside : j < 16 then bytes[j] else 0

-- The bits of an address from the first, which is the highest of its byte.
def bit (a : SockaddrIn6) (k : Nat) : Bool := (byteAt a.addr (k/8)).toBitVec.getMsbD (k % 8)

-- The three functions return what they should for the prefix.
def Prefixed (a : SockaddrIn6) (prefixLen : UInt32) : Prop :=
  ∃ network broadcast subnet, networkAddress a prefixLen = .ok network ∧ broadcastAddress a prefixLen = .ok broadcast ∧
    subnetMask prefixLen = .ok subnet ∧ ∀ k < 128,
      bit network k = (bit a k && decide (k < prefixLen.toNat)) ∧
      bit broadcast k = (bit a k || !decide (k < prefixLen.toNat)) ∧
      bit subnet k = decide (k < prefixLen.toNat) ∧
      bit network k = (bit a k && bit subnet k) ∧ bit broadcast k = (bit a k || !bit subnet k)

variable {a : SockaddrIn6} {prefixLen : UInt32} {bytes : Vector UInt8 16} {i j count : Nat} {value : UInt8}

theorem byteMask_low (prefixLen : UInt32) : ∃ mask, byteMask (prefixLen % 8) = .ok mask ∧
    ∀ k < 8, mask.toBitVec.getMsbD k = !decide (k < prefixLen.toNat % 8) := by
  have table : ∀ n < 8, byteMask (UInt32.ofNat n) = .ok (lowBits (8-n)).toUInt32.toUInt8 ∧
      ∀ k < 8, (lowBits (8-n)).toUInt32.toUInt8.toBitVec.getMsbD k = !decide (k < n) := by decide
  have rest : prefixLen % 8 = UInt32.ofNat (prefixLen.toNat % 8) := by
    apply UInt32.toNat.inj
    simp
    omega
  rw [rest]
  exact ⟨_,table _ (Nat.mod_lt _ (by decide))⟩

theorem assign_byte (bytes : Vector UInt8 16) (bound : i < 16) (change : UInt8 → UInt8) :
    ∃ out, assign bytes i change = .ok out ∧
      ∀ j < 16, byteAt out j = if j = i then change (byteAt bytes j) else byteAt bytes j := by
  refine ⟨_,dif_pos bound,?_⟩
  intro j inside
  rw [byteAt,dif_pos inside,Vector.getElem_set]
  by_cases same : i = j
  · subst j
    simp [byteAt,inside]
  · simp [byteAt,inside,same,ne_comm.mp same]

theorem fill_bytes (bytes : Vector UInt8 16) (value : UInt8) (i count : Nat) (bound : i+count ≤ 16) :
    ∃ out, fill value i count bytes = .ok out ∧
      ∀ j < 16, byteAt out j = if i ≤ j ∧ j < i+count then value else byteAt bytes j := by
  induction count generalizing i bytes with
  | zero => exact ⟨bytes,rfl,fun j _ => by rw [if_neg (by omega)]⟩
  | succ count ih =>
      obtain ⟨next,assigned,first⟩ := assign_byte bytes (i := i) (by omega) fun _ => value
      obtain ⟨out,filled,rest⟩ := ih next (i+1) (by omega)
      refine ⟨out,by rw [fill,assigned]; exact filled,?_⟩
      intro j inside
      rw [rest j inside,first j inside]
      by_cases later : i+1 ≤ j ∧ j < i+1+count
      · rw [if_pos later,if_pos (by omega)]
      · rw [if_neg later]
        by_cases same : j = i
        · rw [if_pos same,if_pos (by omega)]
        · rw [if_neg same,if_neg (by omega)]

-- The byte in which the prefix ends is changed and the bytes behind it are
-- filled.
theorem tail_filled (bytes : Vector UInt8 16) (bound : i < 16) (change : UInt8 → UInt8) (value : UInt8) :
    ∃ assigned out, assign bytes i change = .ok assigned ∧ fill value (i+1) (16-(i+1)) assigned = .ok out ∧
      ∀ j < 16, byteAt out j =
        if j < i then byteAt bytes j else if j = i then change (byteAt bytes j) else value := by
  obtain ⟨assigned,done,first⟩ := assign_byte bytes bound change
  obtain ⟨out,filled,rest⟩ := fill_bytes assigned value (i+1) (16-(i+1)) (by omega)
  refine ⟨assigned,out,done,filled,?_⟩
  intro j inside
  rw [rest j inside,first j inside]
  by_cases before : j < i
  · rw [if_neg (by omega),if_neg (by omega),if_pos before]
  · by_cases same : j = i
    · rw [if_neg (by omega),if_neg before,if_pos same,if_pos same]
    · rw [if_pos (by omega),if_neg before,if_neg same]

-- The byte of the bit `k`, and where the bit lies relative to the end of the
-- prefix.
theorem byte_cases (k p : Nat) {byte x y z : UInt8}
    (found : byte = if k/8 < p/8 then x else if k/8 = p/8 then y else z) :
    (byte = x ∧ k/8 ≠ p/8 ∧ k < p) ∨ (byte = y ∧ k/8 = p/8 ∧ (k < p ↔ k % 8 < p % 8)) ∨
      (byte = z ∧ k/8 ≠ p/8 ∧ ¬k < p) := by
  by_cases before : k/8 < p/8
  · rw [if_pos before] at found
    exact .inl ⟨found,by omega,by omega⟩
  · rw [if_neg before] at found
    by_cases same : k/8 = p/8
    · rw [if_pos same] at found
      exact .inr (.inl ⟨found,same,by omega⟩)
    · rw [if_neg same] at found
      exact .inr (.inr ⟨found,same,by omega⟩)

theorem filled_bit {k : Nat} (inside : k < 8) :
    (255 : UInt8).toBitVec.getMsbD k = true ∧ (0 : UInt8).toBitVec.getMsbD k = false := by
  have table : ∀ k < 8, (255 : UInt8).toBitVec.getMsbD k = true ∧ (0 : UInt8).toBitVec.getMsbD k = false := by decide
  exact table k inside

theorem broadcast_bits (a : SockaddrIn6) (short : prefixLen.toNat < 128) :
    ∃ out, broadcastAddress a prefixLen = .ok out ∧
      ∀ k < 128, bit out k = (bit a k || !decide (k < prefixLen.toNat)) := by
  obtain ⟨mask,created,low⟩ := byteMask_low prefixLen
  obtain ⟨assigned,out,done,filled,bytes⟩ :=
    tail_filled (i := prefixLen.toNat/8) a.addr (by omega) (· ||| mask) 0xff
  refine ⟨{a with addr := out},by simp only [broadcastAddress,created,done,filled,bind,Except.bind],?_⟩
  intro k inside
  have within : k % 8 < 8 := Nat.mod_lt _ (by decide)
  unfold bit
  rcases byte_cases k prefixLen.toNat (bytes _ (by omega)) with
    ⟨byte,_,taken⟩ | ⟨byte,_,taken⟩ | ⟨byte,_,taken⟩
  · rw [byte,decide_eq_true taken,Bool.not_true,Bool.or_false]
  · rw [byte,UInt8.toBitVec_or,BitVec.getMsbD_or,low _ within,decide_eq_decide.mpr taken]
  · rw [byte,(filled_bit within).1,decide_eq_false taken,Bool.not_false,Bool.or_true]

-- The byte in which the prefix ends keeps the bits behind the prefix.
theorem network_bits (a : SockaddrIn6) (short : prefixLen.toNat < 128) :
    ∃ out, networkAddress a prefixLen = .ok out ∧
      ∀ k < 128, bit out k = (bit a k && (if k/8 = prefixLen.toNat/8 then !decide (k < prefixLen.toNat)
        else decide (k < prefixLen.toNat))) := by
  obtain ⟨mask,created,low⟩ := byteMask_low prefixLen
  obtain ⟨assigned,out,done,filled,bytes⟩ :=
    tail_filled (i := prefixLen.toNat/8) a.addr (by omega) (· &&& mask) 0
  refine ⟨{a with addr := out},by simp only [networkAddress,created,done,filled,bind,Except.bind],?_⟩
  intro k inside
  have within : k % 8 < 8 := Nat.mod_lt _ (by decide)
  unfold bit
  rcases byte_cases k prefixLen.toNat (bytes _ (by omega)) with
    ⟨byte,other,taken⟩ | ⟨byte,same,taken⟩ | ⟨byte,other,taken⟩
  · rw [byte,if_neg other,decide_eq_true taken,Bool.and_true]
  · rw [byte,if_pos same,UInt8.toBitVec_and,BitVec.getMsbD_and,low _ within,decide_eq_decide.mpr taken]
  · rw [byte,if_neg other,(filled_bit within).2,decide_eq_false taken,Bool.and_false]

theorem subnet_bits (short : prefixLen.toNat < 128) :
    ∃ out, subnetMask prefixLen = .ok out ∧ ∀ k < 128, bit out k = decide (k < prefixLen.toNat) := by
  obtain ⟨mask,created,low⟩ := byteMask_low prefixLen
  obtain ⟨assigned,done,first⟩ := assign_byte (i := prefixLen.toNat/8) (Vector.replicate 16 0) (by omega) fun _ => ~~~mask
  obtain ⟨out,filled,rest⟩ := fill_bytes assigned 0xff 0 (prefixLen.toNat/8) (by omega)
  refine ⟨⟨AF_INET6,0,0,out,0⟩,by simp only [subnetMask,created,done,filled,bind,Except.bind],?_⟩
  intro k inside
  have within : k % 8 < 8 := Nat.mod_lt _ (by decide)
  have found := rest (k/8) (by omega)
  rw [first _ (by omega)] at found
  simp only [Nat.zero_le,true_and,Nat.zero_add] at found
  unfold bit
  rcases byte_cases k prefixLen.toNat found with ⟨byte,_,taken⟩ | ⟨byte,_,taken⟩ | ⟨byte,_,taken⟩
  · rw [byte,(filled_bit within).1,decide_eq_true taken]
  · rw [byte,UInt8.toBitVec_not,BitVec.getMsbD_not,low _ within,decide_eq_true within,Bool.true_and,Bool.not_not,
      decide_eq_decide.mpr taken]
  · have zero : byteAt (Vector.replicate 16 0) (k/8) = 0 := by simp [byteAt]
    rw [byte,zero,(filled_bit within).2,decide_eq_false taken]

-- With all 128 bits the index is behind the array.
theorem network_outside (long : 128 ≤ prefixLen.toNat) : networkAddress a prefixLen = .error .index := by
  obtain ⟨mask,created,_⟩ := byteMask_low prefixLen
  have outside : assign a.addr (prefixLen.toNat/8) (· &&& mask) = .error .index := dif_neg (by omega)
  simp only [networkAddress,created,outside,bind,Except.bind]

theorem byte_zero {b : UInt8} (clear : ∀ k < 8, b.toBitVec.getMsbD k = false) : b = 0 := by
  apply UInt8.toBitVec_inj.mp
  apply BitVec.eq_of_getMsbD_eq
  intro k inside
  rw [clear k inside,(filled_bit inside).2]

-- Where it comes out right, the byte in which the prefix ends is zero.
theorem end_clear {network : SockaddrIn6} (short : prefixLen.toNat < 128)
    (done : networkAddress a prefixLen = .ok network)
    (bits : ∀ k < 128, bit network k = (bit a k && decide (k < prefixLen.toNat))) :
    byteAt a.addr (prefixLen.toNat/8) = 0 := by
  apply byte_zero
  intro k inside
  obtain ⟨out,same,actual⟩ := network_bits a short
  rw [same] at done
  cases done
  have bound : prefixLen.toNat/8*8+k < 128 := by omega
  have byte : (prefixLen.toNat/8*8+k)/8 = prefixLen.toNat/8 := by omega
  have spec := bits _ bound
  rw [actual _ bound,if_pos byte] at spec
  have found : bit a (prefixLen.toNat/8*8+k) = (byteAt a.addr (prefixLen.toNat/8)).toBitVec.getMsbD k := by
    rw [bit,byte]
    congr 1
    omega
  rw [←found]
  revert spec
  cases bit a (prefixLen.toNat/8*8+k) <;> cases decide (prefixLen.toNat/8*8+k < prefixLen.toNat) <;> simp

theorem network_clear (short : prefixLen.toNat < 128) (clear : byteAt a.addr (prefixLen.toNat/8) = 0) :
    ∃ network, networkAddress a prefixLen = .ok network ∧
      ∀ k < 128, bit network k = (bit a k && decide (k < prefixLen.toNat)) := by
  obtain ⟨network,made,bits⟩ := network_bits a short
  refine ⟨network,made,?_⟩
  intro k inside
  rw [bits k inside]
  split
  · rename_i same
    have absent : bit a k = false := by
      rw [bit,same,clear]
      exact (filled_bit (Nat.mod_lt _ (by decide))).2
    rw [absent,Bool.false_and,Bool.false_and]
  · rfl

theorem networks_exactly (a : SockaddrIn6) (prefixLen : UInt32) (accepted : prefixLen.toNat ≤ 128) :
    Prefixed a prefixLen ↔ prefixLen.toNat < 128 ∧ byteAt a.addr (prefixLen.toNat/8) = 0 := by
  constructor
  · intro ⟨network,_,_,done,_,_,bits⟩
    have short : prefixLen.toNat < 128 := by
      apply Nat.lt_of_le_of_ne accepted
      intro whole
      rw [network_outside (Nat.le_of_eq whole.symm)] at done
      cases done
    exact ⟨short,end_clear short done fun k inside => (bits k inside).1⟩
  · intro ⟨short,clear⟩
    obtain ⟨network,madeNetwork,ofNetwork⟩ := network_clear short clear
    obtain ⟨broadcast,madeBroadcast,ofBroadcast⟩ := broadcast_bits a short
    obtain ⟨subnet,madeSubnet,ofSubnet⟩ := subnet_bits short
    refine ⟨network,broadcast,subnet,madeNetwork,madeBroadcast,madeSubnet,?_⟩
    intro k inside
    have kept := ofNetwork k inside
    rw [ofSubnet k inside,ofBroadcast k inside]
    exact ⟨kept,rfl,rfl,kept,rfl⟩

theorem networks_exactly_loopback :
    Prefixed ⟨AF_INET6,80,0,⟨#[0,0,0,0,0,0,0,0,0,0,0,0,0,0,0,1],rfl⟩,0⟩ 64 :=
  (networks_exactly _ 64 (by decide)).mpr ⟨by decide,by decide⟩

theorem network_keeps_tail : ¬∀ (a : SockaddrIn6) (prefixLen : UInt32), prefixLen.toNat ≤ 128 → Prefixed a prefixLen := by
  intro always
  obtain ⟨network,_,_,done,_,_,bits⟩ := always ⟨AF_INET6,0,0,Vector.replicate 16 0xff,0⟩ 64 (by decide)
  cases done
  exact absurd (bits 64 (by decide)).1 (by decide)

end IPv6Address
end Fishjoy
