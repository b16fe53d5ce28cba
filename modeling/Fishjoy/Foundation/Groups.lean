import Fishjoy.Foundation.Words

-- Numbers as groups of seven bits, least significant first, with the top bit
-- set on every byte but the last.
namespace Groups
open Words
variable {bytes front header other rest back : List UInt8} {result group i width limit : Nat}

def value (bytes : List UInt8) : Nat := (bytes.mapIdx fun i byte => (byte &&& 0x7F).toNat*128^i).sum

def Continues (bytes : List UInt8) : Prop := ∀ byte ∈ bytes, 0x80 ≤ byte

def Ended (bytes : List UInt8) : Prop := ∃ front last, bytes = front ++ [last] ∧ Continues front ∧ last < 0x80

theorem value_shifted (bytes : List UInt8) (k : Nat) :
    (bytes.mapIdx fun i byte => (byte &&& 0x7F).toNat*128^(i+k)).sum = 128^k*value bytes := by
  induction bytes generalizing k with
  | nil => simp [value]
  | cons byte rest ih =>
      have later : (rest.mapIdx fun i byte => (byte &&& 0x7F).toNat*128^(i+1+k)).sum = 128^(k+1)*value rest := by
        simp only [Nat.add_assoc,Nat.add_comm 1 k]
        exact ih (k+1)
      have first := ih 1
      simp only [value,List.mapIdx_cons,List.sum_cons,Nat.zero_add,Nat.pow_zero,Nat.mul_one] at later first ⊢
      rw [later,first,Nat.pow_succ]
      ring

theorem value_cons (byte : UInt8) (rest : List UInt8) :
    value (byte :: rest) = (byte &&& 0x7F).toNat+128*value rest := by
  have later := value_shifted rest 1
  rw [Nat.pow_one] at later
  rw [←later]
  simp [value,List.mapIdx_cons]

theorem value_append (front back : List UInt8) :
    value (front ++ back) = value front+128^front.length*value back := by
  induction front with
  | nil => simp [value]
  | cons byte rest ih =>
      rw [List.cons_append,value_cons,value_cons,ih,List.length_cons,Nat.pow_succ]
      ring

theorem low_lt (byte : UInt8) : (byte &&& 0x7F).toNat < 128 := by
  rw [UInt8.toNat_and]
  exact Nat.lt_of_le_of_lt Nat.and_le_right (by decide)

theorem low_small {byte : UInt8} (last : byte < 0x80) : (byte &&& 0x7F).toNat = byte.toNat := by
  have small : byte.toNat < 128 := UInt8.lt_iff_toNat_lt.mp last
  have mask : byte.toNat &&& 127 = byte.toNat % 128 := Nat.and_two_pow_sub_one_eq_mod _ 7
  rw [UInt8.toNat_and,show (0x7F : UInt8).toNat = 127 from rfl,mask,Nat.mod_eq_of_lt small]

theorem Continues.append (first : Continues front) (second : Continues back) : Continues (front ++ back) := by
  intro byte member
  rcases List.mem_append.mp member with one | two
  · exact first byte one
  · exact second byte two

theorem Ended.broken (ended : Ended header) (continues : Continues (header ++ rest)) : False := by
  obtain ⟨front,last,rfl,_,low⟩ := ended
  have high := continues last (by simp)
  exact absurd low (UInt8.not_lt.mpr high)

theorem Ended.length_pos (ended : Ended header) : 0 < header.length := by
  obtain ⟨front,last,rfl,_⟩ := ended
  simp

-- The end of a number is found without looking behind it.
theorem Ended.unique (one : Ended header) (two : Ended other) (same : header ++ rest = other ++ back) :
    header = other := by
  rcases List.append_eq_append_iff.mp same with ⟨more,rfl,_⟩ | ⟨more,rfl,_⟩
  · obtain ⟨front,last,parts,continues,_⟩ := two
    rcases List.eq_nil_or_concat more with rfl | ⟨init,final,rfl⟩
    · exact (List.append_nil _).symm
    · rw [List.concat_eq_append,←List.append_assoc] at parts
      obtain ⟨whole,_⟩ := List.append_inj' parts rfl
      exact (one.broken (whole ▸ continues)).elim
  · obtain ⟨front,last,parts,continues,_⟩ := one
    rcases List.eq_nil_or_concat more with rfl | ⟨init,final,rfl⟩
    · exact List.append_nil _
    · rw [List.concat_eq_append,←List.append_assoc] at parts
      obtain ⟨whole,_⟩ := List.append_inj' parts rfl
      exact (two.broken (whole ▸ continues)).elim

-- A number that ends within the limit, as many bytes as the limit that go on,
-- or fewer.
theorem scan (limit : Nat) (bytes : List UInt8) :
    (∃ header rest, bytes = header ++ rest ∧ Ended header ∧ header.length ≤ limit) ∨
    (∃ header rest, bytes = header ++ rest ∧ Continues header ∧ header.length = limit) ∨
    (Continues bytes ∧ bytes.length < limit) := by
  induction limit generalizing bytes with
  | zero => exact .inr (.inl ⟨[],bytes,rfl,nofun,rfl⟩)
  | succ limit ih =>
      cases bytes with
      | nil => exact .inr (.inr ⟨nofun,Nat.succ_pos _⟩)
      | cons byte rest =>
          by_cases last : byte < 0x80
          · exact .inl ⟨[byte],rest,rfl,⟨[],byte,rfl,nofun,last⟩,by simp⟩
          · have high : Continues [byte] := by
              intro b member
              rw [List.mem_singleton.mp member]
              exact UInt8.not_lt.mp last
            rcases ih rest with ⟨header,back,rfl,⟨front,final,rfl,continues,low⟩,short⟩ |
              ⟨header,back,rfl,continues,full⟩ | ⟨continues,short⟩
            · refine .inl ⟨byte :: (front ++ [final]),back,rfl,⟨byte :: front,final,rfl,high.append continues,low⟩,?_⟩
              simpa using short
            · exact .inr (.inl ⟨byte :: header,back,rfl,high.append continues,by simp [full]⟩)
            · exact .inr (.inr ⟨high.append continues,by simpa using short⟩)

-- A group that is shifted into a result loses what does not fit.
theorem or_truncated (below : result < 2^i) (index : i ≤ width) :
    result ||| group <<< i % 2^width = (result+2^i*group) % 2^width := by
  have split : 2^width = 2^i*2^(width-i) := by rw [←Nat.pow_add,Nat.add_sub_cancel' index]
  have low : (result+2^i*group) % 2^i = result := by rw [Nat.add_mul_mod_self_left,Nat.mod_eq_of_lt below]
  have high : (result+2^i*group)/2^i = group := by
    rw [Nat.add_mul_div_left _ _ (Nat.two_pow_pos i),Nat.div_eq_of_lt below,Nat.zero_add]
  rw [Nat.shiftLeft_eq,Nat.mul_comm group,split,Nat.mul_mod_mul_left,Nat.mod_mul,low,high,Nat.or_comm,
    ←Nat.two_pow_add_eq_or_of_lt below,Nat.add_comm]

theorem below_next (below : result < 2^i) (small : group < 128) (width : Nat) :
    (result+2^i*group) % 2^width < 2^(i+7) := by
  have scaled : 2^(i+7) = 2^i*128 := by rw [Nat.pow_add]
  have next := Nat.mul_le_mul_left (2^i) (Nat.succ_le_of_lt small)
  have least := Nat.mod_le (result+2^i*group) (2^width)
  rw [scaled]
  rw [Nat.mul_succ] at next
  omega

end Groups
