import Fishjoy.ByteArrayReaders

namespace Fishjoy
open Blocks Transition Groups

namespace Reading

-- The cursor has moved on by `count` bytes and nothing else has changed.
structure Moved (b after : ByteArray) (count : Nat) : Prop where
  valid : after.Valid
  unread : after.unread = b.unread.drop count
  position : after.position = b.position+count
  size : after.size = b.size
  capacity : after.capacity = b.capacity
  endian : after.endian = b.endian

variable {host : Endian} {b middle after : ByteArray} {header rest bytes : List UInt8} {width i result : Nat}

theorem Moved.still (valid : b.Valid) : Moved b b 0 := ⟨valid,rfl,rfl,rfl,rfl,rfl⟩

theorem Moved.trans (one : Moved b middle first) (two : Moved middle after second) : Moved b after (first+second) :=
  ⟨two.valid,by rw [two.unread,one.unread,List.drop_drop],by rw [two.position,one.position,Nat.add_assoc],
    two.size.trans one.size,two.capacity.trans one.capacity,two.endian.trans one.endian⟩

theorem unread_length (valid : b.Valid) : b.unread.length = b.getReadSize := by
  rw [ByteArray.unread,List.length_drop,valid.content_length]
  rfl

theorem read_moved (valid : b.Valid) (left : bytes ≠ []) (stream : b.unread = bytes ++ rest) :
    ∃ after, read bytes.length b = .ok bytes after ∧ Moved b after bytes.length := by
  obtain ⟨after,done,shape,tail,position⟩ := (ByteArray.read_yields valid left stream).position valid stream
  obtain ⟨_,rfl⟩ := ByteArray.read_frame done
  exact ⟨_,by rw [read,done],shape,by rw [tail,stream,List.drop_left],rfl,rfl,rfl,rfl⟩

theorem read_short (valid : b.Valid) (short : b.unread.length < count) : read count b = .error .outOfRange b := by
  rw [unread_length valid] at short
  rw [read,ByteArray.read,if_pos short]
  rfl

theorem readFuint8_moved (valid : b.Valid) (stream : b.unread = byte :: rest) :
    ∃ after, readFuint8 b = .ok byte after ∧ Moved b after 1 := by
  obtain ⟨after,done,moved⟩ := read_moved valid (List.cons_ne_nil byte []) stream
  exact ⟨after,by rw [readFuint8]; exact bind_ok done,moved⟩

theorem readFuint8_empty (valid : b.Valid) (stream : b.unread = []) : readFuint8 b = .error .outOfRange b := by
  rw [readFuint8]
  exact bind_error (read_short valid (by rw [stream]; exact Nat.one_pos))

-- Bytes that go on take the loop further by seven bits each.
theorem readVarint_passes (valid : b.Valid) (continues : Continues header) (stream : b.unread = header ++ rest)
    (room : i+7*header.length < width+7) (below : result < 2^i) (small : result < 2^width) :
    ∃ middle, readVarint width i result b =
        readVarint width (i+7*header.length) ((result+2^i*value header) % 2^width) middle ∧
      Moved b middle header.length ∧ (result+2^i*value header) % 2^width < 2^(i+7*header.length) := by
  induction header generalizing i result b with
  | nil =>
      refine ⟨b,?_,Moved.still valid,?_⟩
      · simp [value,Nat.mod_eq_of_lt small]
      · simpa [value,Nat.mod_eq_of_lt small] using below
  | cons byte tail ih =>
      rw [List.length_cons,Nat.mul_succ] at room
      have index : i < width := by omega
      have high : ¬byte < 0x80 := UInt8.not_lt.mpr (continues byte (.head _))
      obtain ⟨one,done,moved⟩ := readFuint8_moved valid stream
      have next := below_next below (low_lt byte) width
      obtain ⟨middle,later,moved',bound⟩ := ih moved.valid (fun b member => continues b (.tail _ member))
        (by rw [moved.unread,stream]; rfl) (show i+7+7*tail.length < width+7 by omega) next
        (Nat.mod_lt _ (Nat.two_pow_pos width))
      have scaled : 2^(i+7) = 2^i*128 := by rw [Nat.pow_add]
      have sum : ((result+2^i*(byte &&& 0x7F).toNat) % 2^width+2^(i+7)*value tail) % 2^width =
          (result+2^i*value (byte :: tail)) % 2^width := by
        rw [Nat.mod_add_mod,value_cons,scaled]
        congr 1
        ring
      have place : i+7+7*tail.length = i+7*(byte :: tail).length := by rw [List.length_cons]; omega
      rw [sum,place] at later bound
      refine ⟨middle,?_,?_,bound⟩
      · rw [readVarint,if_pos index,bind_ok done,if_neg high,or_truncated below (Nat.le_of_lt index),later]
      · have both := moved.trans moved'
        rwa [Nat.add_comm] at both

theorem readVarint_ended (valid : b.Valid) (ended : Ended header) (stream : b.unread = header ++ rest)
    (room : i+7*header.length < width+7) (below : result < 2^i) (small : result < 2^width) :
    ∃ after, readVarint width i result b = .ok ((result+2^i*value header) % 2^width) after ∧
      Moved b after header.length := by
  obtain ⟨front,last,rfl,continues,low⟩ := ended
  rw [List.length_append,List.length_singleton,Nat.mul_succ] at room
  rw [List.append_assoc] at stream
  obtain ⟨middle,passes,moved,bound⟩ := readVarint_passes valid continues stream (by omega) below small
  obtain ⟨after,done,moved'⟩ := readFuint8_moved moved.valid (show middle.unread = last :: rest by
    rw [moved.unread,stream,List.drop_left]
    rfl)
  refine ⟨after,?_,?_⟩
  · rw [passes,readVarint,if_pos (by omega),bind_ok done,if_pos low,or_truncated bound (by omega)]
    have single : value [last] = last.toNat := by rw [value_cons,low_small low]; simp [value]
    have scaled : 2^(i+7*front.length) = 2^i*128^front.length := by
      rw [Nat.pow_add,Nat.pow_mul]
    have sum : ((result+2^i*value front) % 2^width+2^(i+7*front.length)*last.toNat) % 2^width =
        (result+2^i*value (front ++ [last])) % 2^width := by
      rw [Nat.mod_add_mod,value_append,single,scaled]
      congr 1
      ring
    rw [sum]
    rfl
  · rw [List.length_append,List.length_singleton]
    exact moved.trans moved'

-- After the last group that the width has room for the loop stops by itself.
theorem readVarint_overlong (valid : b.Valid) (continues : Continues header) (stream : b.unread = header ++ rest)
    (room : i+7*header.length < width+7) (full : width ≤ i+7*header.length) (below : result < 2^i)
    (small : result < 2^width) :
    ∃ after, readVarint width i result b = .ok ((result+2^i*value header) % 2^width) after ∧
      Moved b after header.length := by
  obtain ⟨middle,passes,moved,_⟩ := readVarint_passes valid continues stream room below small
  refine ⟨middle,?_,moved⟩
  rw [passes,readVarint,if_neg (by omega)]
  rfl

theorem readVarint_short (valid : b.Valid) (continues : Continues b.unread)
    (room : i+7*b.unread.length < width) (below : result < 2^i) (small : result < 2^width) :
    ∃ left, readVarint width i result b = .error .outOfRange left ∧ Moved b left b.unread.length := by
  obtain ⟨middle,passes,moved,_⟩ := readVarint_passes valid continues (List.append_nil _).symm (by omega) below small
  refine ⟨middle,?_,moved⟩
  have empty : middle.unread = [] := by rw [moved.unread,List.drop_length]
  rw [passes,readVarint,if_pos (by omega),bind_error (readFuint8_empty moved.valid empty)]

-- What the loop makes of the bytes in front of it: a number that ends within
-- the limit, one that does not, or the end of the bytes.
inductive Scanned (b : ByteArray) (width limit : Nat) : EStateM.Result Thrown ByteArray Nat → Prop where
  | ended {header rest : List UInt8} {after : ByteArray} (stream : b.unread = header ++ rest)
      (ended : Ended header) (within : header.length ≤ limit) (moved : Moved b after header.length) : Scanned b width limit (.ok (value header % 2^width) after)
  | overlong {header rest : List UInt8} {after : ByteArray} (stream : b.unread = header ++ rest)
      (continues : Continues header) (full : header.length = limit) (moved : Moved b after header.length) : Scanned b width limit (.ok (value header % 2^width) after)
  | short {left : ByteArray} (continues : Continues b.unread) (less : b.unread.length < limit)
      (moved : Moved b left b.unread.length) : Scanned b width limit (.error .outOfRange left)

theorem readVarint_scanned (valid : b.Valid) (room : 7*limit < width+7) (full : width ≤ 7*limit) :
    Scanned b width limit (readVarint width 0 0 b) := by
  have zero : 0 < 2^width := Nat.two_pow_pos width
  rcases scan limit b.unread with ⟨header,rest,stream,ended,within⟩ | ⟨header,rest,stream,continues,length⟩ |
    ⟨continues,less⟩
  · obtain ⟨after,done,moved⟩ := readVarint_ended valid ended stream (show 0+7*header.length < width+7 by omega)
      (Nat.two_pow_pos 0) zero
    rw [Nat.zero_add,Nat.pow_zero,Nat.one_mul] at done
    rw [done]
    exact .ended stream ended within moved
  · obtain ⟨after,done,moved⟩ := readVarint_overlong valid continues stream
      (show 0+7*header.length < width+7 by omega) (by omega) (Nat.two_pow_pos 0) zero
    rw [Nat.zero_add,Nat.pow_zero,Nat.one_mul] at done
    rw [done]
    exact .overlong stream continues length moved
  · obtain ⟨left,failed,moved⟩ := readVarint_short valid continues (show 0+7*b.unread.length < width by omega)
      (Nat.two_pow_pos 0) zero
    rw [failed]
    exact .short continues less moved

-- No number ends among bytes that go on as far as the limit.
theorem overlong_none {bytes other back : List UInt8} (stream : bytes = header ++ rest) (continues : Continues header)
    (full : limit ≤ header.length) (stream' : bytes = other ++ back) (ended : Ended other)
    (within : other.length ≤ limit) : False := by
  obtain ⟨more,same⟩ : other <+: header :=
    List.prefix_of_prefix_length_le ⟨back,stream'.symm⟩ ⟨rest,stream.symm⟩ (Nat.le_trans within full)
  rw [←same] at continues
  exact ended.broken continues

-- The bytes hold a number that ends within the limit and fits, or they end
-- before the limit with no number.
def Fits (limit width : Nat) (bytes : List UInt8) : Prop :=
  (∃ header rest, bytes = header ++ rest ∧ Ended header ∧ header.length ≤ limit ∧ value header < 2^width) ∨
  (Continues bytes ∧ bytes.length < limit)

-- A throw, or the bytes of one number and its value.
def Decodes (reader : Except ByteArray.Fault (α × ByteArray)) (toNat : α → Nat) (limit : Nat) (b : ByteArray) : Prop :=
  reader = .error .outOfRange ∨ ∃ found after header rest, reader = .ok (found,after) ∧
    b.unread = header ++ rest ∧ after.unread = rest ∧ after.position = b.position+header.length ∧
    Ended header ∧ header.length ≤ limit ∧ toNat found = value header

theorem decodes_fits (valid : b.Valid) (room : 7*limit < width+7) (full : width ≤ 7*limit) {toNat : α → Nat}
    {ofNat : Nat → α} (round : ∀ n, toNat (ofNat n) = n % 2^width)
    (reader : ByteArray → Except ByteArray.Fault (α × ByteArray))
    (agrees : Agrees (do return ofNat (← readVarint width 0 0)) reader) :
    Decodes (reader b) toNat limit b ↔ Fits limit width b.unread := by
  have scanned := readVarint_scanned valid room full
  generalize loop : readVarint width 0 0 b = result at scanned
  cases scanned with
  | @ended header rest after stream ended within moved =>
      have done := agrees.ok (bind_ok loop)
      rw [done]
      constructor
      · rintro (thrown | ⟨found,_,other,back,same,stream',_,_,ended',_,number⟩)
        · cases thrown
        · cases same
          cases ended.unique ended' (stream.symm.trans stream')
          rw [round,Nat.mod_mod] at number
          exact .inl ⟨header,rest,stream,ended,within,
            number ▸ Nat.mod_lt _ (Nat.two_pow_pos width)⟩
      · rintro (⟨other,back,stream',ended',_,small⟩ | ⟨continues,_⟩)
        · cases ended.unique ended' (stream.symm.trans stream')
          refine .inr ⟨_,_,header,rest,rfl,stream,?_,moved.position,ended,within,?_⟩
          · rw [moved.unread,stream,List.drop_left]
          · rw [round,Nat.mod_mod,Nat.mod_eq_of_lt small]
        · rw [stream] at continues
          exact (ended.broken continues).elim
  | @overlong header rest after stream continues length moved =>
      have done := agrees.ok (bind_ok loop)
      rw [done]
      constructor
      · rintro (thrown | ⟨found,_,other,back,same,stream',tail,_,ended,_,_⟩)
        · cases thrown
        · cases same
          rw [moved.unread,stream,List.drop_left] at tail
          rw [stream,tail] at stream'
          rw [List.append_cancel_right stream',←List.append_nil other] at continues
          exact (ended.broken continues).elim
      · rintro (⟨other,back,stream',ended,within,_⟩ | ⟨_,less⟩)
        · exact (overlong_none stream continues (Nat.le_of_eq length.symm) stream' ended within).elim
        · rw [stream,List.length_append] at less
          omega
  | short continues less moved =>
      exact ⟨fun _ => .inr ⟨continues,less⟩,fun _ => .inl (agrees.outOfRange (bind_error loop))⟩

theorem varint_exactly (path : Reached ByteArray.next anyStep ByteArray.Start b) :
    (Decodes b.readUint32 UInt32.toNat 5 b ↔ Fits 5 32 b.unread) ∧
    (Decodes b.readUint64 UInt64.toNat 10 b ↔ Fits 10 64 b.unread) := by
  have valid := ByteArray.reached_valid path
  exact ⟨decodes_fits valid (by decide) (by decide) (fun _ => UInt32.toNat_ofNat') _ readUint32_agrees,
    decodes_fits valid (by decide) (by decide) (fun _ => UInt64.toNat_ofNat') _ readUint64_agrees⟩

-- One block of eight bytes with the bytes from the cursor on.
def holding (bytes : List UInt8) : ByteArray := ⟨8,0,8,bytes.length,.big,[overwrite (List.replicate 8 0) 0 bytes],some 0⟩

theorem holding_reached (bytes : List UInt8) (ran : Transition.run ByteArray.next (ByteArray.initial 8 fun _ => 0)
    [.op (.write (fun _ => 0) bytes),.op (.setPosition 0)] = some (holding bytes)) :
    Reached ByteArray.next anyStep ByteArray.Start (holding bytes) :=
  Reached.run (.start ⟨8,fun _ => 0,by decide,rfl⟩) along_any ran

theorem varint_exactly_two :
    (Decodes (holding [0x85,1]).readUint32 UInt32.toNat 5 (holding [0x85,1]) ↔ Fits 5 32 (holding [0x85,1]).unread) ∧
    (Decodes (holding [0x85,1]).readUint64 UInt64.toNat 10 (holding [0x85,1]) ↔
      Fits 10 64 (holding [0x85,1]).unread) :=
  varint_exactly (holding_reached _ rfl)

-- Five bytes that all go on.
theorem varint_overlong : ¬∀ b : ByteArray, Reached ByteArray.next anyStep ByteArray.Start b →
    Decodes b.readUint32 UInt32.toNat 5 b ∧ Decodes b.readUint64 UInt64.toNat 10 b := by
  intro decodes
  have path : Reached ByteArray.next anyStep ByteArray.Start (holding [0xFF,0xFF,0xFF,0xFF,0xFF]) :=
    holding_reached _ rfl
  have fits := (decodes_fits (ByteArray.reached_valid path) (by decide) (by decide)
    (fun _ => UInt32.toNat_ofNat') _ readUint32_agrees).mp (decodes _ path).1
  have continues : Continues (holding [0xFF,0xFF,0xFF,0xFF,0xFF]).unread := by
    intro byte member
    have same : byte = 0xFF := List.eq_of_mem_replicate (n := 5) member
    rw [same]
    decide
  rcases fits with ⟨header,rest,stream,ended,_⟩ | ⟨_,less⟩
  · rw [stream] at continues
    exact ended.broken continues
  · exact absurd less (by decide)

end Reading
end Fishjoy
