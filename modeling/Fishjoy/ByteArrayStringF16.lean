import Fishjoy.ByteArrayStrings

namespace Fishjoy
open Blocks Transition

namespace ByteArray
section strings
variable (host : Endian) (memory : Nat → UInt8) (b : ByteArray)

def writeStringF16 (value : List UInt8) : Except Fault ByteArray := do
  let b ← b.writeFuint16 host memory (UInt16.ofNat value.length)
  b.write memory value

def readStringF16 : Except Fault (List UInt8 × ByteArray) := do
  let (len,b) ← b.readFuint16 host
  b.read len.toNat

end strings

variable {host : Endian} {b : ByteArray} {bytes buf rest : List UInt8} {memory : Nat → UInt8}

-- The size conversion to `uint16_t`.
def header16 (order : Endian) (value : List UInt8) : List UInt8 := layout order 2 (UInt16.ofNat value.length).toNat

theorem header16_length (order : Endian) (value : List UInt8) : (header16 order value).length = 2 :=
  layout_length order 2 _

theorem Yields.position {reader : Except Fault (α × ByteArray)} (valid : b.Valid) (stream : b.unread = bytes ++ rest)
    (yields : Yields reader value b rest) :
    ∃ after, reader = .ok (value,after) ∧ after.Valid ∧ after.unread = rest ∧
      after.position = b.position+bytes.length := by
  obtain ⟨after,done,shape,tail,size,_⟩ := yields
  have whole := congrArg List.length stream
  have part := congrArg List.length tail
  rw [unread,List.length_drop,valid.content_length,List.length_append] at whole
  rw [unread,List.length_drop,shape.content_length] at part
  have before := valid.position
  have later := shape.position
  exact ⟨after,done,shape,tail,by omega⟩

theorem write_capacity (valid : b.Valid) (done : b.write memory buf = .ok after) :
    after.capacity = b.capacity+b.flat.growth b.baseSize buf.length := by
  obtain ⟨same,done',shape,_,_,flat⟩ := write_spec valid memory buf
  rw [done] at done'
  cases done'
  have order := valid.position
  have fits := valid.size
  have covers := ceil_covers valid.positive (b.position+buf.length-b.capacity)
  have grown : b.flat.growth b.baseSize buf.length =
      b.baseSize*((b.position+buf.length-b.capacity+b.baseSize-1)/b.baseSize) := by
    rw [Buffer.growth,valid.flat_capacity]
    rfl
  have behind : b.flat.behind.length = b.capacity-b.size := by
    rw [ByteArray.flat,List.length_drop,valid.storage]
  rw [←grown] at covers
  rw [←shape.flat_capacity,flat,Buffer.perform,Buffer.capacity]
  dsimp only
  rw [overwrite_length (by rw [valid.content_length]; exact order),List.length_drop,List.length_append,
    makeNode_length,behind,valid.content_length]
  change max b.size (b.position+buf.length)+_ = _
  have place : b.flat.position = b.position := rfl
  omega

-- What is written ends with the last block.
theorem write_full (valid : b.Valid) (done : b.write memory buf = .ok after) (shape : after.Valid)
    (base : after.baseSize = b.baseSize) (reach : b.position+buf.length ≤ after.capacity) :
    after.capacity = b.position+buf.length ↔
      b.baseSize ∣ b.position+buf.length ∧ b.capacity ≤ b.position+buf.length := by
  have grown := write_capacity valid done
  constructor
  · intro full
    rw [←full]
    refine ⟨?_,by omega⟩
    rw [shape.capacity,base]
    exact Nat.dvd_mul_right _ _
  · rintro ⟨⟨count,whole⟩,past⟩
    have capacity := shape.capacity
    rw [base] at capacity
    have least := Nat.mul_div_le (b.position+buf.length-b.capacity+b.baseSize-1) b.baseSize
    have size : b.flat.growth b.baseSize buf.length =
        b.baseSize*((b.position+buf.length-b.capacity+b.baseSize-1)/b.baseSize) := by
      rw [Buffer.growth,valid.flat_capacity]
      rfl
    have positive := valid.positive
    have blocks : after.nodes.length < count+1 := by
      apply Nat.lt_of_mul_lt_mul_left (a := b.baseSize)
      rw [Nat.mul_succ]
      omega
    have bound := Nat.mul_le_mul_left b.baseSize (Nat.le_of_lt_succ blocks)
    omega

theorem writeFuint16_bytes (b : ByteArray) (value : List UInt8) :
    b.writeFuint16 host memory (UInt16.ofNat value.length) = b.write memory (header16 b.endian value) :=
  writeFixed_bytes memory 2 _

-- The record and the bytes behind it stand in the content from the cursor on.
theorem writeStringF16_spec (host : Endian) (memory fresh : Nat → UInt8) (valid : b.Valid) (value tail : List UInt8) :
    ∃ header record written, b.write memory (header16 b.endian value) = .ok header ∧
      b.writeStringF16 host memory value = .ok record ∧ header.write memory value = .ok record ∧
      record.write fresh tail = .ok written ∧ header.Valid ∧ record.Valid ∧ written.Valid ∧
      header.baseSize = b.baseSize ∧ written.endian = b.endian ∧ header.position = b.position+2 ∧
      record.position = b.position+2+value.length ∧ b.position+2+value.length+tail.length ≤ written.size ∧
      written.flat.content = overwrite b.flat.content b.position (header16 b.endian value ++ (value ++ tail)) := by
  have start : b.position ≤ b.flat.content.length := by rw [valid.content_length]; exact valid.position
  have width := header16_length b.endian value
  obtain ⟨header,first,one,position,_,content⟩ := write_content valid memory (header16 b.endian value)
  obtain ⟨record,second,two,position',_,content'⟩ := write_content one memory value
  obtain ⟨written,third,three,_,size,content''⟩ := write_content two fresh tail
  obtain ⟨_,first',_,base,endian,_⟩ := write_spec valid memory (header16 b.endian value)
  rw [first] at first'
  cases first'
  obtain ⟨_,second',_,_,endian',_⟩ := write_spec one memory value
  rw [second] at second'
  cases second'
  obtain ⟨_,third',_,_,endian'',_⟩ := write_spec two fresh tail
  rw [third] at third'
  cases third'
  have both : b.writeStringF16 host memory value = .ok record := by
    rw [writeStringF16,writeFuint16_bytes,first]
    exact second
  refine ⟨header,record,written,first,both,second,third,one,two,three,base,
    endian''.trans (endian'.trans endian),by omega,by omega,by rw [size]; omega,?_⟩
  have once := overwrite_twice b.flat.content b.position (header16 b.endian value) value start
  have twice := overwrite_twice b.flat.content b.position (header16 b.endian value ++ value) tail start
  rw [List.length_append,←Nat.add_assoc] at twice
  rw [content'',content',content,position',position,once,twice,List.append_assoc]

-- The record is written, `tail` behind it, and then the record is read from
-- its start.
def ReturnsF16 (host : Endian) (memory fresh : Nat → UInt8) (b : ByteArray) (value tail : List UInt8) : Prop :=
  b.writeStringF16 host memory value = .error .outOfRange ∨
  ∃ record written rewound after, b.writeStringF16 host memory value = .ok record ∧
    record.write fresh tail = .ok written ∧ written.setPosition b.position = .ok rewound ∧
    rewound.readStringF16 host = .ok (value,after) ∧ after.position = record.position

-- What the reader makes of the record: the length of the string modulo 2^16
-- and as many bytes.
theorem readStringF16_header (host : Endian) (valid : b.Valid) (value : List UInt8)
    (stream : b.unread = header16 b.endian value ++ rest) :
    ∃ after : ByteArray, b.readStringF16 host = after.read (value.length % 2^16) ∧ after.Valid ∧ after.unread = rest ∧
      after.position = b.position+2 ∧ after.capacity = b.capacity := by
  have read := (readFixed_yields host valid (by decide) (UInt16.ofNat value.length).toNat_lt stream).map UInt16.ofNat
  obtain ⟨after,done,shape,tail,position⟩ := read.position valid stream
  rw [header16_length] at position
  refine ⟨after,?_,shape,tail,position,?_⟩
  · have first : b.readFuint16 host = .ok (UInt16.ofNat (UInt16.ofNat value.length).toNat,after) := done
    rw [readStringF16,first,UInt16.ofNat_toNat]
    change after.read (UInt16.ofNat value.length).toNat = _
    rw [UInt16.toNat_ofNat']
  · obtain ⟨⟨len,middle⟩,fixed,same⟩ := map_ok done
    have last : middle = after := congrArg Prod.snd same
    exact last ▸ readFixed_capacity fixed

theorem read_length (valid : b.Valid) (done : b.read count = .ok (bytes,after)) : bytes.length = count := by
  rcases Nat.eq_zero_or_pos count with rfl | asked
  · rw [read_none valid] at done
    split at done
    · cases done
    · cases done
      rfl
  · by_cases enough : count ≤ b.getReadSize
    · obtain ⟨_,read,_⟩ := read_spec valid count asked enough
      rw [done] at read
      cases read
      rw [List.length_take,List.length_drop,valid.content_length]
      exact Nat.min_eq_left enough
    · rw [read,if_pos (Nat.lt_of_not_le enough)] at done
      cases done

-- An empty record at the end of the capacity, with nothing behind it.
theorem header_full (valid : b.Valid) (first : b.write memory (header16 b.endian []) = .ok header)
    (shape : header.Valid) (base : header.baseSize = b.baseSize) (position : header.position = b.position+2) :
    header.capacity = b.position+2 ↔ b.baseSize ∣ b.position+2 ∧ b.capacity ≤ b.position+2 := by
  have width := header16_length b.endian []
  have reach : b.position+(header16 b.endian []).length ≤ header.capacity := by
    have order := shape.position
    have fits := shape.size
    omega
  have full := write_full valid first shape base reach
  rw [width] at full
  exact full

-- The record as it lies in front of the reader.
theorem stringF16_stream (host : Endian) (memory fresh : Nat → UInt8) (valid : b.Valid) (value tail : List UInt8) :
    ∃ header record written rewound middle : ByteArray, b.write memory (header16 b.endian value) = .ok header ∧
      b.writeStringF16 host memory value = .ok record ∧ header.write memory value = .ok record ∧
      record.write fresh tail = .ok written ∧ written.setPosition b.position = .ok rewound ∧
      rewound.readStringF16 host = middle.read (value.length % 2^16) ∧ header.Valid ∧ middle.Valid ∧
      header.baseSize = b.baseSize ∧ header.position = b.position+2 ∧ record.position = b.position+2+value.length ∧
      b.position+2+value.length+tail.length ≤ written.capacity ∧ middle.position = b.position+2 ∧
      middle.capacity = written.capacity ∧ ∃ rest, middle.unread = value ++ rest := by
  obtain ⟨header,record,written,first,wrote,second,third,one,two,three,base,endian,place,ended,size,content⟩ :=
    writeStringF16_spec host memory fresh valid value tail
  have start : b.position ≤ b.flat.content.length := by rw [valid.content_length]; exact valid.position
  have bound := three.size
  obtain ⟨rewound,moved,shape,there,_,same⟩ := setPosition_inside three (show b.position ≤ written.size by omega)
  obtain ⟨kept,order⟩ := setPosition_kept moved
  have stream : rewound.unread = header16 rewound.endian value ++ (value ++ (tail ++
      b.flat.content.drop (b.position+(header16 b.endian value ++ (value ++ tail)).length))) := by
    rw [unread,there,same,content,overwrite,order,endian,List.append_assoc,List.drop_append,
      List.drop_eq_nil_of_le (by rw [List.length_take]; omega),List.length_take,Nat.min_eq_left start,Nat.sub_self]
    simp only [List.drop_zero,List.nil_append,List.append_assoc]
  obtain ⟨middle,read,sound,left,position,capacity⟩ := readStringF16_header host shape value stream
  exact ⟨header,record,written,rewound,middle,first,wrote,second,third,moved,read,one,sound,base,place,ended,
    by omega,by omega,capacity.trans kept,_,left⟩

-- The writes are functions, so what is read back is read behind these.
theorem ReturnsF16.got {record written rewound : ByteArray} (returns : ReturnsF16 host memory fresh b value tail)
    (wrote : b.writeStringF16 host memory value = .ok record) (third : record.write fresh tail = .ok written)
    (moved : written.setPosition b.position = .ok rewound) :
    ∃ after, rewound.readStringF16 host = .ok (value,after) := by
  rcases returns with refused | ⟨record',written',rewound',after,wrote',third',moved',got,_⟩
  · rw [wrote] at refused
    cases refused
  · rw [wrote] at wrote'
    cases wrote'
    rw [third] at third'
    cases third'
    rw [moved] at moved'
    cases moved'
    exact ⟨after,got⟩

theorem stringF16_short (valid : b.Valid) (returns : ReturnsF16 host memory fresh b value tail) :
    value.length < 2^16 := by
  obtain ⟨_,record,written,rewound,middle,_,wrote,_,third,moved,read,_,sound,_⟩ :=
    stringF16_stream host memory fresh valid value tail
  obtain ⟨after,got⟩ := returns.got wrote third moved
  rw [read] at got
  have count := read_length sound got
  omega

theorem stringF16_exactly (host : Endian) (memory fresh : Nat → UInt8) (path : Reached next anyStep Start b)
    (value tail : List UInt8) :
    ReturnsF16 host memory fresh b value tail ↔ value.length < 2^16 ∧
      ¬(value = [] ∧ tail = [] ∧ b.baseSize ∣ b.position+2 ∧ b.capacity ≤ b.position+2) := by
  have valid := reached_valid path
  obtain ⟨header,record,written,rewound,middle,first,wrote,second,third,moved,read,one,sound,base,place,ended,size,
    cursor,limit,rest,left⟩ := stringF16_stream host memory fresh valid value tail
  have full : value = [] → tail = [] →
      (written.capacity = b.position+2 ↔ b.baseSize ∣ b.position+2 ∧ b.capacity ≤ b.position+2) := by
    rintro rfl rfl
    cases second
    cases third
    exact header_full valid first one base place
  constructor
  · intro returns
    refine ⟨stringF16_short valid returns,?_⟩
    rintro ⟨none,last,blocks⟩
    have ends := (full none last).mpr blocks
    obtain ⟨after,got⟩ := returns.got wrote third moved
    rw [read,none,List.length_nil,Nat.zero_mod,read_none sound,if_pos (by omega)] at got
    cases got
  · rintro ⟨small,safe⟩
    rw [Nat.mod_eq_of_lt small] at read
    have found : ∃ after, middle.read value.length = .ok (value,after) ∧
        after.position = middle.position+value.length := by
      by_cases empty : value = []
      · subst empty
        have apart : ¬middle.position = middle.capacity := by
          intro same
          have last : tail = [] := by
            apply List.length_eq_zero_iff.mp
            rw [List.length_nil] at size
            omega
          exact safe ⟨rfl,last,(full rfl last).mp (by omega)⟩
        rw [List.length_nil,read_none sound,if_neg apart]
        exact ⟨middle,rfl,rfl⟩
      · obtain ⟨after,got,_,_,reached⟩ := (read_yields sound empty left).position sound left
        exact ⟨after,got,reached⟩
    obtain ⟨after,got,reached⟩ := found
    exact .inr ⟨record,written,rewound,after,wrote,third,moved,by rw [read,got],by omega⟩

theorem stringF16_exactly_word : ReturnsF16 .little (fun _ => 0) (fun _ => 0) (initial 4 fun _ => 0) [97,98] [] ↔
    [97,98].length < 2^16 ∧ ¬(([97,98] : List UInt8) = [] ∧ ([] : List UInt8) = [] ∧
      (initial 4 fun _ => 0).baseSize ∣ (initial 4 fun _ => 0).position+2 ∧
      (initial 4 fun _ => 0).capacity ≤ (initial 4 fun _ => 0).position+2) :=
  stringF16_exactly .little (fun _ => 0) (fun _ => 0) (.start ⟨4,fun _ => 0,by decide,rfl⟩) [97,98] []

-- A length of 2^16 is written as zero.
theorem stringF16_lost : ¬∀ (host : Endian) (memory fresh : Nat → UInt8) (b : ByteArray) (value tail : List UInt8),
    Reached next anyStep Start b → ReturnsF16 host memory fresh b value tail := by
  intro returns
  have start : Reached next anyStep Start (initial 4096 fun _ => 0) := .start ⟨4096,fun _ => 0,by decide,rfl⟩
  have short := stringF16_short (reached_valid start)
    (returns .little (fun _ => 0) (fun _ => 0) _ (List.replicate (2^16) 97) [] start)
  rw [List.length_replicate] at short
  exact Nat.lt_irrefl _ short

end ByteArray
end Fishjoy
