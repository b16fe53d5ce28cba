import Fishjoy.ByteArrayCodec
import Fishjoy.ByteArraySegments

namespace Fishjoy
open Blocks Transition

inductive StringKind where
  | f32 | f64 | vint
  deriving DecidableEq

-- `value.size()` is converted to the type of the length.
def StringKind.header (size : Nat) : StringKind → Value
  | .f32 => .fuint32 (UInt32.ofNat size)
  | .f64 => .fuint64 (UInt64.ofNat size)
  | .vint => .uint64 (UInt64.ofNat size)

def StringKind.limit : StringKind → Nat
  | .f32 => 2^32
  | .f64 => 2^64
  | .vint => 2^64

structure StringRecord where
  kind : StringKind
  text : List UInt8
  fits : text.length < kind.limit

namespace ByteArray
section strings
variable (host : Endian) (memory : Nat → UInt8) (b : ByteArray)

def writeStringF32 (value : List UInt8) : Except Fault ByteArray := do
  let b ← b.writeFuint32 host memory (UInt32.ofNat value.length)
  b.write memory value

def writeStringF64 (value : List UInt8) : Except Fault ByteArray := do
  let b ← b.writeFuint64 host memory (UInt64.ofNat value.length)
  b.write memory value

def writeStringVint (value : List UInt8) : Except Fault ByteArray := do
  let b ← b.writeUint64 memory (UInt64.ofNat value.length)
  b.write memory value

def readStringF32 : Except Fault (List UInt8 × ByteArray) := do
  let (len,b) ← b.readFuint32 host
  b.read len.toNat

def readStringF64 : Except Fault (List UInt8 × ByteArray) := do
  let (len,b) ← b.readFuint64 host
  b.read len.toNat

def readStringVint : Except Fault (List UInt8 × ByteArray) := do
  let (len,b) ← b.readUint64
  b.read len.toNat

def writeString (record : StringRecord) : Except Fault ByteArray :=
  match record.kind with
  | .f32 => b.writeStringF32 host memory record.text
  | .f64 => b.writeStringF64 host memory record.text
  | .vint => b.writeStringVint memory record.text

def readString (b : ByteArray) : StringKind → Except Fault (List UInt8 × ByteArray)
  | .f32 => b.readStringF32 host
  | .f64 => b.readStringF64 host
  | .vint => b.readStringVint

def writeStrings : ByteArray → List StringRecord → Except Fault ByteArray
  | b,[] => .ok b
  | b,record :: rest => do
    let b ← b.writeString host memory record
    writeStrings b rest

def readStrings : ByteArray → List StringKind → Except Fault (List (List UInt8) × ByteArray)
  | b,[] => .ok ([],b)
  | b,kind :: rest => do
    let (value,b) ← b.readString host kind
    let (values,b) ← readStrings b rest
    return (value :: values,b)

end strings
end ByteArray

def StringRecord.header (record : StringRecord) : Value := record.kind.header record.text.length

def StringRecord.bytes (order : Endian) (record : StringRecord) : List UInt8 :=
  record.header.bytes order ++ record.text

-- What a record takes in the array, whatever the byte order.
def StringRecord.size (record : StringRecord) : Nat :=
  record.text.length + match record.kind with
    | .f32 => 4
    | .f64 => 8
    | .vint => (varintBytes record.text.length).length

namespace ByteArray
variable {host : Endian} {b : ByteArray} {rest : List UInt8} {memory : Nat → UInt8} {record : StringRecord}
  {records : List StringRecord}

theorem header_length (order : Endian) (record : StringRecord) : (record.bytes order).length = record.size := by
  obtain ⟨kind,text,fits⟩ := record
  rw [StringRecord.bytes,List.length_append,Nat.add_comm]
  cases kind with
  | f32 => simp [StringRecord.size,StringRecord.header,StringKind.header,Value.bytes,layout_length]
  | f64 => simp [StringRecord.size,StringRecord.header,StringKind.header,Value.bytes,layout_length]
  | vint =>
      have small : text.length < 2^64 := fits
      simp only [StringRecord.size,StringRecord.header,StringKind.header,Value.bytes,UInt64.toNat_ofNat',
        Nat.mod_eq_of_lt small]

theorem header_some (order : Endian) (record : StringRecord) : record.header.bytes order ≠ [] := by
  obtain ⟨kind,text,fits⟩ := record
  intro empty
  have width := congrArg List.length empty
  cases kind with
  | f32 => simp [StringRecord.header,StringKind.header,Value.bytes,layout_length] at width
  | f64 => simp [StringRecord.header,StringKind.header,Value.bytes,layout_length] at width
  | vint =>
      rw [StringRecord.header,StringKind.header,Value.bytes,varintBytes] at empty
      split at empty <;> cases empty

theorem writeString_parts (b : ByteArray) (record : StringRecord) :
    b.writeString host memory record =
      (b.writeValue host memory record.header).bind fun b => b.write memory record.text := by
  obtain ⟨kind,text,fits⟩ := record
  cases kind <;> rfl

-- Capacity beyond the content is either what there was or less than a block.
def Tight (start : Nat) (b : ByteArray) : Prop :=
  start ≤ b.capacity ∧ (b.capacity = start ∨ b.capacity < b.size+b.baseSize)

theorem addCapacity_tight (valid : b.Valid) (last : b.position = b.size) (memory : Nat → UInt8) (count : Nat) :
    b.capacity ≤ (b.addCapacity memory count).capacity ∧
      ((b.addCapacity memory count).capacity = b.capacity ∨
        (b.addCapacity memory count).capacity < b.size+count+b.baseSize) := by
  have order := valid.size
  have block := valid.positive
  unfold addCapacity
  by_cases none : count = 0
  · rw [if_pos none]
    exact ⟨Nat.le_refl _,.inl rfl⟩
  · rw [if_neg none]
    dsimp only
    by_cases room : count ≤ b.getCapacity
    · rw [if_pos room]
      exact ⟨Nat.le_refl _,.inl rfl⟩
    · have more : b.baseSize*((count-b.getCapacity+b.baseSize-1)/b.baseSize) < count-b.getCapacity+b.baseSize := by
        have parts := Nat.mul_div_le (count-b.getCapacity+b.baseSize-1) b.baseSize
        omega
      obtain ⟨_,_,_,_,grown⟩ := addNodes_spec memory ((count-b.getCapacity+b.baseSize-1)/b.baseSize) b
      have cap : b.getCapacity = b.capacity-b.position := rfl
      rw [if_neg room]
      have after : ∀ c : ByteArray, c.capacity = b.capacity+
          b.baseSize*((count-b.getCapacity+b.baseSize-1)/b.baseSize) →
          b.capacity ≤ c.capacity ∧ (c.capacity = b.capacity ∨ c.capacity < b.size+count+b.baseSize) := by
        intro c same
        rw [same]
        exact ⟨Nat.le_add_right _ _,.inr (by omega)⟩
      split
      · exact after _ (by rw [grown])
      · exact after _ (by rw [grown])

theorem write_tight (memory : Nat → UInt8) (valid : b.Valid) (last : b.position = b.size) (buf : List UInt8)
    (tight : Tight start b) :
    ∃ after, b.write memory buf = .ok after ∧ after.Valid ∧ after.position = after.size ∧
      after.flat.content = b.flat.content ++ buf ∧ after.endian = b.endian ∧ after.baseSize = b.baseSize ∧
      Tight start after := by
  obtain ⟨after,done,shape,position,content⟩ := write_appends memory valid last buf
  obtain ⟨same,done',_,base,endian,_⟩ := write_spec valid memory buf
  rw [done] at done'
  cases done'
  refine ⟨after,done,shape,position,content,endian,base,?_⟩
  have grown := addCapacity_tight valid last memory buf.length
  have size : after.size = b.size+buf.length := by
    rw [←shape.content_length,content,List.length_append,valid.content_length]
  have kept : after.capacity = (b.addCapacity memory buf.length).capacity := by
    unfold write at done
    by_cases none : buf = []
    · rw [if_pos none] at done
      cases done
      rw [none]
      rfl
    · rw [if_neg none] at done
      dsimp only at done
      cases loop : writeLoop (b.addCapacity memory buf.length).chain
          ((b.addCapacity memory buf.length).position % (b.addCapacity memory buf.length).baseSize) buf with
      | error fault => rw [loop] at done; cases done
      | ok result => rw [loop] at done; cases done; rfl
  obtain ⟨above,least⟩ := tight
  rw [←kept] at grown
  unfold Tight
  rw [size,base]
  omega

def written (order : Endian) (records : List StringRecord) : List UInt8 := records.flatMap (StringRecord.bytes order)

theorem written_length (order : Endian) (records : List StringRecord) :
    (written order records).length = (records.map StringRecord.size).sum := by
  induction records with
  | nil => rfl
  | cons record rest ih =>
      rw [written,List.flatMap_cons,List.length_append,header_length,List.map_cons,List.sum_cons]
      exact congrArg (record.size+·) ih

theorem writeStrings_spec (host : Endian) (memory : Nat → UInt8) (valid : b.Valid) (last : b.position = b.size)
    (tight : Tight start b) (records : List StringRecord) :
    ∃ after, writeStrings host memory b records = .ok after ∧ after.Valid ∧ after.endian = b.endian ∧
      after.baseSize = b.baseSize ∧ Tight start after ∧
      after.flat.content = b.flat.content ++ written b.endian records := by
  induction records generalizing b with
  | nil => exact ⟨b,rfl,valid,rfl,rfl,tight,(List.append_nil _).symm⟩
  | cons record rest ih =>
      obtain ⟨middle,first,shape,position,content,order,base,near⟩ :=
        write_tight memory valid last (record.header.bytes b.endian) tight
      have first : b.writeValue host memory record.header = .ok middle := by
        rw [writeValue_bytes]
        exact first
      obtain ⟨after,second,shape',position',content',order',base',near'⟩ :=
        write_tight memory shape position record.text near
      obtain ⟨final,later,sound,order'',base'',near'',content''⟩ := ih shape' position' near'
      have one : b.writeString host memory record = .ok after := by
        rw [writeString_parts,first]
        exact second
      refine ⟨final,by rw [writeStrings,one]; exact later,sound,order''.trans (order'.trans order),
        base''.trans (base'.trans base),near'',?_⟩
      have whole : written b.endian (record :: rest) =
          record.header.bytes b.endian ++ (record.text ++ written b.endian rest) := by
        rw [written,List.flatMap_cons,StringRecord.bytes,List.append_assoc]
        rfl
      rw [content'',content',content,order',order,whole,List.append_assoc,List.append_assoc]

-- `read` changes the cursor alone.
theorem read_frame (done : b.read count = .ok (bytes,after)) :
    ∃ cur, after = {b with position := b.position+count,cur := cur} := by
  unfold read at done
  split at done
  · cases done
  · cases loop : readLoop b.chain (b.position % b.baseSize) count with
    | error fault => rw [loop] at done; cases done
    | ok result => rw [loop] at done; cases done; exact ⟨_,rfl⟩

theorem read_capacity (done : b.read count = .ok (bytes,after)) : after.capacity = b.capacity := by
  obtain ⟨cur,rfl⟩ := read_frame done
  rfl

theorem setPosition_kept (done : b.setPosition v = .ok after) :
    after.capacity = b.capacity ∧ after.endian = b.endian := by
  unfold setPosition at done
  split at done
  · cases done
  · obtain ⟨_,_,rfl⟩ := map_ok done
    exact ⟨rfl,rfl⟩

theorem readFuint8_capacity (done : b.readFuint8 = .ok (byte,after)) : after.capacity = b.capacity := by
  obtain ⟨⟨bytes,_⟩,read,same⟩ := map_ok done
  cases same
  exact read_capacity read

theorem readFixed_capacity (done : b.readFixed host count = .ok (value,after)) : after.capacity = b.capacity := by
  obtain ⟨⟨bytes,_⟩,read,same⟩ := map_ok done
  cases same
  exact read_capacity read

theorem readVarint_capacity (done : readVarint width i result b = .ok (value,after)) : after.capacity = b.capacity := by
  induction left : width-i using Nat.strongRecOn generalizing i result b with
  | ind count ih =>
      subst left
      rw [readVarint] at done
      split at done
      · cases first : b.readFuint8 with
        | error fault => rw [first] at done; cases done
        | ok pair =>
            obtain ⟨byte,middle⟩ := pair
            rw [first] at done
            dsimp only [bind,Except.bind] at done
            have kept := readFuint8_capacity first
            split at done
            · cases done
              exact kept
            · exact (ih (width-(i+7)) (by omega) done rfl).trans kept
      · cases done
        rfl

-- The three readers take a length and then that many bytes.
def readLength (host : Endian) (b : ByteArray) : StringKind → Except Fault (Nat × ByteArray)
  | .f32 => (b.readFuint32 host).map fun (len,b) => (len.toNat,b)
  | .f64 => (b.readFuint64 host).map fun (len,b) => (len.toNat,b)
  | .vint => b.readUint64.map fun (len,b) => (len.toNat,b)

theorem readString_parts (b : ByteArray) (kind : StringKind) :
    b.readString host kind = (b.readLength host kind).bind fun (len,b) => b.read len := by
  cases kind with
  | f32 =>
      rw [readString,readStringF32,readLength]
      cases b.readFuint32 host <;> rfl
  | f64 =>
      rw [readString,readStringF64,readLength]
      cases b.readFuint64 host <;> rfl
  | vint =>
      rw [readString,readStringVint,readLength]
      cases b.readUint64 <;> rfl

theorem readLength_capacity {kind : StringKind} (done : b.readLength host kind = .ok (len,after)) :
    after.capacity = b.capacity := by
  cases kind with
  | vint =>
      obtain ⟨_,read,same⟩ := map_ok done
      cases same
      obtain ⟨⟨_,_⟩,loop,same⟩ := map_ok read
      cases same
      exact readVarint_capacity loop
  | _ =>
      obtain ⟨_,read,same⟩ := map_ok done
      cases same
      obtain ⟨⟨_,_⟩,fixed,same⟩ := map_ok read
      cases same
      exact readFixed_capacity fixed

theorem readLength_yields (host : Endian) (valid : b.Valid) (record : StringRecord)
    (stream : b.unread = record.header.bytes b.endian ++ rest) :
    Yields (b.readLength host record.kind) record.text.length b rest := by
  obtain ⟨kind,text,fits⟩ := record
  cases kind with
  | f32 =>
      have small : text.length < 2^32 := fits
      have read := (readFixed_yields host valid (by decide) (UInt32.ofNat text.length).toNat_lt stream).map UInt32.ofNat
      apply (read.map UInt32.toNat).as
      rw [UInt32.ofNat_toNat,UInt32.toNat_ofNat',Nat.mod_eq_of_lt small]
  | f64 =>
      have small : text.length < 2^64 := fits
      have read := (readFixed_yields host valid (by decide) (UInt64.ofNat text.length).toNat_lt stream).map UInt64.ofNat
      apply (read.map UInt64.toNat).as
      rw [UInt64.ofNat_toNat,UInt64.toNat_ofNat',Nat.mod_eq_of_lt small]
  | vint =>
      have small : text.length < 2^64 := fits
      apply ((readUint64_yields valid stream).map UInt64.toNat).as
      rw [UInt64.toNat_ofNat',Nat.mod_eq_of_lt small]

theorem readString_yields (host : Endian) (valid : b.Valid) (record : StringRecord)
    (stream : b.unread = record.bytes b.endian ++ rest) (safe : record.text = [] → rest = [] → b.size < b.capacity) :
    Yields (b.readString host record.kind) record.text b rest := by
  rw [StringRecord.bytes,List.append_assoc] at stream
  obtain ⟨middle,first,shape,tail,size,order⟩ := readLength_yields host valid record stream
  rw [readString_parts,first]
  dsimp only [Except.bind]
  by_cases empty : record.text = []
  · rw [empty] at tail ⊢
    have capacity := readLength_capacity first
    have width : rest.length = middle.size-middle.position := by
      rw [←shape.content_length,←List.length_drop]
      exact congrArg List.length tail.symm
    have apart : ¬middle.position = middle.capacity := by
      have start := shape.position
      have fits := shape.size
      by_cases last : rest = []
      · have room := safe empty last
        omega
      · have some := List.length_pos_iff.mpr last
        omega
    rw [List.length_nil,read_none shape,if_neg apart]
    exact ⟨middle,rfl,shape,tail,size,order⟩
  · exact (read_yields shape empty tail).from size order

theorem readString_capacity {kind : StringKind} (done : b.readString host kind = .ok (text,after)) :
    after.capacity = b.capacity := by
  rw [readString_parts] at done
  cases first : b.readLength host kind with
  | error fault => rw [first] at done; cases done
  | ok pair =>
      obtain ⟨len,middle⟩ := pair
      rw [first] at done
      exact (read_capacity done).trans (readLength_capacity first)

theorem readString_null (host : Endian) (valid : b.Valid) (record : StringRecord) (empty : record.text = [])
    (stream : b.unread = record.bytes b.endian) (full : b.size = b.capacity) :
    b.readString host record.kind = .error .nullNode := by
  rw [StringRecord.bytes,empty] at stream
  obtain ⟨middle,first,shape,tail,size,_⟩ := readLength_yields host valid record stream
  have width : middle.size-middle.position = 0 := by
    rw [←shape.content_length,←List.length_drop]
    exact congrArg List.length tail
  have capacity := readLength_capacity first
  have ended : middle.position = middle.capacity := by
    have start := shape.position
    omega
  rw [readString_parts,first]
  dsimp only [Except.bind]
  rw [empty,List.length_nil,read_none shape,if_pos ended]

def LastEmpty (records : List StringRecord) : Prop := records.getLast?.map StringRecord.text = some []

instance (records : List StringRecord) : Decidable (LastEmpty records) :=
  inferInstanceAs (Decidable (records.getLast?.map StringRecord.text = some []))

theorem LastEmpty.tail {record : StringRecord} {rest : List StringRecord} (more : rest ≠ []) : LastEmpty (record :: rest) ↔ LastEmpty rest := by
  obtain ⟨next,others,rfl⟩ := List.exists_cons_of_ne_nil more
  rw [LastEmpty,List.getLast?_cons_cons,LastEmpty]

theorem written_cons (order : Endian) (record : StringRecord) (rest : List StringRecord) :
    written order (record :: rest) = record.bytes order ++ written order rest := List.flatMap_cons

theorem written_some (order : Endian) (more : records ≠ []) : written order records ≠ [] := by
  obtain ⟨record,rest,rfl⟩ := List.exists_cons_of_ne_nil more
  rw [written_cons,StringRecord.bytes]
  intro empty
  exact header_some order record (List.append_eq_nil_iff.mp (List.append_eq_nil_iff.mp empty).1).1

theorem readStrings_spec (host : Endian) (valid : b.Valid) (records : List StringRecord)
    (stream : b.unread = written b.endian records) (safe : LastEmpty records → b.size < b.capacity) :
    ∃ after, readStrings host b (records.map StringRecord.kind) = .ok (records.map StringRecord.text,after) ∧
      after.Valid ∧ after.unread = [] ∧ after.size = b.size := by
  induction records generalizing b with
  | nil => exact ⟨b,rfl,valid,stream,rfl⟩
  | cons record rest ih =>
      rw [written_cons] at stream
      have here : record.text = [] → written b.endian rest = [] → b.size < b.capacity := by
        intro empty none
        have last : rest = [] := by
          apply Classical.byContradiction
          intro more
          exact written_some b.endian more none
        apply safe
        rw [last,LastEmpty,List.getLast?_singleton,Option.map_some,empty]
      obtain ⟨middle,first,shape,tail,size,order⟩ := readString_yields host valid record stream here
      have capacity := readString_capacity first
      rw [←order] at tail
      have later : LastEmpty rest → middle.size < middle.capacity := by
        intro last
        have more : rest ≠ [] := by
          rintro rfl
          cases last
        rw [size,capacity]
        exact safe ((LastEmpty.tail more).mpr last)
      obtain ⟨after,read,sound,ended,size'⟩ := ih shape tail later
      refine ⟨after,?_,sound,ended,size'.trans size⟩
      rw [List.map_cons,readStrings,first]
      dsimp only [bind,Except.bind]
      rw [read]
      rfl

theorem readStrings_null (host : Endian) (valid : b.Valid) (records : List StringRecord)
    (stream : b.unread = written b.endian records) (last : LastEmpty records) (full : b.size = b.capacity) :
    readStrings host b (records.map StringRecord.kind) = .error .nullNode := by
  induction records generalizing b with
  | nil => cases last
  | cons record rest ih =>
      rw [written_cons] at stream
      rw [List.map_cons,readStrings]
      by_cases more : rest = []
      · subst more
        have empty : record.text = [] := Option.some.inj last
        rw [written,List.flatMap_nil,List.append_nil] at stream
        rw [readString_null host valid record empty stream full]
        rfl
      · have here : record.text = [] → written b.endian rest = [] → b.size < b.capacity :=
          fun _ none => absurd none (written_some b.endian more)
        obtain ⟨middle,first,shape,tail,size,order⟩ := readString_yields host valid record stream here
        have capacity := readString_capacity first
        rw [←order] at tail
        rw [first]
        dsimp only [bind,Except.bind]
        rw [ih shape tail ((LastEmpty.tail more).mp last) (by rw [size,capacity]; exact full)]

-- The records are read back and the reader is at the end.
def StringsReturn (host : Endian) (memory : Nat → UInt8) (b : ByteArray) (records : List StringRecord) : Prop :=
  ∃ written rewound after, writeStrings host memory b records = .ok written ∧ written.setPosition 0 = .ok rewound ∧
    readStrings host rewound (records.map StringRecord.kind) = .ok (records.map StringRecord.text,after) ∧
    after.position = written.size ∧ after.size = written.size

-- What the records take ends with the last block.
def EndsBlock (b : ByteArray) (records : List StringRecord) : Prop :=
  b.baseSize ∣ (records.map StringRecord.size).sum ∧ b.capacity ≤ (records.map StringRecord.size).sum

theorem Tight.full (tight : Tight start b) (valid : b.Valid) :
    b.size = b.capacity ↔ b.baseSize ∣ b.size ∧ start ≤ b.size := by
  have fits := valid.size
  obtain ⟨above,near⟩ := tight
  constructor
  · intro same
    rw [same,valid.capacity]
    exact ⟨Nat.dvd_mul_right _ _,valid.capacity ▸ above⟩
  · rintro ⟨⟨count,whole⟩,past⟩
    rcases near with same | near
    · omega
    · have capacity := valid.capacity
      have bound : b.nodes.length < count+1 := by
        apply Nat.lt_of_mul_lt_mul_left (a := b.baseSize)
        rw [Nat.mul_succ]
        omega
      have least := Nat.mul_le_mul_left b.baseSize (Nat.le_of_lt_succ bound)
      omega

theorem strings_return_exactly (host : Endian) (memory : Nat → UInt8) (path : Reached next anyStep Start b)
    (empty : b.size = 0) (records : List StringRecord) :
    StringsReturn host memory b records ↔ ¬(LastEmpty records ∧ b.EndsBlock records) := by
  have valid := reached_valid path
  have start : b.position = b.size := by have := valid.position; omega
  obtain ⟨after,wrote,shape,order,base,tight,content⟩ :=
    writeStrings_spec host memory valid start ⟨Nat.le_refl _,.inl rfl⟩ records
  have blank : b.flat.content = [] := List.length_eq_zero_iff.mp (valid.content_length.trans empty)
  rw [blank,List.nil_append] at content
  have total : after.size = (records.map StringRecord.size).sum := by
    rw [←shape.content_length,content,written_length]
  have full : after.size = after.capacity ↔ b.EndsBlock records := by
    rw [tight.full shape,total,base]
    rfl
  obtain ⟨rewound,moved,shape',there,size,same⟩ := setPosition_inside shape (Nat.zero_le _)
  obtain ⟨capacity,kept⟩ := setPosition_kept moved
  have stream : rewound.unread = written rewound.endian records := by
    rw [unread,there,List.drop_zero,same,content,kept,order]
  constructor
  · rintro ⟨final,rewound',ended,wrote',moved',read,_⟩ ⟨last,blocks⟩
    rw [wrote] at wrote'
    cases wrote'
    rw [moved] at moved'
    cases moved'
    rw [readStrings_null host shape' records stream last (by rw [size,capacity]; exact full.mpr blocks)] at read
    cases read
  · intro safe
    have room : LastEmpty records → rewound.size < rewound.capacity := by
      intro last
      have fits := shape'.size
      apply Nat.lt_of_le_of_ne fits
      intro none
      exact safe ⟨last,full.mp (by rw [←size,←capacity]; exact none)⟩
    obtain ⟨final,read,sound,none,size'⟩ := readStrings_spec host shape' records stream room
    refine ⟨after,rewound,final,wrote,moved,read,?_,size'.trans size⟩
    have ended : final.size-final.position = 0 := by
      rw [←sound.content_length,←List.length_drop]
      exact congrArg List.length none
    have bound := sound.position
    omega

theorem strings_return_words : StringsReturn .little (fun _ => 0) (initial 4 fun _ => 0)
      [⟨.f32,[],by decide⟩,⟨.f64,[97],by decide⟩] ↔
    ¬(LastEmpty [⟨.f32,[],by decide⟩,⟨.f64,[97],by decide⟩] ∧
      (initial 4 fun _ => 0).EndsBlock [⟨.f32,[],by decide⟩,⟨.f64,[97],by decide⟩]) :=
  strings_return_exactly .little (fun _ => 0) (.start ⟨4,fun _ => 0,by decide,rfl⟩) rfl _

-- An empty string alone in a block of four bytes: its length fills the block.
theorem strings_lost_empty : ¬∀ (host : Endian) (memory : Nat → UInt8) (b : ByteArray) (records : List StringRecord),
    Reached next anyStep Start b → b.size = 0 → StringsReturn host memory b records := by
  intro returned
  obtain ⟨written,rewound,after,wrote,moved,read,_⟩ := returned .little (fun _ => 0) (initial 4 fun _ => 0)
    [⟨.f32,[],by decide⟩] (.start ⟨4,fun _ => 0,by decide,rfl⟩) rfl
  have stored : writeStrings .little (fun _ => 0) (initial 4 fun _ => 0) [⟨.f32,[],by decide⟩] =
    .ok ⟨4,4,4,4,.big,[[0,0,0,0]],none⟩ := by rfl
  rw [stored] at wrote
  cases wrote
  have begun : setPosition ⟨4,4,4,4,.big,[[0,0,0,0]],none⟩ 0 = .ok ⟨4,0,4,4,.big,[[0,0,0,0]],some 0⟩ := by rfl
  rw [begun] at moved
  cases moved
  have lost : readStrings .little ⟨4,0,4,4,.big,[[0,0,0,0]],some 0⟩ [.f32] = .error .nullNode := by rfl
  have read : readStrings .little ⟨4,0,4,4,.big,[[0,0,0,0]],some 0⟩ [.f32] = .ok ([[]],after) := read
  rw [lost] at read
  cases read

end ByteArray
end Fishjoy
