import Fishjoy.ByteArrayFlat
import Fishjoy.Foundation.Words

namespace Fishjoy
open Blocks Words

-- How the host lays out an integer of `count` bytes in memory.
def layout (order : Endian) (count value : Nat) : List UInt8 :=
  match order with
  | .little => littleBytes count value
  | .big => (littleBytes count value).reverse

def ofLayout (order : Endian) (bytes : List UInt8) : Nat :=
  match order with
  | .little => ofLittleBytes bytes
  | .big => ofLittleBytes bytes.reverse

-- `bswap_16`, `bswap_32` and `bswap_64`.
def byteswap (count value : Nat) : Nat := ofLittleBytes (littleBytes count value).reverse

def EncodeZigzag32 (v : Int32) : UInt32 := if v < 0 then (-v).toUInt32*2-1 else (v*2).toUInt32

def EncodeZigzag64 (v : Int64) : UInt64 := if v < 0 then (-v).toUInt64*2-1 else (v*2).toUInt64

def DecodeZigzag32 (v : UInt32) : Int32 := ((v >>> 1) ^^^ -(v &&& 1)).toInt32

def DecodeZigzag64 (v : UInt64) : Int64 := ((v >>> 1) ^^^ -(v &&& 1)).toInt64

-- What the loops of `writeUint32` and `writeUint64` put into `tmp`.
def varintBytes (value : Nat) : List UInt8 :=
  if value < 0x80 then [UInt8.ofNat value]
  else UInt8.ofNat ((value &&& 0x7F) ||| 0x80) :: varintBytes (value >>> 7)
termination_by value
decreasing_by rw [Nat.shiftRight_eq_div_pow]; omega

inductive Kind where
  | fint8 | fuint8 | fint16 | fuint16 | fint32 | fuint32 | fint64 | fuint64
  | int32 | uint32 | int64 | uint64 | float | double
  deriving DecidableEq

-- A float or a double is the integer its bytes are copied to.
inductive Value where
  | fint8 (value : Int8)
  | fuint8 (value : UInt8)
  | fint16 (value : Int16)
  | fuint16 (value : UInt16)
  | fint32 (value : Int32)
  | fuint32 (value : UInt32)
  | fint64 (value : Int64)
  | fuint64 (value : UInt64)
  | int32 (value : Int32)
  | uint32 (value : UInt32)
  | int64 (value : Int64)
  | uint64 (value : UInt64)
  | float (bits : UInt32)
  | double (bits : UInt64)
  deriving DecidableEq

def Value.kind : Value → Kind
  | .fint8 _ => .fint8
  | .fuint8 _ => .fuint8
  | .fint16 _ => .fint16
  | .fuint16 _ => .fuint16
  | .fint32 _ => .fint32
  | .fuint32 _ => .fuint32
  | .fint64 _ => .fint64
  | .fuint64 _ => .fuint64
  | .int32 _ => .int32
  | .uint32 _ => .uint32
  | .int64 _ => .int64
  | .uint64 _ => .uint64
  | .float _ => .float
  | .double _ => .double

namespace ByteArray
-- `FISHJOY_BYTE_ORDER`.
variable (host : Endian)

section writers
variable (b : ByteArray) (memory : Nat → UInt8)

def writeFixed (count value : Nat) : Except Fault ByteArray :=
  b.write memory (layout host count (if b.endian ≠ host then byteswap count value else value))

def writeFint8 (value : Int8) : Except Fault ByteArray := b.write memory [value.toUInt8]

def writeFuint8 (value : UInt8) : Except Fault ByteArray := b.write memory [value]

def writeFint16 (value : Int16) : Except Fault ByteArray := b.writeFixed host memory 2 value.toUInt16.toNat

def writeFuint16 (value : UInt16) : Except Fault ByteArray := b.writeFixed host memory 2 value.toNat

def writeFint32 (value : Int32) : Except Fault ByteArray := b.writeFixed host memory 4 value.toUInt32.toNat

def writeFuint32 (value : UInt32) : Except Fault ByteArray := b.writeFixed host memory 4 value.toNat

def writeFint64 (value : Int64) : Except Fault ByteArray := b.writeFixed host memory 8 value.toUInt64.toNat

def writeFuint64 (value : UInt64) : Except Fault ByteArray := b.writeFixed host memory 8 value.toNat

def writeUint32 (value : UInt32) : Except Fault ByteArray := b.write memory (varintBytes value.toNat)

def writeInt32 (value : Int32) : Except Fault ByteArray := b.writeUint32 memory (EncodeZigzag32 value)

def writeUint64 (value : UInt64) : Except Fault ByteArray := b.write memory (varintBytes value.toNat)

def writeInt64 (value : Int64) : Except Fault ByteArray := b.writeUint64 memory (EncodeZigzag64 value)

def writeFloat (bits : UInt32) : Except Fault ByteArray := b.writeFuint32 host memory bits

def writeDouble (bits : UInt64) : Except Fault ByteArray := b.writeFuint64 host memory bits

def writeValue : Value → Except Fault ByteArray
  | .fint8 value => b.writeFint8 memory value
  | .fuint8 value => b.writeFuint8 memory value
  | .fint16 value => b.writeFint16 host memory value
  | .fuint16 value => b.writeFuint16 host memory value
  | .fint32 value => b.writeFint32 host memory value
  | .fuint32 value => b.writeFuint32 host memory value
  | .fint64 value => b.writeFint64 host memory value
  | .fuint64 value => b.writeFuint64 host memory value
  | .int32 value => b.writeInt32 memory value
  | .uint32 value => b.writeUint32 memory value
  | .int64 value => b.writeInt64 memory value
  | .uint64 value => b.writeUint64 memory value
  | .float bits => b.writeFloat host memory bits
  | .double bits => b.writeDouble host memory bits

end writers

section readers
variable (b : ByteArray)

def readFixed (count : Nat) : Except Fault (Nat × ByteArray) :=
  (b.read count).map fun (bytes,after) =>
    let v := ofLayout host bytes
    (if b.endian = host then v else byteswap count v,after)

def readFuint8 : Except Fault (UInt8 × ByteArray) := (b.read 1).map fun (bytes,after) => (bytes.headD 0,after)

def readFint8 : Except Fault (Int8 × ByteArray) := (b.read 1).map fun (bytes,after) => ((bytes.headD 0).toInt8,after)

def readFuint16 : Except Fault (UInt16 × ByteArray) :=
  (b.readFixed host 2).map fun (v,after) => (UInt16.ofNat v,after)

def readFint16 : Except Fault (Int16 × ByteArray) :=
  (b.readFixed host 2).map fun (v,after) => ((UInt16.ofNat v).toInt16,after)

def readFuint32 : Except Fault (UInt32 × ByteArray) :=
  (b.readFixed host 4).map fun (v,after) => (UInt32.ofNat v,after)

def readFint32 : Except Fault (Int32 × ByteArray) :=
  (b.readFixed host 4).map fun (v,after) => ((UInt32.ofNat v).toInt32,after)

def readFuint64 : Except Fault (UInt64 × ByteArray) :=
  (b.readFixed host 8).map fun (v,after) => (UInt64.ofNat v,after)

def readFint64 : Except Fault (Int64 × ByteArray) :=
  (b.readFixed host 8).map fun (v,after) => ((UInt64.ofNat v).toInt64,after)

-- The loop of `readUint32` and `readUint64` with its `i` and `result`.
def readVarint (width i result : Nat) (b : ByteArray) : Except Fault (Nat × ByteArray) :=
  if i < width then do
    let (byte,after) ← b.readFuint8
    if byte < 0x80 then return (result ||| byte.toNat <<< i % 2^width,after)
    else readVarint width (i+7) (result ||| (byte &&& 0x7F).toNat <<< i % 2^width) after
  else return (result,b)
termination_by width-i

def readUint32 : Except Fault (UInt32 × ByteArray) :=
  (readVarint 32 0 0 b).map fun (result,after) => (UInt32.ofNat result,after)

def readInt32 : Except Fault (Int32 × ByteArray) :=
  b.readUint32.map fun (v,after) => (DecodeZigzag32 v,after)

def readUint64 : Except Fault (UInt64 × ByteArray) :=
  (readVarint 64 0 0 b).map fun (result,after) => (UInt64.ofNat result,after)

def readInt64 : Except Fault (Int64 × ByteArray) :=
  b.readUint64.map fun (v,after) => (DecodeZigzag64 v,after)

def readFloat : Except Fault (UInt32 × ByteArray) := b.readFuint32 host

def readDouble : Except Fault (UInt64 × ByteArray) := b.readFuint64 host

def readValue : Kind → Except Fault (Value × ByteArray)
  | .fint8 => b.readFint8.map fun (v,after) => (.fint8 v,after)
  | .fuint8 => b.readFuint8.map fun (v,after) => (.fuint8 v,after)
  | .fint16 => (b.readFint16 host).map fun (v,after) => (.fint16 v,after)
  | .fuint16 => (b.readFuint16 host).map fun (v,after) => (.fuint16 v,after)
  | .fint32 => (b.readFint32 host).map fun (v,after) => (.fint32 v,after)
  | .fuint32 => (b.readFuint32 host).map fun (v,after) => (.fuint32 v,after)
  | .fint64 => (b.readFint64 host).map fun (v,after) => (.fint64 v,after)
  | .fuint64 => (b.readFuint64 host).map fun (v,after) => (.fuint64 v,after)
  | .int32 => b.readInt32.map fun (v,after) => (.int32 v,after)
  | .uint32 => b.readUint32.map fun (v,after) => (.uint32 v,after)
  | .int64 => b.readInt64.map fun (v,after) => (.int64 v,after)
  | .uint64 => b.readUint64.map fun (v,after) => (.uint64 v,after)
  | .float => (b.readFloat host).map fun (v,after) => (.float v,after)
  | .double => (b.readDouble host).map fun (v,after) => (.double v,after)

end readers

end ByteArray

section encodings

theorem layout_length (order : Endian) (count value : Nat) : (layout order count value).length = count := by
  cases order <;> simp [layout,littleBytes_length]

theorem little_reversed (count value : Nat) :
    littleBytes count (ofLittleBytes (littleBytes count value).reverse) = (littleBytes count value).reverse := by
  have back := littleBytes_ofLittleBytes (littleBytes count value).reverse
  rwa [List.length_reverse,littleBytes_length] at back

theorem layout_swapped (host order : Endian) (count value : Nat) :
    layout host count (if order ≠ host then byteswap count value else value) = layout order count value := by
  cases host <;> cases order <;> simp [layout,byteswap,little_reversed]

theorem ofLayout_swapped (host order : Endian) (small : value < 256^count) :
    (if order = host then ofLayout host (layout order count value)
      else byteswap count (ofLayout host (layout order count value))) = value := by
  have round := ofLittleBytes_littleBytes small
  cases host <;> cases order <;> simp [layout,ofLayout,byteswap,little_reversed,round]

theorem DecodeZigzag32_EncodeZigzag32 (v : Int32) : DecodeZigzag32 (EncodeZigzag32 v) = v := by
  apply Int32.toBitVec_inj.mp
  by_cases sign : v < 0
  · have high : 2^31 ≤ v.toBitVec.toNat := by
      have slt : v.toBitVec.slt 0#32 = true := sign
      rw [BitVec.slt_zero_eq_msb,BitVec.msb_eq_decide] at slt
      exact of_decide_eq_true slt
    rw [DecodeZigzag32,EncodeZigzag32,if_pos sign]
    exact zigzag_neg v.toBitVec high
  · have low : v.toBitVec.toNat < 2^31 := by
      have slt : v.toBitVec.slt 0#32 = false := Bool.not_eq_true _ ▸ sign
      rw [BitVec.slt_zero_eq_msb,BitVec.msb_eq_decide] at slt
      exact Nat.lt_of_not_le (of_decide_eq_false slt)
    rw [DecodeZigzag32,EncodeZigzag32,if_neg sign]
    exact zigzag_nonneg v.toBitVec low

theorem DecodeZigzag64_EncodeZigzag64 (v : Int64) : DecodeZigzag64 (EncodeZigzag64 v) = v := by
  apply Int64.toBitVec_inj.mp
  by_cases sign : v < 0
  · have high : 2^63 ≤ v.toBitVec.toNat := by
      have slt : v.toBitVec.slt 0#64 = true := sign
      rw [BitVec.slt_zero_eq_msb,BitVec.msb_eq_decide] at slt
      exact of_decide_eq_true slt
    rw [DecodeZigzag64,EncodeZigzag64,if_pos sign]
    exact zigzag_neg v.toBitVec high
  · have low : v.toBitVec.toNat < 2^63 := by
      have slt : v.toBitVec.slt 0#64 = false := Bool.not_eq_true _ ▸ sign
      rw [BitVec.slt_zero_eq_msb,BitVec.msb_eq_decide] at slt
      exact Nat.lt_of_not_le (of_decide_eq_false slt)
    rw [DecodeZigzag64,EncodeZigzag64,if_neg sign]
    exact zigzag_nonneg v.toBitVec low

def Value.bytes (order : Endian) : Value → List UInt8
  | .fint8 value => [value.toUInt8]
  | .fuint8 value => [value]
  | .fint16 value => layout order 2 value.toUInt16.toNat
  | .fuint16 value => layout order 2 value.toNat
  | .fint32 value => layout order 4 value.toUInt32.toNat
  | .fuint32 value => layout order 4 value.toNat
  | .fint64 value => layout order 8 value.toUInt64.toNat
  | .fuint64 value => layout order 8 value.toNat
  | .int32 value => varintBytes (EncodeZigzag32 value).toNat
  | .uint32 value => varintBytes value.toNat
  | .int64 value => varintBytes (EncodeZigzag64 value).toNat
  | .uint64 value => varintBytes value.toNat
  | .float bits => layout order 4 bits.toNat
  | .double bits => layout order 8 bits.toNat

end encodings

namespace ByteArray
variable {host : Endian} {b : ByteArray} {rest : List UInt8}

theorem writeFixed_bytes (memory : Nat → UInt8) (count value : Nat) :
    b.writeFixed host memory count value = b.write memory (layout b.endian count value) := by
  rw [writeFixed,layout_swapped]

theorem writeValue_bytes (memory : Nat → UInt8) (value : Value) :
    b.writeValue host memory value = b.write memory (value.bytes b.endian) := by
  cases value <;> first | rfl | exact writeFixed_bytes memory _ _

-- What a reader has still in front of it.
def unread (b : ByteArray) : List UInt8 := b.flat.content.drop b.position

-- A reader that returns `value` and leaves `rest`.
def Yields (reader : Except Fault (α × ByteArray)) (value : α) (b : ByteArray) (rest : List UInt8) : Prop :=
  ∃ after, reader = .ok (value,after) ∧ after.Valid ∧ after.unread = rest ∧
    after.size = b.size ∧ after.endian = b.endian

theorem Yields.map {reader : Except Fault (α × ByteArray)} (f : α → β) (yields : Yields reader value b rest) :
    Yields (reader.map fun (v,after) => (f v,after)) (f value) b rest := by
  obtain ⟨after,done,others⟩ := yields
  exact ⟨after,by rw [done]; rfl,others⟩

theorem Yields.from {reader : Except Fault (α × ByteArray)} (size : middle.size = b.size)
    (endian : middle.endian = b.endian) (yields : Yields reader value middle rest) : Yields reader value b rest := by
  obtain ⟨after,done,valid,stream,same,order⟩ := yields
  exact ⟨after,done,valid,stream,same.trans size,order.trans endian⟩

theorem read_yields (valid : b.Valid) (left : bytes ≠ []) (stream : b.unread = bytes ++ rest) :
    Yields (b.read bytes.length) bytes b rest := by
  have enough : bytes.length ≤ b.getReadSize := by
    have width := congrArg List.length stream
    rw [unread,List.length_drop,valid.content_length,List.length_append] at width
    unfold getReadSize
    omega
  obtain ⟨after,done,shape,_,order,moved⟩ := read_spec valid bytes.length (List.length_pos_iff.mpr left) enough
  have content : after.flat.content = b.flat.content := by rw [moved]
  have position : after.flat.position = b.position+bytes.length := by rw [moved]
  change after.position = _ at position
  unfold unread at stream
  refine ⟨after,by rw [done,stream,List.take_left],shape,?_,?_,order⟩
  · rw [unread,content,position,←List.drop_drop,stream,List.drop_left]
  · rw [←shape.content_length,content,valid.content_length]

theorem readFixed_yields (host : Endian) (valid : b.Valid) (positive : 0 < count) (small : value < 256^count)
    (stream : b.unread = layout b.endian count value ++ rest) : Yields (b.readFixed host count) value b rest := by
  have width := layout_length b.endian count value
  have left : layout b.endian count value ≠ [] := by
    intro empty
    rw [empty,List.length_nil] at width
    omega
  have result := (read_yields valid left stream).map fun bytes =>
    if b.endian = host then ofLayout host bytes else byteswap count (ofLayout host bytes)
  rw [width,ofLayout_swapped host b.endian small] at result
  exact result

theorem readFuint8_yields (valid : b.Valid) (stream : b.unread = byte :: rest) :
    Yields b.readFuint8 byte b rest :=
  (read_yields valid (List.cons_ne_nil byte []) stream).map fun bytes : List UInt8 => bytes.headD 0

theorem readVarint_yields {i result : Nat} (valid : b.Valid) (index : i < width) (below : result < 2^i)
    (fits : value*2^i < 2^width) (stream : b.unread = varintBytes value ++ rest) :
    Yields (readVarint width i result b) (result+value*2^i) b rest := by
  induction value using Nat.strongRecOn generalizing i result b with
  | ind value ih =>
    rw [varintBytes] at stream
    rw [readVarint,if_pos index]
    by_cases last : value < 0x80
    · rw [if_pos last] at stream
      obtain ⟨after,done,others⟩ := readFuint8_yields valid stream
      have byte : (UInt8.ofNat value).toNat = value := by rw [UInt8.toNat_ofNat']; omega
      have small : UInt8.ofNat value < 0x80 := by rw [UInt8.lt_iff_toNat_lt,byte]; exact last
      refine ⟨after,?_,others⟩
      rw [done,←or_shifted below fits]
      simp [bind,Except.bind,small,byte,pure,Except.pure]
    · rw [if_neg last] at stream
      obtain ⟨middle,done,shape,tail,size,order⟩ := readFuint8_yields valid stream
      have scaled : 2^(i+7) = 2^i*128 := by rw [Nat.pow_add]
      have parts := Nat.mod_add_div value 128
      have byte : (UInt8.ofNat ((value &&& 0x7F) ||| 0x80)).toNat = value%128+128 := by
        rw [UInt8.toNat_ofNat',varint_low]; omega
      have large : ¬UInt8.ofNat ((value &&& 0x7F) ||| 0x80) < 0x80 := by
        rw [UInt8.lt_iff_toNat_lt,byte]; exact Nat.not_lt.mpr (Nat.le_add_left _ _)
      have low : (UInt8.ofNat ((value &&& 0x7F) ||| 0x80) &&& 0x7F).toNat = value%128 := by
        rw [UInt8.toNat_and,byte]
        have mask : (value%128+128) &&& 127 = (value%128+128)%128 :=
          Nat.and_two_pow_sub_one_eq_mod _ 7
        rw [show (0x7F : UInt8).toNat = 127 from rfl,mask]
        omega
      have shifted : value >>> 7 = value/128 := Nat.shiftRight_eq_div_pow value 7
      have lowFits : value%128*2^i < 2^width :=
        Nat.lt_of_le_of_lt (Nat.mul_le_mul_right _ (Nat.mod_le _ _)) fits
      have sum : (value%128)*2^i+(value/128)*2^(i+7) = value*2^i := by
        rw [scaled]
        calc value%128*2^i+value/128*(2^i*128)
            = (value%128+128*(value/128))*2^i := by ring
          _ = value*2^i := by rw [parts]
      have next : value%128*2^i+2^i ≤ 2^(i+7) := by
        rw [scaled]
        calc value%128*2^i+2^i = (value%128+1)*2^i := by ring
          _ ≤ 128*2^i := Nat.mul_le_mul_right _ (Nat.mod_lt value (by decide))
          _ = 2^i*128 := Nat.mul_comm _ _
      have continues : i+7 < width := by
        refine (Nat.pow_lt_pow_iff_right (by decide : 1 < 2)).mp (Nat.lt_of_le_of_lt ?_ fits)
        rw [scaled,Nat.mul_comm]
        exact Nat.mul_le_mul_right _ (Nat.le_of_not_lt last)
      have less : value >>> 7 < value := by rw [shifted]; omega
      have bounded : result+value%128*2^i < 2^(i+7) := by omega
      have later := ih (value >>> 7) less shape continues bounded (by rw [shifted]; omega) tail
      rw [shifted,Nat.add_assoc,sum] at later
      have step : (do
          let (byte,after) ← b.readFuint8
          if byte < 0x80 then return (result ||| byte.toNat <<< i % 2^width,after)
          else readVarint width (i+7) (result ||| (byte &&& 0x7F).toNat <<< i % 2^width) after) =
          readVarint width (i+7) (result+value%128*2^i) middle := by
        rw [done]
        dsimp only [bind,Except.bind]
        rw [if_neg large,low,or_shifted below lowFits]
      rw [step]
      exact later.from size order

theorem Yields.as {reader : Except Fault (α × ByteArray)} (yields : Yields reader found b rest)
    (same : found = value) : Yields reader value b rest := same ▸ yields

theorem readUint32_yields {value : UInt32} (valid : b.Valid)
    (stream : b.unread = varintBytes value.toNat ++ rest) : Yields b.readUint32 value b rest := by
  have small : value.toNat*2^0 < 2^32 := by rw [Nat.pow_zero,Nat.mul_one]; exact value.toNat_lt
  apply ((readVarint_yields valid (by decide) (by decide) small stream).map UInt32.ofNat).as
  rw [Nat.zero_add,Nat.pow_zero,Nat.mul_one,UInt32.ofNat_toNat]

theorem readUint64_yields {value : UInt64} (valid : b.Valid)
    (stream : b.unread = varintBytes value.toNat ++ rest) : Yields b.readUint64 value b rest := by
  have small : value.toNat*2^0 < 2^64 := by rw [Nat.pow_zero,Nat.mul_one]; exact value.toNat_lt
  apply ((readVarint_yields valid (by decide) (by decide) small stream).map UInt64.ofNat).as
  rw [Nat.zero_add,Nat.pow_zero,Nat.mul_one,UInt64.ofNat_toNat]

theorem readValue_yields (host : Endian) (rest : List UInt8) (valid : b.Valid) (value : Value)
    (stream : b.unread = value.bytes b.endian ++ rest) :
    Yields (b.readValue host value.kind) value b rest := by
  cases value with
  | fint8 v =>
      have read := (read_yields valid (List.cons_ne_nil v.toUInt8 []) stream).map fun bytes : List UInt8 =>
        (bytes.headD 0).toInt8
      exact read.map Value.fint8
  | fuint8 v => exact (readFuint8_yields valid stream).map Value.fuint8
  | fint16 v =>
      have read := (readFixed_yields host valid (by decide) v.toUInt16.toNat_lt stream).map fun n =>
        (UInt16.ofNat n).toInt16
      exact (read.map Value.fint16).as (by rw [UInt16.ofNat_toNat]; rfl)
  | fuint16 v =>
      have read := (readFixed_yields host valid (by decide) v.toNat_lt stream).map UInt16.ofNat
      exact (read.map Value.fuint16).as (by rw [UInt16.ofNat_toNat])
  | fint32 v =>
      have read := (readFixed_yields host valid (by decide) v.toUInt32.toNat_lt stream).map fun n =>
        (UInt32.ofNat n).toInt32
      exact (read.map Value.fint32).as (by rw [UInt32.ofNat_toNat]; rfl)
  | fuint32 v =>
      have read := (readFixed_yields host valid (by decide) v.toNat_lt stream).map UInt32.ofNat
      exact (read.map Value.fuint32).as (by rw [UInt32.ofNat_toNat])
  | fint64 v =>
      have read := (readFixed_yields host valid (by decide) v.toUInt64.toNat_lt stream).map fun n =>
        (UInt64.ofNat n).toInt64
      exact (read.map Value.fint64).as (by rw [UInt64.ofNat_toNat]; rfl)
  | fuint64 v =>
      have read := (readFixed_yields host valid (by decide) v.toNat_lt stream).map UInt64.ofNat
      exact (read.map Value.fuint64).as (by rw [UInt64.ofNat_toNat])
  | int32 v =>
      have read := (readUint32_yields valid stream).map DecodeZigzag32
      exact (read.map Value.int32).as (by rw [DecodeZigzag32_EncodeZigzag32])
  | uint32 v => exact (readUint32_yields valid stream).map Value.uint32
  | int64 v =>
      have read := (readUint64_yields valid stream).map DecodeZigzag64
      exact (read.map Value.int64).as (by rw [DecodeZigzag64_EncodeZigzag64])
  | uint64 v => exact (readUint64_yields valid stream).map Value.uint64
  | float v =>
      have read := (readFixed_yields host valid (by decide) v.toNat_lt stream).map UInt32.ofNat
      exact (read.map Value.float).as (by rw [UInt32.ofNat_toNat])
  | double v =>
      have read := (readFixed_yields host valid (by decide) v.toNat_lt stream).map UInt64.ofNat
      exact (read.map Value.double).as (by rw [UInt64.ofNat_toNat])

end ByteArray

-- One typed value, with the byte order set before it.
structure Entry where
  little : Bool
  value : Value

namespace ByteArray
variable {host : Endian} {b : ByteArray} {rest : List UInt8} {memory : Nat → UInt8}

def writeAll (host : Endian) (memory : Nat → UInt8) : ByteArray → List Entry → Except Fault ByteArray
  | b,[] => .ok b
  | b,entry :: rest => do
    let b ← (b.setIsLittleEndian entry.little).writeValue host memory entry.value
    writeAll host memory b rest

def readAll (host : Endian) : ByteArray → List (Bool × Kind) → Except Fault (List Value × ByteArray)
  | b,[] => .ok ([],b)
  | b,(little,kind) :: rest => do
    let (value,b) ← (b.setIsLittleEndian little).readValue host kind
    let (values,b) ← readAll host b rest
    return (value :: values,b)

def order (little : Bool) : Endian := if little then .little else .big

def stream (entries : List Entry) : List UInt8 := entries.flatMap fun entry => entry.value.bytes (order entry.little)

theorem stream_cons (entry : Entry) (rest : List Entry) :
    stream (entry :: rest) = entry.value.bytes (order entry.little) ++ stream rest := List.flatMap_cons

theorem setIsLittleEndian_valid (valid : b.Valid) (little : Bool) : (b.setIsLittleEndian little).Valid :=
  ⟨valid.positive,valid.uniform,valid.rooted,valid.position,valid.size,valid.capacity,valid.cur⟩

theorem write_appends (memory : Nat → UInt8) (valid : b.Valid) (last : b.position = b.size) (buf : List UInt8) :
    ∃ after, b.write memory buf = .ok after ∧ after.Valid ∧ after.position = after.size ∧
      after.flat.content = b.flat.content ++ buf := by
  obtain ⟨after,done,shape,_,_,flat⟩ := write_spec valid memory buf
  have width := valid.content_length
  have content : after.flat.content = b.flat.content ++ buf := by
    rw [flat]
    simp only [Buffer.perform,overwrite]
    rw [show b.flat.position = b.flat.content.length from last.trans width.symm,List.take_length,
      List.drop_eq_nil_of_le (Nat.le_add_right _ _),List.append_nil]
  refine ⟨after,done,shape,?_,content⟩
  have position : after.flat.position = b.position+buf.length := by rw [flat]; rfl
  rw [←shape.content_length,content,List.length_append,width,←last]
  exact position

theorem writeAll_spec (host : Endian) (memory : Nat → UInt8) (valid : b.Valid) (last : b.position = b.size)
    (entries : List Entry) :
    ∃ after, writeAll host memory b entries = .ok after ∧ after.Valid ∧
      after.flat.content = b.flat.content ++ stream entries := by
  induction entries generalizing b with
  | nil => exact ⟨b,rfl,valid,(List.append_nil _).symm⟩
  | cons entry rest ih =>
      have ready := setIsLittleEndian_valid valid entry.little
      obtain ⟨middle,done,shape,position,content⟩ := write_appends memory ready last
        (entry.value.bytes (order entry.little))
      obtain ⟨after,later,shape',content'⟩ := ih shape position
      have first : (b.setIsLittleEndian entry.little).writeValue host memory entry.value = .ok middle := by
        rw [writeValue_bytes]; exact done
      refine ⟨after,by rw [writeAll,first]; exact later,shape',?_⟩
      rw [content',content,stream_cons,←List.append_assoc]
      rfl

theorem readAll_spec (host : Endian) (valid : b.Valid) (entries : List Entry) (unread : b.unread = stream entries) :
    ∃ after, readAll host b (entries.map fun entry => (entry.little,entry.value.kind)) =
        .ok (entries.map Entry.value,after) ∧
      after.Valid ∧ after.unread = [] ∧ after.size = b.size := by
  induction entries generalizing b with
  | nil => exact ⟨b,rfl,valid,unread,rfl⟩
  | cons entry rest ih =>
      have ready := setIsLittleEndian_valid valid entry.little
      obtain ⟨middle,done,shape,tail,size,_⟩ := readValue_yields host (stream rest) ready entry.value
        (by rw [stream_cons] at unread; exact unread)
      obtain ⟨after,later,shape',tail',size'⟩ := ih shape tail
      refine ⟨after,?_,shape',tail',size'.trans size⟩
      rw [List.map_cons,readAll,done]
      dsimp only [bind,Except.bind]
      rw [later]
      rfl

-- Reading back what was written into an array that is empty, whatever was
-- done to it before.
theorem readAll_writeAll (host : Endian) (base : Nat) (positive : 0 < base) (memory : Nat → UInt8)
    (ops : List ByteOp) (asks : ∀ op ∈ ops, op.Asks)
    (reached : (initial base memory).performs ops = some (b,outcomes)) (empty : b.size = 0)
    (entries : List Entry) :
    ∃ written rewound after, writeAll host memory b entries = .ok written ∧
      written.setPosition 0 = .ok rewound ∧
      readAll host rewound (entries.map fun entry => (entry.little,entry.value.kind)) =
        .ok (entries.map Entry.value,after) ∧
      after.position = written.size ∧ after.size = written.size := by
  obtain ⟨b',outcomes',done,valid,_,_⟩ := performs_spec (initial_valid positive memory) ops asks
  rw [reached] at done
  cases done
  have start : b.position = b.size := by have := valid.position; omega
  obtain ⟨written,wrote,shape,content⟩ := writeAll_spec host memory valid start entries
  have blank : b.flat.content = [] := List.length_eq_zero_iff.mp (valid.content_length.trans empty)
  obtain ⟨rewound,moved,shape',_,_,flat⟩ := setPosition_spec shape 0 (Nat.zero_le _)
  have same : rewound.flat.content = written.flat.content := by rw [flat]; simp [Buffer.perform]
  have position : rewound.flat.position = 0 := by rw [flat]; simp [Buffer.perform]
  have unread : rewound.unread = stream entries := by
    rw [ByteArray.unread,show rewound.position = 0 from position,List.drop_zero,same,content,blank,List.nil_append]
  obtain ⟨after,read,final,none,size⟩ := readAll_spec host shape' entries unread
  have total : after.size = written.size := by
    rw [size,←shape'.content_length,same,shape.content_length]
  refine ⟨written,rewound,after,wrote,moved,read,?_,total⟩
  have ended : after.size-after.position = 0 := by
    rw [←final.content_length,←List.length_drop]
    exact congrArg List.length none
  have bound := final.position
  omega

-- Blocks of three bytes and the least 64-bit integer, which takes ten bytes as
-- a varint, between two words of different order.
theorem readAll_writeAll_three :
    ∃ written rewound after,
      writeAll .little (fun _ => 0) (initial 3 fun _ => 0)
        [⟨false,.fuint32 0x01020304⟩,⟨true,.int64 (-0x8000000000000000)⟩,⟨true,.fint16 (-2)⟩] = .ok written ∧
      written.setPosition 0 = .ok rewound ∧
      readAll .little rewound [(false,.fuint32),(true,.int64),(true,.fint16)] =
        .ok ([.fuint32 0x01020304,.int64 (-0x8000000000000000),.fint16 (-2)],after) ∧
      after.position = written.size ∧ after.size = written.size :=
  readAll_writeAll .little 3 (by decide) (fun _ => 0) [] (by simp) rfl rfl
    [⟨false,.fuint32 0x01020304⟩,⟨true,.int64 (-0x8000000000000000)⟩,⟨true,.fint16 (-2)⟩]

end ByteArray
end Fishjoy
