import Fishjoy.ByteArrayStringF16
import Fishjoy.Foundation.Groups

namespace Fishjoy
open Blocks Transition

-- `std::length_error` comes from the string that a length is given to.
inductive Thrown where
  | outOfRange
  | lengthError
  | nullNode
  deriving DecidableEq

def ByteArray.Fault.thrown : ByteArray.Fault → Thrown
  | .outOfRange => .outOfRange
  | .nullNode => .nullNode

inductive TypedRead where
  | value (kind : Kind)
  | stringF16
  | string (kind : StringKind)
  deriving DecidableEq

-- The typed reads with the state that a throw leaves behind. A primitive read
-- tests the size before it changes anything.
abbrev Reading := EStateM Thrown ByteArray

namespace Reading
variable (host : Endian)

def read (size : Nat) : Reading (List UInt8) := fun b =>
  match b.read size with
  | .ok (bytes,after) => .ok bytes after
  | .error fault => .error fault.thrown b

def readFixed (count : Nat) : Reading Nat := do
  let bytes ← read count
  let v := ofLayout host bytes
  return if (← get).endian = host then v else byteswap count v

def readFuint8 : Reading UInt8 := do
  let bytes ← read 1
  return bytes.headD 0

def readFint8 : Reading Int8 := do
  let bytes ← read 1
  return (bytes.headD 0).toInt8

def readFuint16 : Reading UInt16 := do return UInt16.ofNat (← readFixed host 2)

def readFint16 : Reading Int16 := do return (UInt16.ofNat (← readFixed host 2)).toInt16

def readFuint32 : Reading UInt32 := do return UInt32.ofNat (← readFixed host 4)

def readFint32 : Reading Int32 := do return (UInt32.ofNat (← readFixed host 4)).toInt32

def readFuint64 : Reading UInt64 := do return UInt64.ofNat (← readFixed host 8)

def readFint64 : Reading Int64 := do return (UInt64.ofNat (← readFixed host 8)).toInt64

def readVarint (width i result : Nat) : Reading Nat :=
  if i < width then do
    let byte ← readFuint8
    if byte < 0x80 then return result ||| byte.toNat <<< i % 2^width
    else readVarint width (i+7) (result ||| (byte &&& 0x7F).toNat <<< i % 2^width)
  else return result
termination_by width-i

def readUint32 : Reading UInt32 := do return UInt32.ofNat (← readVarint 32 0 0)

def readInt32 : Reading Int32 := do return DecodeZigzag32 (← readUint32)

def readUint64 : Reading UInt64 := do return UInt64.ofNat (← readVarint 64 0 0)

def readInt64 : Reading Int64 := do return DecodeZigzag64 (← readUint64)

def readFloat : Reading UInt32 := readFuint32 host

def readDouble : Reading UInt64 := readFuint64 host

def readValue : Kind → Reading Value
  | .fint8 => do return .fint8 (← readFint8)
  | .fuint8 => do return .fuint8 (← readFuint8)
  | .fint16 => do return .fint16 (← readFint16 host)
  | .fuint16 => do return .fuint16 (← readFuint16 host)
  | .fint32 => do return .fint32 (← readFint32 host)
  | .fuint32 => do return .fuint32 (← readFuint32 host)
  | .fint64 => do return .fint64 (← readFint64 host)
  | .fuint64 => do return .fuint64 (← readFuint64 host)
  | .int32 => do return .int32 (← readInt32)
  | .uint32 => do return .uint32 (← readUint32)
  | .int64 => do return .int64 (← readInt64)
  | .uint64 => do return .uint64 (← readUint64)
  | .float => do return .float (← readFloat host)
  | .double => do return .double (← readDouble host)

section strings
-- `std::string::max_size()`.
variable (maxSize : Nat)

-- `buff.resize(len)`.
def resize (len : Nat) : Reading Unit := if maxSize < len then throw .lengthError else return ()

def readText (len : Nat) : Reading (List UInt8) := do
  resize maxSize len
  read len

def readStringF16 : Reading (List UInt8) := do readText maxSize (← readFuint16 host).toNat

def readStringF32 : Reading (List UInt8) := do readText maxSize (← readFuint32 host).toNat

def readStringF64 : Reading (List UInt8) := do readText maxSize (← readFuint64 host).toNat

def readStringVint : Reading (List UInt8) := do readText maxSize (← readUint64).toNat

end strings

-- A read without its result.
def readTyped (maxSize : Nat) : TypedRead → Reading Unit
  | .value kind => do let _ ← readValue host kind
  | .stringF16 => do let _ ← readStringF16 host maxSize
  | .string .f32 => do let _ ← readStringF32 host maxSize
  | .string .f64 => do let _ ← readStringF64 host maxSize
  | .string .vint => do let _ ← readStringVint maxSize

variable {host : Endian} {b middle after : ByteArray} {header rest bytes : List UInt8}

theorem bind_ok {x : Reading α} {f : α → Reading β} (done : x b = .ok value middle) : (x >>= f) b = f value middle := by
  change EStateM.bind x f b = _
  rw [EStateM.bind,done]

theorem bind_error {x : Reading α} {f : α → Reading β} (failed : x b = .error thrown middle) :
    (x >>= f) b = .error thrown middle := by
  change EStateM.bind x f b = _
  rw [EStateM.bind,failed]

-- What a reader returns and where a throw loses the state: the readers that
-- keep it do the same.
def Agrees (x : Reading α) (y : ByteArray → Except ByteArray.Fault (α × ByteArray)) : Prop :=
  ∀ b, (∀ value after, y b = .ok (value,after) → x b = .ok value after) ∧
    ∀ fault, y b = .error fault → ∃ left, x b = .error fault.thrown left

theorem read_agrees (size : Nat) : Agrees (read size) (·.read size) := by
  intro b
  refine ⟨?_,?_⟩
  · intro value after done
    rw [read,show b.read size = .ok (value,after) from done]
  · intro fault failed
    exact ⟨b,by rw [read,show b.read size = .error fault from failed]⟩

theorem Agrees.ok {x : Reading α} {y : ByteArray → Except ByteArray.Fault (α × ByteArray)} (agrees : Agrees x y)
    (done : x b = .ok value after) : y b = .ok (value,after) := by
  cases found : y b with
  | error fault =>
      obtain ⟨left,thrown⟩ := (agrees b).2 fault found
      rw [done] at thrown
      cases thrown
  | ok pair =>
      have same := (agrees b).1 pair.1 pair.2 found
      rw [done] at same
      cases same
      rfl

theorem Agrees.outOfRange {x : Reading α} {y : ByteArray → Except ByteArray.Fault (α × ByteArray)}
    (agrees : Agrees x y) (failed : x b = .error .outOfRange middle) : y b = .error .outOfRange := by
  cases found : y b with
  | ok pair =>
      have same := (agrees b).1 pair.1 pair.2 found
      rw [failed] at same
      cases same
  | error fault =>
      obtain ⟨left,thrown⟩ := (agrees b).2 fault found
      rw [failed] at thrown
      cases fault with
      | outOfRange => rfl
      | nullNode => cases thrown

theorem Agrees.map {x : Reading α} {y : ByteArray → Except ByteArray.Fault (α × ByteArray)} (agrees : Agrees x y)
    (f : α → β) : Agrees (do return f (← x)) fun b => (y b).map fun (v,after) => (f v,after) := by
  intro b
  obtain ⟨returns,throws⟩ := agrees b
  refine ⟨?_,?_⟩
  · intro value after done
    dsimp only at done
    cases found : y b with
    | error fault => rw [found] at done; cases done
    | ok pair =>
        obtain ⟨v,last⟩ := pair
        rw [found] at done
        cases done
        exact bind_ok (returns v _ found)
  · intro fault failed
    dsimp only at failed
    cases found : y b with
    | error other =>
        rw [found] at failed
        cases failed
        obtain ⟨left,thrown⟩ := throws fault found
        exact ⟨left,bind_error thrown⟩
    | ok pair => rw [found] at failed; cases failed

theorem readFixed_agrees (host : Endian) (count : Nat) : Agrees (readFixed host count) (·.readFixed host count) := by
  intro b
  obtain ⟨returns,throws⟩ := read_agrees count b
  refine ⟨?_,?_⟩
  · intro value after done
    obtain ⟨⟨bytes,last⟩,found,same⟩ := ByteArray.map_ok done
    cases same
    obtain ⟨cur,rfl⟩ := ByteArray.read_frame found
    rw [readFixed,bind_ok (returns bytes _ found)]
    rfl
  · intro fault failed
    dsimp only at failed
    cases found : b.read count with
    | ok pair => rw [ByteArray.readFixed,found] at failed; cases failed
    | error other =>
        rw [ByteArray.readFixed,found] at failed
        cases failed
        obtain ⟨left,thrown⟩ := throws fault found
        exact ⟨left,by rw [readFixed,bind_error thrown]⟩

theorem readFuint8_agrees : Agrees readFuint8 (·.readFuint8) := (read_agrees 1).map fun bytes => bytes.headD 0

theorem returns_only (value : α) (b : ByteArray) :
    (∀ found after, (.ok (value,b) : Except ByteArray.Fault (α × ByteArray)) = .ok (found,after) →
      (return value : Reading α) b = .ok found after) ∧
    ∀ fault, (.ok (value,b) : Except ByteArray.Fault (α × ByteArray)) = .error fault →
      ∃ left, (return value : Reading α) b = .error fault.thrown left := by
  refine ⟨?_,?_⟩
  · intro found after same
    cases same
    rfl
  · intro fault same
    cases same

theorem readVarint_agrees (width i result : Nat) :
    Agrees (readVarint width i result) (ByteArray.readVarint width i result) := by
  intro b
  induction left : width-i using Nat.strongRecOn generalizing i result b with
  | ind count ih =>
      subst left
      obtain ⟨returns,throws⟩ := readFuint8_agrees b
      rw [readVarint,ByteArray.readVarint]
      by_cases index : i < width
      · rw [if_pos index,if_pos index]
        cases found : b.readFuint8 with
        | error fault =>
            obtain ⟨last,thrown⟩ := throws fault found
            rw [bind_error thrown]
            refine ⟨?_,?_⟩
            · intro value after same
              cases same
            · intro other same
              cases same
              exact ⟨last,rfl⟩
        | ok pair =>
            obtain ⟨byte,middle⟩ := pair
            rw [bind_ok (returns byte middle found)]
            dsimp only [bind,Except.bind]
            by_cases low : byte < 0x80
            · rw [if_pos low,if_pos low]
              exact returns_only _ _
            · rw [if_neg low,if_neg low]
              exact ih (width-(i+7)) (by omega) (i+7) _ middle rfl
      · rw [if_neg index,if_neg index]
        exact returns_only _ _

theorem readUint32_agrees : Agrees readUint32 (·.readUint32) := (readVarint_agrees 32 0 0).map UInt32.ofNat

theorem readUint64_agrees : Agrees readUint64 (·.readUint64) := (readVarint_agrees 64 0 0).map UInt64.ofNat

theorem readValue_agrees (host : Endian) (kind : Kind) : Agrees (readValue host kind) (·.readValue host kind) := by
  have fixed := readFixed_agrees host
  cases kind with
  | fint8 => exact ((read_agrees 1).map fun bytes : List UInt8 => (bytes.headD 0).toInt8).map Value.fint8
  | fuint8 => exact readFuint8_agrees.map Value.fuint8
  | fint16 => exact ((fixed 2).map fun v => (UInt16.ofNat v).toInt16).map Value.fint16
  | fuint16 => exact ((fixed 2).map UInt16.ofNat).map Value.fuint16
  | fint32 => exact ((fixed 4).map fun v => (UInt32.ofNat v).toInt32).map Value.fint32
  | fuint32 => exact ((fixed 4).map UInt32.ofNat).map Value.fuint32
  | fint64 => exact ((fixed 8).map fun v => (UInt64.ofNat v).toInt64).map Value.fint64
  | fuint64 => exact ((fixed 8).map UInt64.ofNat).map Value.fuint64
  | int32 => exact (readUint32_agrees.map DecodeZigzag32).map Value.int32
  | uint32 => exact readUint32_agrees.map Value.uint32
  | int64 => exact (readUint64_agrees.map DecodeZigzag64).map Value.int64
  | uint64 => exact readUint64_agrees.map Value.uint64
  | float => exact ((fixed 4).map UInt32.ofNat).map Value.float
  | double => exact ((fixed 8).map UInt64.ofNat).map Value.double

end Reading
end Fishjoy
