import Fishjoy.ByteArraySegments

namespace Fishjoy
open Blocks Transition

namespace ByteArray

-- The overload with a position, which walks to the node from `m_root` and
-- clamps `len` as the other one does.
def getReadBuffersAt (b : ByteArray) (len position : Nat) : Except Fault (Nat × List Segment) :=
  let len := if b.getReadSize < len then b.getReadSize else len
  if len = 0 then .ok (0,[])
  else
    let npos := position % b.baseSize
    let count := position / b.baseSize
    (buffersLoop count (b.nodes.drop count) npos len).map fun segments => (len,segments)

variable {b : ByteArray} {base npos len position count : Nat} {nodes : List (List UInt8)}

-- Beyond the last node the loop of `read` follows a null pointer.
theorem readLoop_beyond (uniform : Uniform base nodes) (inside : npos < base) (asked : 0 < count)
    (beyond : base*nodes.length < npos+count) : readLoop nodes npos count = .error .nullNode := by
  induction nodes generalizing npos count with
  | nil => rfl
  | cons node rest ih =>
      have width : node.length = base := uniform node (.head _)
      have later : Uniform base rest := fun block member => uniform block (.tail _ member)
      rw [List.length_cons,Nat.mul_succ] at beyond
      have more : ¬count ≤ node.length-npos := by omega
      unfold readLoop
      rw [if_neg (Nat.ne_of_gt asked),if_neg more,
        ih later (Nat.zero_lt_of_lt inside) (by omega) (by omega)]
      rfl

theorem readLoop_null {fault : Fault} (failed : readLoop nodes npos count = .error fault) : fault = .nullNode := by
  induction nodes generalizing npos count with
  | nil => cases failed; rfl
  | cons node rest ih =>
      unfold readLoop at failed
      dsimp only at failed
      by_cases none : count = 0
      · rw [if_pos none] at failed
        cases failed
      · by_cases last : count ≤ node.length-npos
        · rw [if_neg none,if_pos last] at failed
          cases failed
        · rw [if_neg none,if_neg last] at failed
          cases later : readLoop rest 0 (count-(node.length-npos)) with
          | ok result => rw [later] at failed; cases failed
          | error found =>
              rw [later] at failed
              cases failed
              exact ih later

-- The place in the storage where the positional read starts: the offset of
-- the position in the node of `m_cur`.
def readStart (b : ByteArray) (position : Nat) : Nat := b.baseSize*(b.position/b.baseSize)+position % b.baseSize

theorem readStart_same (same : position/b.baseSize = b.position/b.baseSize) : b.readStart position = position := by
  rw [readStart,←same]
  exact Nat.div_add_mod position b.baseSize

theorem readAt_loop (valid : b.Valid) (inside : b.position < b.capacity) (asked : 0 < count) (position : Nat) :
    readLoop b.chain (position % b.baseSize) count =
      if b.readStart position+count ≤ b.capacity then
        .ok ((b.nodes.flatten.drop (b.readStart position)).take count,(position % b.baseSize+count)/b.baseSize)
      else .error .nullNode := by
  obtain ⟨_,place,chain,_⟩ := valid.split inside
  have shape : Uniform b.baseSize b.chain := chain ▸ Uniform.drop_nodes valid _
  have offset := Nat.mod_lt position valid.positive
  have before : b.baseSize*(b.position/b.baseSize) ≤ b.baseSize*b.nodes.length :=
    Nat.mul_le_mul_left _ (Nat.le_of_lt place)
  have room : b.baseSize*b.chain.length = b.capacity-b.baseSize*(b.position/b.baseSize) := by
    rw [chain,List.length_drop,Nat.mul_sub,valid.capacity]
  rw [←valid.capacity] at before
  by_cases fits : b.readStart position+count ≤ b.capacity
  · have bytes : (b.chain.flatten.drop (position % b.baseSize)).take count =
        (b.nodes.flatten.drop (b.readStart position)).take count := by
      rw [chain,valid.uniform.drop,List.drop_drop,readStart]
    rw [if_pos fits,readLoop_spec shape offset asked (by unfold readStart at fits; omega),bytes]
  · rw [if_neg fits]
    exact readLoop_beyond shape offset asked (by unfold readStart at fits; omega)

-- What the read with a position is documented to do.
def Positional (b : ByteArray) (size position : Nat) : Prop :=
  b.readAt size position =
    if b.size < position ∨ b.size-position < size then .error .outOfRange
    else .ok ((b.flat.content.drop position).take size)

-- The bytes asked for are found from the node of `m_cur` on: nothing is asked
-- for, or this is the node of the position, or what stands there is the same.
def Found (b : ByteArray) (size position : Nat) : Prop :=
  size = 0 ∨ position/b.baseSize = b.position/b.baseSize ∨
    (b.readStart position+size ≤ b.capacity ∧
      (b.nodes.flatten.drop (b.readStart position)).take size = (b.flat.content.drop position).take size)

def Located (b : ByteArray) (size position : Nat) : Prop :=
  if b.size < position then 2^64+b.size < position+size
  else b.size-position < size ∨ (b.position ≠ b.capacity ∧ b.Found size position)

theorem readAt_null (valid : b.Valid) (full : b.position = b.capacity) (npos count : Nat) :
    readLoop b.chain npos count = .error .nullNode := by
  rw [chain,valid.cur,if_pos full]
  rfl

theorem content_slice (fits : position+count ≤ b.size) :
    (b.flat.content.drop position).take count = (b.nodes.flatten.drop position).take count := by
  rw [flat,List.drop_take,List.take_take,Nat.min_eq_left (by omega)]

theorem readAt_inside (valid : b.Valid) (inside : position+count ≤ b.size) :
    (readLoop b.chain (position % b.baseSize) count).map Prod.fst =
        .ok ((b.flat.content.drop position).take count) ↔
      b.position ≠ b.capacity ∧ b.Found count position := by
  have order := valid.position
  have fits := valid.size
  by_cases full : b.position = b.capacity
  · rw [readAt_null valid full]
    constructor
    · intro equal
      cases equal
    · intro located
      exact absurd full located.1
  · have here : b.position < b.capacity := by omega
    rcases Nat.eq_zero_or_pos count with rfl | asked
    · obtain ⟨_,place,chain,_⟩ := valid.split here
      rw [chain,List.drop_eq_getElem_cons place,readLoop,if_pos rfl]
      exact ⟨fun _ => ⟨full,.inl rfl⟩,fun _ => by simp [Except.map]⟩
    · rw [readAt_loop valid here asked position]
      constructor
      · intro equal
        refine ⟨full,.inr (.inr ?_)⟩
        split at equal
        · rename_i room
          exact ⟨room,Except.ok.inj equal⟩
        · cases equal
      · rintro ⟨_,none | same | ⟨room,bytes⟩⟩
        · omega
        · rw [readStart_same same,if_pos (by omega),content_slice inside]
          rfl
        · rw [if_pos room]
          exact congrArg Except.ok bytes

theorem readAt_exactly (path : Reached next anyStep Start b) (size position : UInt64) :
    b.Positional size.toNat position.toNat ↔ b.Located size.toNat position.toNat := by
  have valid := reached_valid path
  have small := position.toNat_lt
  unfold Positional Located readAt
  by_cases beyond : b.size < position.toNat
  · rw [if_pos beyond,if_neg (Nat.not_le.mpr beyond),if_pos (Or.inl beyond)]
    constructor
    · intro thrown
      by_contra enough
      rw [if_neg (by omega)] at thrown
      cases loop : readLoop b.chain (position.toNat % b.baseSize) size.toNat with
      | ok result => rw [loop] at thrown; cases thrown
      | error fault =>
          rw [loop,readLoop_null loop] at thrown
          cases thrown
    · intro wraps
      exact if_pos (by omega)
  · rw [if_neg beyond,if_pos (Nat.le_of_not_lt beyond)]
    dsimp only
    by_cases short : b.size-position.toNat < size.toNat
    · rw [if_pos short,if_pos (.inr short)]
      exact ⟨fun _ => .inl short,fun _ => rfl⟩
    · rw [if_neg short,if_neg (by rintro (one | two) <;> contradiction),
        readAt_inside valid (by omega)]
      exact ⟨.inr,fun either => either.resolve_left short⟩

theorem readAt_exactly_block : twoBlocks.Positional (2 : UInt64).toNat (0 : UInt64).toNat ↔
    twoBlocks.Located (2 : UInt64).toNat (0 : UInt64).toNat :=
  readAt_exactly twoBlocks_reached 2 0

-- The cursor is in the first block and the byte asked for in the second.
theorem readAt_other_block : ¬∀ (b : ByteArray) (size position : UInt64), Reached next anyStep Start b →
    b.Positional size.toNat position.toNat := by
  intro positional
  have read : twoBlocks.readAt 1 3 = .ok [4] := positional twoBlocks 1 3 twoBlocks_reached
  have found : twoBlocks.readAt 1 3 = .ok [2] := by rfl
  rw [found] at read
  cases read

-- What the segments from a position are for.
structure Exposed (b : ByteArray) (position : Nat) (segments : List Segment) : Prop where
  bytes : gather b.nodes segments = (b.flat.content.drop position).take (total segments)
  inside : ∀ s ∈ segments, s.block < b.nodes.length ∧ s.offset+s.length ≤ b.baseSize
  content : ∀ s ∈ segments, b.baseSize*s.block+s.offset+s.length ≤ b.size

def Viewing (b : ByteArray) (len position : Nat) : Prop :=
  ∃ segments, b.getReadBuffersAt len position = .ok (min len (b.size-position),segments) ∧
    total segments = min len (b.size-position) ∧ b.Exposed position segments

theorem getReadBuffersAt_spec (valid : b.Valid) (len position : Nat) (fits : position+min len b.getReadSize ≤ b.size) :
    ∃ segments, b.getReadBuffersAt len position = .ok (min len b.getReadSize,segments) ∧
      total segments = min len b.getReadSize ∧ b.Exposed position segments := by
  have bound := valid.size
  unfold getReadBuffersAt
  rw [clamp_min]
  generalize min len b.getReadSize = count at fits
  by_cases none : count = 0
  · rw [none]
    exact ⟨[],rfl,rfl,⟨rfl,nofun,nofun⟩⟩
  · obtain ⟨segments,done,sum,within,order⟩ := place_spec valid (Nat.pos_of_ne_zero none)
      (show position+count ≤ b.capacity by omega)
    refine ⟨segments,by simp only [if_neg none,done,Except.map],sum,?_,within,?_⟩
    · rw [gather_spec valid.uniform within order,sum,content_slice fits]
    · intro s member
      have reach := (order.between s member).2
      omega

theorem getReadBuffersAt_exactly (path : Reached next anyStep Start b) (len position : Nat)
    (inside : position ≤ b.size) :
    b.Viewing len position ↔ position = b.position ∨ len ≤ min (b.size-b.position) (b.size-position) := by
  have valid := reached_valid path
  have order := valid.position
  have left : b.getReadSize = b.size-b.position := rfl
  constructor
  · rintro ⟨segments,done,_⟩
    have count : min len b.getReadSize = min len (b.size-position) := by
      unfold getReadBuffersAt at done
      rw [clamp_min] at done
      by_cases none : min len b.getReadSize = 0
      · simp only [if_pos none] at done
        have zero : 0 = min len (b.size-position) := congrArg Prod.fst (Except.ok.inj done)
        exact none.trans zero
      · simp only [if_neg none] at done
        obtain ⟨_,_,same⟩ := map_ok done
        exact congrArg Prod.fst same
    omega
  · intro condition
    have count : min len b.getReadSize = min len (b.size-position) := by omega
    have found := getReadBuffersAt_spec valid len position (by omega)
    rw [count] at found
    exact found

theorem getReadBuffersAt_exactly_cursor : twoBlocks.Viewing 9 1 ↔
    1 = twoBlocks.position ∨ 9 ≤ min (twoBlocks.size-twoBlocks.position) (twoBlocks.size-1) :=
  getReadBuffersAt_exactly twoBlocks_reached 9 1 (by decide)

-- Three bytes behind the cursor are asked for at the last one.
theorem getReadBuffersAt_beyond : ¬∀ (b : ByteArray) (len position : Nat), Reached next anyStep Start b →
    position ≤ b.size → b.Viewing len position := by
  intro viewing
  obtain ⟨segments,done,_⟩ := viewing twoBlocks 3 3 twoBlocks_reached (by decide)
  have walked : twoBlocks.getReadBuffersAt 3 3 = .error .nullNode := by rfl
  rw [walked] at done
  cases done

end ByteArray
end Fishjoy
