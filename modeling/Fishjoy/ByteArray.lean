import Fishjoy.Foundation.Blocks

namespace Fishjoy
open Blocks

inductive Endian where
  | little
  | big
  deriving DecidableEq

-- `std::out_of_range`, or the dereference of a null node.
inductive ByteArray.Fault where
  | outOfRange
  | nullNode
  deriving DecidableEq

-- `nodes` is the chain from `m_root`, a node is the bytes of its block, and
-- `cur` is the place of `m_cur` in the chain.
structure ByteArray where
  baseSize : Nat
  position : Nat
  capacity : Nat
  size : Nat
  endian : Endian
  nodes : List (List UInt8)
  cur : Option Nat

namespace ByteArray

-- What `new char[s]` leaves in a block is an input: `memory i` is the byte at
-- offset `i` of the array.
def makeNode (baseSize offset : Nat) (memory : Nat → UInt8) : List UInt8 :=
  (List.range baseSize).map fun i => memory (offset+i)

def initial (baseSize : Nat) (memory : Nat → UInt8) : ByteArray :=
  ⟨baseSize,0,baseSize,0,.big,[makeNode baseSize 0 memory],some 0⟩

def setIsLittleEndian (b : ByteArray) (val : Bool) : ByteArray :=
  {b with endian := if val then .little else .big}

def getReadSize (b : ByteArray) : Nat := b.size-b.position

def getCapacity (b : ByteArray) : Nat := b.capacity-b.position

-- The chain from `m_cur` on, empty when `m_cur` is null, and what stands
-- before it.
def chain (b : ByteArray) : List (List UInt8) := (b.cur.map b.nodes.drop).getD []

def passed (b : ByteArray) : List (List UInt8) := (b.cur.map b.nodes.take).getD b.nodes

-- The node at a place of the chain, null behind its end.
def nodeAt (b : ByteArray) (i : Nat) : Option Nat := if i < b.nodes.length then some i else none

def advance (b : ByteArray) (moved : Nat) : Option Nat := b.cur.bind fun i => b.nodeAt (i+moved)

def addNodes (memory : Nat → UInt8) : Nat → ByteArray → ByteArray
  | 0,b => b
  | count+1,b => addNodes memory count {b with
      nodes := b.nodes ++ [makeNode b.baseSize b.capacity memory]
      capacity := b.capacity+b.baseSize}

def addCapacity (b : ByteArray) (memory : Nat → UInt8) (size : Nat) : ByteArray :=
  if size = 0 then b
  else
    let oldCap := b.getCapacity
    if size ≤ oldCap then b
    else
      let count := (size-oldCap+b.baseSize-1)/b.baseSize
      let grown := addNodes memory count b
      if oldCap = 0 then {grown with cur := grown.nodeAt b.nodes.length} else grown

-- The loop of `write` along the chain from `m_cur`, with the number of times
-- `m_cur` moves on. It is entered and continued only with bytes left.
def writeLoop : List (List UInt8) → Nat → List UInt8 → Except Fault (List (List UInt8) × Nat)
  | [],_,_ => .error .nullNode
  | node :: rest,npos,buf =>
    let ncap := node.length-npos
    if buf.length ≤ ncap then
      .ok (overwrite node npos buf :: rest,if node.length = npos+buf.length then 1 else 0)
    else
      (writeLoop rest 0 (buf.drop ncap)).map fun (rest,moved) =>
        (overwrite node npos (buf.take ncap) :: rest,moved+1)

def write (b : ByteArray) (memory : Nat → UInt8) (buf : List UInt8) : Except Fault ByteArray :=
  if buf = [] then .ok b
  else
    let b := b.addCapacity memory buf.length
    (writeLoop b.chain (b.position % b.baseSize) buf).map fun (chain,moved) => {b with
      nodes := b.passed ++ chain
      cur := b.advance moved
      position := b.position+buf.length
      size := max b.size (b.position+buf.length)}

-- `m_cur->size` is read before the loop, also when no byte is asked for.
def readLoop : List (List UInt8) → Nat → Nat → Except Fault (List UInt8 × Nat)
  | [],_,_ => .error .nullNode
  | node :: rest,npos,size =>
    let ncap := node.length-npos
    if size = 0 then .ok ([],0)
    else if size ≤ ncap then .ok ((node.drop npos).take size,if node.length = npos+size then 1 else 0)
    else (readLoop rest 0 (size-ncap)).map fun (bytes,moved) => ((node.drop npos).take ncap ++ bytes,moved+1)

def read (b : ByteArray) (size : Nat) : Except Fault (List UInt8 × ByteArray) :=
  if b.getReadSize < size then .error .outOfRange
  else (readLoop b.chain (b.position % b.baseSize) size).map fun (bytes,moved) =>
    (bytes,{b with cur := b.advance moved,position := b.position+size})

def seekLoop : List (List UInt8) → Nat → Except Fault Nat
  | [],_ => .error .nullNode
  | node :: rest,v =>
    if node.length < v then (seekLoop rest (v-node.length)).map (·+1)
    else .ok (if v = node.length then 1 else 0)

def setPosition (b : ByteArray) (v : Nat) : Except Fault ByteArray :=
  if b.capacity < v then .error .outOfRange
  else (seekLoop b.nodes v).map fun moved =>
    {b with position := v,size := max b.size v,cur := b.nodeAt moved}

def clear (b : ByteArray) : ByteArray :=
  {b with position := 0,size := 0,capacity := b.baseSize,nodes := b.nodes.take 1,cur := some 0}

structure Valid (b : ByteArray) : Prop where
  positive : 0 < b.baseSize
  uniform : Uniform b.baseSize b.nodes
  rooted : 0 < b.nodes.length
  position : b.position ≤ b.size
  size : b.size ≤ b.capacity
  capacity : b.capacity = b.baseSize*b.nodes.length
  cur : b.cur = if b.position = b.capacity then none else some (b.position/b.baseSize)

variable {b : ByteArray} {base npos : Nat} {nodes : List (List UInt8)} {buf : List UInt8} {memory : Nat → UInt8}

theorem writeLoop_spec (uniform : Uniform base nodes) (inside : npos < base) (left : buf ≠ [])
    (fits : npos+buf.length ≤ base*nodes.length) :
    ∃ after, writeLoop nodes npos buf = .ok (after,(npos+buf.length)/base) ∧ Uniform base after ∧
      after.length = nodes.length ∧ after.flatten = overwrite nodes.flatten npos buf := by
  induction nodes generalizing npos buf with
  | nil =>
      have bytes := List.length_pos_iff.mpr left
      simp only [List.length_nil,Nat.mul_zero] at fits
      omega
  | cons node rest ih =>
      have width : node.length = base := uniform node (.head _)
      have later : Uniform base rest := fun block member => uniform block (.tail _ member)
      unfold writeLoop
      by_cases last : buf.length ≤ node.length-npos
      · rw [if_pos last]
        have within : npos+buf.length ≤ node.length := by omega
        have kept : (overwrite node npos buf).length = base := by
          rw [overwrite_length (by omega),width]; omega
        have moved : (if node.length = npos+buf.length then 1 else 0) = (npos+buf.length)/base := by
          by_cases full : node.length = npos+buf.length
          · rw [if_pos full,←full,width,Nat.div_self (by omega)]
          · rw [if_neg full,Nat.div_eq_of_lt (by omega)]
        refine ⟨overwrite node npos buf :: rest,by rw [moved],?_,rfl,?_⟩
        · intro block member
          rcases List.mem_cons.mp member with rfl | tail
          · exact kept
          · exact later block tail
        · rw [List.flatten_cons,List.flatten_cons,overwrite_front _ within]
      · rw [if_neg last]
        have total : (buf.drop (node.length-npos)).length = buf.length-(node.length-npos) := List.length_drop
        have more : buf.drop (node.length-npos) ≠ [] := by
          intro empty
          rw [empty,List.length_nil] at total
          omega
        have first : (buf.take (node.length-npos)).length = node.length-npos := by
          rw [List.length_take]; omega
        have room : 0+(buf.drop (node.length-npos)).length ≤ base*rest.length := by
          rw [List.length_cons,Nat.mul_succ] at fits
          omega
        obtain ⟨after,done,shape,count,content⟩ := ih later (Nat.zero_lt_of_lt inside) more room
        have kept : (overwrite node npos (buf.take (node.length-npos))).length = base := by
          rw [overwrite_length (by omega),first,width]; omega
        have moved : (0+(buf.drop (node.length-npos)).length)/base+1 = (npos+buf.length)/base := by
          rw [←Nat.add_div_right _ (by omega)]
          congr 1
          omega
        refine ⟨overwrite node npos (buf.take (node.length-npos)) :: after,by rw [done,←moved]; rfl,?_,?_,?_⟩
        · intro block member
          rcases List.mem_cons.mp member with rfl | tail
          · exact kept
          · exact shape block tail
        · rw [List.length_cons,count,List.length_cons]
        · have whole := overwrite_across rest.flatten (buf.drop (node.length-npos))
            (show npos+(buf.take (node.length-npos)).length = node.length by omega)
          rw [List.take_append_drop] at whole
          rw [List.flatten_cons,List.flatten_cons,whole,content]

theorem readLoop_spec (uniform : Uniform base nodes) (inside : npos < base) (asked : 0 < count)
    (fits : npos+count ≤ base*nodes.length) :
    readLoop nodes npos count = .ok ((nodes.flatten.drop npos).take count,(npos+count)/base) := by
  induction nodes generalizing npos count with
  | nil => simp only [List.length_nil,Nat.mul_zero] at fits; omega
  | cons node rest ih =>
      have width : node.length = base := uniform node (.head _)
      have later : Uniform base rest := fun block member => uniform block (.tail _ member)
      unfold readLoop
      rw [if_neg (Nat.ne_of_gt asked),List.flatten_cons,List.drop_append_of_le_length (by omega)]
      have left : (node.drop npos).length = node.length-npos := List.length_drop
      by_cases last : count ≤ node.length-npos
      · have moved : (if node.length = npos+count then 1 else 0) = (npos+count)/base := by
          by_cases full : node.length = npos+count
          · rw [if_pos full,←full,width,Nat.div_self (by omega)]
          · rw [if_neg full,Nat.div_eq_of_lt (by omega)]
        rw [if_pos last,moved,List.take_append_of_le_length (by omega)]
      · have room : 0+(count-(node.length-npos)) ≤ base*rest.length := by
          rw [List.length_cons,Nat.mul_succ] at fits
          omega
        have moved : (0+(count-(node.length-npos)))/base+1 = (npos+count)/base := by
          rw [←Nat.add_div_right _ (by omega)]
          congr 1
          omega
        have split : (node.drop npos ++ rest.flatten).take count =
            (node.drop npos).take (node.length-npos) ++ (rest.flatten.drop 0).take (count-(node.length-npos)) := by
          rw [List.take_append,List.drop_zero,left,
            List.take_of_length_le (show (node.drop npos).length ≤ count by omega),
            List.take_of_length_le (show (node.drop npos).length ≤ node.length-npos by omega)]
        rw [if_neg last,ih later (Nat.zero_lt_of_lt inside) (by omega) room,split,←moved]
        rfl

theorem seekLoop_spec (uniform : Uniform base nodes) (positive : 0 < base) (rooted : 0 < nodes.length)
    (fits : v ≤ base*nodes.length) : seekLoop nodes v = .ok (v/base) := by
  induction nodes generalizing v with
  | nil => cases rooted
  | cons node rest ih =>
      have width : node.length = base := uniform node (.head _)
      have later : Uniform base rest := fun block member => uniform block (.tail _ member)
      unfold seekLoop
      by_cases past : node.length < v
      · rw [List.length_cons,Nat.mul_succ] at fits
        have more : 0 < rest.length := by
          by_contra empty
          rw [Nat.eq_zero_of_not_pos empty] at fits
          omega
        have moved : (v-node.length)/base+1 = v/base := by
          rw [←Nat.add_div_right _ positive]
          congr 1
          omega
        rw [if_pos past,ih later more (by omega),←moved]
        rfl
      · rw [if_neg past]
        by_cases full : v = node.length
        · rw [if_pos full,full,width,Nat.div_self positive]
        · rw [if_neg full,Nat.div_eq_of_lt (by omega)]

end ByteArray
end Fishjoy
