import Fishjoy.ByteArrayFlat
import Fishjoy.Foundation.Segments
import Fishjoy.Foundation.Transition

namespace Fishjoy
open Blocks Transition

namespace ByteArray

-- An `iovec` points into a node: `block` is the place of the node in the chain.
def buffersLoop (block : Nat) : List (List UInt8) → Nat → Nat → Except Fault (List Segment)
  | [],_,_ => .error .nullNode
  | node :: rest,npos,len =>
    let ncap := node.length-npos
    if len ≤ ncap then .ok [⟨block,npos,len⟩]
    else (buffersLoop (block+1) rest 0 (len-ncap)).map (⟨block,npos,ncap⟩ :: ·)

def buffers (b : ByteArray) (len : Nat) : Except Fault (List Segment) :=
  buffersLoop (b.cur.getD b.nodes.length) b.chain (b.position % b.baseSize) len

def getReadBuffers (b : ByteArray) (len : Nat) : Except Fault (Nat × List Segment) :=
  let len := if b.getReadSize < len then b.getReadSize else len
  if len = 0 then .ok (0,[])
  else (b.buffers len).map fun segments => (len,segments)

def getWriteBuffers (b : ByteArray) (memory : Nat → UInt8) (len : Nat) :
    Except Fault (Nat × List Segment × ByteArray) :=
  if len = 0 then .ok (0,[],b)
  else
    let b := b.addCapacity memory len
    (b.buffers len).map fun segments => (len,segments,b)

-- `read` with a position, which starts at `m_cur` all the same. The difference
-- is one of `size_t`.
def readAt (b : ByteArray) (size position : Nat) : Except Fault (List UInt8) :=
  let left := if position ≤ b.size then b.size-position else 2^64+b.size-position
  if left < size then .error .outOfRange
  else (readLoop b.chain (position % b.baseSize) size).map Prod.fst

def toString (b : ByteArray) : Except Fault (List UInt8) :=
  if b.getReadSize = 0 then .ok [] else b.readAt b.getReadSize b.position

-- What a caller stores through segments it was handed.
def fill (b : ByteArray) (segments : List Segment) (bytes : List UInt8) : ByteArray :=
  {b with nodes := scatter b.nodes segments bytes}

inductive Call where
  | op (op : ByteOp)
  | setIsLittleEndian (val : Bool)
  | getWriteBuffers (memory : Nat → UInt8) (len : Nat)
  | fill (segments : List Segment) (bytes : List UInt8)

-- Segments that were handed out stay inside the nodes until `clear`.
def next (b : ByteArray) : Call → Option ByteArray
  | .op op => (b.perform op).map Prod.fst
  | .setIsLittleEndian val => some (b.setIsLittleEndian val)
  | .getWriteBuffers memory len => (b.getWriteBuffers memory len).toOption.map fun (_,_,b) => b
  | .fill segments bytes =>
    if Within b.baseSize b.nodes.length segments then some (b.fill segments bytes) else none

def Start (b : ByteArray) : Prop := ∃ base memory, 0 < base ∧ b = initial base memory

variable {b : ByteArray} {base npos len : Nat} {nodes : List (List UInt8)} {segments : List Segment} {bytes : List UInt8}

theorem buffersLoop_spec (block : Nat) (uniform : Uniform base nodes) (inside : npos < base) (left : 0 < len)
    (fits : npos+len ≤ base*nodes.length) :
    ∃ segments, buffersLoop block nodes npos len = .ok segments ∧ total segments = len ∧
      Within base (block+nodes.length) segments ∧ Contiguous base (base*block+npos) segments := by
  induction nodes generalizing npos len block with
  | nil =>
      rw [List.length_nil,Nat.mul_zero] at fits
      omega
  | cons node rest ih =>
      have width : node.length = base := uniform node (.head _)
      have later : Uniform base rest := fun block member => uniform block (.tail _ member)
      unfold buffersLoop
      by_cases last : len ≤ node.length-npos
      · rw [if_pos last]
        refine ⟨_,rfl,by simp [total],?_,rfl,trivial⟩
        intro s member
        rw [List.mem_singleton.mp member,List.length_cons]
        exact ⟨by dsimp only; omega,by dsimp only; omega⟩
      · have room : 0+(len-(node.length-npos)) ≤ base*rest.length := by
          rw [List.length_cons,Nat.mul_succ] at fits
          omega
        obtain ⟨segments,done,sum,within,order⟩ :=
          ih (block+1) later (Nat.zero_lt_of_lt inside) (by omega) room
        rw [if_neg last,done]
        refine ⟨_,rfl,?_,?_,rfl,?_⟩
        · have parts : total (⟨block,npos,node.length-npos⟩ :: segments) = node.length-npos+total segments := by
            simp [total]
          rw [parts,sum]
          omega
        · intro s member
          rcases List.mem_cons.mp member with rfl | tail
          · rw [List.length_cons]
            exact ⟨by dsimp only; omega,by dsimp only; omega⟩
          · rw [List.length_cons,Nat.add_comm rest.length,←Nat.add_assoc]
            exact within s tail
        · have next : base*block+npos+(node.length-npos) = base*(block+1)+0 := by
            rw [Nat.mul_succ]; omega
          rw [next]
          exact order

theorem map_ok {f : α → β} {x : Except Fault α} (done : x.map f = .ok value) : ∃ found, x = .ok found ∧ f found = value := by
  cases x with
  | error fault => cases done
  | ok found => exact ⟨found,rfl,Except.ok.inj done⟩

-- The nodes from the one of a position on hold the bytes from there.
theorem place_spec (valid : b.Valid) (left : 0 < len) (fits : place+len ≤ b.capacity) :
    ∃ segments, buffersLoop (place/b.baseSize) (b.nodes.drop (place/b.baseSize)) (place % b.baseSize) len =
        .ok segments ∧ total segments = len ∧ Within b.baseSize b.nodes.length segments ∧
      Contiguous b.baseSize place segments := by
  have parts := Nat.div_add_mod place b.baseSize
  rw [valid.capacity] at fits
  have inside : place/b.baseSize < b.nodes.length :=
    (Nat.div_lt_iff_lt_mul valid.positive).mpr (by rw [Nat.mul_comm]; omega)
  have count : place/b.baseSize+(b.nodes.drop (place/b.baseSize)).length = b.nodes.length := by
    rw [List.length_drop]; omega
  have room : place % b.baseSize+len ≤ b.baseSize*(b.nodes.drop (place/b.baseSize)).length := by
    rw [List.length_drop,Nat.mul_sub]; omega
  obtain ⟨segments,done,sum,within,order⟩ := buffersLoop_spec (place/b.baseSize)
    (Uniform.drop_nodes valid _) (Nat.mod_lt place valid.positive) left room
  rw [count] at within
  rw [parts] at order
  exact ⟨segments,done,sum,within,order⟩

theorem buffers_spec (valid : b.Valid) (left : 0 < len) (fits : b.position+len ≤ b.capacity) :
    ∃ segments, b.buffers len = .ok segments ∧ total segments = len ∧
      Within b.baseSize b.nodes.length segments ∧ Contiguous b.baseSize b.position segments := by
  obtain ⟨here,_,chain,_⟩ := valid.split (show b.position < b.capacity by omega)
  rw [buffers,here,chain]
  exact place_spec valid left fits

theorem clamp_min (limit len : Nat) : (if limit < len then limit else len) = min len limit := by
  by_cases more : limit < len
  · rw [if_pos more,Nat.min_eq_right (Nat.le_of_lt more)]
  · rw [if_neg more,Nat.min_eq_left (Nat.le_of_not_lt more)]

theorem fill_valid (valid : b.Valid) (within : Within b.baseSize b.nodes.length segments) (bytes : List UInt8) :
    (b.fill segments bytes).Valid := by
  obtain ⟨uniform,count⟩ := scatter_uniform valid.uniform within bytes
  have same : (b.fill segments bytes).nodes.length = b.nodes.length := count
  exact ⟨valid.positive,uniform,by rw [same]; exact valid.rooted,valid.position,valid.size,
    by rw [same]; exact valid.capacity,valid.cur⟩

theorem getReadBuffers_spec (valid : b.Valid) (len : Nat) :
    ∃ segments, b.getReadBuffers len = .ok (min len b.getReadSize,segments) ∧
      total segments = min len b.getReadSize ∧
      gather b.nodes segments = (b.flat.content.drop b.position).take (min len b.getReadSize) := by
  have order := valid.position
  have fits := valid.size
  unfold getReadBuffers
  rw [clamp_min]
  generalize found : min len b.getReadSize = count
  have bound : count ≤ b.size-b.position := by
    have small := Nat.min_le_right len b.getReadSize
    rw [found] at small
    exact small
  by_cases none : count = 0
  · rw [none]
    exact ⟨[],rfl,rfl,rfl⟩
  · obtain ⟨segments,done,sum,within,place⟩ := buffers_spec valid (Nat.pos_of_ne_zero none) (by omega)
    refine ⟨segments,by simp only [if_neg none,done,Except.map],sum,?_⟩
    rw [gather_spec valid.uniform within place,sum,flat,List.drop_take,List.take_take,Nat.min_eq_left bound]

theorem toString_spec (valid : b.Valid) : b.toString = .ok (b.flat.content.drop b.position) := by
  have order := valid.position
  have width := valid.content_length
  unfold toString
  by_cases empty : b.getReadSize = 0
  · rw [if_pos empty,List.drop_eq_nil_of_le (by rw [width]; exact Nat.le_of_sub_eq_zero empty)]
  · have bytes := fetch_spec valid (Nat.pos_of_ne_zero empty) (Nat.le_refl _)
    have all : (b.flat.content.drop b.position).take b.getReadSize = b.flat.content.drop b.position := by
      apply List.take_of_length_le
      rw [List.length_drop,width]
      exact Nat.le_refl _
    have enough : ¬b.size-b.position < b.getReadSize := Nat.lt_irrefl _
    rw [if_neg empty,readAt,if_pos order,if_neg enough,bytes,Except.map,all]

theorem perform_valid (valid : b.Valid) (op : ByteOp) (ran : b.perform op = some (after,outcome)) : after.Valid := by
  by_cases asks : op.Asks
  · obtain ⟨_,_,done,shape,_⟩ := perform_spec valid op asks
    rw [ran] at done
    cases done
    exact shape
  · cases op with
    | read size =>
        rw [show size = 0 from Nat.eq_zero_of_not_pos asks,perform,read_none valid] at ran
        split at ran
        · cases ran
        · cases ran
          exact valid
    | write _ _ => exact absurd trivial asks
    | setPosition _ => exact absurd trivial asks
    | clear => exact absurd trivial asks

theorem getWriteBuffers_spec (valid : b.Valid) (memory : Nat → UInt8) (len : Nat) (left : 0 < len) :
    ∃ segments grown, b.getWriteBuffers memory len = .ok (len,segments,grown) ∧ grown.Valid ∧
      total segments = len ∧ Within grown.baseSize grown.nodes.length segments ∧
      Contiguous grown.baseSize grown.position segments ∧ grown.position+len ≤ grown.capacity ∧
      grown.baseSize = b.baseSize ∧ grown.position = b.position ∧ grown.size = b.size ∧
      grown.flat.content = b.flat.content := by
  obtain ⟨added,_,nodes,position,size,base,_,room,shape⟩ := addCapacity_spec valid memory left
  rw [←position] at room
  obtain ⟨segments,done,sum,within,order⟩ := buffers_spec shape left room
  have same : (b.addCapacity memory len).flat.content = b.flat.content := by
    have fits := valid.size
    rw [flat,nodes,size,List.flatten_append,List.take_append_of_le_length (by rw [valid.storage]; exact fits)]
    rfl
  refine ⟨segments,b.addCapacity memory len,?_,shape,sum,within,order,room,base,position,size,same⟩
  rw [getWriteBuffers,if_neg (Nat.ne_of_gt left)]
  dsimp only
  rw [done]
  rfl

theorem next_valid (valid : b.Valid) (call : Call) (moved : b.next call = some after) : after.Valid := by
  cases call with
  | op op =>
      obtain ⟨⟨_,outcome⟩,ran,rfl⟩ := Option.map_eq_some_iff.mp moved
      exact perform_valid valid op ran
  | setIsLittleEndian val =>
      cases moved
      exact ⟨valid.positive,valid.uniform,valid.rooted,valid.position,valid.size,valid.capacity,valid.cur⟩
  | getWriteBuffers memory len =>
      rcases Nat.eq_zero_or_pos len with rfl | left
      · cases moved
        exact valid
      · obtain ⟨segments,grown,done,shape,_⟩ := getWriteBuffers_spec valid memory len left
        rw [next,done] at moved
        cases moved
        exact shape
  | fill segments bytes =>
      obtain ⟨within,same⟩ := Option.ite_none_right_eq_some.mp moved
      cases same
      exact fill_valid valid within bytes

theorem reached_valid (path : Reached next anyStep Start b) : b.Valid := by
  apply path.invariant
  · rintro _ ⟨base,memory,positive,rfl⟩
    exact initial_valid positive memory
  · intro b call after valid _ moved
    exact next_valid valid call moved

-- Bytes that are stored through the first segments and then passed by the
-- cursor stand where `write` would have put them.
theorem fill_spec (valid : b.Valid) (within : Within b.baseSize b.nodes.length segments)
    (order : Contiguous b.baseSize b.position segments) (room : bytes.length ≤ total segments)
    (fits : b.position+total segments ≤ b.capacity) :
    ∃ after, (b.fill segments bytes).setPosition (b.position+bytes.length) = .ok after ∧ after.Valid ∧
      after.baseSize = b.baseSize ∧ after.position = b.position+bytes.length ∧
      after.size = max b.size (b.position+bytes.length) ∧
      after.flat.content = overwrite b.flat.content b.position bytes := by
  have shape := fill_valid valid within bytes
  have start := valid.position
  have bound := valid.size
  have stored := valid.storage
  have reach : b.position+bytes.length ≤ b.capacity := by omega
  have done := seekLoop_spec shape.uniform shape.positive shape.rooted (shape.capacity ▸ reach)
  obtain ⟨after,ran,sound,base,_,_⟩ := setPosition_spec shape (b.position+bytes.length) reach
  have result := ran
  have inside : ¬(b.fill segments bytes).capacity < b.position+bytes.length := Nat.not_lt.mpr reach
  rw [setPosition,if_neg inside,done] at result
  cases result
  refine ⟨_,ran,sound,base,rfl,rfl,?_⟩
  have content := overwrite_content start (show b.size ≤ b.nodes.flatten.length by omega)
    (show b.position+bytes.length ≤ b.nodes.flatten.length by omega)
  have written : (b.fill segments bytes).nodes.flatten = overwrite b.nodes.flatten b.position bytes :=
    scatter_spec valid.uniform within order room
  rw [flat,written]
  exact content

theorem fill_nothing (valid : b.Valid) (within : Within b.baseSize b.nodes.length segments)
    (order : Contiguous b.baseSize b.position segments) : (b.fill segments []).flat = b.flat := by
  have same := scatter_spec valid.uniform within order (show ([] : List UInt8).length ≤ _ from Nat.zero_le _)
  rw [overwrite_nothing] at same
  rw [flat,fill,same]
  rfl

-- Moving the cursor inside the content leaves the content.
theorem setPosition_inside (valid : b.Valid) (inside : v ≤ b.size) :
    ∃ after, b.setPosition v = .ok after ∧ after.Valid ∧ after.position = v ∧ after.size = b.size ∧
      after.flat.content = b.flat.content := by
  have fits := valid.size
  have done := seekLoop_spec valid.uniform valid.positive valid.rooted
    (valid.capacity ▸ Nat.le_trans inside fits)
  obtain ⟨after,ran,shape,_⟩ := setPosition_spec valid v (Nat.le_trans inside fits)
  have result := ran
  rw [setPosition,if_neg (by omega),done] at result
  cases result
  refine ⟨_,ran,shape,rfl,Nat.max_eq_left inside,?_⟩
  rw [flat,Nat.max_eq_left inside]
  rfl

theorem write_content (valid : b.Valid) (memory : Nat → UInt8) (bytes : List UInt8) :
    ∃ written, b.write memory bytes = .ok written ∧ written.Valid ∧ written.position = b.position+bytes.length ∧
      written.size = max b.size (b.position+bytes.length) ∧
      written.flat.content = overwrite b.flat.content b.position bytes := by
  obtain ⟨written,done,shape,_,_,content⟩ := write_spec valid memory bytes
  have same : written.flat.content = overwrite b.flat.content b.position bytes := by rw [content]; rfl
  have moved : written.flat.position = b.position+bytes.length := by rw [content]; rfl
  refine ⟨written,done,shape,moved,?_,same⟩
  have order := valid.position
  rw [←shape.content_length,same,overwrite_length (by rw [valid.content_length]; exact order),valid.content_length]

-- The two views of an array without a copy, against `read` and `write`.
structure Viewed (b : ByteArray) : Prop where
  reading : ∀ len, ∃ segments, b.getReadBuffers len = .ok (min len b.getReadSize,segments) ∧
    gather b.nodes segments = (b.flat.content.drop b.position).take (min len b.getReadSize)
  text : b.toString = .ok (b.flat.content.drop b.position)
  writing : ∀ (len : Nat) (bytes : List UInt8) (fresh memory : Nat → UInt8), 1 ≤ len → bytes.length ≤ len →
    ∃ segments grown filled written, b.getWriteBuffers fresh len = .ok (len,segments,grown) ∧
      total segments = len ∧
      (grown.fill segments bytes).setPosition (b.position+bytes.length) = .ok filled ∧
      b.write memory bytes = .ok written ∧
      filled.flat.content = written.flat.content ∧ filled.size = written.size ∧ filled.position = written.position

theorem segments_agree (path : Reached next anyStep Start b) : b.Viewed := by
  have valid := reached_valid path
  refine ⟨?_,toString_spec valid,?_⟩
  · intro len
    obtain ⟨segments,done,_,content⟩ := getReadBuffers_spec valid len
    exact ⟨segments,done,content⟩
  · intro len bytes fresh memory left room
    obtain ⟨segments,grown,done,shape,sum,within,order,fits,_,position,size,same⟩ :=
      getWriteBuffers_spec valid fresh len left
    obtain ⟨filled,moved,_,_,there,last,content⟩ :=
      fill_spec shape within order (by rw [sum]; exact room) (by rw [sum]; exact fits)
    obtain ⟨written,stored,_,there',last',content'⟩ := write_content valid memory bytes
    rw [position] at moved there
    refine ⟨segments,grown,filled,written,done,sum,moved,stored,?_,?_,there.trans there'.symm⟩
    · rw [content,content',same,position]
    · rw [last,last',size,position]

-- Two full blocks of two bytes, the cursor inside the first.
def twoBlocks : ByteArray := ⟨2,1,4,4,.big,[[1,2],[3,4]],some 0⟩

theorem twoBlocks_reached : Reached next anyStep Start twoBlocks :=
  Reached.run (.start ⟨2,fun _ => 0,by decide,rfl⟩) along_any
    (show run next (initial 2 fun _ => 0) [.op (.write (fun _ => 0) [1,2,3,4]),.op (.setPosition 1)] = some twoBlocks
      from rfl)

theorem segments_agree_twoBlocks : twoBlocks.Viewed := segments_agree twoBlocks_reached

example : (twoBlocks.getReadBuffers 3).map (fun r => gather twoBlocks.nodes r.2) = .ok [2,3,4] := by rfl

end ByteArray
end Fishjoy
