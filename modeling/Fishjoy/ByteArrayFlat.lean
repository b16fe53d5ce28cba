import Fishjoy.ByteArray

namespace Fishjoy
open Blocks

-- A flat buffer with a cursor: the content, and behind it the storage that is
-- allocated but not yet part of the content.
structure Buffer where
  content : List UInt8
  behind : List UInt8
  position : Nat

inductive ByteOp where
  | write (memory : Nat → UInt8) (buf : List UInt8)
  | read (size : Nat)
  | setPosition (v : Nat)
  | clear

-- A read of no byte looks at `m_cur` all the same, so it is left out.
def ByteOp.Asks : ByteOp → Prop
  | .read size => 0 < size
  | _ => True

inductive Outcome where
  | done
  | bytes (buf : List UInt8)
  | outOfRange
  deriving DecidableEq

namespace Buffer

def capacity (f : Buffer) : Nat := f.content.length+f.behind.length

-- Storage grows by whole blocks, and only when the room behind the cursor is
-- too small.
def growth (f : Buffer) (base count : Nat) : Nat := base*((f.position+count-f.capacity+base-1)/base)

def perform (base : Nat) (f : Buffer) : ByteOp → Buffer × Outcome
  | .write memory buf =>
    let reach := f.position+buf.length
    let fresh := ByteArray.makeNode (f.growth base buf.length) f.capacity memory
    (⟨overwrite f.content f.position buf,(f.behind ++ fresh).drop (reach-f.content.length),reach⟩,.done)
  | .read size =>
    if f.content.length-f.position < size then (f,.outOfRange)
    else ({f with position := f.position+size},.bytes ((f.content.drop f.position).take size))
  | .setPosition v =>
    if f.capacity < v then (f,.outOfRange)
    else
      let exposed := v-f.content.length
      (⟨f.content ++ f.behind.take exposed,f.behind.drop exposed,v⟩,.done)
  | .clear => (⟨[],(f.content ++ f.behind).take base,0⟩,.done)

def performs (base : Nat) : Buffer → List ByteOp → Buffer × List Outcome
  | f,[] => (f,[])
  | f,op :: rest =>
    let (f,outcome) := f.perform base op
    let (f,outcomes) := performs base f rest
    (f,outcome :: outcomes)

end Buffer

namespace ByteArray

-- An operation that throws leaves the array as it was; a null dereference
-- ends the run.
def settle (b : ByteArray) : Except Fault (ByteArray × Outcome) → Option (ByteArray × Outcome)
  | .ok result => some result
  | .error .outOfRange => some (b,.outOfRange)
  | .error .nullNode => none

def perform (b : ByteArray) : ByteOp → Option (ByteArray × Outcome)
  | .write memory buf => b.settle ((b.write memory buf).map fun b => (b,.done))
  | .read size => b.settle ((b.read size).map fun (buf,b) => (b,.bytes buf))
  | .setPosition v => b.settle ((b.setPosition v).map fun b => (b,.done))
  | .clear => some (b.clear,.done)

def performs : ByteArray → List ByteOp → Option (ByteArray × List Outcome)
  | b,[] => some (b,[])
  | b,op :: rest => do
    let (b,outcome) ← b.perform op
    let (b,outcomes) ← performs b rest
    return (b,outcome :: outcomes)

def flat (b : ByteArray) : Buffer :=
  ⟨b.nodes.flatten.take b.size,b.nodes.flatten.drop b.size,b.position⟩

variable {b : ByteArray} {buf : List UInt8} {memory : Nat → UInt8}

theorem makeNode_length (baseSize offset : Nat) : (makeNode baseSize offset memory).length = baseSize := by
  simp [makeNode]

theorem makeNode_add (first second offset : Nat) :
    makeNode (first+second) offset memory =
      makeNode first offset memory ++ makeNode second (offset+first) memory := by
  simp [makeNode,List.range_add,Nat.add_assoc]

theorem nodeAt_cases (valid : b.Valid) (v : Nat) (inside : v ≤ b.capacity) :
    b.nodeAt (v/b.baseSize) = if v = b.capacity then none else some (v/b.baseSize) := by
  have positive := valid.positive
  unfold nodeAt
  rw [valid.capacity] at inside ⊢
  by_cases full : v = b.baseSize*b.nodes.length
  · rw [if_pos full,full,Nat.mul_div_cancel_left _ positive,if_neg (Nat.lt_irrefl _)]
  · rw [if_neg full,if_pos ((Nat.div_lt_iff_lt_mul positive).mpr (by rw [Nat.mul_comm]; omega))]

theorem Valid.storage (valid : b.Valid) : b.nodes.flatten.length = b.capacity := by
  rw [valid.uniform.length,valid.capacity]

theorem Valid.content_length (valid : b.Valid) : b.flat.content.length = b.size := by
  rw [flat,List.length_take,valid.storage]
  exact Nat.min_eq_left valid.size

theorem Valid.flat_capacity (valid : b.Valid) : b.flat.capacity = b.capacity := by
  have bound := valid.size
  rw [Buffer.capacity,valid.content_length,flat,List.length_drop,valid.storage]
  omega

-- The node `m_cur` leads the part of the chain that holds the cursor.
theorem Valid.split (valid : b.Valid) (inside : b.position < b.capacity) :
    b.cur = some (b.position/b.baseSize) ∧ b.position/b.baseSize < b.nodes.length ∧
      b.chain = b.nodes.drop (b.position/b.baseSize) ∧ b.passed = b.nodes.take (b.position/b.baseSize) := by
  have here : b.cur = some (b.position/b.baseSize) := by
    rw [valid.cur,if_neg (Nat.ne_of_lt inside)]
  rw [valid.capacity] at inside
  refine ⟨here,(Nat.div_lt_iff_lt_mul valid.positive).mpr (by rw [Nat.mul_comm]; exact inside),?_,?_⟩
  · simp [chain,here]
  · simp [passed,here]

theorem addNodes_spec (memory : Nat → UInt8) (count : Nat) (b : ByteArray) :
    ∃ added : List (List UInt8), Uniform b.baseSize added ∧ added.length = count ∧
      added.flatten = makeNode (b.baseSize*count) b.capacity memory ∧
      addNodes memory count b =
        {b with nodes := b.nodes ++ added,capacity := b.capacity+b.baseSize*count} := by
  induction count generalizing b with
  | zero => exact ⟨[],nofun,rfl,by simp [makeNode],by simp [addNodes]⟩
  | succ count ih =>
      obtain ⟨added,uniform,length,content,after⟩ := ih {b with
        nodes := b.nodes ++ [makeNode b.baseSize b.capacity memory]
        capacity := b.capacity+b.baseSize}
      refine ⟨makeNode b.baseSize b.capacity memory :: added,?_,by rw [List.length_cons,length],?_,?_⟩
      · intro node member
        rcases List.mem_cons.mp member with rfl | later
        · exact makeNode_length _ _
        · exact uniform node later
      · have grown : b.baseSize*(count+1) = b.baseSize+b.baseSize*count := by rw [Nat.mul_succ,Nat.add_comm]
        simp only [List.flatten_cons,content,grown,makeNode_add]
      · rw [addNodes,after,Nat.mul_succ]
        simp [Nat.add_comm,Nat.add_left_comm,Nat.add_assoc]

theorem ceil_covers {base : Nat} (positive : 0 < base) (need : Nat) : need ≤ base*((need+base-1)/base) := by
  have parts := Nat.div_add_mod (need+base-1) base
  have small := Nat.mod_lt (need+base-1) positive
  omega

theorem addCapacity_spec (valid : b.Valid) (memory : Nat → UInt8) (positive : 0 < count) :
    ∃ added : List (List UInt8),
      added.flatten = makeNode (b.flat.growth b.baseSize count) b.capacity memory ∧
      (b.addCapacity memory count).nodes = b.nodes ++ added ∧
      (b.addCapacity memory count).position = b.position ∧
      (b.addCapacity memory count).size = b.size ∧
      (b.addCapacity memory count).baseSize = b.baseSize ∧
      (b.addCapacity memory count).endian = b.endian ∧
      b.position+count ≤ (b.addCapacity memory count).capacity ∧
      (b.addCapacity memory count).Valid := by
  have order := valid.position
  have fits := valid.size
  have block := valid.positive
  have same := valid.flat_capacity
  unfold addCapacity
  dsimp only
  rw [if_neg (Nat.ne_of_gt positive)]
  by_cases room : count ≤ b.getCapacity
  · have enough : b.position+count ≤ b.capacity := by unfold getCapacity at room; omega
    have still : b.flat.growth b.baseSize count = 0 := by
      have none : b.position+count-b.capacity = 0 := Nat.sub_eq_zero_of_le enough
      have small : (0+b.baseSize-1)/b.baseSize = 0 := Nat.div_eq_of_lt (by omega)
      rw [Buffer.growth,same,show b.flat.position = b.position from rfl,none,small,Nat.mul_zero]
    rw [if_pos room]
    exact ⟨[],by rw [still]; simp [makeNode],by simp,rfl,rfl,rfl,rfl,enough,valid⟩
  · rw [if_neg room]
    obtain ⟨added,uniform,length,content,after⟩ := addNodes_spec memory
      ((count-b.getCapacity+b.baseSize-1)/b.baseSize) b
    have covers := ceil_covers block (count-b.getCapacity)
    have lacking : b.flat.position+count-b.flat.capacity = count-b.getCapacity := by
      rw [same,getCapacity,show b.flat.position = b.position from rfl]; omega
    have some : 0 < (count-b.getCapacity+b.baseSize-1)/b.baseSize := Nat.div_pos (by omega) block
    rw [after]
    rw [←length] at some covers
    have enough : b.position+count ≤ b.capacity+b.baseSize*added.length := by
      unfold getCapacity at covers; omega
    have whole : b.capacity+b.baseSize*added.length = b.baseSize*(b.nodes ++ added).length := by
      rw [List.length_append,Nat.mul_add,valid.capacity]
    have shape : Uniform b.baseSize (b.nodes ++ added) := by
      intro node member
      rcases List.mem_append.mp member with old | new
      · exact valid.uniform node old
      · exact uniform node new
    have rooted : 0 < (b.nodes ++ added).length := by rw [List.length_append]; omega
    have wider : b.size ≤ b.capacity+b.baseSize*added.length := Nat.le_add_right_of_le fits
    have apart : b.position ≠ b.capacity+b.baseSize*added.length := by
      have blocks := Nat.le_mul_of_pos_right b.baseSize some
      omega
    rw [length] at enough whole wider apart
    refine ⟨added,by rw [content,Buffer.growth,lacking],?_⟩
    by_cases full : b.getCapacity = 0
    · have end_ : b.position = b.baseSize*b.nodes.length := by
        rw [←valid.capacity]; unfold getCapacity at full; omega
      rw [if_pos full]
      refine ⟨rfl,rfl,rfl,rfl,rfl,enough,block,shape,rooted,order,wider,whole,?_⟩
      rw [if_neg apart]
      simp only [nodeAt,List.length_append,end_,Nat.mul_div_cancel_left _ block]
      exact if_pos (by omega)
    · rw [if_neg full]
      refine ⟨rfl,rfl,rfl,rfl,rfl,enough,block,shape,rooted,order,wider,whole,?_⟩
      rw [if_neg apart]
      exact (valid.split (by unfold getCapacity at full; omega)).1

theorem advance_spec (valid : b.Valid) (inside : b.position < b.capacity) (fits : b.position+count ≤ b.capacity) :
    b.advance ((b.position % b.baseSize+count)/b.baseSize) =
      if b.position+count = b.capacity then none else some ((b.position+count)/b.baseSize) := by
  have parts := Nat.div_add_mod b.position b.baseSize
  have total : b.position/b.baseSize+(b.position % b.baseSize+count)/b.baseSize = (b.position+count)/b.baseSize := by
    rw [Nat.add_comm,←Nat.add_mul_div_left _ _ valid.positive]
    congr 1
    omega
  rw [advance,(valid.split inside).1,Option.bind_some,total,nodeAt_cases valid _ fits]

theorem cursor_fits (valid : b.Valid) (inside : b.position < b.capacity) (fits : b.position+count ≤ b.capacity) :
    b.position % b.baseSize+count ≤ b.baseSize*b.chain.length := by
  obtain ⟨_,place,chain,_⟩ := valid.split inside
  have parts := Nat.div_add_mod b.position b.baseSize
  rw [valid.capacity] at fits
  rw [chain,List.length_drop,Nat.mul_sub]
  omega

theorem Uniform.drop_nodes (valid : b.Valid) (i : Nat) : Uniform b.baseSize (b.nodes.drop i) :=
  fun node member => valid.uniform node (List.mem_of_mem_drop member)

-- With room for the bytes the loop of `write` stores them at the cursor.
theorem store_spec (valid : b.Valid) (left : buf ≠ []) (fits : b.position+buf.length ≤ b.capacity) :
    ∃ chain moved, writeLoop b.chain (b.position % b.baseSize) buf = .ok (chain,moved) ∧
      (b.passed ++ chain).flatten = overwrite b.nodes.flatten b.position buf ∧
      Valid {b with
        nodes := b.passed ++ chain
        cur := b.advance moved
        position := b.position+buf.length
        size := max b.size (b.position+buf.length)} := by
  have bytes := List.length_pos_iff.mpr left
  have inside : b.position < b.capacity := by omega
  obtain ⟨_,place,chainEq,passedEq⟩ := valid.split inside
  have parts := Nat.div_add_mod b.position b.baseSize
  have offset := Nat.mod_lt b.position valid.positive
  have shape : Uniform b.baseSize b.chain := chainEq ▸ Uniform.drop_nodes valid _
  obtain ⟨chain,done,uniform,length,content⟩ := writeLoop_spec shape offset left (cursor_fits valid inside fits)
  have front : b.passed.flatten.length = b.baseSize*(b.position/b.baseSize) := by
    rw [passedEq,valid.uniform.take,List.length_take,valid.storage]
    omega
  have whole : b.nodes.flatten = b.passed.flatten ++ b.chain.flatten := by
    rw [passedEq,chainEq,←List.flatten_append,List.take_append_drop]
  have count : (b.passed ++ chain).length = b.nodes.length := by
    rw [List.length_append,length,passedEq,chainEq,←List.length_append,List.take_append_drop]
  refine ⟨chain,_,done,?_,?_⟩
  · have written := overwrite_back b.passed.flatten b.chain.flatten buf (b.position % b.baseSize)
    rw [front,parts] at written
    rw [List.flatten_append,content,whole,written]
  · refine ⟨valid.positive,?_,by rw [count]; exact valid.rooted,Nat.le_max_right _ _,
      Nat.max_le.mpr ⟨valid.size,fits⟩,by rw [count]; exact valid.capacity,advance_spec valid inside fits⟩
    intro node member
    rcases List.mem_append.mp member with old | new
    · rw [passedEq] at old
      exact valid.uniform node (List.mem_of_mem_take old)
    · exact uniform node new

theorem write_spec (valid : b.Valid) (memory : Nat → UInt8) (buf : List UInt8) :
    ∃ after, b.write memory buf = .ok after ∧ after.Valid ∧ after.baseSize = b.baseSize ∧
      after.endian = b.endian ∧ after.flat = (b.flat.perform b.baseSize (.write memory buf)).1 := by
  have order := valid.position
  have fits := valid.size
  have storage := valid.storage
  have width := valid.content_length
  by_cases none : buf = []
  · have still : b.flat.growth b.baseSize 0 = 0 := by
      have enough : b.flat.position+0-b.flat.capacity = 0 := by
        rw [valid.flat_capacity,show b.flat.position = b.position from rfl]; omega
      rw [Buffer.growth,enough,Nat.div_eq_of_lt (by have := valid.positive; omega),Nat.mul_zero]
    refine ⟨b,by rw [write,if_pos none],valid,rfl,rfl,?_⟩
    have past : b.flat.position-b.flat.content.length = 0 := by
      rw [width,show b.flat.position = b.position from rfl]; omega
    subst none
    simp only [Buffer.perform,List.length_nil,still,Nat.add_zero,past,List.drop_zero,overwrite,
      List.append_nil,List.take_append_drop]
    simp [makeNode]
  · obtain ⟨added,fresh,nodes,position,size,base,endian,room,grown⟩ :=
      addCapacity_spec valid memory (List.length_pos_iff.mpr none)
    rw [←position] at room
    obtain ⟨chain,moved,done,content,after⟩ := store_spec grown none room
    refine ⟨_,by rw [write,if_neg none]; dsimp only; rw [done]; rfl,after,base,endian,?_⟩
    have wide : b.size ≤ (b.nodes ++ added).flatten.length := by
      rw [←nodes,grown.storage,←size]; exact grown.size
    have reach : b.position+buf.length ≤ (b.nodes ++ added).flatten.length := by
      rw [←nodes,grown.storage,←position]; exact room
    have front : (b.nodes ++ added).flatten.take b.size = b.nodes.flatten.take b.size := by
      rw [List.flatten_append,List.take_append_of_le_length (by omega)]
    have back : (b.nodes ++ added).flatten.drop b.size = b.nodes.flatten.drop b.size ++ added.flatten := by
      rw [List.flatten_append,List.drop_append_of_le_length (by omega)]
    simp only [flat,Buffer.perform,content,position,size,nodes]
    rw [overwrite_content order wide reach,overwrite_behind order wide,front,back,fresh,
      show (b.nodes.flatten.take b.size).length = b.size from width,←valid.flat_capacity]
    rfl

-- The loop of `read` takes the bytes at the cursor.
theorem fetch_spec (valid : b.Valid) (asked : 0 < count) (enough : count ≤ b.getReadSize) :
    readLoop b.chain (b.position % b.baseSize) count =
      .ok ((b.flat.content.drop b.position).take count,(b.position % b.baseSize+count)/b.baseSize) := by
  have order := valid.position
  have fits := valid.size
  unfold getReadSize at enough
  obtain ⟨_,place,chain,_⟩ := valid.split (show b.position < b.capacity by omega)
  have shape : Uniform b.baseSize b.chain := chain ▸ Uniform.drop_nodes valid _
  have bytes : (b.chain.flatten.drop (b.position % b.baseSize)).take count =
      (b.flat.content.drop b.position).take count := by
    rw [chain,valid.uniform.drop,List.drop_drop,Nat.div_add_mod,flat,List.drop_take,List.take_take,
      Nat.min_eq_left (by omega)]
  rw [readLoop_spec shape (Nat.mod_lt b.position valid.positive) asked
    (cursor_fits valid (by omega) (by omega)),bytes]

theorem read_spec (valid : b.Valid) (count : Nat) (asked : 0 < count) (enough : count ≤ b.getReadSize) :
    ∃ after, b.read count = .ok ((b.flat.content.drop b.position).take count,after) ∧ after.Valid ∧
      after.baseSize = b.baseSize ∧ after.endian = b.endian ∧
      after.flat = {b.flat with position := b.position+count} := by
  have order := valid.position
  have fits := valid.size
  have done := fetch_spec valid asked enough
  unfold getReadSize at enough
  refine ⟨{b with
      cur := b.advance ((b.position % b.baseSize+count)/b.baseSize)
      position := b.position+count},by rw [read,if_neg (by unfold getReadSize; omega),done]; rfl,?_,rfl,rfl,rfl⟩
  exact ⟨valid.positive,valid.uniform,valid.rooted,by dsimp only; omega,fits,valid.capacity,
    advance_spec valid (by omega) (by omega)⟩

-- With no byte to read, `m_cur` is looked at all the same: it is null at the
-- end of the capacity.
theorem read_none (valid : b.Valid) :
    b.read 0 = if b.position = b.capacity then .error .nullNode else .ok ([],b) := by
  unfold read
  rw [if_neg (Nat.not_lt_zero _)]
  by_cases full : b.position = b.capacity
  · rw [if_pos full,chain,valid.cur,if_pos full]
    rfl
  · have inside : b.position < b.capacity := by
      have order := valid.position
      have fits := valid.size
      omega
    obtain ⟨here,place,chain,_⟩ := valid.split inside
    have still : b.advance 0 = b.cur := by
      rw [advance,here,Option.bind_some,Nat.add_zero,nodeAt,if_pos place]
    rw [if_neg full,chain,List.drop_eq_getElem_cons place,readLoop,if_pos rfl]
    simp only [Except.map,still,Nat.add_zero]

theorem setPosition_spec (valid : b.Valid) (v : Nat) (inside : v ≤ b.capacity) :
    ∃ after, b.setPosition v = .ok after ∧ after.Valid ∧ after.baseSize = b.baseSize ∧
      after.endian = b.endian ∧ after.flat = (b.flat.perform b.baseSize (.setPosition v)).1 := by
  have done := seekLoop_spec valid.uniform valid.positive valid.rooted (valid.capacity ▸ inside)
  have storage := valid.storage
  have fits := valid.size
  refine ⟨{b with position := v,size := max b.size v,cur := b.nodeAt (v/b.baseSize)},
    by rw [setPosition,if_neg (by omega),done]; rfl,?_,rfl,rfl,?_⟩
  · exact ⟨valid.positive,valid.uniform,valid.rooted,Nat.le_max_right _ _,Nat.max_le.mpr ⟨valid.size,inside⟩,
      valid.capacity,nodeAt_cases valid v inside⟩
  · have width := valid.content_length
    simp only [Buffer.perform,if_neg (Nat.not_lt.mpr (Nat.le_trans inside (Nat.le_of_eq valid.flat_capacity.symm))),width]
    have last : max b.size v = b.size+(v-b.size) := by omega
    simp only [flat,last,List.take_add,List.drop_drop]

theorem clear_spec (valid : b.Valid) :
    b.clear.Valid ∧ b.clear.baseSize = b.baseSize ∧ b.clear.endian = b.endian ∧
      b.clear.flat = (b.flat.perform b.baseSize .clear).1 := by
  have rooted := valid.rooted
  have one : (b.nodes.take 1).length = 1 := by rw [List.length_take]; omega
  refine ⟨⟨valid.positive,?_,by rw [clear,one]; decide,Nat.le_refl _,Nat.zero_le _,?_,?_⟩,rfl,rfl,?_⟩
  · intro node member
    exact valid.uniform node (List.mem_of_mem_take member)
  · rw [clear,one,Nat.mul_one]
  · have positive := valid.positive
    rw [clear,if_neg (Nat.ne_of_lt positive),Nat.zero_div]
  · simp only [flat,clear,Buffer.perform,List.take_zero,List.drop_zero,List.take_append_drop,
      valid.uniform.take,Nat.mul_one]

theorem perform_spec (valid : b.Valid) (op : ByteOp) (asks : op.Asks) :
    ∃ after outcome, b.perform op = some (after,outcome) ∧ after.Valid ∧ after.baseSize = b.baseSize ∧
      b.flat.perform b.baseSize op = (after.flat,outcome) := by
  cases op with
  | write memory buf =>
      obtain ⟨after,done,shape,base,_,content⟩ := write_spec valid memory buf
      exact ⟨after,.done,by simp [perform,done,settle,Except.map],shape,base,by rw [content]; rfl⟩
  | read count =>
      have width : b.flat.content.length-b.flat.position = b.getReadSize := by rw [valid.content_length]; rfl
      by_cases enough : b.getReadSize < count
      · refine ⟨b,.outOfRange,by simp [perform,read,enough,settle,Except.map],valid,rfl,?_⟩
        rw [Buffer.perform,width,if_pos enough]
      · obtain ⟨after,done,shape,base,_,content⟩ := read_spec valid count asks (Nat.le_of_not_lt enough)
        refine ⟨after,_,by rw [perform,done]; rfl,shape,base,?_⟩
        rw [Buffer.perform,width,if_neg enough,content]
        rfl
  | setPosition v =>
      have room := valid.flat_capacity
      by_cases beyond : b.capacity < v
      · refine ⟨b,.outOfRange,by simp [perform,setPosition,beyond,settle,Except.map],valid,rfl,?_⟩
        rw [Buffer.perform,room,if_pos beyond]
      · obtain ⟨after,done,shape,base,_,content⟩ := setPosition_spec valid v (Nat.le_of_not_lt beyond)
        refine ⟨after,.done,by rw [perform,done]; rfl,shape,base,?_⟩
        rw [content]
        simp only [Buffer.perform,room,if_neg beyond]
  | clear =>
      obtain ⟨shape,base,_,content⟩ := clear_spec valid
      exact ⟨b.clear,.done,rfl,shape,base,by rw [content]; rfl⟩

theorem performs_spec (valid : b.Valid) (ops : List ByteOp) (asks : ∀ op ∈ ops, op.Asks) :
    ∃ after outcomes, b.performs ops = some (after,outcomes) ∧ after.Valid ∧ after.baseSize = b.baseSize ∧
      b.flat.performs b.baseSize ops = (after.flat,outcomes) := by
  induction ops generalizing b with
  | nil => exact ⟨b,[],rfl,valid,rfl,rfl⟩
  | cons op rest ih =>
      obtain ⟨middle,outcome,first,shape,base,content⟩ := perform_spec valid op (asks op (.head _))
      obtain ⟨after,outcomes,later,shape',base',content'⟩ := ih shape fun op member => asks op (.tail _ member)
      refine ⟨after,outcome :: outcomes,by simp [performs,first,later],
        shape',base'.trans base,?_⟩
      rw [base] at content'
      rw [Buffer.performs,content]
      simp only [content']

theorem initial_valid (positive : 0 < base) (memory : Nat → UInt8) : (initial base memory).Valid := by
  refine ⟨positive,?_,Nat.one_pos,Nat.le_refl _,Nat.zero_le _,(Nat.mul_one _).symm,?_⟩
  · intro node member
    rw [List.mem_singleton.mp member]
    exact makeNode_length _ _
  · rw [initial,if_neg (Nat.ne_of_lt positive),Nat.zero_div]

-- Every state of a run is the last one of some run, so the fields are in step
-- throughout.
theorem chain_refines_flat (base : Nat) (positive : 0 < base) (memory : Nat → UInt8) (ops : List ByteOp)
    (asks : ∀ op ∈ ops, op.Asks) :
    ∃ b outcomes, (initial base memory).performs ops = some (b,outcomes) ∧
      Buffer.performs base ⟨[],makeNode base 0 memory,0⟩ ops = (b.flat,outcomes) ∧
      b.flat.content.length = b.size ∧ b.flat.capacity = b.capacity ∧
      b.position ≤ b.size ∧ b.size ≤ b.capacity ∧ b.capacity = base*b.nodes.length ∧
      b.cur = if b.position = b.capacity then none else some (b.position/base) := by
  obtain ⟨b,outcomes,done,valid,same,flat⟩ := performs_spec (initial_valid positive memory) ops asks
  have start : (initial base memory).flat = ⟨[],makeNode base 0 memory,0⟩ := by
    simp [ByteArray.flat,initial]
  rw [start] at flat
  have cur := valid.cur
  have capacity := valid.capacity
  rw [show b.baseSize = base from same] at cur capacity
  exact ⟨b,outcomes,done,flat,valid.content_length,valid.flat_capacity,valid.position,valid.size,capacity,cur⟩

-- Blocks of two bytes: an overrun read, and a cursor at the end of capacity.
theorem chain_refines_flat_two :
    ∃ b outcomes, (initial 2 fun _ => 0).performs [.write (fun _ => 0) [1,2,3,4],.read 1,.setPosition 1,.read 3] =
        some (b,outcomes) ∧
      Buffer.performs 2 ⟨[],makeNode 2 0 fun _ => 0,0⟩
        [.write (fun _ => 0) [1,2,3,4],.read 1,.setPosition 1,.read 3] = (b.flat,outcomes) ∧
      b.flat.content.length = b.size ∧ b.flat.capacity = b.capacity ∧
      b.position ≤ b.size ∧ b.size ≤ b.capacity ∧ b.capacity = 2*b.nodes.length ∧
      b.cur = if b.position = b.capacity then none else some (b.position/2) := by
  apply chain_refines_flat 2 (by decide) (fun _ => 0) _
  simp [ByteOp.Asks]

example : ((initial 2 fun _ => 0).performs
    [.write (fun _ => 0) [1,2,3,4],.read 1,.setPosition 1,.write (fun _ => 0) [7],.read 2]).map
      (fun r => (r.2,r.1.cur)) = some ([.done,.outOfRange,.done,.done,.bytes [3,4]],none) := by decide

end ByteArray
end Fishjoy
