import Fishjoy.ByteArrayPositional

namespace Fishjoy
open Blocks Transition

-- A null node, a negative length for `ofs.write`, or bytes outside the node.
inductive DumpFault where
  | nullNode
  | negative
  | outside
  deriving DecidableEq

namespace ByteArray

-- The conversion to `int`.
def narrow (v : Nat) : Int := if v % 2^32 < 2^31 then (v % 2^32 : Nat) else (v % 2^32 : Nat)-2^32

-- The loop of `writeToFile` along the chain from `m_cur`: the chunks that go
-- to the file.
def dumpLoop (baseSize : Nat) : List (List UInt8) → Nat → Nat → Except DumpFault (List (List UInt8))
  | chain,pos,readSize =>
    if readSize = 0 then .ok []
    else match chain with
      | [] => .error .nullNode
      | node :: rest =>
        let diff := narrow (pos % baseSize)
        let len : Int := (if baseSize < readSize then baseSize else readSize)-diff
        if len < 0 then .error .negative
        else if diff < 0 ∨ node.length < diff+len then .error .outside
        else (dumpLoop baseSize rest (pos+len.toNat) (readSize-len.toNat)).map
          ((node.drop diff.toNat).take len.toNat :: ·)

-- Whether the file could be opened is an input.
def writeToFile (b : ByteArray) (opened : Bool) : Except DumpFault (Bool × List (List UInt8)) :=
  if opened then (dumpLoop b.baseSize b.chain b.position b.getReadSize).map fun chunks => (true,chunks)
  else .ok (false,[])

def Dumped (b : ByteArray) : Prop :=
  ∃ chunks, b.writeToFile true = .ok (true,chunks) ∧ chunks.flatten = b.flat.content.drop b.position

-- Nothing is left to write, or the cursor is at the start of a block or at
-- least a block is left, and the offset in the block is an `int`.
def Whole (b : ByteArray) : Prop :=
  b.getReadSize = 0 ∨ (b.position % b.baseSize < 2^31 ∧
    (b.position % b.baseSize = 0 ∨ b.baseSize ≤ b.getReadSize))

variable {b : ByteArray} {base pos left : Nat} {nodes : List (List UInt8)} {node : List UInt8}

theorem dump_ok {chunks : List (List UInt8)} {opened : Bool} (done : b.writeToFile true = .ok (opened,chunks)) :
    dumpLoop b.baseSize b.chain b.position b.getReadSize = .ok chunks := by
  unfold writeToFile at done
  rw [if_pos rfl] at done
  cases loop : dumpLoop b.baseSize b.chain b.position b.getReadSize with
  | error fault => rw [loop] at done; cases done
  | ok found => rw [loop] at done; cases done; rfl

theorem narrow_small (small : v < 2^31) : narrow v = v := by
  have same : v % 2^32 = v := Nat.mod_eq_of_lt (by omega)
  rw [narrow,same,if_pos small]

theorem dumpLoop_cons (some : left ≠ 0) (rest : List (List UInt8)) :
    dumpLoop base (node :: rest) pos left =
      let diff := narrow (pos % base)
      let len : Int := (if base < left then base else left)-diff
      if len < 0 then .error .negative
      else if diff < 0 ∨ node.length < diff+len then .error .outside
      else (dumpLoop base rest (pos+len.toNat) (left-len.toNat)).map
        ((node.drop diff.toNat).take len.toNat :: ·) := by
  rw [dumpLoop,if_neg some]

theorem dumpLoop_none (nodes : List (List UInt8)) : dumpLoop base nodes pos 0 = .ok [] := by
  cases nodes <;> rfl

-- With the offset an `int` and no more than what is left, one chunk is the
-- node from the offset on.
theorem dumpLoop_chunk (width : node.length = base) (some : left ≠ 0) (small : pos % base < 2^31)
    (enough : pos % base ≤ min base left) (rest : List (List UInt8)) :
    dumpLoop base (node :: rest) pos left =
      (dumpLoop base rest (pos+(min base left-pos % base)) (left-(min base left-pos % base))).map
        ((node.drop (pos % base)).take (min base left-pos % base) :: ·) := by
  have length : ((min base left : Nat) : Int)-(pos % base : Nat) = (min base left-pos % base : Nat) := by omega
  rw [dumpLoop_cons some]
  dsimp only
  rw [narrow_small small,clamp_min,Nat.min_comm,length,if_neg (by omega),if_neg (by rw [width]; omega)]
  rfl

-- From the start of a block on the chunks are the blocks.
theorem dumpLoop_aligned (uniform : Uniform base nodes) (positive : 0 < base) (aligned : pos % base = 0)
    (fits : left ≤ base*nodes.length) :
    ∃ chunks, dumpLoop base nodes pos left = .ok chunks ∧ chunks.flatten = nodes.flatten.take left := by
  induction nodes generalizing pos left with
  | nil =>
      rw [List.length_nil,Nat.mul_zero] at fits
      rw [Nat.le_zero.mp fits]
      exact ⟨[],dumpLoop_none [],rfl⟩
  | cons node rest ih =>
      have width : node.length = base := uniform node (.head _)
      have later : Uniform base rest := fun block member => uniform block (.tail _ member)
      rw [List.length_cons,Nat.mul_succ] at fits
      by_cases none : left = 0
      · rw [none]
        exact ⟨[],dumpLoop_none _,rfl⟩
      · have step := dumpLoop_chunk width none (by omega) (by omega : pos % base ≤ min base left) rest
        rw [aligned,Nat.sub_zero,List.drop_zero] at step
        rw [step]
        by_cases last : left ≤ base
        · rw [Nat.min_eq_right last,Nat.sub_self,dumpLoop_none]
          refine ⟨_,rfl,?_⟩
          rw [List.flatten_cons,List.flatten_nil,List.append_nil,List.flatten_cons,
            List.take_append_of_le_length (by omega)]
        · have full : min base left = base := Nat.min_eq_left (by omega)
          obtain ⟨chunks,done,content⟩ := ih later (show (pos+base) % base = 0 by rw [Nat.add_mod_right]; exact aligned)
            (show left-base ≤ base*rest.length by omega)
          rw [full,done]
          refine ⟨_,rfl,?_⟩
          rw [List.flatten_cons,List.flatten_cons,content,List.take_append,width,
            List.take_of_length_le (show node.length ≤ base by omega),
            List.take_of_length_le (show node.length ≤ left by omega)]

theorem content_chain (valid : b.Valid) (inside : b.position < b.capacity) :
    b.flat.content.drop b.position = (b.chain.flatten.drop (b.position % b.baseSize)).take b.getReadSize := by
  obtain ⟨_,_,chain,_⟩ := valid.split inside
  rw [chain,valid.uniform.drop,List.drop_drop,Nat.div_add_mod,flat,List.drop_take]
  rfl

theorem dumpLoop_whole (valid : b.Valid) (whole : b.Whole) :
    ∃ chunks, dumpLoop b.baseSize b.chain b.position b.getReadSize = .ok chunks ∧
      chunks.flatten = b.flat.content.drop b.position := by
  have order := valid.position
  have fits := valid.size
  have width := valid.content_length
  by_cases none : b.getReadSize = 0
  · rw [none]
    refine ⟨[],dumpLoop_none _,?_⟩
    rw [List.drop_eq_nil_of_le (by rw [width]; exact Nat.le_of_sub_eq_zero none)]
    rfl
  · obtain ⟨small,begins⟩ := whole.resolve_left none
    have inside : b.position < b.capacity := by unfold getReadSize at none; omega
    obtain ⟨_,place,chain,_⟩ := valid.split inside
    have parts := Nat.div_add_mod b.position b.baseSize
    have offset := Nat.mod_lt b.position valid.positive
    have shape : Uniform b.baseSize b.chain := chain ▸ Uniform.drop_nodes valid _
    have room := cursor_fits valid inside (show b.position+b.getReadSize ≤ b.capacity by unfold getReadSize; omega)
    rw [content_chain valid inside]
    by_cases aligned : b.position % b.baseSize = 0
    · rw [aligned,List.drop_zero]
      exact dumpLoop_aligned shape valid.positive aligned (by omega)
    · have enough : b.baseSize ≤ b.getReadSize := begins.resolve_left aligned
      rw [chain,List.drop_eq_getElem_cons place] at shape room ⊢
      generalize b.nodes[b.position/b.baseSize] = node at shape room ⊢
      generalize b.nodes.drop (b.position/b.baseSize+1) = rest at shape room ⊢
      have first : node.length = b.baseSize := shape node (.head _)
      have later : Uniform b.baseSize rest := fun block member => shape block (.tail _ member)
      rw [List.length_cons,Nat.mul_succ] at room
      have least : min b.baseSize b.getReadSize = b.baseSize := Nat.min_eq_left enough
      have next : (b.position+(b.baseSize-b.position % b.baseSize)) % b.baseSize = 0 := by
        have whole : b.position+(b.baseSize-b.position % b.baseSize) =
            b.baseSize*(b.position/b.baseSize+1) := by rw [Nat.mul_succ]; omega
        rw [whole,Nat.mul_mod_right]
      obtain ⟨chunks,done,bytes⟩ := dumpLoop_aligned later valid.positive next
        (show b.getReadSize-(b.baseSize-b.position % b.baseSize) ≤ b.baseSize*rest.length by omega)
      rw [dumpLoop_chunk first none small (by omega) rest,least,done]
      refine ⟨_,rfl,?_⟩
      have ends : (node.drop (b.position % b.baseSize)).length = b.baseSize-b.position % b.baseSize := by
        rw [List.length_drop,first]
      rw [List.flatten_cons,List.flatten_cons,bytes,List.drop_append_of_le_length (by omega),List.take_append,ends,
        List.take_of_length_le (show (node.drop (b.position % b.baseSize)).length ≤ b.getReadSize by omega),
        List.take_of_length_le (Nat.le_of_eq ends)]

-- A chunk of no byte leaves the position and what is left as they are, and a
-- shorter one would have a negative length.
theorem dumpLoop_stuck (nodes : List (List UInt8)) (some : left ≠ 0) (small : pos % base < 2^31)
    (less : left ≤ pos % base) (inside : left ≤ base) (chunks : List (List UInt8)) :
    dumpLoop base nodes pos left ≠ .ok chunks := by
  induction nodes generalizing chunks with
  | nil =>
      rw [dumpLoop,if_neg some]
      nofun
  | cons node rest ih =>
      have least : (if base < left then base else left) = left := if_neg (Nat.not_lt.mpr inside)
      rw [dumpLoop_cons some]
      dsimp only
      rw [narrow_small small,least]
      intro done
      by_cases negative : (left : Int)-(pos % base : Nat) < 0
      · rw [if_pos negative] at done
        cases done
      · have empty : (left : Int)-(pos % base : Nat) = 0 := by omega
        rw [if_neg negative,empty] at done
        split at done
        · cases done
        · cases later : dumpLoop base rest (pos+(0 : Int).toNat) (left-(0 : Int).toNat) with
          | error fault => rw [later] at done; cases done
          | ok found => exact ih found later

theorem offset_after (small : pos % base ≤ left) (last : left < base) : (pos+(left-pos % base)) % base = left := by
  have parts := Nat.div_add_mod pos base
  have whole : pos+(left-pos % base) = left+base*(pos/base) := by omega
  rw [whole,Nat.add_mul_mod_self_left,Nat.mod_eq_of_lt last]

theorem dumped_whole (valid : b.Valid) (small : b.baseSize ≤ 2^31) (dumped : b.Dumped) : b.Whole := by
  have order := valid.position
  have fits := valid.size
  have offset := Nat.mod_lt b.position valid.positive
  obtain ⟨chunks,wrote,_⟩ := dumped
  have done := dump_ok wrote
  by_contra broken
  unfold Whole at broken
  push Not at broken
  obtain ⟨some,cut⟩ := broken
  obtain ⟨begun,less⟩ := cut (by omega)
  have inside : b.position < b.capacity := by unfold getReadSize at some; omega
  obtain ⟨_,place,chain,_⟩ := valid.split inside
  by_cases short : b.getReadSize ≤ b.position % b.baseSize
  · exact dumpLoop_stuck b.chain some (by omega) short (Nat.le_of_lt less) _ done
  · rw [chain,List.drop_eq_getElem_cons place] at done
    have least : min b.baseSize b.getReadSize = b.getReadSize := Nat.min_eq_right (Nat.le_of_lt less)
    rw [dumpLoop_chunk (valid.uniform _ (List.getElem_mem place)) some (by omega) (by omega),least] at done
    have next := offset_after (Nat.le_of_not_le short) less
    have rest : b.getReadSize-(b.getReadSize-b.position % b.baseSize) = b.position % b.baseSize := by omega
    rw [rest] at done
    cases later : dumpLoop b.baseSize (b.nodes.drop (b.position/b.baseSize+1))
        (b.position+(b.getReadSize-b.position % b.baseSize)) (b.position % b.baseSize) with
    | error fault => rw [later] at done; cases done
    | ok found => exact dumpLoop_stuck _ begun (by omega) (by omega) (by omega) found later

theorem dumpLoop_first {rest chunks : List (List UInt8)} (some : left ≠ 0)
    (done : dumpLoop base (node :: rest) pos left = .ok chunks) :
    ∃ (len pos' left' : Nat) (later : List (List UInt8)),
      0 ≤ narrow (pos % base) ∧ narrow (pos % base)+len = min base left ∧
      chunks = (node.drop (narrow (pos % base)).toNat).take len :: later ∧
      dumpLoop base rest pos' left' = .ok later := by
  rw [dumpLoop_cons some] at done
  dsimp only at done
  rw [clamp_min,Nat.min_comm] at done
  generalize narrow (pos % base) = diff at done
  by_cases negative : ((min base left : Nat) : Int)-diff < 0
  · rw [if_pos negative] at done
    cases done
  · rw [if_neg negative] at done
    by_cases out : diff < 0 ∨ (node.length : Int) < diff+((min base left : Nat)-diff)
    · rw [if_pos out] at done
      cases done
    · rw [if_neg out] at done
      generalize loop : dumpLoop base rest _ _ = result at done
      cases result with
      | error fault => cases done
      | ok later =>
          cases done
          exact ⟨_,_,_,later,by omega,by omega,rfl,loop⟩

theorem dumpLoop_zero (blank : ∀ node ∈ nodes, ∀ byte ∈ node, byte = (0 : UInt8)) {chunks : List (List UInt8)}
    (done : dumpLoop base nodes pos left = .ok chunks) : ∀ byte ∈ chunks.flatten, byte = 0 := by
  induction nodes generalizing pos left chunks with
  | nil =>
      rw [dumpLoop] at done
      split at done
      · cases done
        nofun
      · cases done
  | cons node rest ih =>
      by_cases none : left = 0
      · rw [none,dumpLoop_none] at done
        cases done
        nofun
      · obtain ⟨len,_,_,later,_,_,rfl,loop⟩ := dumpLoop_first none done
        intro byte member
        rw [List.flatten_cons,List.mem_append] at member
        rcases member with first | second
        · exact blank node (.head _) byte (List.mem_of_mem_drop (List.mem_of_mem_take first))
        · exact ih (fun node member => blank node (.tail _ member)) loop byte second

-- The nodes with no byte set but one in the node of the cursor.
def marked (b : ByteArray) (place : Nat) : List (List UInt8) :=
  (List.replicate b.nodes.length (List.replicate b.baseSize 0)).set (b.position/b.baseSize)
    ((List.replicate b.baseSize 0).set place 1)

theorem with_nodes_valid (valid : b.Valid) (uniform : Uniform b.baseSize nodes)
    (count : nodes.length = b.nodes.length) : Valid {b with nodes := nodes} :=
  ⟨valid.positive,uniform,by rw [count]; exact valid.rooted,valid.position,valid.size,
    by rw [count]; exact valid.capacity,valid.cur⟩

theorem marked_uniform (b : ByteArray) (place : Nat) :
    Uniform b.baseSize (b.marked place) ∧ (b.marked place).length = b.nodes.length := by
  refine ⟨?_,by rw [marked,List.length_set,List.length_replicate]⟩
  intro node member
  rw [marked] at member
  rcases List.mem_or_eq_of_mem_set member with old | rfl
  · rw [List.eq_of_mem_replicate old,List.length_replicate]
  · rw [List.length_set,List.length_replicate]

theorem marked_drop (inside : b.position/b.baseSize < b.nodes.length) (place : Nat) :
    ∃ rest, (b.marked place).drop (b.position/b.baseSize) = (List.replicate b.baseSize 0).set place 1 :: rest ∧
      ∀ node ∈ rest, ∀ byte ∈ node, byte = (0 : UInt8) := by
  have bound : b.position/b.baseSize < (b.marked place).length := by rw [(marked_uniform b place).2]; exact inside
  refine ⟨(b.marked place).drop (b.position/b.baseSize+1),?_,?_⟩
  · rw [List.drop_eq_getElem_cons bound]
    simp only [marked,List.getElem_set_self]
  · intro node member byte present
    rw [marked,List.drop_set_of_lt (Nat.lt_succ_self _)] at member
    rw [List.eq_of_mem_replicate (List.mem_of_mem_drop member)] at present
    exact List.eq_of_mem_replicate present

-- A byte from the cursor on, in the first block, that the first chunk does not
-- have at its place: the chunk ends before it, or begins elsewhere.
theorem missed_byte (valid : b.Valid) (broken : ¬b.Whole) :
    b.getReadSize ≠ 0 ∧ b.position % b.baseSize ≠ 0 ∧
    ∃ k, k < b.getReadSize ∧ b.position % b.baseSize+k < b.baseSize ∧
      ∀ len : Nat, narrow (b.position % b.baseSize)+len = min b.baseSize b.getReadSize →
        narrow (b.position % b.baseSize) ≠ (b.position % b.baseSize : Nat) ∨ len ≤ k := by
  have offset := Nat.mod_lt b.position valid.positive
  unfold Whole at broken
  push Not at broken
  obtain ⟨some,cut⟩ := broken
  refine ⟨some,by omega,?_⟩
  by_cases small : b.position % b.baseSize < 2^31
  · obtain ⟨begun,less⟩ := cut small
    refine ⟨b.getReadSize-b.position % b.baseSize,by omega,by omega,?_⟩
    intro len reach
    rw [narrow_small small] at reach
    exact .inr (by omega)
  · refine ⟨0,by omega,by omega,?_⟩
    intro len _
    left
    unfold narrow
    split <;> omega

theorem marked_missed (valid : b.Valid) (broken : ¬b.Whole) :
    ∃ place, ¬Dumped {b with nodes := b.marked place} := by
  have order := valid.position
  have fits := valid.size
  have offset := Nat.mod_lt b.position valid.positive
  obtain ⟨some,begun,k,asked,room,apart⟩ := missed_byte valid broken
  have inside : b.position < b.capacity := by unfold getReadSize at some; omega
  obtain ⟨here,within,_,_⟩ := valid.split inside
  refine ⟨b.position % b.baseSize+k,?_⟩
  rintro ⟨chunks,wrote,content⟩
  obtain ⟨uniform,count⟩ := marked_uniform b (b.position % b.baseSize+k)
  obtain ⟨rest,nodes,blank⟩ := marked_drop within (b.position % b.baseSize+k)
  have chain : chain {b with nodes := b.marked (b.position % b.baseSize+k)} =
      (List.replicate b.baseSize 0).set (b.position % b.baseSize+k) 1 :: rest := by
    rw [ByteArray.chain,show b.cur = Option.some (b.position/b.baseSize) from here]
    exact nodes
  have done := dump_ok wrote
  rw [chain] at done
  rw [content_chain (with_nodes_valid valid uniform count) inside,chain] at content
  obtain ⟨len,_,_,later,begins,reach,rfl,loop⟩ := dumpLoop_first some done
  have zero := dumpLoop_zero blank loop
  have set : (((List.replicate b.baseSize 0).set (b.position % b.baseSize+k) 1 :: rest).flatten.drop
      (b.position % b.baseSize))[k]? = Option.some (1 : UInt8) := by
    rw [List.getElem?_drop,List.flatten_cons,
      List.getElem?_append_left (by rw [List.length_set,List.length_replicate]; exact room),
      List.getElem?_set_self (by rw [List.length_replicate]; exact room)]
  have left : k < getReadSize {b with nodes := b.marked (b.position % b.baseSize+k)} := asked
  have byte := congrArg (·[k]?) content
  dsimp only at byte left
  rw [List.getElem?_take_of_lt left,set,List.flatten_cons,List.getElem?_append] at byte
  split at byte
  · rename_i first
    rw [List.length_take] at first
    have other : narrow (b.position % b.baseSize) ≠ (b.position % b.baseSize : Nat) :=
      (apart len reach).resolve_right (by omega)
    have elsewhere : b.position % b.baseSize+k ≠ (narrow (b.position % b.baseSize)).toNat+k := by omega
    rw [List.getElem?_take_of_lt (by omega),List.getElem?_drop,List.getElem?_set_ne elsewhere] at byte
    have member := List.eq_of_mem_replicate (List.mem_of_getElem? byte)
    cases member
  · have member := zero 1 (List.mem_of_getElem? byte)
    cases member

theorem whole_dumped (valid : b.Valid) (whole : b.Whole) : b.Dumped := by
  obtain ⟨chunks,done,content⟩ := dumpLoop_whole valid whole
  exact ⟨chunks,by rw [writeToFile,if_pos rfl,done]; rfl,content⟩

-- The first part is about the array with any bytes in its blocks. With blocks
-- beyond the range of `int` a wrong offset can meet the same bytes by chance.
theorem writeToFile_exactly (path : Reached next anyStep Start b) :
    ((∀ nodes, Uniform b.baseSize nodes → nodes.length = b.nodes.length → Dumped {b with nodes := nodes}) ↔
      b.Whole) ∧
    (b.baseSize ≤ 2^31 → (b.Dumped ↔ b.Whole)) ∧ (b.Whole → b.Dumped) := by
  have valid := reached_valid path
  refine ⟨⟨?_,?_⟩,fun small => ⟨dumped_whole valid small,whole_dumped valid⟩,whole_dumped valid⟩
  · intro dumped
    by_contra broken
    obtain ⟨place,missed⟩ := marked_missed valid broken
    obtain ⟨uniform,count⟩ := marked_uniform b place
    exact missed (dumped _ uniform count)
  · intro whole nodes uniform count
    exact whole_dumped (with_nodes_valid valid uniform count) whole

theorem writeToFile_exactly_blocks : twoBlocks.Dumped ↔ twoBlocks.Whole :=
  (writeToFile_exactly twoBlocks_reached).2.1 (by decide)

-- One block of four bytes with the cursor behind the first byte.
def cutBlock : ByteArray := ⟨4,1,4,3,.big,[[1,2,3,0]],some 0⟩

theorem cutBlock_reached : Reached next anyStep Start cutBlock :=
  Reached.run (.start ⟨4,fun _ => 0,by decide,rfl⟩) along_any
    (show run next (initial 4 fun _ => 0) [.op (.write (fun _ => 0) [1,2,3]),.op (.setPosition 1)] = some cutBlock
      from rfl)

theorem writeToFile_cut : ¬∀ b : ByteArray, Reached next anyStep Start b → b.Dumped := by
  intro dumped
  obtain ⟨chunks,wrote,_⟩ := dumped cutBlock cutBlock_reached
  have fails : cutBlock.writeToFile true = .error .nullNode := by decide +kernel
  rw [fails] at wrote
  cases wrote

end ByteArray
end Fishjoy
