import Fishjoy.ByteArrayFile

namespace Fishjoy
open Blocks Transition

-- A file that could be opened. A read behind its bytes meets the end, or fails where
-- the file is broken, as a directory is.
structure InputFile where
  content : List UInt8
  broken : Bool

structure Ifstream where
  left : List UInt8
  broken : Bool
  eofbit : Bool
  badbit : Bool

namespace Ifstream

def opened (file : InputFile) : Ifstream := ⟨file.content,file.broken,false,false⟩

-- `read`, with the bytes that `gcount` counts.
def read (ifs : Ifstream) (n : Nat) : List UInt8 × Ifstream :=
  if ifs.eofbit || ifs.badbit then ([],ifs)
  else
    let bytes := ifs.left.take n
    if bytes.length < n then (bytes,{ifs with left := [],eofbit := !ifs.broken,badbit := ifs.broken})
    else (bytes,{ifs with left := ifs.left.drop n})

end Ifstream

namespace Buffer
variable {f : Buffer} {base : Nat}

-- Storage that grows twice has grown as for both at once.
theorem ceil_twice (positive : 0 < base) (reach more capacity : Nat) :
    base*((reach-capacity+base-1)/base)+
        base*((reach+more-(capacity+base*((reach-capacity+base-1)/base))+base-1)/base) =
      base*((reach+more-capacity+base-1)/base) := by
  generalize first : (reach-capacity+base-1)/base = k
  have covers := ByteArray.ceil_covers positive (reach-capacity)
  rw [first] at covers
  rw [←Nat.mul_add]
  congr 1
  by_cases within : reach+more-capacity ≤ base*k
  · have nothing : reach+more-(capacity+base*k) = 0 := by omega
    have least : (reach-capacity+base-1)/base ≤ (reach+more-capacity+base-1)/base := Nat.div_le_div_right (by omega)
    have most : (reach+more-capacity+base-1)/base ≤ k := by
      apply Nat.le_of_lt_succ
      rw [Nat.div_lt_iff_lt_mul positive,Nat.succ_mul,Nat.mul_comm]
      omega
    rw [nothing,Nat.div_eq_of_lt (by omega),Nat.add_zero]
    omega
  · have rest : reach+more-(capacity+base*k)+base-1 = reach+more-capacity+base-1-base*k := by omega
    rw [rest,Nat.sub_mul_div,Nat.add_sub_cancel']
    rw [Nat.le_div_iff_mul_le positive,Nat.mul_comm]
    omega

-- Two writes one behind the other are one write.
theorem write_twice (positive : 0 < base) (inside : f.position ≤ f.content.length) (memory : Nat → UInt8)
    (first second : List UInt8) :
    ((f.perform base (.write memory first)).1.perform base (.write memory second)).1 =
      (f.perform base (.write memory (first ++ second))).1 := by
  have covers := ByteArray.ceil_covers positive (f.position+first.length-f.capacity)
  have width : (overwrite f.content f.position first).length = max f.content.length (f.position+first.length) :=
    overwrite_length inside
  have fresh : (ByteArray.makeNode (f.growth base first.length) f.capacity memory).length = f.growth base first.length :=
    ByteArray.makeNode_length _ _
  have grown : (f.perform base (.write memory first)).1.capacity = f.capacity+f.growth base first.length := by
    rw [perform,capacity,width,List.length_drop,List.length_append,fresh]
    unfold growth capacity at *
    omega
  have again : (f.perform base (.write memory first)).1.growth base second.length =
      base*((f.position+first.length+second.length-(f.capacity+f.growth base first.length)+base-1)/base) := by
    rw [growth,grown]
    rfl
  have both : f.growth base first.length+(f.perform base (.write memory first)).1.growth base second.length =
      f.growth base (first ++ second).length := by
    rw [again,growth,growth,List.length_append,←Nat.add_assoc]
    exact ceil_twice positive _ _ _
  have joined : ByteArray.makeNode (f.growth base (first ++ second).length) f.capacity memory =
      ByteArray.makeNode (f.growth base first.length) f.capacity memory ++
        ByteArray.makeNode ((f.perform base (.write memory first)).1.growth base second.length)
          (f.perform base (.write memory first)).1.capacity memory := by
    rw [←both,ByteArray.makeNode_add,grown]
  have reaches : f.position+first.length-f.content.length ≤
      (f.behind ++ ByteArray.makeNode (f.growth base first.length) f.capacity memory).length := by
    rw [List.length_append,fresh]
    unfold growth capacity at *
    omega
  change Buffer.mk (overwrite (overwrite f.content f.position first) (f.position+first.length) second)
    (((f.behind ++ ByteArray.makeNode (f.growth base first.length) f.capacity memory).drop
        (f.position+first.length-f.content.length) ++
      ByteArray.makeNode ((f.perform base (.write memory first)).1.growth base second.length)
        (f.perform base (.write memory first)).1.capacity memory).drop
      (f.position+first.length+second.length-(overwrite f.content f.position first).length))
    (f.position+first.length+second.length) =
    Buffer.mk (overwrite f.content f.position (first ++ second))
      ((f.behind ++ ByteArray.makeNode (f.growth base (first ++ second).length) f.capacity memory).drop
        (f.position+(first ++ second).length-f.content.length)) (f.position+(first ++ second).length)
  rw [overwrite_twice _ _ _ _ inside,joined,width,List.length_append,←Nat.add_assoc,←List.append_assoc,
    ←List.drop_append_of_le_length reaches,List.drop_drop]
  congr 2
  omega

end Buffer

namespace ByteArray

-- The loop ends with `eof`; `gcount` bytes are written after each read.
def loadLoop (memory : Nat → UInt8) : Nat → Ifstream → ByteArray → Option (Except Fault ByteArray)
  | 0,_,_ => none
  | fuel+1,ifs,b =>
    if ifs.eofbit then some (.ok b)
    else
      let (buff,ifs) := ifs.read b.baseSize
      match b.write memory buff with
      | .error fault => some (.error fault)
      | .ok b => loadLoop memory fuel ifs b

def readFromFile (b : ByteArray) (memory : Nat → UInt8) (fuel : Nat) (file : Option InputFile) :
    Option (Except Fault (Bool × ByteArray)) :=
  match file with
  | none => some (.ok (false,b))
  | some file => (loadLoop memory fuel (.opened file) b).map fun done => done.map fun b => (true,b)

-- All that a file holds, written at once.
structure Loaded (b : ByteArray) (memory : Nat → UInt8) (content : List UInt8) (after : ByteArray) : Prop where
  valid : after.Valid
  base : after.baseSize = b.baseSize
  endian : after.endian = b.endian
  flat : after.flat = (b.flat.perform b.baseSize (.write memory content)).1

variable {b : ByteArray} {memory : Nat → UInt8} {content : List UInt8}

theorem read_good (content : List UInt8) (n : Nat) : (⟨content,false,false,false⟩ : Ifstream).read n =
    (content.take n,if (content.take n).length < n then ⟨[],false,true,false⟩ else ⟨content.drop n,false,false,false⟩) := by
  refine (if_neg Bool.false_ne_true).trans ?_
  dsimp only
  split <;> rfl

theorem loadLoop_loads (valid : b.Valid) (memory : Nat → UInt8) (content : List UInt8) :
    ∃ after, Loaded b memory content after ∧ ∀ fuel, content.length+2 ≤ fuel →
      loadLoop memory fuel ⟨content,false,false,false⟩ b = some (.ok after) := by
  generalize bound : content.length = n
  induction n using Nat.strongRecOn generalizing content b with
  | ind n ih =>
      have positive := valid.positive
      obtain ⟨middle,done,shape,base,endian,flat⟩ := write_spec valid memory (content.take b.baseSize)
      by_cases last : (content.take b.baseSize).length < b.baseSize
      · have all : content.take b.baseSize = content := by
          rw [List.length_take] at last
          exact List.take_of_length_le (by omega)
        refine ⟨middle,⟨shape,base,endian,by rw [flat,all]⟩,fun fuel enough => ?_⟩
        obtain ⟨fuel,rfl⟩ : ∃ rest, fuel = rest+2 := ⟨fuel-2,by omega⟩
        rw [loadLoop,if_neg Bool.false_ne_true,read_good,if_pos last]
        dsimp only
        rw [done]
        rfl
      · have less := last
        rw [List.length_take] at less
        obtain ⟨after,⟨final,base',endian',flat'⟩,loaded⟩ := ih (content.length-b.baseSize) (by omega) shape
          (content.drop b.baseSize) List.length_drop
        have inside : b.flat.position ≤ b.flat.content.length := by
          rw [valid.content_length]
          exact valid.position
        refine ⟨after,⟨final,base'.trans base,endian'.trans endian,?_⟩,fun fuel enough => ?_⟩
        · rw [flat',base,flat,Buffer.write_twice positive inside,List.take_append_drop]
        · obtain ⟨fuel,rfl⟩ : ∃ rest, fuel = rest+1 := ⟨fuel-1,by omega⟩
          rw [loadLoop,if_neg Bool.false_ne_true,read_good,if_neg last]
          dsimp only
          rw [done]
          exact loaded fuel (by omega)

-- Behind an error the stream never comes to its end.
theorem loadLoop_broken (fuel : Nat) (ifs : Ifstream) (valid : b.Valid) (running : ifs.eofbit = false)
    (broken : ifs.broken = true) : loadLoop memory fuel ifs b = none := by
  induction fuel generalizing ifs b with
  | zero => rfl
  | succ fuel ih =>
      obtain ⟨middle,done,shape,_⟩ := write_spec valid memory (ifs.read b.baseSize).1
      have later : (ifs.read b.baseSize).2.eofbit = false ∧ (ifs.read b.baseSize).2.broken = true := by
        unfold Ifstream.read
        dsimp only
        split
        · exact ⟨running,broken⟩
        · split
          · exact ⟨by rw [broken]; rfl,broken⟩
          · exact ⟨running,broken⟩
      rw [loadLoop,running,if_neg Bool.false_ne_true]
      rcases read : ifs.read b.baseSize with ⟨buff,rest⟩
      rw [read] at done later
      dsimp only at done later ⊢
      rw [done]
      exact ih rest shape later.1 later.2

-- What a call with enough rounds does.
def Loads (b : ByteArray) (memory : Nat → UInt8) (content : List UInt8) : Prop :=
  ∃ after, Loaded b memory content after ∧ ∀ fuel, content.length+2 ≤ fuel →
    b.readFromFile memory fuel (some ⟨content,false⟩) = some (.ok (true,after))

theorem readFromFile_loads (valid : b.Valid) (memory : Nat → UInt8) (content : List UInt8) : b.Loads memory content := by
  obtain ⟨after,shape,loaded⟩ := loadLoop_loads valid memory content
  refine ⟨after,shape,fun fuel enough => ?_⟩
  rw [readFromFile,Ifstream.opened,loaded fuel enough]
  rfl

-- `readFromFile` comes back exactly where no read fails, and has then written the
-- whole file; what `writeToFile` has written whole comes back so.
theorem readFromFile_exactly (path : Reached next anyStep Start b) (memory : Nat → UInt8) :
    (∀ file : InputFile, (∃ fuel, b.readFromFile memory fuel (some file) ≠ none) ↔ file.broken = false) ∧
    (∀ content, b.Loads memory content) ∧
    ∀ a : ByteArray, Reached next anyStep Start a → a.Whole → ∃ chunks, a.writeToFile true = .ok (true,chunks) ∧
      chunks.flatten = a.flat.content.drop a.position ∧ b.Loads memory chunks.flatten := by
  have valid := reached_valid path
  refine ⟨?_,readFromFile_loads valid memory,fun a reached whole => ?_⟩
  · rintro ⟨content,broken⟩
    cases broken with
    | true =>
        refine iff_of_false ?_ nofun
        rintro ⟨fuel,returned⟩
        rw [readFromFile,Ifstream.opened,loadLoop_broken fuel _ valid rfl rfl] at returned
        exact returned rfl
    | false =>
        obtain ⟨after,_,returned⟩ := readFromFile_loads valid memory content
        refine iff_of_true ⟨content.length+2,?_⟩ rfl
        rw [returned _ (Nat.le_refl _)]
        exact Option.some_ne_none _
  · obtain ⟨chunks,written,all⟩ := whole_dumped (reached_valid reached) whole
    exact ⟨chunks,written,all,readFromFile_loads valid memory chunks.flatten⟩

theorem readFromFile_exactly_blocks :
    (∀ file : InputFile, (∃ fuel, twoBlocks.readFromFile (fun _ => 0) fuel (some file) ≠ none) ↔ file.broken = false) ∧
    (∀ content, twoBlocks.Loads (fun _ => 0) content) ∧
    ∀ a : ByteArray, Reached next anyStep Start a → a.Whole → ∃ chunks, a.writeToFile true = .ok (true,chunks) ∧
      chunks.flatten = a.flat.content.drop a.position ∧ twoBlocks.Loads (fun _ => 0) chunks.flatten :=
  readFromFile_exactly twoBlocks_reached _

end ByteArray
end Fishjoy
