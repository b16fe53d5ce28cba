import Fishjoy.ByteArraySegments

namespace Fishjoy
open Blocks Transition

-- The socket and its peer. Call number `call` on the socket finds it connected
-- or not, and with `offered` bytes to move it returns `rt call offered`.
structure Network where
  incoming : Nat → UInt8
  connected : Nat → Bool
  rt : Nat → Nat → Int
  bounded : ∀ call offered, rt call offered ≤ offered

namespace Network

-- What a call gives back; on a socket that is not connected it never reaches
-- the kernel.
def result (net : Network) (call offered : Nat) : Int := if net.connected call then net.rt call offered else -1

-- The calls from number `call` on move `lens` of the `left` bytes, none of them
-- nothing.
def Moving (net : Network) : Nat → Nat → List Nat → Prop
  | _,_,[] => True
  | call,left,len :: lens =>
    0 < len ∧ net.connected call = true ∧ net.rt call left = len ∧ net.Moving (call+1) (left-len) lens

-- The calls that moved `count` of `length` bytes, and the one that failed
-- where that is not all.
def Called (net : Network) (call length count calls : Nat) (rt : Int) : Prop :=
  ∃ lens, net.Moving call length lens ∧ lens.sum = count ∧
    (count = length ∧ calls = call+lens.length ∨
      count < length ∧ calls = call+lens.length+1 ∧ rt ≤ 0 ∧ rt = net.result (call+lens.length) (length-count))

theorem result_bounded (net : Network) (call offered : Nat) : net.result call offered ≤ offered := by
  unfold result
  split
  · exact net.bounded _ _
  · omega

theorem result_positive {net : Network} (some : 0 < net.result call offered) :
    net.connected call = true ∧ net.rt call offered = net.result call offered := by
  unfold result at *
  by_cases up : net.connected call = true
  · simp [up]
  · simp [up] at some

-- One more call ahead of the others.
theorem Called.cons {net : Network} {len rt : Int} (same : net.result call left = len) (some : 0 < len)
    (later : net.Called (call+1) (left-len.toNat) count calls rt) :
    net.Called call left (len.toNat+count) calls rt := by
  obtain ⟨lens,moving,rfl,ended⟩ := later
  have bound := net.result_bounded call left
  subst same
  obtain ⟨up,same⟩ := result_positive some
  refine ⟨(net.result call left).toNat :: lens,⟨by omega,up,by omega,moving⟩,by simp,?_⟩
  rw [List.length_cons]
  cases ended with
  | inl whole => exact .inl (by omega)
  | inr cut =>
      obtain ⟨fewer,number,failed,last⟩ := cut
      rw [Nat.sub_sub,Nat.add_right_comm call] at last
      exact .inr ⟨by omega,by omega,failed,last⟩

end Network

def window (memory : Nat → UInt8) (start count : Nat) : List UInt8 :=
  (List.range count).map fun i => memory (start+i)

def store (memory : Nat → UInt8) (start : Nat) (bytes : List UInt8) : Nat → UInt8 :=
  fun i => if i < start then memory i else bytes[i-start]?.getD (memory i)

-- How far the incoming stream is consumed, and all that was sent.
structure Socket where
  calls : Nat
  received : Nat
  sent : List UInt8

namespace Socket

-- A call that fails or finds the stream closed moves no byte.
def recv (net : Network) (s : Socket) (length : Nat) : Int × List UInt8 × Socket :=
  if net.connected s.calls then
    let rt := net.rt s.calls length
    (rt,window net.incoming s.received rt.toNat,{s with calls := s.calls+1,received := s.received+rt.toNat})
  else (-1,[],{s with calls := s.calls+1})

def send (net : Network) (s : Socket) (bytes : List UInt8) : Int × Socket :=
  if net.connected s.calls then
    let rt := net.rt s.calls bytes.length
    (rt,{s with calls := s.calls+1,sent := s.sent ++ bytes.take rt.toNat})
  else (-1,{s with calls := s.calls+1})

end Socket

-- The overloads on a raw buffer take the memory at `buffer` and an offset in
-- it; the ones on a `ByteArray` have its name in theirs.
namespace SocketStream
variable (net : Network)

def read (length offset : Nat) (buffer : Nat → UInt8) (s : Socket) : Int × (Nat → UInt8) × Socket :=
  if net.connected s.calls then
    let (rt,bytes,s) := s.recv net length
    (rt,store buffer offset bytes,s)
  else (-1,buffer,{s with calls := s.calls+1})

-- `memory call` is what `new` leaves in the blocks of that call.
def readByteArray (memory : Nat → Nat → UInt8) (length : Nat) (ba : ByteArray) (s : Socket) :
    Except ByteArray.Fault (Int × ByteArray × Socket) :=
  if net.connected s.calls then do
    let (_,iovs,ba) ← ba.getWriteBuffers (memory s.calls) length
    let (rt,bytes,s) := s.recv net (total iovs)
    let ba := ba.fill iovs bytes
    if 0 < rt then
      let ba ← ba.setPosition (ba.position+rt.toNat)
      return (rt,ba,s)
    else return (rt,ba,s)
  else .ok (-1,ba,{s with calls := s.calls+1})

def write (length offset : Nat) (buffer : Nat → UInt8) (s : Socket) : Int × Socket :=
  if net.connected s.calls then s.send net (window buffer offset length)
  else (-1,{s with calls := s.calls+1})

def writeByteArray (length : Nat) (ba : ByteArray) (s : Socket) : Except ByteArray.Fault (Int × ByteArray × Socket) :=
  if net.connected s.calls then do
    let (_,iovs) ← ba.getReadBuffers length
    let (rt,s) := s.send net (gather ba.nodes iovs)
    if 0 < rt then
      let ba ← ba.setPosition (ba.position+rt.toNat)
      return (rt,ba,s)
    else return (rt,ba,s)
  else .ok (-1,ba,{s with calls := s.calls+1})

end SocketStream

namespace Stream

-- `size_t` to `int`.
def toInt (length : Nat) : Int := Int.bmod length (2^32)

-- The loop of the four functions. `move` calls `read` or `write` with what is
-- left, and takes the offset along.
def fixSize {State Fault : Type} (move : Nat → State → Except Fault (Int × State)) (length left : Nat) (s : State) :
    Except Fault (Int × State) :=
  if _ : 0 < left then
    match move left s with
    | .error fault => .error fault
    | .ok (len,s) => if _ : len ≤ 0 then .ok (len,s) else fixSize move length (left-len.toNat) s
  else .ok (toInt length,s)
termination_by left
decreasing_by omega

variable (net : Network)

def readMove (left : Nat) : Nat × (Nat → UInt8) × Socket → Except ByteArray.Fault (Int × Nat × (Nat → UInt8) × Socket)
  | (offset,buffer,s) =>
    let (len,buffer,s) := SocketStream.read net left offset buffer s
    .ok (len,offset+len.toNat,buffer,s)

def readFixSize (length : Nat) (buffer : Nat → UInt8) (s : Socket) :
    Except ByteArray.Fault (Int × Nat × (Nat → UInt8) × Socket) :=
  fixSize (readMove net) length length (0,buffer,s)

def readFixSizeByteArray (memory : Nat → Nat → UInt8) (length : Nat) (ba : ByteArray) (s : Socket) :
    Except ByteArray.Fault (Int × ByteArray × Socket) :=
  fixSize (fun left (ba,s) => SocketStream.readByteArray net memory left ba s) length length (ba,s)

def writeMove (buffer : Nat → UInt8) (left : Nat) : Nat × Socket → Except ByteArray.Fault (Int × Nat × Socket)
  | (offset,s) =>
    let (len,s) := SocketStream.write net left offset buffer s
    .ok (len,offset+len.toNat,s)

def writeFixSize (length : Nat) (buffer : Nat → UInt8) (s : Socket) :
    Except ByteArray.Fault (Int × Nat × Socket) :=
  fixSize (writeMove net buffer) length length (0,s)

def writeFixSizeByteArray (length : Nat) (ba : ByteArray) (s : Socket) :
    Except ByteArray.Fault (Int × ByteArray × Socket) :=
  fixSize (fun left (ba,s) => SocketStream.writeByteArray net left ba s) length length (ba,s)

end Stream

theorem window_length (memory : Nat → UInt8) (start count : Nat) : (window memory start count).length = count := by
  simp [window]

theorem window_add (memory : Nat → UInt8) (start first second : Nat) :
    window memory start (first+second) = window memory start first ++ window memory (start+first) second := by
  simp [window,List.range_add,Nat.add_assoc]

theorem window_take (memory : Nat → UInt8) (start : Nat) (fits : count ≤ length) :
    (window memory start length).take count = window memory start count := by
  have parts := window_add memory start count (length-count)
  rw [Nat.add_sub_cancel' fits] at parts
  rw [parts,List.take_left' (window_length _ _ _)]

theorem store_append (memory : Nat → UInt8) (first second : List UInt8) :
    store (store memory 0 first) first.length second = store memory 0 (first ++ second) := by
  funext i
  simp only [store,Nat.not_lt_zero,if_false,Nat.sub_zero]
  by_cases early : i < first.length
  · rw [if_pos early,List.getElem?_append_left early]
  · rw [if_neg early,List.getElem?_append_right (Nat.le_of_not_lt early),
      List.getElem?_eq_none (Nat.le_of_not_lt early),Option.getD_none]

theorem store_nothing (memory : Nat → UInt8) (start : Nat) : store memory start [] = memory := by
  funext i
  simp [store]

namespace Socket
variable (net : Network) (s : Socket)

theorem recv_spec (length : Nat) : s.recv net length = (net.result s.calls length,
    window net.incoming s.received (net.result s.calls length).toNat,
    ⟨s.calls+1,s.received+(net.result s.calls length).toNat,s.sent⟩) := by
  unfold recv Network.result
  by_cases up : net.connected s.calls = true
  · rw [if_pos up,if_pos up]
  · rw [if_neg up,if_neg up]
    rfl

theorem send_spec (bytes : List UInt8) : s.send net bytes = (net.result s.calls bytes.length,
    ⟨s.calls+1,s.received,s.sent ++ bytes.take (net.result s.calls bytes.length).toNat⟩) := by
  unfold send Network.result
  by_cases up : net.connected s.calls = true
  · rw [if_pos up,if_pos up]
  · rw [if_neg up,if_neg up]
    simp

end Socket

namespace SocketStream
variable (net : Network) (s : Socket)

theorem read_spec (length offset : Nat) (buffer : Nat → UInt8) : read net length offset buffer s =
    (net.result s.calls length,
      store buffer offset (window net.incoming s.received (net.result s.calls length).toNat),
      ⟨s.calls+1,s.received+(net.result s.calls length).toNat,s.sent⟩) := by
  unfold read
  by_cases up : net.connected s.calls = true
  · rw [if_pos up,s.recv_spec net length]
  · rw [if_neg up,Network.result,if_neg up]
    simp [window,store_nothing]

theorem write_spec (length offset : Nat) (buffer : Nat → UInt8) : write net length offset buffer s =
    (net.result s.calls length,
      ⟨s.calls+1,s.received,s.sent ++ window buffer offset (net.result s.calls length).toNat⟩) := by
  have bound := net.result_bounded s.calls length
  unfold write
  by_cases up : net.connected s.calls = true
  · rw [if_pos up,s.send_spec net,window_length,window_take _ _ (by omega)]
  · rw [if_neg up,Network.result,if_neg up]
    simp [window]

theorem readByteArray_spec (memory : Nat → Nat → UInt8) (valid : b.Valid) (left : 0 < length)
    (same : (net.result s.calls length).toNat = count) :
    ∃ after, readByteArray net memory length b s =
        .ok (net.result s.calls length,after,⟨s.calls+1,s.received+count,s.sent⟩) ∧ after.Valid ∧
      after.position = b.position+count ∧ after.size = max b.size (b.position+count) ∧
      after.flat.content = overwrite b.flat.content b.position (window net.incoming s.received count) := by
  have order := valid.position
  have bound := net.result_bounded s.calls length
  unfold readByteArray
  by_cases up : net.connected s.calls = true
  · obtain ⟨iovs,grown,views,shape,sum,within,place,fits,_,position,size,kept⟩ :=
      ByteArray.getWriteBuffers_spec valid (memory s.calls) length left
    obtain ⟨after,sought,sound,_,there,last,content⟩ := ByteArray.fill_spec shape within place
      (show (window net.incoming s.received count).length ≤ total iovs by rw [window_length,sum]; omega)
      (by rw [sum]; exact fits)
    rw [window_length] at sought there last
    rw [position] at sought there last content
    rw [kept] at content
    rw [size] at last
    rw [if_pos up,views]
    simp only [Except.bind,bind,s.recv_spec net,sum,same]
    by_cases some : 0 < net.result s.calls length
    · rw [if_pos some,show (grown.fill iovs _).position = b.position from position,sought]
      exact ⟨after,rfl,sound,there,last,content⟩
    · have none : count = 0 := by omega
      subst none
      rw [if_neg some]
      have still := ByteArray.fill_nothing shape within place
      refine ⟨_,rfl,ByteArray.fill_valid shape within _,position,size.trans (Nat.max_eq_left order).symm,?_⟩
      rw [show window net.incoming s.received 0 = [] from rfl,overwrite_nothing,still,kept]
  · rw [Network.result,if_neg up] at *
    rw [if_neg up]
    subst same
    refine ⟨b,rfl,valid,rfl,(Nat.max_eq_left order).symm,?_⟩
    rw [show window net.incoming s.received (Int.toNat (-1)) = [] from rfl,overwrite_nothing]

theorem writeByteArray_spec (valid : b.Valid) (enough : length ≤ b.getReadSize)
    (same : (net.result s.calls length).toNat = count) :
    ∃ after, writeByteArray net length b s = .ok (net.result s.calls length,after,
        ⟨s.calls+1,s.received,s.sent ++ (b.flat.content.drop b.position).take count⟩) ∧ after.Valid ∧
      after.position = b.position+count ∧ after.size = b.size ∧ after.flat.content = b.flat.content := by
  have order := valid.position
  have fits := valid.size
  have bound := net.result_bounded s.calls length
  unfold writeByteArray
  by_cases up : net.connected s.calls = true
  · obtain ⟨iovs,views,_,content⟩ := ByteArray.getReadBuffers_spec valid length
    have width := valid.content_length
    rw [Nat.min_eq_left enough] at views content
    unfold ByteArray.getReadSize at enough
    have whole : ((b.flat.content.drop b.position).take length).length = length := by
      rw [List.length_take,List.length_drop,width]
      omega
    rw [if_pos up,views]
    simp only [Except.bind,bind,content,s.send_spec net,whole,same]
    rw [List.take_take,Nat.min_eq_left (by omega)]
    by_cases some : 0 < net.result s.calls length
    · obtain ⟨after,sought,sound,there,last,kept⟩ :=
        ByteArray.setPosition_inside valid (show b.position+count ≤ b.size by omega)
      rw [if_pos some,sought]
      exact ⟨after,rfl,sound,there,last,kept⟩
    · have none : count = 0 := by omega
      subst none
      rw [if_neg some]
      exact ⟨b,rfl,valid,rfl,rfl,rfl⟩
  · rw [Network.result,if_neg up] at *
    rw [if_neg up]
    subst same
    exact ⟨b,by simp,valid,rfl,rfl,rfl⟩

end SocketStream

namespace Stream

section moves
variable (net : Network) {length : Nat} (buffer : Nat → UInt8) (b : ByteArray) (s : Socket)

-- How a call ends once `count` bytes are moved.
def Ended (call length count calls : Nat) (rt : Int) : Prop :=
  count ≤ length ∧ (rt = toInt length ∧ count = length ∨ rt ≤ 0 ∧ count < length) ∧
    net.Called call length count calls rt

-- `P moved calls` holds of the state once `moved` bytes are moved and call
-- number `calls` is next.
theorem fixSize_spec {State Fault : Type} {move : Nat → State → Except Fault (Int × State)}
    (P : Nat → Nat → State → Prop)
    (step : ∀ moved calls left s, moved+left = length → 0 < left → P moved calls s →
      ∃ after, move left s = .ok (net.result calls left,after) ∧
        P (moved+(net.result calls left).toNat) (calls+1) after)
    {s : State} (whole : moved+left = length) (start : P moved call s) :
    ∃ rt count calls after, fixSize move length left s = .ok (rt,after) ∧ P (moved+count) calls after ∧
      count ≤ left ∧ (rt = toInt length ∧ count = left ∨ rt ≤ 0 ∧ count < left) ∧
      net.Called call left count calls rt := by
  induction left using Nat.strongRecOn generalizing moved call s with
  | ind left ih =>
      unfold fixSize
      by_cases more : 0 < left
      · obtain ⟨after,done,kept⟩ := step moved call left s whole more start
        have bound := net.result_bounded call left
        rw [dif_pos more,done]
        by_cases stopped : net.result call left ≤ 0
        · rw [show (net.result call left).toNat = 0 by omega] at kept
          dsimp only
          rw [dif_pos stopped]
          exact ⟨_,0,call+1,after,rfl,kept,by omega,.inr ⟨stopped,more⟩,[],trivial,rfl,
            .inr ⟨more,rfl,stopped,rfl⟩⟩
        · dsimp only
          rw [dif_neg stopped]
          obtain ⟨rt,count,calls,last,ran,holds,fits,ended,called⟩ :=
            ih (left-(net.result call left).toNat) (by omega) (by omega) kept
          refine ⟨rt,(net.result call left).toNat+count,calls,last,ran,?_,by omega,by omega,
            called.cons rfl (by omega)⟩
          rw [←Nat.add_assoc]
          exact holds
      · rw [dif_neg more]
        exact ⟨_,0,call,s,rfl,start,by omega,.inl ⟨rfl,by omega⟩,[],trivial,rfl,.inl ⟨by omega,rfl⟩⟩

-- From the first call on.
theorem fixSize_ended {State Fault : Type} {move : Nat → State → Except Fault (Int × State)}
    (P : Nat → Nat → State → Prop)
    (step : ∀ moved calls left s, moved+left = length → 0 < left → P moved calls s →
      ∃ after, move left s = .ok (net.result calls left,after) ∧
        P (moved+(net.result calls left).toNat) (calls+1) after)
    {s : State} (start : P 0 call s) :
    ∃ rt count calls after, fixSize move length length s = .ok (rt,after) ∧ P count calls after ∧
      Ended net call length count calls rt := by
  obtain ⟨rt,count,calls,after,done,holds,ended⟩ := fixSize_spec net P step (Nat.zero_add length) start
  rw [Nat.zero_add] at holds
  exact ⟨rt,count,calls,after,done,holds,ended⟩

-- The loops after `moved` bytes.
def Stored (moved calls : Nat) (state : Nat × (Nat → UInt8) × Socket) : Prop :=
  state = (moved,store buffer 0 (window net.incoming s.received moved),⟨calls,s.received+moved,s.sent⟩)

def Sent (moved calls : Nat) (state : Nat × Socket) : Prop :=
  state = (moved,⟨calls,s.received,s.sent ++ window buffer 0 moved⟩)

def StoredIn (moved calls : Nat) (state : ByteArray × Socket) : Prop :=
  state.1.Valid ∧ state.1.position = b.position+moved ∧ state.1.size = max b.size (b.position+moved) ∧
    state.1.flat.content = overwrite b.flat.content b.position (window net.incoming s.received moved) ∧
    state.2 = ⟨calls,s.received+moved,s.sent⟩

def SentFrom (moved calls : Nat) (state : ByteArray × Socket) : Prop :=
  state.1.Valid ∧ state.1.position = b.position+moved ∧ state.1.size = b.size ∧
    state.1.flat.content = b.flat.content ∧
    state.2 = ⟨calls,s.received,s.sent ++ (b.flat.content.drop b.position).take moved⟩

theorem readMove_spec (left : Nat) (kept : Stored net buffer s moved calls state) : ∃ after,
    readMove net left state = .ok (net.result calls left,after) ∧
      Stored net buffer s (moved+(net.result calls left).toNat) (calls+1) after := by
  subst kept
  have joined := store_append buffer (window net.incoming s.received moved)
    (window net.incoming (s.received+moved) (net.result calls left).toNat)
  rw [window_length,←window_add] at joined
  refine ⟨_,by rw [readMove,SocketStream.read_spec],?_⟩
  rw [Stored,joined,Nat.add_assoc]

theorem writeMove_spec (left : Nat) (kept : Sent buffer s moved calls state) : ∃ after,
    writeMove net buffer left state = .ok (net.result calls left,after) ∧
      Sent buffer s (moved+(net.result calls left).toNat) (calls+1) after := by
  subst kept
  refine ⟨_,by rw [writeMove,SocketStream.write_spec],?_⟩
  rw [Sent,window_add,Nat.zero_add,List.append_assoc]

theorem readByteArray_keeps (memory : Nat → Nat → UInt8) (more : 0 < left) (start : b.position ≤ b.size)
    (width : b.flat.content.length = b.size) (kept : StoredIn net b s moved calls state) : ∃ after,
    SocketStream.readByteArray net memory left state.1 state.2 = .ok (net.result calls left,after) ∧
      StoredIn net b s (moved+(net.result calls left).toNat) (calls+1) after := by
  obtain ⟨array,socket⟩ := state
  obtain ⟨shape,position,size,content,same⟩ := kept
  subst same
  obtain ⟨after,read,sound,there,last,bytes⟩ := SocketStream.readByteArray_spec net
    ⟨calls,s.received+moved,s.sent⟩ memory shape more (show (net.result calls left).toNat = _ from rfl)
  dsimp only at position size content
  rw [position] at there last bytes
  rw [size] at last
  have joined := overwrite_twice b.flat.content b.position (window net.incoming s.received moved)
    (window net.incoming (s.received+moved) (net.result calls left).toNat) (by rw [width]; exact start)
  rw [window_length,←window_add] at joined
  refine ⟨_,read,sound,?_,?_,?_,?_⟩
  · rw [there,Nat.add_assoc]
  · rw [last]; omega
  · rw [bytes,content,joined]
  · rw [Nat.add_assoc]

theorem writeByteArray_keeps (enough : moved+left ≤ b.getReadSize) (kept : SentFrom b s moved calls state) :
    ∃ after, SocketStream.writeByteArray net left state.1 state.2 = .ok (net.result calls left,after) ∧
      SentFrom b s (moved+(net.result calls left).toNat) (calls+1) after := by
  obtain ⟨shape,position,size,content,same⟩ := kept
  have rest : left ≤ state.1.getReadSize := by
    unfold ByteArray.getReadSize at *
    omega
  obtain ⟨after,wrote,sound,there,last,bytes⟩ := SocketStream.writeByteArray_spec net state.2 shape rest rfl
  rw [same] at wrote there
  rw [content,position] at wrote
  refine ⟨_,by rw [same]; exact wrote,sound,?_,last.trans size,bytes.trans content,?_⟩
  · rw [there,position,Nat.add_assoc]
  · rw [List.take_add,List.append_assoc,List.drop_drop]

theorem readFixSize_spec (length : Nat) : ∃ rt count calls, readFixSize net length buffer s =
    .ok (rt,count,store buffer 0 (window net.incoming s.received count),⟨calls,s.received+count,s.sent⟩) ∧
    Ended net s.calls length count calls rt := by
  obtain ⟨rt,count,calls,after,done,rfl,ended⟩ := fixSize_ended net (Stored net buffer s)
    (fun _ _ left _ _ _ kept => readMove_spec net buffer s left kept)
    (show Stored net buffer s 0 s.calls (0,buffer,s) by
      rw [Stored,show window net.incoming s.received 0 = [] from rfl,store_nothing]; rfl)
  exact ⟨rt,count,calls,done,ended⟩

theorem writeFixSize_spec (length : Nat) : ∃ rt count calls, writeFixSize net length buffer s =
    .ok (rt,count,⟨calls,s.received,s.sent ++ window buffer 0 count⟩) ∧
    Ended net s.calls length count calls rt := by
  obtain ⟨rt,count,calls,after,done,rfl,ended⟩ := fixSize_ended net (Sent buffer s)
    (fun _ _ left _ _ _ kept => writeMove_spec net buffer s left kept)
    (show Sent buffer s 0 s.calls (0,s) by
      rw [Sent,show window buffer 0 0 = [] from rfl,List.append_nil])
  exact ⟨rt,count,calls,done,ended⟩

theorem readFixSizeByteArray_spec (memory : Nat → Nat → UInt8) (valid : b.Valid) (length : Nat) :
    ∃ rt count calls after, readFixSizeByteArray net memory length b s =
        .ok (rt,after,⟨calls,s.received+count,s.sent⟩) ∧ Ended net s.calls length count calls rt ∧
      after.position = b.position+count ∧ after.size = max b.size (b.position+count) ∧
      after.flat.content = overwrite b.flat.content b.position (window net.incoming s.received count) := by
  have order := valid.position
  obtain ⟨rt,count,calls,⟨after,_⟩,done,⟨_,position,size,content,rfl⟩,ended⟩ := fixSize_ended net
    (StoredIn net b s)
    (fun _ _ _ _ _ more kept => readByteArray_keeps net b s memory more order valid.content_length kept)
    (show StoredIn net b s 0 s.calls (b,s) from ⟨valid,rfl,(Nat.max_eq_left order).symm,
      (overwrite_nothing _ _).symm,rfl⟩)
  exact ⟨rt,count,calls,after,done,ended,position,size,content⟩

theorem writeFixSizeByteArray_spec (valid : b.Valid) (enough : length ≤ b.getReadSize) :
    ∃ rt count calls after, writeFixSizeByteArray net length b s =
        .ok (rt,after,⟨calls,s.received,s.sent ++ (b.flat.content.drop b.position).take count⟩) ∧
      Ended net s.calls length count calls rt ∧ after.position = b.position+count ∧ after.size = b.size ∧
      after.flat.content = b.flat.content := by
  obtain ⟨rt,count,calls,⟨after,_⟩,done,⟨_,position,size,content,rfl⟩,ended⟩ := fixSize_ended net
    (SentFrom b s)
    (fun _ _ _ _ (whole : _ = length) _ kept => writeByteArray_keeps net b s (by rw [whole]; exact enough) kept)
    (show SentFrom b s 0 s.calls (b,s) from ⟨valid,rfl,rfl,rfl,by simp⟩)
  exact ⟨rt,count,calls,after,done,ended,position,size,content⟩

end moves

theorem toInt_small (bound : length < 2^31) : toInt length = length := by
  apply Int.bmod_eq_of_le
  · omega
  · omega

-- What comes back tells whether all was moved.
theorem Ended.exact {net : Network} {rt : Int} {length count : Nat}
    (ended : Ended net call length count calls rt) (positive : 0 < length) (bound : length < 2^31) :
    (rt = length ↔ count = length) ∧ (rt ≠ length → rt ≤ 0) ∧ net.Called call length count calls rt := by
  obtain ⟨_,ended,called⟩ := ended
  rw [toInt_small bound] at ended
  exact ⟨by omega,by omega,called⟩

-- What a caller learns from the returned value, for a buffer and for an array:
-- other than `length` it is that of the one call that failed, and all that the
-- calls before it moved is there.
structure FixSize (net : Network) (memory : Nat → Nat → UInt8) (buffer : Nat → UInt8) (b : ByteArray) (s : Socket)
    (length : Nat) : Prop where
  reading : ∃ (rt : Int) (count calls : Nat), readFixSize net length buffer s =
      .ok (rt,count,store buffer 0 (window net.incoming s.received count),⟨calls,s.received+count,s.sent⟩) ∧
    count ≤ length ∧ (rt = length ↔ count = length) ∧ (rt ≠ length → rt ≤ 0) ∧
    net.Called s.calls length count calls rt
  readingByteArray : ∃ (rt : Int) (count calls : Nat) (after : ByteArray),
    readFixSizeByteArray net memory length b s = .ok (rt,after,⟨calls,s.received+count,s.sent⟩) ∧
    after.flat.content = overwrite b.flat.content b.position (window net.incoming s.received count) ∧
    after.position = b.position+count ∧ after.size = max b.size (b.position+count) ∧
    count ≤ length ∧ (rt = length ↔ count = length) ∧ (rt ≠ length → rt ≤ 0) ∧
    net.Called s.calls length count calls rt
  writing : ∃ (rt : Int) (count calls : Nat), writeFixSize net length buffer s =
      .ok (rt,count,⟨calls,s.received,s.sent ++ window buffer 0 count⟩) ∧
    count ≤ length ∧ (rt = length ↔ count = length) ∧ (rt ≠ length → rt ≤ 0) ∧
    net.Called s.calls length count calls rt
  writingByteArray : length ≤ b.getReadSize → ∃ (rt : Int) (count calls : Nat) (after : ByteArray),
    writeFixSizeByteArray net length b s =
      .ok (rt,after,⟨calls,s.received,s.sent ++ (b.flat.content.drop b.position).take count⟩) ∧
    after.flat.content = b.flat.content ∧ after.position = b.position+count ∧ after.size = b.size ∧
    count ≤ length ∧ (rt = length ↔ count = length) ∧ (rt ≠ length → rt ≤ 0) ∧
    net.Called s.calls length count calls rt

theorem fixSize_moves (net : Network) (memory : Nat → Nat → UInt8) (buffer : Nat → UInt8) (s : Socket)
    (path : Reached ByteArray.next anyStep ByteArray.Start b) (positive : 0 < length) (bound : length < 2^31) :
    FixSize net memory buffer b s length := by
  have valid := ByteArray.reached_valid path
  refine ⟨?_,?_,?_,?_⟩
  · obtain ⟨rt,count,calls,done,ended⟩ := readFixSize_spec net buffer s length
    exact ⟨rt,count,calls,done,ended.1,ended.exact positive bound⟩
  · obtain ⟨rt,count,calls,after,done,ended,position,size,content⟩ :=
      readFixSizeByteArray_spec net b s memory valid length
    exact ⟨rt,count,calls,after,done,content,position,size,ended.1,ended.exact positive bound⟩
  · obtain ⟨rt,count,calls,done,ended⟩ := writeFixSize_spec net buffer s length
    exact ⟨rt,count,calls,done,ended.1,ended.exact positive bound⟩
  · intro enough
    obtain ⟨rt,count,calls,after,done,ended,position,size,content⟩ :=
      writeFixSizeByteArray_spec net b s valid enough
    exact ⟨rt,count,calls,after,done,content,position,size,ended.1,ended.exact positive bound⟩

-- Two bytes, no more, then the connection is closed.
def halting : Network where
  incoming i := UInt8.ofNat i
  connected call := call < 3
  rt call offered := if call < 2 then min 1 offered else 0
  bounded call offered := by split <;> omega

theorem fixSize_halting : FixSize halting (fun _ _ => 0) (fun i => UInt8.ofNat i) ByteArray.twoBlocks ⟨0,0,[]⟩ 3 :=
  fixSize_moves halting _ _ _ ByteArray.twoBlocks_reached (by decide) (by decide)

end Stream
end Fishjoy
