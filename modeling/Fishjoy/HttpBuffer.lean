import Fishjoy.HttpSession
import Mathlib.Algebra.Ring.Int.Defs
import Mathlib.Algebra.Ring.Nat

namespace Fishjoy.HttpBuffer

-- A parser of this repository around `http_parser_execute`, which parses no more
-- than it is given.
structure Machine (P : Type) where
  http_parser_execute : P → List UInt8 → Nat × P
  hasError : P → Bool
  isFinished : P → Bool
  within : ∀ p data, (http_parser_execute p data).1 ≤ data.length

-- An access to the buffer, which fails outside of it.
def get (memory : List UInt8) (start count : Nat) : Option (List UInt8) :=
  if start+count ≤ memory.length then some ((memory.drop start).take count) else none

def put (memory : List UInt8) (start : Nat) (bytes : List UInt8) : Option (List UInt8) :=
  if start+bytes.length ≤ memory.length then
    some (memory.take start ++ bytes ++ memory.drop (start+bytes.length))
  else none

def toInt (v : Int) : Int := v.bmod (2^32)

def toSize (v : Int) : Nat := (v%2^64).toNat

variable {P : Type} (m : Machine P)

-- `execute`, which moves what is not parsed to the front.
def execute (p : P) (memory : List UInt8) (len : Nat) : Option (Nat × P × List UInt8) := do
  let data ← get memory 0 len
  let (nparsed,p) := m.http_parser_execute p data
  if m.hasError p then return (nparsed,p,memory)
  if nparsed < len then
    let memory ← put memory 0 (← get memory nparsed (len-nparsed))
    return (nparsed,p,memory)
  return (nparsed,p,memory)

-- The state at the head of the loop; `stream` is what the peer has yet to
-- deliver, and `parsed` and `reads` are history.
structure Receiving (P : Type) where
  parser : P
  memory : List UInt8
  offset : Int
  stream : List UInt8
  parsed : List UInt8
  reads : List (List UInt8)

-- How the loop ends: with `close()`, or with a whole message.
structure Received (P : Type) where
  message : Option P
  stream : List UInt8
  parsed : List UInt8
  held : List UInt8
  reads : List (List UInt8)

def Receiving.closed (s : Receiving P) (stream : List UInt8) (reads : List (List UInt8)) : Received P :=
  ⟨none,stream,s.parsed,[],reads⟩

-- `data[len] = '\0'` of `recvResponse`.
def terminate (terminated : Bool) (memory : List UInt8) (len : Nat) : Option (List UInt8) :=
  if terminated then put memory len [0] else some memory

-- The loop of `recvRequest` and, with a zero behind the data, of `recvResponse`.
-- Each element of `ready` is what a read finds of the stream; without a further
-- one the peer has closed.
def recvLoop (buff_size : Nat) (terminated : Bool) : List Nat → Receiving P → Option (Received P)
  | [],s => some (s.closed s.stream s.reads)
  | ready :: later,s => do
    let read := s.stream.take (min ready (toSize (buff_size-s.offset)))
    let memory ← put s.memory (toSize s.offset) read
    let stream := s.stream.drop read.length
    if read = [] then return s.closed stream s.reads
    let reads := s.reads ++ [read]
    let len := toInt (read.length+s.offset)
    let memory ← terminate terminated memory (toSize len)
    let data ← get memory 0 (toSize len)
    let (nparse,parser,memory) ← execute m s.parser memory (toSize len)
    if m.hasError parser then return s.closed stream reads
    let offset := toInt (len-nparse)
    if offset = toInt buff_size then return s.closed stream reads
    let s : Receiving P := ⟨parser,memory,offset,stream,s.parsed ++ data.take nparse,reads⟩
    if m.isFinished parser then return ⟨some parser,stream,s.parsed,data.drop nparse,reads⟩
    recvLoop buff_size terminated later s

-- The loop over what is read, without a buffer.
def pass (buff_size : Nat) : P → List UInt8 → List (List UInt8) → Option P
  | _,_,[] => none
  | p,held,read :: reads =>
    let data := held ++ read
    let (nparse,p) := m.http_parser_execute p data
    if m.hasError p then none
    else if data.length-nparse = buff_size then none
    else if m.isFinished p then some p
    else pass buff_size p (data.drop nparse) reads

-- The parser was given what the peer sent, in order and once.
structure Faithful (buff_size : Nat) (start : P) (stream : List UInt8) (r : Received P) : Prop where
  message : r.message = pass m buff_size start [] r.reads
  taken : r.reads.flatten ++ r.stream = stream
  sizes : ∀ read ∈ r.reads, read ≠ [] ∧ read.length ≤ buff_size
  parsed : r.message ≠ none → r.parsed ++ r.held = r.reads.flatten

section Buffer
variable {m}

theorem get_append (start bytes : List UInt8) {rest memory : List UInt8} (whole : memory = start ++ bytes ++ rest) :
    get memory start.length bytes.length = some bytes := by
  subst whole
  have room : start.length+bytes.length ≤ (start ++ bytes ++ rest).length := by
    rw [List.length_append,List.length_append]
    exact Nat.le_add_right _ _
  rw [get,if_pos room,List.append_assoc,List.drop_left,List.take_left]

-- Bytes are laid over what stands behind the start.
theorem put_append (start bytes : List UInt8) {under rest memory : List UInt8} (whole : memory = start ++ under ++ rest)
    (same : under.length = bytes.length) : put memory start.length bytes = some (start ++ bytes ++ rest) := by
  subst whole
  have room : start.length+bytes.length ≤ (start ++ under ++ rest).length := by
    rw [List.length_append,List.length_append,same]
    exact Nat.le_add_right _ _
  have behind : start.length+bytes.length = (start ++ under).length := by rw [List.length_append,same]
  rw [put,if_pos room,behind,List.drop_left,List.append_assoc,List.append_assoc start under,List.take_left,
    ←List.append_assoc]

theorem toSize_nat (n : Nat) (small : n < 2^31) : toSize n = n := by
  unfold toSize
  omega

theorem toInt_nat (n : Nat) (small : n < 2^31) : toInt n = n := Int.bmod_eq_of_le (by omega) (by omega)

-- What is not parsed stands at the front of the buffer behind `execute`.
theorem execute_moves (p : P) {data rest memory : List UInt8} (whole : memory = data ++ rest) :
    ∃ memory', execute m p memory data.length =
        some ((m.http_parser_execute p data).1,(m.http_parser_execute p data).2,memory') ∧
      (m.hasError (m.http_parser_execute p data).2 = false → ∃ rest',
        memory' = data.drop (m.http_parser_execute p data).1 ++ rest' ∧ memory'.length = memory.length) := by
  have read : get memory 0 data.length = some data := get_append [] data whole
  have within := m.within p data
  rw [execute,read]
  rcases executed : m.http_parser_execute p data with ⟨n,q⟩
  rw [executed] at within
  simp only [Option.bind_eq_bind,Option.bind_some,executed]
  dsimp only at within
  cases error : m.hasError q with
  | true => exact ⟨memory,rfl,fun none => by cases none⟩
  | false =>
      rw [if_neg Bool.false_ne_true]
      by_cases less : n < data.length
      · have front := List.take_append_drop n data
        have cut : get memory n (data.length-n) = some (data.drop n) := by
          have laid : memory = data.take n ++ data.drop n ++ rest := by
            rw [front]
            exact whole
          have placed := get_append (data.take n) (data.drop n) laid
          rwa [List.length_take_of_le within,List.length_drop] at placed
        have long : (data.drop n).length ≤ data.length := by
          rw [List.length_drop]
          exact Nat.sub_le _ _
        have moved : put memory 0 (data.drop n) =
            some (data.drop n ++ (data.drop (data.drop n).length ++ rest)) := by
          have under : memory = [] ++ data.take (data.drop n).length ++ (data.drop (data.drop n).length ++ rest) := by
            rw [List.nil_append,←List.append_assoc,List.take_append_drop]
            exact whole
          exact put_append [] (data.drop n) under (List.length_take_of_le long)
        rw [if_pos less,cut]
        simp only [Option.bind_some,moved]
        refine ⟨_,rfl,fun _ => ⟨_,rfl,?_⟩⟩
        rw [whole,List.length_append,List.length_append,List.length_append]
        rw [List.length_drop (i := (data.drop n).length)]
        omega
      · rw [if_neg less]
        have all : data.drop n = [] := List.drop_eq_nil_of_le (Nat.le_of_not_lt less)
        exact ⟨memory,rfl,fun _ => ⟨memory,by rw [all]; rfl,rfl⟩⟩

-- What the head of the loop finds in the buffer.
structure Held (buff_size : Nat) (terminated : Bool) (s : Receiving P) (held : List UInt8) : Prop where
  offset : s.offset = held.length
  room : held.length ≤ buff_size
  front : ∃ rest, s.memory = held ++ rest
  size : s.memory.length = if terminated then buff_size+1 else buff_size
  parsed : s.parsed ++ held = s.reads.flatten

-- The sizes that are given to a read.
theorem offset_sizes {offset : Int} {buff_size kept : Nat} (here : offset = kept) (room : kept ≤ buff_size)
    (small : buff_size < 2^31) : toSize (buff_size-offset) = buff_size-kept ∧ toSize offset = kept := by
  rw [here]
  refine ⟨?_,toSize_nat _ (by omega)⟩
  unfold toSize
  omega

-- One pass keeps the buffer, or ends the loop.
inductive Passed (buff_size : Nat) (terminated : Bool) (later : List Nat) (s : Receiving P) (held : List UInt8)
    (read : List UInt8) : Option (Received P) → Prop where
  | ended (r : Received P) (message : r.message = pass m buff_size s.parser held [read])
      (reads : r.reads = s.reads ++ [read]) (rest : r.stream = s.stream.drop read.length)
      (parsed : r.message ≠ none → r.parsed ++ r.held = r.reads.flatten) :
      Passed buff_size terminated later s held read (some r)
  | going (t : Receiving P) (held' : List UInt8) (kept : Held buff_size terminated t held')
      (same : ∀ more, pass m buff_size s.parser held (read :: more) = pass m buff_size t.parser held' more)
      (reads : t.reads = s.reads ++ [read]) (rest : t.stream = s.stream.drop read.length) :
      Passed buff_size terminated later s held read (recvLoop m buff_size terminated later t)

-- What a read stores, with the zero behind it or not.
theorem stored (terminated : Bool) {memory held rest : List UInt8} (read : List UInt8) (whole : memory = held ++ rest)
    (room : read.length+(if terminated then 1 else 0) ≤ rest.length) :
    ∃ first second tail, put memory held.length read = some first ∧
      terminate terminated first (held ++ read).length = some second ∧
      second = held ++ read ++ tail ∧ second.length = memory.length := by
  have fits : (rest.take read.length).length = read.length := List.length_take_of_le (by omega)
  have laid : put memory held.length read = some (held ++ read ++ rest.drop read.length) :=
    put_append held read (by rw [List.append_assoc,List.take_append_drop]; exact whole) fits
  have same : (held ++ read ++ rest.drop read.length).length = memory.length := by
    rw [whole,List.length_append,List.length_append,List.length_append,List.length_drop]
    omega
  cases terminated with
  | false => exact ⟨_,_,_,laid,rfl,rfl,same⟩
  | true =>
      have one : 1 ≤ (rest.drop read.length).length := by
        rw [List.length_drop]
        exact Nat.le_sub_of_add_le' room
      have zero : held ++ read ++ rest.drop read.length =
          held ++ read ++ (rest.drop read.length).take 1 ++ (rest.drop read.length).drop 1 := by
        rw [List.append_assoc (held ++ read),List.take_append_drop]
      have closed := put_append (held ++ read) [0] zero (List.length_take_of_le one)
      refine ⟨_,_,[0] ++ (rest.drop read.length).drop 1,laid,closed,List.append_assoc _ _ _,?_⟩
      rw [List.length_append,List.length_drop] at same
      simp only [List.length_append,List.length_drop,List.length_singleton] at same one ⊢
      omega

theorem recvLoop_passes {buff_size : Nat} (small : buff_size < 2^31) {terminated : Bool} {s : Receiving P}
    {held : List UInt8} (kept : Held buff_size terminated s held) (ready : Nat) (later : List Nat) (read : List UInt8)
    (found : read = s.stream.take (min ready (buff_size-held.length))) (bytes : read ≠ []) :
    Passed (m := m) buff_size terminated later s held read (recvLoop m buff_size terminated (ready :: later) s) := by
  obtain ⟨offset,_,⟨rest,front⟩,size,parsed⟩ := kept
  have fits : read.length ≤ buff_size-held.length := by
    rw [found,List.length_take]
    omega
  have width := List.length_pos_iff.mpr bytes
  have data : (held ++ read).length = held.length+read.length := List.length_append
  have bounded : (held ++ read).length ≤ buff_size := by omega
  have room : read.length+(if terminated then 1 else 0) ≤ rest.length := by
    rw [front,List.length_append] at size
    cases terminated with
    | false => exact Nat.le_trans fits (by rw [if_neg Bool.false_ne_true] at size; omega)
    | true =>
        rw [if_pos rfl] at size ⊢
        omega
  obtain ⟨first,second,tail,laid,closed,whole,same⟩ := stored terminated read front room
  have seen : get second 0 (held ++ read).length = some (held ++ read) := get_append [] (held ++ read) whole
  obtain ⟨memory,executed,moves⟩ := execute_moves (m := m) s.parser whole
  have within := m.within s.parser (held ++ read)
  obtain ⟨offered,place⟩ := offset_sizes offset (by omega) small
  have len : toInt (read.length+s.offset) = ((held ++ read).length : Nat) := by
    have sum : (read.length : Int)+s.offset = ((held ++ read).length : Nat) := by
      rw [offset]
      omega
    rw [sum]
    exact toInt_nat _ (by omega)
  have count : toSize ((held ++ read).length : Nat) = (held ++ read).length := toSize_nat _ (by omega)
  rw [recvLoop,offered,place,←found]
  simp only [Option.bind_eq_bind,laid,Option.bind_some,if_neg bytes,len,count,closed,seen,executed]
  have steps : ∀ more, pass m buff_size s.parser held (read :: more) =
      let (nparse,p) := m.http_parser_execute s.parser (held ++ read)
      if m.hasError p then none
      else if (held ++ read).length-nparse = buff_size then none
      else if m.isFinished p then some p
      else pass m buff_size p ((held ++ read).drop nparse) more := fun _ => rfl
  rcases result : m.http_parser_execute s.parser (held ++ read) with ⟨n,p⟩
  rw [result] at within moves
  simp only [result] at steps
  have left : toInt ((((held ++ read).length : Nat) : Int)-n) = ((held ++ read).length-n : Nat) := by
    have sum : (((held ++ read).length : Nat) : Int)-n = ((held ++ read).length-n : Nat) := by omega
    rw [sum]
    exact toInt_nat _ (by omega)
  have full : toInt ((((held ++ read).length : Nat) : Int)-n) = toInt buff_size ↔ (held ++ read).length-n = buff_size := by
    rw [left,toInt_nat buff_size small]
    omega
  dsimp only
  cases error : m.hasError p with
  | true =>
      rw [if_pos rfl]
      refine .ended _ ?_ rfl rfl nofun
      rw [steps]
      exact (if_pos error).symm
  | false =>
      have noError : m.hasError p ≠ true := by rw [error]; exact Bool.false_ne_true
      rw [if_neg Bool.false_ne_true]
      by_cases overflow : (held ++ read).length-n = buff_size
      · rw [if_pos (full.mpr overflow)]
        refine .ended _ ?_ rfl rfl nofun
        rw [steps,if_neg noError,if_pos overflow]
        rfl
      · rw [if_neg (fun again => overflow (full.mp again))]
        have history : s.parsed ++ (held ++ read).take n ++ (held ++ read).drop n = (s.reads ++ [read]).flatten := by
          rw [List.append_assoc,List.take_append_drop,←List.append_assoc,parsed,List.flatten_append,
            List.flatten_singleton]
        cases finished : m.isFinished p with
        | true =>
            rw [if_pos rfl]
            refine .ended _ ?_ rfl rfl fun _ => history
            rw [steps,if_neg noError,if_neg overflow,if_pos finished]
        | false =>
            have more : m.isFinished p ≠ true := by rw [finished]; exact Bool.false_ne_true
            rw [if_neg Bool.false_ne_true]
            obtain ⟨behind,moved,size'⟩ := moves error
            refine .going _ ((held ++ read).drop n) ⟨?_,?_,⟨behind,moved⟩,?_,history⟩ ?_ rfl rfl
            · rw [left,List.length_drop]
            · rw [List.length_drop]
              exact (Nat.sub_le _ _).trans bounded
            · exact size'.trans (same.trans size)
            · intro later
              rw [steps,if_neg noError,if_neg overflow,if_neg more]

theorem recvLoop_ends {buff_size : Nat} {terminated : Bool} {s : Receiving P} {held : List UInt8}
    (kept : Held buff_size terminated s held) (small : buff_size < 2^31) (ready : Nat) (later : List Nat)
    (found : s.stream.take (min ready (buff_size-held.length)) = []) :
    recvLoop m buff_size terminated (ready :: later) s = some (s.closed s.stream s.reads) := by
  obtain ⟨offset,room,⟨rest,front⟩,_,_⟩ := kept
  obtain ⟨offered,place⟩ := offset_sizes offset (by omega) small
  have nothing : put s.memory held.length [] = some s.memory := by
    have whole : s.memory = held ++ [] ++ rest := by
      rw [List.append_nil]
      exact front
    have laid := put_append held [] whole rfl
    rwa [List.append_nil,←front] at laid
  rw [recvLoop,offered,place,found]
  simp only [Option.bind_eq_bind,nothing,Option.bind_some,List.length_nil,List.drop_zero]
  rfl

theorem recvLoop_faithful {buff_size : Nat} (small : buff_size < 2^31) (terminated : Bool) (ready : List Nat)
    (s : Receiving P) (held : List UInt8) (kept : Held buff_size terminated s held) :
    ∃ r reads, recvLoop m buff_size terminated ready s = some r ∧ r.reads = s.reads ++ reads ∧
      r.message = pass m buff_size s.parser held reads ∧ reads.flatten ++ r.stream = s.stream ∧
      (∀ read ∈ reads, read ≠ [] ∧ read.length ≤ buff_size) ∧
      (r.message ≠ none → r.parsed ++ r.held = r.reads.flatten) := by
  induction ready generalizing s held with
  | nil => exact ⟨_,[],rfl,(List.append_nil _).symm,rfl,rfl,nofun,fun message => absurd rfl message⟩
  | cons ready later ih =>
      generalize found : s.stream.take (min ready (buff_size-held.length)) = read
      have fits : read.length ≤ buff_size := by
        rw [←found,List.length_take]
        omega
      have front : read ++ s.stream.drop read.length = s.stream := by
        have shorter : read = s.stream.take read.length := by
          rw [←found,List.length_take,←List.take_eq_take_min]
        exact (congrArg (· ++ _) shorter).trans (List.take_append_drop _ _)
      by_cases bytes : read = []
      · rw [bytes] at found
        exact ⟨_,[],recvLoop_ends kept small ready later found,(List.append_nil _).symm,rfl,rfl,nofun,
          fun message => absurd rfl message⟩
      · have passes := recvLoop_passes (m := m) small kept ready later read found.symm bytes
        generalize recvLoop m buff_size terminated (ready :: later) s = result at passes
        cases passes with
        | ended r message reads rest parsed =>
            refine ⟨r,[read],rfl,reads,message,?_,?_,parsed⟩
            · rw [List.flatten_singleton,rest]
              exact front
            · intro other member
              rw [List.mem_singleton.mp member]
              exact ⟨bytes,fits⟩
        | going t held' next same reads rest =>
            obtain ⟨r,more,received,history,message,taken,sizes,parsed⟩ := ih t held' next
            refine ⟨r,read :: more,received,?_,message.trans (same more).symm,?_,?_,parsed⟩
            · rw [history,reads,List.append_assoc]
              rfl
            · rw [List.flatten_cons,List.append_assoc,taken,rest]
              exact front
            · intro other member
              rcases List.mem_cons.mp member with rfl | deeper
              · exact ⟨bytes,fits⟩
              · exact sizes other deeper

end Buffer

-- What `new` finds in the memory it hands out.
def allocate (memory : Nat → UInt8) (size : Nat) : List UInt8 := (List.range size).map memory

def begin (memory : Nat → UInt8) (buff_size : Nat) (terminated : Bool) (p : P) (stream : List UInt8) : Receiving P :=
  ⟨p,allocate memory (if terminated then buff_size+1 else buff_size),0,stream,[],[]⟩

theorem received_faithful {buff_size : Nat} (small : buff_size < 2^31) (terminated : Bool) (memory : Nat → UInt8)
    (p : P) (stream : List UInt8) (ready : List Nat) :
    ∃ r, recvLoop m buff_size terminated ready (begin memory buff_size terminated p stream) = some r ∧
      Faithful m buff_size p stream r := by
  have kept : Held buff_size terminated (begin memory buff_size terminated p stream) [] := by
    refine ⟨rfl,Nat.zero_le _,⟨_,rfl⟩,?_,rfl⟩
    rw [begin,allocate,List.length_map,List.length_range]
  obtain ⟨r,reads,received,history,message,taken,sizes,parsed⟩ := recvLoop_faithful (m := m) small terminated ready _ _ kept
  have all : r.reads = reads := history
  subst all
  exact ⟨r,received,message,taken,sizes,parsed⟩

-- `http_parser_execute`, which is not part of the repository.
structure Library (K : Type) where
  http_parser_execute : K → List UInt8 → Fired K
  within : ∀ k data, (http_parser_execute k data).nparsed ≤ data.length

section Messages
variable {K : Type} (library : Library K) (parse_url : List UInt8 → Option UrlFields)

def requests : Machine (HttpRequestParser K) where
  http_parser_execute p data := p.execute library.http_parser_execute parse_url data
  hasError := HttpRequestParser.error
  isFinished p := p.parser.finished
  within p data := by
    unfold HttpRequestParser.execute
    dsimp only
    split <;> exact library.within _ _

structure HttpResponseParser (K : Type) where
  engine : K
  parser : Parser HttpResponse
  error : Bool

def HttpResponseParser.execute (self : HttpResponseParser K) (data : List UInt8) : Nat × HttpResponseParser K :=
  let fired := library.http_parser_execute self.engine data
  match self.parser.feed s_response_settings fired.callbacks with
  | none => (fired.nparsed,{self with engine := fired.state,error := true})
  | some parser => (fired.nparsed,⟨fired.state,parser,self.error || fired.http_errno ≠ 0⟩)

def responses : Machine (HttpResponseParser K) where
  http_parser_execute p data := HttpResponseParser.execute library p data
  hasError := HttpResponseParser.error
  isFinished p := p.parser.finished
  within p data := by
    unfold HttpResponseParser.execute
    dsimp only
    split <;> exact library.within _ _

theorem recvLoop_pass (buff_size : Nat) (p : HttpRequestParser K) (held : List UInt8) (reads : List (List UInt8))
    (bytes : ∀ read ∈ reads, read ≠ []) :
    (Fishjoy.recvLoop library.http_parser_execute parse_url buff_size p held reads).1 =
      (pass (requests library parse_url) buff_size p held reads).map fun p => p.parser.data.init := by
  induction reads generalizing p held with
  | nil => rfl
  | cons read reads ih =>
      have later := fun p held => ih p held fun other member => bytes other (.tail _ member)
      rcases executed : p.execute library.http_parser_execute parse_url (held ++ read) with ⟨nparse,q⟩
      have same : (requests library parse_url).http_parser_execute p (held ++ read) = (nparse,q) := executed
      rw [Fishjoy.recvLoop,if_neg (bytes read (.head _)),pass]
      simp only [executed,same]
      by_cases error : q.error = true
      · have stops : (requests library parse_url).hasError q = true := error
        rw [if_pos error,if_pos stops]
        rfl
      · have goes : ¬(requests library parse_url).hasError q = true := error
        rw [if_neg error,if_neg goes]
        by_cases full : (held ++ read).length-nparse = buff_size
        · rw [if_pos full,if_pos full]
          rfl
        · rw [if_neg full,if_neg full]
          by_cases finished : q.parser.finished = true
          · have stops : (requests library parse_url).isFinished q = true := finished
            rw [if_pos finished,if_pos stops]
            rfl
          · have goes : ¬(requests library parse_url).isFinished q = true := finished
            rw [if_neg finished,if_neg goes]
            exact later _ _

end Messages

-- Both functions stay within their buffers, and the first is `recvRequest` of the
-- session over what was read.
structure WithinBuffer {K : Type} (library : Library K) (parse_url : List UInt8 → Option UrlFields) (start : K)
    (buff_size : Nat) (memory : Nat → UInt8) (stream : List UInt8) (ready : List Nat) : Prop where
  request : ∃ r, recvLoop (requests library parse_url) buff_size false ready
      (begin memory buff_size false ⟨start,HttpRequestParser.initial,false⟩ stream) = some r ∧
    Faithful (requests library parse_url) buff_size ⟨start,HttpRequestParser.initial,false⟩ stream r ∧
    (r.message.map fun p => p.parser.data.init) =
      (recvRequest library.http_parser_execute parse_url start buff_size r.reads).1
  response : ∃ r, recvLoop (responses library) buff_size true ready
      (begin memory buff_size true ⟨start,HttpResponseParser.initial,false⟩ stream) = some r ∧
    Faithful (responses library) buff_size ⟨start,HttpResponseParser.initial,false⟩ stream r

theorem recv_within_buffer {K : Type} (library : Library K) (parse_url : List UInt8 → Option UrlFields) (start : K)
    (buff_size : Nat) (small : buff_size < 2^31) (memory : Nat → UInt8) (stream : List UInt8) (ready : List Nat) :
    WithinBuffer library parse_url start buff_size memory stream ready := by
  constructor
  · obtain ⟨r,received,faithful⟩ := received_faithful (requests library parse_url) small false memory
      ⟨start,HttpRequestParser.initial,false⟩ stream ready
    refine ⟨r,received,faithful,?_⟩
    rw [recvRequest,recvLoop_pass library parse_url buff_size _ [] r.reads fun read member => (faithful.sizes read member).1,
      faithful.message]
  · exact received_faithful (responses library) small true memory _ stream ready

def bufferedLibrary : Library (List UInt8) := ⟨buffered twoGets,fun _ _ => Nat.le_refl _⟩

theorem recv_within_buffer_get :
    WithinBuffer bufferedLibrary pathOnly [] 4096 (fun _ => 7) (getBytes "/a") [20,100] :=
  recv_within_buffer bufferedLibrary pathOnly [] 4096 (by decide) (fun _ => 7) (getBytes "/a") [20,100]

end Fishjoy.HttpBuffer
