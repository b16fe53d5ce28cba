import Mathlib.Data.Fintype.Basic
import Mathlib.Logic.Function.Basic

namespace Fishjoy.HttpConnectionPool

-- The constructor leaves both fields at 0.
structure HttpConnection where
  createTime : Nat
  request : Nat

-- A thread in `getConnection`, from the clock reading on, or in `ReleasePtr`.
-- `scanning` holds the mutex.
inductive Phase where
  | idle
  | asking (now : Nat)
  | scanning (now : Nat) (invalid : List Nat)
  | discarding (left : List Nat) (size : Nat) (ptr : Option Nat)
  | connecting
  | created (ptr : Nat)
  | returning (ptr : Nat)
  | releasing (ptr : Nat)
  | used (ptr : Nat)
  | deleting (ptr : Nat)
  | deleted
  | pooling (ptr : Nat)

-- Connections are numbered as they are made. `lent` has one entry for each
-- shared pointer handed to a caller; `born` and `lendings` are history. Every
-- live connection has a file descriptor, so `m_total` stays inside an `int32_t`.
structure Pool (Thread : Type) where
  conns : List Nat
  total : Int
  heap : Nat → HttpConnection
  made : Nat
  alive : Nat → Bool
  lent : List Nat
  clock : Nat
  born : Nat → Nat
  lendings : Nat → Nat
  phase : Thread → Phase

-- `answer` is what `isConnected` says of the connection that is looked at, or
-- whether a connect succeeds.
inductive Action (Thread : Type) where
  | clock (now : Nat)
  | getConnection (t : Thread)
  | release (t : Thread) (ptr : Nat)
  | advance (t : Thread) (answer : Bool)

variable {Thread : Type}

def Phase.locks : Phase → Bool
  | .scanning _ _ => true
  | _ => false

-- The connections in the hands of a call.
def Phase.held : Phase → List Nat
  | .scanning _ invalid => invalid
  | .discarding left _ ptr => left ++ ptr.toList
  | .created ptr | .returning ptr | .releasing ptr | .used ptr | .deleting ptr | .pooling ptr => [ptr]
  | _ => []

-- What a call still has in `m_total`.
def Phase.counted : Phase → Nat
  | .scanning _ invalid => invalid.length
  | .discarding _ size ptr => size+ptr.toList.length
  | .returning _ | .releasing _ | .used _ | .deleting _ | .deleted | .pooling _ => 1
  | _ => 0

namespace Pool
variable [DecidableEq Thread]

def goto (s : Pool Thread) (t : Thread) (phase : Phase) : Pool Thread :=
  {s with phase := Function.update s.phase t phase}

def delete (s : Pool Thread) (ptr : Nat) : Pool Thread := {s with alive := Function.update s.alive ptr false}

-- `new HttpConnection(sock)`.
def connect (s : Pool Thread) : Pool Thread :=
  {s with
    made := s.made+1
    alive := Function.update s.alive s.made true
    heap := Function.update s.heap s.made ⟨0,0⟩
    born := Function.update s.born s.made s.clock}

end Pool

section steps
variable [Fintype Thread] [DecidableEq Thread] (maxAliveTime maxRequest : Nat)

def unlocked (s : Pool Thread) : Prop := ∀ t, (s.phase t).locks = false

instance (s : Pool Thread) : Decidable (unlocked s) :=
  inferInstanceAs (Decidable (∀ t, (s.phase t).locks = false))

def advance (s : Pool Thread) (t : Thread) (answer : Bool) : Option (Pool Thread) :=
  match s.phase t with
  | .idle => none
  | .asking now => if unlocked s then some (s.goto t (.scanning now [])) else none
  | .scanning now invalid =>
    match s.conns with
    | [] => some (s.goto t (.discarding invalid invalid.length none))
    | conn :: rest =>
      if !answer then some ({s with conns := rest}.goto t (.scanning now (invalid ++ [conn])))
      else if now < (s.heap conn).createTime+maxAliveTime then
        some ({s with conns := rest}.goto t (.scanning now (invalid ++ [conn])))
      else some ({s with conns := rest}.goto t (.discarding invalid invalid.length (some conn)))
  | .discarding (i :: left) size ptr => some ((s.delete i).goto t (.discarding left size ptr))
  | .discarding [] size ptr =>
    some ({s with total := s.total-size}.goto t (match ptr with | some ptr => .returning ptr | none => .connecting))
  | .connecting => if answer then some (s.connect.goto t (.created s.made)) else some (s.goto t .idle)
  | .created ptr => some ({s with total := s.total+1}.goto t (.returning ptr))
  | .returning ptr =>
    some ({s with
      lent := ptr :: s.lent
      lendings := Function.update s.lendings ptr (s.lendings ptr+1)}.goto t .idle)
  | .releasing ptr =>
    some ({s with
      heap := Function.update s.heap ptr {s.heap ptr with request := (s.heap ptr).request+1}}.goto t (.used ptr))
  | .used ptr =>
    if !answer || s.clock ≤ (s.heap ptr).createTime+maxAliveTime || maxRequest ≤ (s.heap ptr).request then
      some (s.goto t (.deleting ptr))
    else some (s.goto t (.pooling ptr))
  | .deleting ptr => some ((s.delete ptr).goto t .deleted)
  | .deleted => some ({s with total := s.total-1}.goto t .idle)
  | .pooling ptr => if unlocked s then some ({s with conns := s.conns ++ [ptr]}.goto t .idle) else none

def next (s : Pool Thread) : Action Thread → Option (Pool Thread)
  | .clock now => some {s with clock := now}
  | .getConnection t =>
    match s.phase t with
    | .idle => some (s.goto t (.asking s.clock))
    | _ => none
  | .release t ptr =>
    match s.phase t with
    | .idle => if ptr ∈ s.lent then some ({s with lent := s.lent.erase ptr}.goto t (.releasing ptr)) else none
    | _ => none
  | .advance t answer => advance maxAliveTime maxRequest s t answer

end steps

-- A pool nobody has used yet. What the heap holds at no connection is arbitrary.
def Start (s : Pool Thread) : Prop :=
  s.conns = [] ∧ s.total = 0 ∧ s.made = 0 ∧ (∀ c, s.alive c = false) ∧ s.lent = [] ∧
    (∀ c, s.lendings c = 0) ∧ ∀ t, s.phase t = .idle

end Fishjoy.HttpConnectionPool
