import Mathlib.Data.List.Forall2
import Fishjoy.Socket

namespace Fishjoy.SocketAddress.TcpServer
open Transition

-- A socket with what `::listen` has done to its descriptor.
structure Listener where
  sock : Socket
  listening : Bool
  deriving DecidableEq

def Listener.listen (l : Listener) (success : Bool) : Listener × Bool :=
  if !l.sock.isValid then (l,false)
  else if success then ({l with listening := true},true)
  else (l,false)

-- One address of the list with the results of the system calls made for it.
structure Attempt where
  addr : Address
  kernel : Kernel
  listen : Bool

structure Outcome where
  m_socks : List Listener
  fails : List Address
  returned : Bool
  deriving DecidableEq

def bindEach : List Attempt → List Listener → List Address → List Listener × List Address
  | [],m_socks,fails => (m_socks,fails)
  | a :: rest,m_socks,fails =>
    let bound := (Socket.CreateTCP a.addr).bind a.addr a.kernel
    if !bound.2 then bindEach rest m_socks (fails ++ [a.addr])
    else
      let opened := (Listener.mk bound.1 false).listen a.listen
      if !opened.2 then bindEach rest m_socks (fails ++ [a.addr])
      else bindEach rest (m_socks ++ [opened.1]) fails

def bind (m_socks : List Listener) (addrs : List Attempt) (fails : List Address) : Outcome :=
  let done := bindEach addrs m_socks fails
  if !done.2.isEmpty then ⟨[],done.2,false⟩ else ⟨done.1,done.2,true⟩

-- The overload for one address has a vector of its own for the failures.
def bindAddr (m_socks : List Listener) (addr : Attempt) : Outcome := bind m_socks [addr] []

inductive Call where
  | bindAddr (addr : Attempt)
  | bind (addrs : List Attempt) (fails : List Address)

def Call.addrs : Call → List Attempt
  | .bindAddr addr => [addr]
  | .bind addrs _ => addrs

def Call.fails : Call → List Address
  | .bindAddr _ => []
  | .bind _ fails => fails

def Call.outcome (m_socks : List Listener) : Call → Outcome
  | .bindAddr addr => TcpServer.bindAddr m_socks addr
  | .bind addrs fails => TcpServer.bind m_socks addrs fails

def next (m_socks : List Listener) (c : Call) : Option (List Listener) := some (c.outcome m_socks).m_socks

-- The system calls for an address succeed: there is a descriptor, no one accepts
-- a trial connection to a Unix path, and `::bind` and `::listen` return 0.
def Attempt.succeeds (a : Attempt) : Bool :=
  a.kernel.socket ≠ -1 ∧ ¬(a.addr.isUnix = true ∧ a.kernel.accepted = true) ∧ a.kernel.result.isSome = true ∧
    a.listen = true

structure Serves (a : Attempt) (l : Listener) : Prop where
  valid : l.sock.isValid = true
  named : l.sock.file.named = true
  cached : l.sock.m_localAddress = some a.addr
  listening : l.listening = true

structure Clean (m_socks : List Listener) (c : Call) : Prop where
  accepted : (c.outcome m_socks).returned = true →
    ∃ opened, (c.outcome m_socks).m_socks = m_socks ++ opened ∧ List.Forall₂ Serves c.addrs opened
  refused : (c.outcome m_socks).returned = false → (c.outcome m_socks).m_socks = m_socks ∧
    (c.outcome m_socks).fails = c.fails ++ (c.addrs.filter fun a => !a.succeeds).map (·.addr)

-- Nothing is in `fails` behind the loop, or there is no earlier socket to drop.
def Unharmed (m_socks : List Listener) (c : Call) : Prop :=
  (c.fails = [] ∧ ∀ a ∈ c.addrs, a.succeeds = true) ∨ m_socks = []

section Loop
variable {a : Attempt} {m_socks : List Listener}

-- What is pushed to `m_socks` for an address that succeeds.
def Attempt.listener (a : Attempt) : Listener := ⟨((Socket.CreateTCP a.addr).bind a.addr a.kernel).1,true⟩

theorem bound_name (a : Attempt) : boundTo (Socket.CreateTCP a.addr) a.addr a.kernel =
    if a.addr.isUnix = true ∧ a.kernel.accepted = true then none else a.kernel.result := by
  unfold boundTo
  by_cases accepted : a.addr.isUnix = true ∧ a.kernel.accepted = true
  · rw [if_pos accepted,if_neg fun both => both.2 accepted]
  · rw [if_neg accepted,if_pos ⟨rfl,accepted⟩]

theorem bound_opened (valid : a.kernel.socket ≠ -1) : (Socket.CreateTCP a.addr).bind a.addr a.kernel =
    ({(Socket.CreateTCP a.addr).newSock a.kernel with
      m_localAddress := some a.addr
      file := rebound ⟨a.kernel.fresh,false⟩ (boundTo (.CreateTCP a.addr) a.addr a.kernel)},
      (boundTo (.CreateTCP a.addr) a.addr a.kernel).isSome) :=
  bind_opened (.CreateTCP a.addr) a.addr a.kernel valid

theorem bound_iff (a : Attempt) : ((Socket.CreateTCP a.addr).bind a.addr a.kernel).2 = true ↔
    a.kernel.socket ≠ -1 ∧ ¬(a.addr.isUnix = true ∧ a.kernel.accepted = true) ∧
      a.kernel.result.isSome = true := by
  by_cases valid : a.kernel.socket = -1
  · rw [bind_shut (.CreateTCP a.addr) a.addr a.kernel valid]
    exact iff_of_false Bool.false_ne_true fun all => all.1 valid
  rw [bound_opened valid,bound_name,and_iff_right valid]
  split
  · rename_i accepted
    exact iff_of_false Bool.false_ne_true fun both => both.1 accepted
  · rename_i free
    exact (and_iff_right free).symm

theorem succeeds_iff (a : Attempt) : a.succeeds = true ↔
    ((Socket.CreateTCP a.addr).bind a.addr a.kernel).2 = true ∧ a.listen = true := by
  rw [bound_iff,and_assoc,and_assoc]
  exact decide_eq_true_iff

theorem listen_bound (valid : a.kernel.socket ≠ -1) (success : Bool) :
    (Listener.mk ((Socket.CreateTCP a.addr).bind a.addr a.kernel).1 false).listen success =
      (⟨((Socket.CreateTCP a.addr).bind a.addr a.kernel).1,success⟩,success) := by
  have bound : ((Socket.CreateTCP a.addr).bind a.addr a.kernel).1.isValid = true := by
    rw [bound_opened valid]
    exact decide_eq_true valid
  unfold Listener.listen
  rw [bound]
  cases success <;> rfl

theorem bindEach_cons (a : Attempt) (rest : List Attempt) (m_socks : List Listener) (fails : List Address) :
    bindEach (a :: rest) m_socks fails =
      if a.succeeds then bindEach rest (m_socks ++ [a.listener]) fails
      else bindEach rest m_socks (fails ++ [a.addr]) := by
  rw [bindEach]
  by_cases bound : ((Socket.CreateTCP a.addr).bind a.addr a.kernel).2 = true
  · have valid := ((bound_iff a).mp bound).1
    simp only [bound,listen_bound valid,Bool.not_true,Bool.false_eq_true,if_false]
    cases listens : a.listen with
    | true => rw [if_pos ((succeeds_iff a).mpr ⟨bound,listens⟩)]; rfl
    | false =>
        rw [if_neg fun success => absurd (listens.symm.trans ((succeeds_iff a).mp success).2) Bool.false_ne_true]
        rfl
  · rw [if_neg fun success => bound ((succeeds_iff a).mp success).1]
    simp only [Bool.not_eq_true _ ▸ bound,Bool.not_false,if_true]

theorem listener_serves (success : a.succeeds = true) : Serves a a.listener := by
  obtain ⟨valid,free,named⟩ := (bound_iff a).mp ((succeeds_iff a).mp success).1
  obtain ⟨name,same⟩ := Option.isSome_iff_exists.mp named
  have reported : boundTo (.CreateTCP a.addr) a.addr a.kernel = some name := by
    unfold boundTo
    rw [if_pos ⟨rfl,free⟩,same]
  have sock : a.listener.sock = _ := congrArg Prod.fst (bound_opened valid)
  rw [reported] at sock
  refine ⟨?_,?_,?_,rfl⟩
  · rw [sock]
    exact decide_eq_true valid
  · rw [sock]
    rfl
  · rw [sock]

-- The loop: what succeeds goes to `m_socks`, what fails to `fails`, each in order.
theorem bindEach_exact (addrs : List Attempt) (m_socks : List Listener) (fails : List Address) :
    bindEach addrs m_socks fails = (m_socks ++ (addrs.filter (·.succeeds)).map (·.listener),
      fails ++ (addrs.filter fun a => !a.succeeds).map (·.addr)) := by
  induction addrs generalizing m_socks fails with
  | nil => simp [bindEach]
  | cons a rest ih =>
      rw [bindEach_cons]
      cases success : a.succeeds with
      | true => simp [success,ih]
      | false => simp [success,ih]

end Loop

theorem outcome_eq (m_socks : List Listener) (c : Call) : c.outcome m_socks = bind m_socks c.addrs c.fails := by
  cases c <;> rfl

theorem unfailing_iff {addrs : List Attempt} {fails : List Address} :
    fails ++ (addrs.filter fun a => !a.succeeds).map (·.addr) = [] ↔
      fails = [] ∧ ∀ a ∈ addrs, a.succeeds = true := by
  rw [List.append_eq_nil_iff,List.map_eq_nil_iff,List.filter_eq_nil_iff]
  simp only [Bool.not_eq_true',Bool.not_eq_false]

theorem bind_success (m_socks : List Listener) {addrs : List Attempt} (all : ∀ a ∈ addrs, a.succeeds = true) :
    bind m_socks addrs [] = ⟨m_socks ++ addrs.map (·.listener),[],true⟩ := by
  unfold bind
  rw [bindEach_exact,unfailing_iff.mpr ⟨rfl,all⟩,List.filter_eq_self.mpr all]
  rfl

theorem bind_failure (m_socks : List Listener) {addrs : List Attempt} {fails : List Address}
    (failed : ¬(fails = [] ∧ ∀ a ∈ addrs, a.succeeds = true)) :
    bind m_socks addrs fails = ⟨[],fails ++ (addrs.filter fun a => !a.succeeds).map (·.addr),false⟩ := by
  have some := List.isEmpty_eq_false_iff.mpr (mt unfailing_iff.mp failed)
  unfold bind
  rw [bindEach_exact]
  dsimp only
  rw [some]
  rfl

theorem all_serve {addrs : List Attempt} (all : ∀ a ∈ addrs, a.succeeds = true) :
    List.Forall₂ Serves addrs (addrs.map (·.listener)) := by
  induction addrs with
  | nil => exact .nil
  | cons a rest ih =>
      refine .cons (listener_serves (all a List.mem_cons_self)) (ih ?_)
      intro b member
      exact all b (List.mem_cons_of_mem a member)

theorem clean_iff (m_socks : List Listener) (c : Call) : Clean m_socks c ↔ Unharmed m_socks c := by
  by_cases success : c.fails = [] ∧ ∀ a ∈ c.addrs, a.succeeds = true
  · refine iff_of_true ?_ (.inl success)
    have outcome := outcome_eq m_socks c
    rw [success.1,bind_success m_socks success.2] at outcome
    refine ⟨fun _ => ⟨_,congrArg Outcome.m_socks outcome,all_serve success.2⟩,fun refused => ?_⟩
    rw [outcome] at refused
    cases refused
  · have outcome := (outcome_eq m_socks c).trans (bind_failure m_socks success)
    constructor
    · intro clean
      obtain ⟨kept,_⟩ := clean.refused (congrArg Outcome.returned outcome)
      rw [outcome] at kept
      exact .inr kept.symm
    · rintro (all | rfl)
      · exact absurd all success
      · refine ⟨fun accepted => ?_,fun _ => ?_⟩
        · rw [outcome] at accepted
          cases accepted
        · rw [outcome]
          exact ⟨rfl,rfl⟩

theorem clean_exactly (calls : List Call) : Along next Clean [] calls ↔ Along next Unharmed [] calls :=
  along_congr (P := fun _ => True) trivial (fun _ _ _ _ _ _ _ => trivial) (fun m_socks c _ _ => clean_iff m_socks c)
    along_any

def port (low : UInt8) : Address := ⟨2,false,[low,127,0,0,1]⟩

def free : Attempt := ⟨port 80,⟨3,port 0,false,some (port 80),true⟩,true⟩

def taken : Attempt := ⟨port 81,⟨4,port 0,false,none,true⟩,true⟩

theorem earlier_dropped : ¬∀ calls : List Call, Along next Clean [] calls := by
  intro always
  have last := Along.at [.bindAddr free] (.bindAddr taken) [] rfl (always _)
  exact absurd (last.refused (by decide)).1 (by decide)

end Fishjoy.SocketAddress.TcpServer
