import Fishjoy.Foundation.Transition

namespace Fishjoy.SocketAddress
open Transition

-- An address as `getAddr` has it, with its dynamic class as far as `bind` asks for it.
structure Address where
  getFamily : Int
  isUnix : Bool
  bytes : List UInt8
  deriving DecidableEq

def UnknownAddress (family : Int) : Address := ⟨family,false,[]⟩

-- A descriptor in the kernel: what `getsockname` reports, and whether `bind` or
-- `connect` has succeeded on it.
structure Descriptor where
  reports : Address
  named : Bool
  deriving DecidableEq

def Descriptor.name (d : Descriptor) : Option Address := if d.named then some d.reports else none

structure Socket where
  m_sock : Int
  m_family : Int
  m_type : Int
  m_protocol : Int
  m_isConnected : Bool
  m_localAddress : Option Address
  m_remoteAddress : Option Address
  file : Descriptor
  deriving DecidableEq

-- What the system calls of one operation return: the new descriptor and its
-- first report, whether the trial connection of `bind` to a Unix address is
-- accepted, the name behind a `bind` or `connect` that succeeds, and whether
-- `getsockname` succeeds.
structure Kernel where
  socket : Int
  fresh : Address
  accepted : Bool
  result : Option Address
  getsockname : Bool

def TCP : Int := 1
def UDP : Int := 2
def IPv4 : Int := 2
def IPv6 : Int := 10
def UNIX : Int := 1

namespace Socket

def new (family type protocol : Int) : Socket :=
  ⟨-1,family,type,protocol,false,none,none,⟨UnknownAddress family,false⟩⟩

def isValid (s : Socket) : Bool := s.m_sock ≠ -1

def newSock (s : Socket) (k : Kernel) : Socket := {s with m_sock := k.socket, file := ⟨k.fresh,false⟩}

def connected (s : Socket) : Socket := {s with m_isConnected := true}

def CreateTCP (address : Address) : Socket := new address.getFamily TCP 0
def CreateUDP (address : Address) (k : Kernel) : Socket := ((new address.getFamily UDP 0).newSock k).connected
def CreateTCPSocket : Socket := new IPv4 TCP 0
def CreateUDPSocket (k : Kernel) : Socket := ((new IPv4 UDP 0).newSock k).connected
def CreateTCPSocket6 : Socket := new IPv6 TCP 0
def CreateUDPSocket6 (k : Kernel) : Socket := ((new IPv6 UDP 0).newSock k).connected
def CreateUnixTCPSocket : Socket := new UNIX TCP 0
def CreateUnixUDPSocket : Socket := new UNIX UDP 0

def getLocalAddress (s : Socket) (k : Kernel) : Socket × Address :=
  match s.m_localAddress with
  | some address => (s,address)
  | none =>
    if s.isValid ∧ k.getsockname then ({s with m_localAddress := some s.file.reports},s.file.reports)
    else (s,UnknownAddress s.m_family)

-- How `bind` and `connect` get a descriptor where there is none.
def ensureSock (s : Socket) (k : Kernel) : Socket := if s.isValid then s else s.newSock k

def bind (s : Socket) (addr : Address) (k : Kernel) : Socket × Bool :=
  let s := {s with m_localAddress := some addr}.ensureSock k
  if !s.isValid then (s,false)
  else if addr.getFamily ≠ s.m_family then (s,false)
  else if addr.isUnix ∧ k.accepted then (s,false)
  else
    match k.result with
    | none => (s,false)
    | some name => (({s with file := ⟨name,true⟩}.getLocalAddress k).1,true)

def close (s : Socket) : Socket × Bool :=
  if !s.m_isConnected ∧ s.m_sock = -1 then (s,true) else ({s with m_isConnected := false, m_sock := -1},false)

-- `getRemoteAddress` returns the address that was set before.
def connect (s : Socket) (addr : Address) (k : Kernel) : Socket × Bool :=
  let s := {s with m_remoteAddress := some addr}.ensureSock k
  if !s.isValid then (s,false)
  else if addr.getFamily ≠ s.m_family then (s,false)
  else
    match k.result with
    | none => (s.close.1,false)
    | some name => (({s with m_isConnected := true, file := ⟨name,true⟩}.getLocalAddress k).1,true)

def reconnect (s : Socket) (k : Kernel) : Socket × Bool :=
  match s.m_remoteAddress with
  | none => (s,false)
  | some remote => {s with m_localAddress := none}.connect remote k

end Socket

inductive Call where
  | CreateTCP (address : Address)
  | CreateUDP (address : Address) (k : Kernel)
  | CreateTCPSocket
  | CreateUDPSocket (k : Kernel)
  | CreateTCPSocket6
  | CreateUDPSocket6 (k : Kernel)
  | CreateUnixTCPSocket
  | CreateUnixUDPSocket
  | bind (addr : Address) (k : Kernel)
  | connect (addr : Address) (k : Kernel)
  | reconnect (k : Kernel)
  | close
  | getLocalAddress (k : Kernel)

-- There is no socket before a creation.
def next (s : Option Socket) : Call → Option (Option Socket)
  | .CreateTCP address => some (some (.CreateTCP address))
  | .CreateUDP address k => some (some (.CreateUDP address k))
  | .CreateTCPSocket => some (some .CreateTCPSocket)
  | .CreateUDPSocket k => some (some (.CreateUDPSocket k))
  | .CreateTCPSocket6 => some (some .CreateTCPSocket6)
  | .CreateUDPSocket6 k => some (some (.CreateUDPSocket6 k))
  | .CreateUnixTCPSocket => some (some .CreateUnixTCPSocket)
  | .CreateUnixUDPSocket => some (some .CreateUnixUDPSocket)
  | .bind addr k => s.map fun s => some (s.bind addr k).1
  | .connect addr k => s.map fun s => some (s.connect addr k).1
  | .reconnect k => s.map fun s => some (s.reconnect k).1
  | .close => s.map fun s => some s.close.1
  | .getLocalAddress k => s.map fun s => some (s.getLocalAddress k).1

structure Truthful (s : Socket) : Prop where
  valid : s.m_isConnected = true → s.m_sock ≠ -1
  cached : s.m_sock ≠ -1 → ∀ name, s.file.name = some name → ∀ address, s.m_localAddress = some address → address = name

-- The name the kernel gives where `bind` comes to the system call and it succeeds.
def boundTo (s : Socket) (addr : Address) (k : Kernel) : Option Address :=
  if addr.getFamily = s.m_family ∧ ¬(addr.isUnix ∧ k.accepted) then k.result else none

-- A socket for datagrams gets its descriptor; the address given to `bind` is the
-- name that its descriptor has behind it; what is cached before a `connect`
-- that succeeds is the name it leads to.
def Honest (s : Option Socket) : Call → Prop
  | .CreateUDP _ k | .CreateUDPSocket k | .CreateUDPSocket6 k => k.socket ≠ -1
  | .bind addr k => ∀ sock, s = some sock → (sock.ensureSock k).m_sock ≠ -1 →
      ∀ name, (boundTo sock addr k).or (sock.ensureSock k).file.name = some name → addr = name
  | .connect addr k => ∀ sock, s = some sock → (sock.ensureSock k).m_sock ≠ -1 → addr.getFamily = sock.m_family →
      ∀ name, k.result = some name → ∀ address, sock.m_localAddress = some address → address = name
  | _ => True

section Steps
variable {s : Socket} {k : Kernel} {addr : Address}

theorem isValid_iff : s.isValid = true ↔ s.m_sock ≠ -1 := decide_eq_true_iff

-- A socket without a name has nothing to disagree with.
theorem Truthful.nameless (valid : s.m_isConnected = true → s.m_sock ≠ -1) (nameless : s.file.named = false) :
    Truthful s := by
  refine ⟨valid,fun _ name held => ?_⟩
  unfold Descriptor.name at held
  rw [nameless] at held
  cases held

theorem new_truthful (family type protocol : Int) : Truthful (.new family type protocol) :=
  .nameless (fun connected => by cases connected) rfl

theorem created_truthful (family : Int) (k : Kernel) :
    Truthful ((Socket.new family UDP 0).newSock k).connected ↔ k.socket ≠ -1 :=
  ⟨fun truthful => truthful.valid rfl,fun valid => .nameless (fun _ => valid) rfl⟩

theorem closed_truthful (idle : s.m_isConnected = false) (shut : s.m_sock = -1) : Truthful s :=
  ⟨fun connected => absurd (idle.symm.trans connected) Bool.false_ne_true,fun valid => absurd shut valid⟩

theorem ensureSock_truthful (truthful : Truthful s) (k : Kernel) : Truthful (s.ensureSock k) := by
  unfold Socket.ensureSock
  split
  · exact truthful
  · rename_i invalid
    refine .nameless (fun connected => ?_) rfl
    exact absurd (isValid_iff.mpr (truthful.valid connected)) invalid

theorem ensureSock_kept (s : Socket) (k : Kernel) : (s.ensureSock k).m_family = s.m_family ∧
    (s.ensureSock k).m_localAddress = s.m_localAddress ∧ (s.ensureSock k).m_isConnected = s.m_isConnected := by
  unfold Socket.ensureSock
  split <;> exact ⟨rfl,rfl,rfl⟩

theorem ensureSock_local (s : Socket) (k : Kernel) (address : Option Address) :
    {s with m_localAddress := address}.ensureSock k = {s.ensureSock k with m_localAddress := address} := by
  unfold Socket.ensureSock
  change (if s.isValid then _ else _) = _
  split <;> rfl

theorem ensureSock_remote (s : Socket) (k : Kernel) (address : Option Address) :
    {s with m_remoteAddress := address}.ensureSock k = {s.ensureSock k with m_remoteAddress := address} := by
  unfold Socket.ensureSock
  change (if s.isValid then _ else _) = _
  split <;> rfl

-- What the descriptor is behind a `bind`.
def rebound (d : Descriptor) : Option Address → Descriptor
  | none => d
  | some name => ⟨name,true⟩

theorem rebound_name (d : Descriptor) (name : Option Address) : (rebound d name).name = name.or d.name := by
  cases name <;> rfl

theorem bind_shut (s : Socket) (addr : Address) (k : Kernel) (shut : (s.ensureSock k).m_sock = -1) :
    s.bind addr k = ({s.ensureSock k with m_localAddress := some addr},false) := by
  have invalid : ({s.ensureSock k with m_localAddress := some addr} : Socket).isValid = false :=
    decide_eq_false (not_not_intro shut)
  unfold Socket.bind
  rw [ensureSock_local]
  simp only [invalid,Bool.not_false,if_true]

theorem bind_opened (s : Socket) (addr : Address) (k : Kernel) (valid : (s.ensureSock k).m_sock ≠ -1) :
    s.bind addr k =
      ({s.ensureSock k with m_localAddress := some addr,file := rebound (s.ensureSock k).file (boundTo s addr k)},
        (boundTo s addr k).isSome) := by
  have opened : ({s.ensureSock k with m_localAddress := some addr} : Socket).isValid = true := isValid_iff.mpr valid
  have family := (ensureSock_kept s k).1
  unfold Socket.bind boundTo
  rw [ensureSock_local,←family]
  dsimp only at opened ⊢
  rw [opened,Bool.not_true,if_neg Bool.false_ne_true]
  by_cases own : addr.getFamily = (s.ensureSock k).m_family
  · rw [if_neg (not_not_intro own)]
    by_cases accepted : addr.isUnix = true ∧ k.accepted = true
    · rw [if_pos accepted,if_neg fun both => both.2 accepted]
      rfl
    · rw [if_neg accepted,if_pos ⟨own,accepted⟩]
      cases k.result with
      | none => rfl
      | some name => rfl
  · rw [if_pos own,if_neg fun both => own both.1]
    rfl

theorem bind_truthful (truthful : Truthful s) : Truthful (s.bind addr k).1 ↔ ((s.ensureSock k).m_sock ≠ -1 →
    ∀ name, (boundTo s addr k).or (s.ensureSock k).file.name = some name → addr = name) := by
  have fine := ensureSock_truthful truthful k
  by_cases valid : (s.ensureSock k).m_sock = -1
  · refine iff_of_true ?_ fun opened => absurd valid opened
    have idle : (s.ensureSock k).m_isConnected = false :=
      Bool.eq_false_iff.mpr fun connected => fine.valid connected valid
    rw [bind_shut s addr k valid]
    exact closed_truthful idle valid
  · rw [bind_opened s addr k valid]
    constructor
    · intro after opened name held
      exact after.cached opened name ((rebound_name _ _).trans held) addr rfl
    · intro same
      refine ⟨fun _ => valid,fun opened name held address cached => ?_⟩
      cases cached
      exact same opened name ((rebound_name _ _).symm.trans held)

theorem close_truthful (s : Socket) : Truthful s.close.1 := by
  unfold Socket.close
  split
  · rename_i idle
    exact closed_truthful (by simpa using idle.1) idle.2
  · exact closed_truthful rfl rfl

-- What is cached by the call is the answer of the kernel.
theorem getLocalAddress_truthful (s : Socket) (k : Kernel) : Truthful (s.getLocalAddress k).1 ↔ Truthful s := by
  unfold Socket.getLocalAddress
  split
  · exact Iff.rfl
  · rename_i uncached
    split
    · refine ⟨fun after => ⟨after.valid,fun _ _ _ address cached => ?_⟩,fun before => ⟨before.valid,?_⟩⟩
      · rw [uncached] at cached
        cases cached
      · intro _ name held address cached
        cases cached
        unfold Descriptor.name at held
        split at held
        · exact Option.some.inj held
        · cases held
    · exact Iff.rfl

theorem connect_truthful (truthful : Truthful s) : Truthful (s.connect addr k).1 ↔ ((s.ensureSock k).m_sock ≠ -1 →
    addr.getFamily = s.m_family → ∀ name, k.result = some name → ∀ address, s.m_localAddress = some address →
      address = name) := by
  have fine := ensureSock_truthful truthful k
  obtain ⟨family,same,_⟩ := ensureSock_kept s k
  unfold Socket.connect
  rw [ensureSock_remote]
  by_cases valid : (s.ensureSock k).m_sock = -1
  · have shut : ({s.ensureSock k with m_remoteAddress := some addr} : Socket).isValid = false :=
      decide_eq_false (not_not_intro valid)
    simp only [shut,Bool.not_false,if_true]
    exact iff_of_true ⟨fine.valid,fine.cached⟩ fun opened => absurd valid opened
  · have opened : ({s.ensureSock k with m_remoteAddress := some addr} : Socket).isValid = true := isValid_iff.mpr valid
    dsimp only at opened ⊢
    rw [opened,Bool.not_true,if_neg Bool.false_ne_true,←family]
    by_cases own : addr.getFamily = (s.ensureSock k).m_family
    · rw [if_neg (not_not_intro own)]
      cases k.result with
      | none => exact iff_of_true (close_truthful _) fun _ _ name held => by cases held
      | some name =>
          dsimp only
          rw [getLocalAddress_truthful]
          constructor
          · intro after _ _ other held address cached
            cases held
            exact after.cached valid name rfl address (same.trans cached)
          · intro agrees
            refine ⟨fun _ => valid,fun _ other held address cached => ?_⟩
            cases held
            exact agrees valid own name rfl address (same.symm.trans cached)
    · rw [if_pos own]
      exact iff_of_true ⟨fine.valid,fine.cached⟩ fun _ equal => absurd equal own

theorem reconnect_truthful (truthful : Truthful s) (k : Kernel) : Truthful (s.reconnect k).1 := by
  unfold Socket.reconnect
  split
  · exact truthful
  · have forgotten : Truthful {s with m_localAddress := none} :=
      ⟨truthful.valid,fun _ _ _ address cached => by cases cached⟩
    exact (connect_truthful forgotten).mpr fun _ _ _ _ address cached => by cases cached

def Good : Option Socket → Prop
  | none => True
  | some s => Truthful s

theorem next_good {s t : Option Socket} (good : Good s) {c : Call} (moved : next s c = some t) : Good t ↔ Honest s c := by
  cases c with
  | CreateUDP | CreateUDPSocket | CreateUDPSocket6 => cases moved; exact created_truthful _ _
  | CreateTCP | CreateTCPSocket | CreateTCPSocket6 | CreateUnixTCPSocket | CreateUnixUDPSocket =>
      cases moved
      exact iff_of_true (new_truthful _ _ _) trivial
  | bind addr k =>
      obtain ⟨sock,rfl,rfl⟩ := Option.map_eq_some_iff.mp moved
      refine (bind_truthful good).trans ⟨fun agrees other same => ?_,fun agrees => agrees sock rfl⟩
      cases same
      exact agrees
  | connect addr k =>
      obtain ⟨sock,rfl,rfl⟩ := Option.map_eq_some_iff.mp moved
      refine (connect_truthful good).trans ⟨fun agrees other same => ?_,fun agrees => agrees sock rfl⟩
      cases same
      exact agrees
  | reconnect k =>
      obtain ⟨sock,rfl,rfl⟩ := Option.map_eq_some_iff.mp moved
      exact iff_of_true (reconnect_truthful good k) trivial
  | close =>
      obtain ⟨sock,rfl,rfl⟩ := Option.map_eq_some_iff.mp moved
      exact iff_of_true (close_truthful sock) trivial
  | getLocalAddress k =>
      obtain ⟨sock,rfl,rfl⟩ := Option.map_eq_some_iff.mp moved
      exact iff_of_true ((getLocalAddress_truthful sock k).mpr good) trivial

-- A call that has no step is one on a socket that is not there.
theorem honest_stuck {s : Option Socket} {c : Call} (stuck : next s c = none) : Honest s c := by
  cases c with
  | bind | connect =>
      obtain rfl := Option.map_eq_none_iff.mp stuck
      intro sock same
      cases same
  | reconnect | close | getLocalAddress => trivial
  | _ => cases stuck

theorem honest_sharp {s : Option Socket} (good : Good s) (c : Call) (after : ∀ t, next s c = some t → Good t) :
    Honest s c := by
  cases moved : next s c with
  | some t => exact (next_good good moved).mp (after t moved)
  | none => exact honest_stuck moved

end Steps
theorem truthful_exactly (calls : List Call) : Throughout next Good none calls ↔ Along next Honest none calls :=
  throughout_exactly trivial (fun _ good => good) (fun _ _ _ good honest moved => (next_good good moved).mpr honest)
    fun _ c good => honest_sharp good c

-- The kernel gives a port for the port 0 that was asked for.
def anyPort : Address := ⟨2,false,[0,0,127,0,0,1]⟩

def givenPort : Address := ⟨2,false,[4,210,127,0,0,1]⟩

theorem port_zero_cached : ¬∀ calls : List Call, Throughout next Good none calls := by
  intro always
  have last := Throughout.reached [.CreateTCPSocket,.bind anyPort ⟨3,UnknownAddress 2,false,some givenPort,true⟩] [] rfl
    (always _)
  have same := Truthful.cached last (by decide) givenPort rfl anyPort rfl
  exact absurd same (by decide)

end Fishjoy.SocketAddress
