import Mathlib.Data.List.Basic
import Mathlib.Data.UInt

namespace Fishjoy.HookIo

-- What a call of the kernel returns: the amount or the descriptor, or -1 with `errno`.
inductive Got where
  | value (n : Nat)
  | error (errno : Nat)
  deriving DecidableEq

def EINTR : Nat := 4
def EBADF : Nat := 9
def EAGAIN : Nat := 11
def ETIMEDOUT : Nat := 110

-- How it ends when the fiber waits for its event: `addEvent` fails with what
-- `epoll_ctl` has left in `errno`, or the fiber runs again, after its condition
-- timer has set `cancelled` or before.
inductive Wait where
  | refused (errno : Nat)
  | resumed (cancelled : Bool)
  deriving DecidableEq

inductive Event where
  | READ
  | WRITE
  deriving DecidableEq

def SO_RCVTIMEO : Int := 20
def SO_SNDTIMEO : Int := 21

structure Ctx where
  isClose : Bool
  isSocket : Bool
  getUserNonblock : Bool
  m_recvTimeout : UInt64
  m_sendTimeout : UInt64

def Ctx.getTimeout (ctx : Ctx) (type : Int) : UInt64 := if type = SO_RCVTIMEO then ctx.m_recvTimeout else ctx.m_sendTimeout

-- `made` counts the calls of the kernel, `waits` the times the fiber has waited.
structure Reply where
  result : Got
  made : Nat
  waits : Nat
  deriving DecidableEq

-- The loop from `retry` on, for what the kernel returns next and for how the
-- next waits end. There is a timer if the timeout is not -1; without one nothing sets
-- `cancelled`. There is no result while the kernel has not answered.
def retry (timeout : UInt64) : List Got → List Wait → Option Reply
  | [],_ => none
  | n :: calls,waits =>
    if n = .error EINTR then (retry timeout calls waits).map fun r => {r with made := r.made+1}
    else if n = .error EAGAIN then
      match waits with
      | [] => none
      | .refused errno :: _ => some ⟨.error errno,1,1⟩
      | .resumed cancelled :: waits =>
        if cancelled ∧ timeout ≠ -1 then some ⟨.error ETIMEDOUT,1,1⟩
        else (retry timeout calls waits).map fun r => {r with made := r.made+1, waits := r.waits+1}
    else some ⟨n,1,0⟩

def pass (calls : List Got) : Option Reply := calls.head?.map fun n => ⟨n,1,0⟩

def do_io (hook : Bool) (ctx : Option Ctx) (timeout_so : Int) (calls : List Got) (waits : List Wait) : Option Reply :=
  if !hook then pass calls
  else
    match ctx with
    | none => pass calls
    | some ctx =>
      if ctx.isClose then some ⟨.error EBADF,0,0⟩
      else if !ctx.isSocket || ctx.getUserNonblock then pass calls
      else retry (ctx.getTimeout timeout_so) calls waits

-- The functions that are `do_io` with arguments of their own.
inductive Function where
  | accept | read | readv | recv | recvfrom | recvmsg
  | write | writev | send | sendto | sendmsg
  deriving DecidableEq

def Function.arguments : Function → Event × Int
  | .accept => (.READ,SO_RCVTIMEO)
  | .read => (.READ,SO_RCVTIMEO)
  | .readv => (.READ,SO_RCVTIMEO)
  | .recv => (.READ,SO_RCVTIMEO)
  | .recvfrom => (.READ,SO_RCVTIMEO)
  | .recvmsg => (.READ,SO_RCVTIMEO)
  | .write => (.WRITE,SO_SNDTIMEO)
  | .writev => (.WRITE,SO_SNDTIMEO)
  | .send => (.WRITE,SO_SNDTIMEO)
  | .sendto => (.WRITE,SO_SNDTIMEO)
  | .sendmsg => (.WRITE,SO_SNDTIMEO)

def Function.call (f : Function) (hook : Bool) (ctx : Option Ctx) (calls : List Got) (waits : List Wait) : Option Reply :=
  do_io hook ctx f.arguments.2 calls waits

-- The timeout that is meant for what a function waits for.
def Ctx.timeoutFor (ctx : Ctx) : Event → UInt64
  | .READ => ctx.m_recvTimeout
  | .WRITE => ctx.m_sendTimeout

def Got.again (n : Got) : Prop := n = .error EINTR ∨ n = .error EAGAIN

def Got.moved : Got → Option Nat
  | .value n => some n
  | .error _ => none

def blocked (calls : List Got) : Nat := calls.count (.error EAGAIN)

-- Whether the last wait ends the call, and with what.
def Wait.ends (timeout : UInt64) : Wait → Option Got
  | .refused errno => some (.error errno)
  | .resumed cancelled => if cancelled ∧ timeout ≠ -1 then some (.error ETIMEDOUT) else none

-- What a caller sees of a call on a socket it takes for blocking: the first
-- answer of the kernel that is not to call again, or the end of a wait, after
-- waits that did not end the call, one for each `EAGAIN`.
inductive Blocking (timeout : UInt64) : List Got → List Wait → Reply → Prop where
  | answered (front rest : List Got) (n : Got) (used left : List Wait) (again : ∀ m ∈ front, m.again)
      (goes : ∀ v ∈ used, v.ends timeout = none) (paired : used.length = blocked front) (final : ¬n.again) :
      Blocking timeout (front ++ n :: rest) (used ++ left) ⟨n,front.length+1,used.length⟩
  | ended (front rest : List Got) (used left : List Wait) (w : Wait) (result : Got) (again : ∀ m ∈ front, m.again)
      (goes : ∀ v ∈ used, v.ends timeout = none) (paired : used.length = blocked front) (ends : w.ends timeout = some result) :
      Blocking timeout (front ++ .error EAGAIN :: rest) (used ++ w :: left) ⟨result,front.length+1,used.length+1⟩

-- What `do_io` takes for such a socket.
structure Managed (hook : Bool) (ctx : Option Ctx) (c : Ctx) : Prop where
  hooked : hook = true
  found : ctx = some c
  running : c.isClose = false
  socket : c.isSocket = true
  blocking : c.getUserNonblock = false

structure Served (f : Function) (hook : Bool) (ctx : Option Ctx) (calls : List Got) (waits : List Wait) : Prop where
  managed : ∀ c, Managed hook ctx c →
    ∀ r, f.call hook ctx calls waits = some r ↔ Blocking (c.timeoutFor f.arguments.1) calls waits r
  closed : ∀ c, hook = true → ctx = some c → c.isClose = true → f.call hook ctx calls waits = some ⟨.error EBADF,0,0⟩
  plain : (∀ c, ¬Managed hook ctx c) → (∀ c, hook = true → ctx = some c → c.isClose = false) →
    f.call hook ctx calls waits = pass calls
  once : ∀ r, f.call hook ctx calls waits = some r → (calls.take r.made).filterMap Got.moved = r.result.moved.toList

section Loop
variable {timeout : UInt64} {n : Got} {calls : List Got} {waits : List Wait} {w : Wait} {r : Reply}

theorem again_moved (again : n.again) : n.moved = none := by
  rcases again with rfl | rfl <;> rfl

theorem retry_interrupted (calls : List Got) (waits : List Wait) :
    retry timeout (.error EINTR :: calls) waits =
      (retry timeout calls waits).map fun r => {r with made := r.made+1} := by
  rw [retry.eq_def]
  exact if_pos rfl

theorem retry_final (final : ¬n.again) (calls : List Got) (waits : List Wait) :
    retry timeout (n :: calls) waits = some ⟨n,1,0⟩ := by
  rw [Got.again,not_or] at final
  rw [retry.eq_def]
  exact (if_neg final.1).trans (if_neg final.2)

theorem retry_waited (calls : List Got) (w : Wait) (waits : List Wait) :
    retry timeout (.error EAGAIN :: calls) (w :: waits) =
      match w.ends timeout with
      | some result => some ⟨result,1,1⟩
      | none => (retry timeout calls waits).map fun r => {r with made := r.made+1, waits := r.waits+1} := by
  cases w with
  | refused errno => rfl
  | resumed cancelled =>
      change (if cancelled ∧ timeout ≠ -1 then some (⟨.error ETIMEDOUT,1,1⟩ : Reply) else _) = _
      rw [Wait.ends]
      split
      · rfl
      · rfl

theorem ends_moved (ends : w.ends timeout = some n) : n.moved = none := by
  cases w with
  | refused errno =>
      cases ends
      rfl
  | resumed cancelled =>
      rw [Wait.ends] at ends
      split at ends
      · cases ends
        rfl
      · cases ends

theorem blocked_interrupted (calls : List Got) : blocked (.error EINTR :: calls) = blocked calls :=
  List.count_cons_of_ne (by decide)

theorem blocked_again (calls : List Got) : blocked (.error EAGAIN :: calls) = blocked calls+1 := List.count_cons_self

theorem Blocking.interrupted (later : Blocking timeout calls waits r) :
    Blocking timeout (.error EINTR :: calls) waits {r with made := r.made+1} := by
  have also {front : List Got} (again : ∀ m ∈ front, m.again) : ∀ m ∈ Got.error EINTR :: front, m.again := by
    intro m member
    rcases List.mem_cons.mp member with rfl | old
    · exact .inl rfl
    · exact again m old
  cases later with
  | answered front rest n used left again goes paired final =>
      exact .answered (.error EINTR :: front) rest n used left (also again) goes
        (paired.trans (blocked_interrupted front).symm) final
  | ended front rest used left w result again goes paired ends =>
      exact .ended (.error EINTR :: front) rest used left w result (also again) goes
        (paired.trans (blocked_interrupted front).symm) ends

theorem Blocking.waited (later : Blocking timeout calls waits r) (goesOn : w.ends timeout = none) :
    Blocking timeout (.error EAGAIN :: calls) (w :: waits) {r with made := r.made+1, waits := r.waits+1} := by
  have also {front : List Got} (again : ∀ m ∈ front, m.again) : ∀ m ∈ Got.error EAGAIN :: front, m.again := by
    intro m member
    rcases List.mem_cons.mp member with rfl | old
    · exact .inr rfl
    · exact again m old
  have all {used : List Wait} (goes : ∀ v ∈ used, v.ends timeout = none) : ∀ v ∈ w :: used, v.ends timeout = none := by
    intro v member
    rcases List.mem_cons.mp member with rfl | old
    · exact goesOn
    · exact goes v old
  have longer {front : List Got} {used : List Wait} (paired : used.length = blocked front) :
      (w :: used).length = blocked (.error EAGAIN :: front) := by
    rw [List.length_cons,blocked_again,paired]
  cases later with
  | answered front rest n used left again goes paired final =>
      exact .answered (.error EAGAIN :: front) rest n (w :: used) left (also again) (all goes) (longer paired) final
  | ended front rest used left last result again goes paired ends =>
      exact .ended (.error EAGAIN :: front) rest (w :: used) left last result (also again) (all goes) (longer paired) ends

theorem retry_blocking (ran : retry timeout calls waits = some r) : Blocking timeout calls waits r := by
  induction calls generalizing waits r with
  | nil => cases ran
  | cons n calls ih =>
      by_cases final : n.again
      · rcases final with rfl | rfl
        · rw [retry_interrupted] at ran
          obtain ⟨later,went,rfl⟩ := Option.map_eq_some_iff.mp ran
          exact (ih went).interrupted
        · cases waits with
          | nil => cases ran
          | cons w waits =>
              rw [retry_waited] at ran
              cases ends : w.ends timeout with
              | some result =>
                  rw [ends] at ran
                  cases ran
                  exact .ended [] calls [] waits w result (fun _ member => absurd member List.not_mem_nil)
                    (fun _ member => absurd member List.not_mem_nil) rfl ends
              | none =>
                  rw [ends] at ran
                  obtain ⟨later,went,rfl⟩ := Option.map_eq_some_iff.mp ran
                  exact (ih went).waited ends
      · rw [retry_final final] at ran
        cases ran
        exact .answered [] calls n [] waits (fun _ member => absurd member List.not_mem_nil)
          (fun _ member => absurd member List.not_mem_nil) rfl final

-- What is left of the calls behind those that are made again.
theorem retry_front (front : List Got) (used left : List Wait) (rest : List Got) (again : ∀ m ∈ front, m.again)
    (goes : ∀ v ∈ used, v.ends timeout = none) (paired : used.length = blocked front) :
    retry timeout (front ++ rest) (used ++ left) = (retry timeout rest left).map fun r =>
      {r with made := r.made+front.length, waits := r.waits+used.length} := by
  induction front generalizing used with
  | nil =>
      obtain rfl := List.length_eq_zero_iff.mp paired
      exact Option.map_id'.symm
  | cons n front ih =>
      have later := fun m member => again m (.tail _ member)
      rcases again n (.head _) with rfl | rfl
      · rw [blocked_interrupted] at paired
        rw [List.cons_append,retry_interrupted,ih used later goes paired,Option.map_map]
        rfl
      · rw [blocked_again] at paired
        cases used with
        | nil => cases paired
        | cons w used =>
            have shorter := ih used later (fun v member => goes v (.tail _ member)) (Nat.succ.inj paired)
            rw [List.cons_append,List.cons_append,retry_waited,goes w (.head _),shorter]
            dsimp only
            rw [Option.map_map]
            rfl

theorem blocking_retry (blocking : Blocking timeout calls waits r) : retry timeout calls waits = some r := by
  cases blocking with
  | answered front rest n used left again goes paired final =>
      rw [retry_front front used left _ again goes paired,retry_final final,Option.map_some]
      simp [Nat.add_comm]
  | ended front rest used left w result again goes paired ends =>
      rw [retry_front front used _ _ again goes paired,retry_waited,ends]
      simp [Nat.add_comm]

theorem retry_iff (timeout : UInt64) (calls : List Got) (waits : List Wait) (r : Reply) :
    retry timeout calls waits = some r ↔ Blocking timeout calls waits r := ⟨retry_blocking,blocking_retry⟩

theorem moved_front {front : List Got} (again : ∀ m ∈ front, m.again) : front.filterMap Got.moved = [] :=
  List.filterMap_eq_nil_iff.mpr fun m member => again_moved (again m member)

theorem take_front (front : List Got) (n : Got) (rest : List Got) :
    (front ++ n :: rest).take (front.length+1) = front ++ [n] := by
  rw [List.take_length_add_append]
  rfl

theorem Blocking.once (blocking : Blocking timeout calls waits r) :
    (calls.take r.made).filterMap Got.moved = r.result.moved.toList := by
  cases blocking with
  | answered front rest n used left again goes paired final =>
      rw [take_front,List.filterMap_append,moved_front again]
      cases n <;> rfl
  | ended front rest used left w result again goes paired ends =>
      rw [take_front,List.filterMap_append,moved_front again,ends_moved ends]
      rfl

theorem pass_once (ran : pass calls = some r) : (calls.take r.made).filterMap Got.moved = r.result.moved.toList := by
  obtain ⟨n,first,rfl⟩ := Option.map_eq_some_iff.mp ran
  obtain ⟨rest,rfl⟩ := List.head?_eq_some_iff.mp first
  cases n <;> rfl

theorem timeout_kind (c : Ctx) (f : Function) : c.getTimeout f.arguments.2 = c.timeoutFor f.arguments.1 := by
  cases f <;> rfl

end Loop

theorem io_served (f : Function) (hook : Bool) (ctx : Option Ctx) (calls : List Got) (waits : List Wait) :
    Served f hook ctx calls waits := by
  have managed (c : Ctx) (holds : Managed hook ctx c) :
      f.call hook ctx calls waits = retry (c.timeoutFor f.arguments.1) calls waits := by
    obtain ⟨rfl,rfl,running,socket,blocking⟩ := holds
    rw [Function.call,do_io.eq_def,if_neg (by decide)]
    dsimp only
    rw [running,socket,blocking,timeout_kind]
    rfl
  have closed (c : Ctx) (hooked : hook = true) (found : ctx = some c) (shut : c.isClose = true) :
      f.call hook ctx calls waits = some ⟨.error EBADF,0,0⟩ := by
    subst hooked found
    rw [Function.call,do_io.eq_def,if_neg (by decide)]
    exact if_pos shut
  have plain (unmanaged : ∀ c, ¬Managed hook ctx c) (running : ∀ c, hook = true → ctx = some c → c.isClose = false) :
      f.call hook ctx calls waits = pass calls := by
    rw [Function.call,do_io.eq_def]
    cases hook with
    | false => rfl
    | true =>
        cases ctx with
        | none => rfl
        | some c =>
            have running := running c rfl rfl
            rw [if_neg (by decide)]
            dsimp only
            rw [running,if_neg Bool.false_ne_true]
            split
            · rfl
            · rename_i blocking
              rw [Bool.not_eq_true,Bool.or_eq_false_iff,Bool.not_eq_false'] at blocking
              exact absurd ⟨rfl,rfl,running,blocking.1,blocking.2⟩ (unmanaged c)
  refine ⟨?_,closed,plain,?_⟩
  · intro c holds r
    rw [managed c holds]
    exact retry_iff _ _ _ r
  · intro r ran
    by_cases holds : ∃ c, Managed hook ctx c
    · obtain ⟨c,holds⟩ := holds
      rw [managed c holds] at ran
      exact (retry_blocking ran).once
    · by_cases shut : ∃ c, hook = true ∧ ctx = some c ∧ c.isClose = true
      · obtain ⟨c,hooked,found,shut⟩ := shut
        rw [closed c hooked found shut] at ran
        cases ran
        rfl
      · rw [not_exists] at holds
        rw [plain holds fun c hooked found => Bool.eq_false_iff.mpr fun yes => shut ⟨c,hooked,found,yes⟩] at ran
        exact pass_once ran

end Fishjoy.HookIo
