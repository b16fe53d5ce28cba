import Fishjoy.Foundation.Roster
import Fishjoy.Foundation.Transition

namespace Fishjoy.ScopedLock
open Transition

-- What the guards need of their mutex `T`, for calls of the thread `tid`. A
-- caller that has to wait is not enabled, and an `unlock` that is undefined has
-- no result. `again` tells who is sent back because it has the lock alone,
-- `bound` that nobody else may release what a thread has locked.
structure Lockable (Mode T : Type) where
  acquire : Nat → Mode → T → Option T
  unlock : Nat → T → Option T
  again : Nat → T → Bool
  bound : Bool

-- `pthread_rwlock_t` counts its readers and knows its writer.
structure Rwlock where
  readers : Nat
  writer : Option Nat
  deriving DecidableEq

inductive RWMode where
  | rdlock
  | wrlock
  deriving DecidableEq

namespace RWMutex

-- The results are not looked at: to the writer both calls say EDEADLK and leave
-- the lock as it is. A reader that wants to write waits for itself.
def rdlock (tid : Nat) (m : Rwlock) : Option Rwlock :=
  if m.writer = some tid then some m
  else if m.writer.isSome then none else some {m with readers := m.readers+1}

def wrlock (tid : Nat) (m : Rwlock) : Option Rwlock :=
  if m.writer = some tid then some m
  else if m.writer.isSome ∨ m.readers ≠ 0 then none else some {m with writer := some tid}

def unlock (tid : Nat) (m : Rwlock) : Option Rwlock :=
  if m.writer = some tid then some {m with writer := none}
  else if m.readers = 0 then none else some {m with readers := m.readers-1}

end RWMutex

-- `thread` locked it last, which the guard itself does not record.
structure Guard (Mode : Type) where
  mode : Mode
  m_locked : Bool
  thread : Nat
  deriving DecidableEq

-- The guards of one mutex in all threads; `none` stands for a destroyed one.
structure State (Mode T : Type) where
  mutex : T
  guards : List (Option (Guard Mode))

inductive Action (Mode : Type) where
  | construct (tid : Nat) (mode : Mode)
  | lock (tid i : Nat)
  | unlock (tid i : Nat)
  | destroy (tid i : Nat)

variable {Mode T : Type}

def unlocked (L : Lockable Mode T) (s : State Mode T) (tid i : Nat) (g : Guard Mode) : Option (State Mode T) :=
  if g.m_locked then
    (L.unlock tid s.mutex).map fun mutex => ⟨mutex,s.guards.set i (some {g with m_locked := false})⟩
  else some s

def next (L : Lockable Mode T) (s : State Mode T) : Action Mode → Option (State Mode T)
  | .construct tid mode => (L.acquire tid mode s.mutex).map fun mutex => ⟨mutex,s.guards ++ [some ⟨mode,true,tid⟩]⟩
  | .lock tid i => s.guards[i]?.join.bind fun g =>
    if g.m_locked then some s
    else (L.acquire tid g.mode s.mutex).map fun mutex => ⟨mutex,s.guards.set i (some ⟨g.mode,true,tid⟩)⟩
  | .unlock tid i => s.guards[i]?.join.bind (unlocked L s tid i)
  | .destroy tid i => s.guards[i]?.join.bind fun g =>
    (unlocked L s tid i g).map fun s => {s with guards := s.guards.set i none}

def begins (mutex : T) : State Mode T := ⟨mutex,[]⟩

-- A guard that has a pthread lock is unlocked by the thread that locked it;
-- anything else is undefined.
def owned (L : Lockable Mode T) (s : State Mode T) : Action Mode → Bool
  | .construct _ _ | .lock _ _ => true
  | .unlock tid i | .destroy tid i =>
    s.guards[i]?.join.all fun g => !g.m_locked || !L.bound || decide (tid = g.thread)

-- No thread takes the lock again that it has alone.
def fresh (L : Lockable Mode T) (s : State Mode T) : Action Mode → Bool
  | .construct tid _ => !L.again tid s.mutex
  | .lock tid i => s.guards[i]?.join.all fun g => g.m_locked || !L.again tid s.mutex
  | .unlock _ _ | .destroy _ _ => true

-- Who holds the lock, as the lock itself records it: the number of those that
-- share it, and the thread that has it alone.
structure Lawful (L : Lockable Mode T) (shares : Mode → Bool) (holds : T → Nat → Option Nat → Prop) : Prop where
  enters : ∀ t r w tid m u, holds t r w → L.again tid t = false → L.acquire tid m t = some u →
    w = none ∧ if shares m then holds u (r+1) none else r = 0 ∧ holds u 0 (some tid)
  sentBack : ∀ t r w tid m, holds t r w → L.again tid t = true → w.isSome ∧ (L.acquire tid m t).isSome
  free : ∀ t tid m, holds t 0 none → (L.acquire tid m t).isSome
  sharer : ∀ t r tid, holds t (r+1) none → ∃ u, L.unlock tid t = some u ∧ holds u r none
  owner : ∀ t w tid, holds t 0 (some w) → (L.bound = true → tid = w) → ∃ u, L.unlock tid t = some u ∧ holds u 0 none
  alone : ∀ t r w, holds t r (some w) → r = 0

def holding (shares : Mode → Bool) (kind : Bool) : Option (Guard Mode) → Bool
  | none => false
  | some g => g.m_locked && shares g.mode == kind

structure Recorded (shares : Mode → Bool) (holds : T → Nat → Option Nat → Prop) (s : State Mode T) (w : Option Nat) :
    Prop where
  recorded : holds s.mutex (s.guards.countP (holding shares true)) w
  alone : s.guards.countP (holding shares false) = w.isSome.toNat
  owner : ∀ g, some g ∈ s.guards → holding shares false (some g) = true → w = some g.thread

section Counts
variable {α : Type} {p : α → Bool} {l : List α} {a b : α} {i j : Nat}

end Counts

section Steps
variable {L : Lockable Mode T} {shares : Mode → Bool} {holds : T → Nat → Option Nat → Prop} {s t : State Mode T}
  {g : Guard Mode} {tid i : Nat}

end Steps

def RWMode.shares : RWMode → Bool
  | .rdlock => true
  | .wrlock => false

end Fishjoy.ScopedLock
