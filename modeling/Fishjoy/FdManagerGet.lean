import Fishjoy.FdManager
import Fishjoy.Foundation.Transition

namespace Fishjoy.FdManagerGet
open Transition Slots

def SO_RCVTIMEO : Int := 20

-- An `FdCtx` with its timeouts.
structure Context where
  fd : Nat
  flags : FdCtx
  recvTimeout : UInt64
  sendTimeout : UInt64
  deriving DecidableEq

namespace Context

def new (files : Files) (fd : Nat) : Context := ⟨fd,(FdCtx.init files fd).1,-1,-1⟩

def setTimeout (c : Context) (type : Int) (v : UInt64) : Context :=
  if type = SO_RCVTIMEO then {c with recvTimeout := v} else {c with sendTimeout := v}

def getTimeout (c : Context) (type : Int) : UInt64 :=
  if type = SO_RCVTIMEO then c.recvTimeout else c.sendTimeout

def setUserNonblock (c : Context) (v : Bool) : Context := {c with flags := {c.flags with userNonblock := v}}

def getUserNonblock (c : Context) : Bool := c.flags.userNonblock

theorem getTimeout_set (c : Context) (type : Int) (v : UInt64) : (c.setTimeout type v).getTimeout type = v := by
  unfold setTimeout getTimeout
  split <;> rfl

end Context

-- A pointer is an index of `ctxs`, where every `FdCtx` ever made stays.
-- `creating` is the descriptor of a `get` that has left its read lock without a
-- result and has yet to take the write lock. `returned` is the history: what
-- `get` returned for a descriptor since the last `del` of it.
structure State (Thread : Type) where
  ctxs : List Context
  datas : List (Option Nat)
  creating : Thread → Option Nat
  returned : Nat → List Nat

inductive Action (Thread : Type) where
  | get (t : Thread) (fd : Nat) (autoCreate : Bool)
  | create (t : Thread) (files : Files)
  | del (t : Thread) (fd : Nat)
  | setTimeout (p : Nat) (type : Int) (v : UInt64)
  | setUserNonblock (p : Nat) (v : Bool)

namespace State
variable {Thread : Type}

def initial : State Thread := ⟨[],List.replicate 64 none,fun _ => none,fun _ => []⟩

def answer (s : State Thread) (fd p : Nat) : State Thread :=
  {s with returned := Function.update s.returned fd (p :: s.returned fd)}

def setTimeout (s : State Thread) (p : Nat) (type : Int) (v : UInt64) : State Thread :=
  {s with ctxs := s.ctxs.modify p (·.setTimeout type v)}

def setUserNonblock (s : State Thread) (p : Nat) (v : Bool) : State Thread :=
  {s with ctxs := s.ctxs.modify p (·.setUserNonblock v)}

def getTimeout (s : State Thread) (p : Nat) (type : Int) : Option UInt64 := s.ctxs[p]?.map (·.getTimeout type)

def getUserNonblock (s : State Thread) (p : Nat) : Option Bool := s.ctxs[p]?.map Context.getUserNonblock

def del (s : State Thread) (fd : Nat) : State Thread :=
  {s with datas := s.datas.set fd none,returned := Function.update s.returned fd []}

variable [DecidableEq Thread]

-- The part under the read lock.
def get (s : State Thread) (t : Thread) (fd : Nat) (autoCreate : Bool) : State Thread :=
  match slot s.datas fd with
  | some p => s.answer fd p
  | none => if autoCreate then {s with creating := Function.update s.creating t (some fd)} else s

-- The part under the write lock, which does not look at the slot again.
def create (s : State Thread) (t : Thread) (fd : Nat) (files : Files) : State Thread :=
  {s with
    ctxs := s.ctxs ++ [Context.new files fd]
    datas := (grown s.datas fd (fd*3/2)).set fd (some s.ctxs.length)
    creating := Function.update s.creating t none}.answer fd s.ctxs.length

end State

-- The `Same` contexts of a descriptor: what is set through one is read through the other.
def Same {Thread : Type} (s : State Thread) : Prop :=
  ∀ fd, ∀ p ∈ s.returned fd, ∀ q ∈ s.returned fd, p = q ∧
    (∀ type v, (s.setTimeout p type v).getTimeout q type = some v) ∧
    ∀ v, (s.setUserNonblock p v).getUserNonblock q = some v

variable {Thread : Type}

def next [DecidableEq Thread] (s : State Thread) : Action Thread → Option (State Thread)
  | .get t fd autoCreate => if s.creating t = none then some (s.get t fd autoCreate) else none
  | .create t files => (s.creating t).map fun fd => s.create t fd files
  | .del t fd => if s.creating t = none then some (s.del fd) else none
  | .setTimeout p type v => some (s.setTimeout p type v)
  | .setUserNonblock p v => some (s.setUserNonblock p v)

-- A creation finds the slot as empty as its lookup did.
def Vacant (s : State Thread) : Action Thread → Prop
  | .create t _ => ∀ fd, s.creating t = some fd → slot s.datas fd = none
  | _ => True

structure Coherent (s : State Thread) : Prop where
  wide : 64 ≤ s.datas.length
  alive : ∀ fd p, slot s.datas fd = some p → p < s.ctxs.length
  handed : ∀ fd p, p ∈ s.returned fd ↔ slot s.datas fd = some p

section Steps
variable {s u : State Thread}

theorem initial_coherent : Coherent (State.initial : State Thread) := by
  have empty : ∀ fd, slot (State.initial : State Thread).datas fd = none := fun _ => slot_empty
  refine ⟨by simp [State.initial],?_,?_⟩
  · intro fd p found
    rw [empty] at found
    cases found
  · intro fd p
    rw [empty]
    exact iff_of_false List.not_mem_nil nofun

theorem modify_read {α β : Type} {l : List α} {p : Nat} (inside : p < l.length) (change : α → α) (read : α → β) (v : β)
    (reads : ∀ a, read (change a) = v) : (l.modify p change)[p]?.map read = some v := by
  rw [List.getElem?_modify_eq,List.getElem?_eq_getElem inside]
  exact congrArg some (reads _)

theorem Coherent.same (coherent : Coherent s) : Same s := by
  intro fd p here q there
  have held := (coherent.handed fd p).mp here
  have equal : p = q := Option.some.inj (held.symm.trans ((coherent.handed fd q).mp there))
  subst equal
  have inside := coherent.alive fd p held
  refine ⟨rfl,?_,?_⟩
  · exact fun type v => modify_read inside _ (·.getTimeout type) v fun c => c.getTimeout_set type v
  · exact fun v => modify_read inside _ Context.getUserNonblock v fun _ => rfl

-- One descriptor gets both a new history and a new slot.
theorem handed_update {returned : Nat → List Nat} {held : Nat → Option Nat}
    (handed : ∀ fd p, p ∈ returned fd ↔ held fd = some p) (fd : Nat) {history : List Nat} {now : Option Nat}
    (here : ∀ p, p ∈ history ↔ now = some p) (other p : Nat) :
    p ∈ Function.update returned fd history other ↔ Function.update held fd now other = some p := by
  by_cases same : other = fd
  · subst other
    rw [Function.update_self,Function.update_self]
    exact here p
  · rw [Function.update_of_ne same,Function.update_of_ne same]
    exact handed other p

theorem Coherent.answer (coherent : Coherent s) (held : slot s.datas fd = some p) : Coherent (s.answer fd p) := by
  have unchanged := Function.update_eq_self fd (slot s.datas)
  rw [held] at unchanged
  have here : ∀ q, q ∈ p :: s.returned fd ↔ some p = some q := by
    intro q
    rw [List.mem_cons,coherent.handed fd q,held,Option.some.injEq,eq_comm,or_self]
  have kept := handed_update coherent.handed fd here
  rw [unchanged] at kept
  exact ⟨coherent.wide,coherent.alive,kept⟩

theorem Coherent.del (coherent : Coherent s) (fd : Nat) : Coherent (s.del fd) := by
  have cleared : slot (s.del fd).datas = Function.update (slot s.datas) fd none := slot_clear
  refine ⟨?_,?_,?_⟩
  · unfold State.del
    rw [List.length_set]
    exact coherent.wide
  · intro other p found
    rw [cleared] at found
    by_cases same : other = fd
    · subst other
      rw [Function.update_self] at found
      cases found
    · rw [Function.update_of_ne same] at found
      exact coherent.alive other p found
  · rw [cleared]
    exact handed_update coherent.handed fd fun p => iff_of_false List.not_mem_nil nofun

variable [DecidableEq Thread]

theorem create_returned (t : Thread) (fd : Nat) (files : Files) :
    (s.create t fd files).returned = Function.update s.returned fd (s.ctxs.length :: s.returned fd) := rfl

theorem create_creating (t : Thread) (fd : Nat) (files : Files) :
    (s.create t fd files).creating = Function.update s.creating t none := rfl

theorem create_slot (wide : 64 ≤ s.datas.length) (t : Thread) (fd : Nat) (files : Files) :
    slot (s.create t fd files).datas = Function.update (slot s.datas) fd (some s.ctxs.length) :=
  slot_put (grown_length (by omega)).1 _

theorem Coherent.create (coherent : Coherent s) (vacant : slot s.datas fd = none) (t : Thread) (files : Files) :
    Coherent (s.create t fd files) := by
  have wide := coherent.wide
  have filled := create_slot wide t fd files
  have nothing : s.returned fd = [] := by
    refine List.eq_nil_iff_forall_not_mem.mpr fun p member => ?_
    have held := (coherent.handed fd p).mp member
    rw [vacant] at held
    cases held
  refine ⟨?_,?_,?_⟩
  · have longer := (grown_length (l := s.datas) (i := fd) (n := fd*3/2) (by omega)).2
    unfold State.create State.answer
    rw [List.length_set]
    exact Nat.le_trans wide longer
  · intro other p found
    unfold State.create State.answer
    rw [List.length_append]
    rw [filled] at found
    by_cases same : other = fd
    · subst other
      rw [Function.update_self] at found
      cases found
      exact Nat.lt_succ_self _
    · rw [Function.update_of_ne same] at found
      exact Nat.lt_succ_of_lt (coherent.alive other p found)
  · rw [filled]
    refine handed_update coherent.handed fd fun p => ?_
    dsimp only
    rw [nothing,List.mem_singleton,Option.some.injEq,eq_comm]

theorem Coherent.next (coherent : Coherent s) {a : Action Thread} (vacant : Vacant s a) (moved : next s a = some u) :
    Coherent u := by
  cases a with
  | get t fd autoCreate =>
      simp only [FdManagerGet.next,Option.ite_none_right_eq_some,Option.some.injEq] at moved
      obtain ⟨_,rfl⟩ := moved
      unfold State.get
      cases held : slot s.datas fd with
      | some p => exact coherent.answer held
      | none =>
          cases autoCreate with
          | true => exact ⟨coherent.wide,coherent.alive,coherent.handed⟩
          | false => exact coherent
  | create t files =>
      obtain ⟨fd,busy,rfl⟩ := Option.map_eq_some_iff.mp moved
      exact coherent.create (vacant fd busy) t files
  | del t fd =>
      simp only [FdManagerGet.next,Option.ite_none_right_eq_some,Option.some.injEq] at moved
      obtain ⟨_,rfl⟩ := moved
      exact coherent.del fd
  | setTimeout p type v =>
      cases moved
      refine ⟨coherent.wide,?_,coherent.handed⟩
      unfold State.setTimeout
      rw [List.length_modify]
      exact coherent.alive
  | setUserNonblock p v =>
      cases moved
      refine ⟨coherent.wide,?_,coherent.handed⟩
      unfold State.setUserNonblock
      rw [List.length_modify]
      exact coherent.alive

-- The table as `FdManager` has it.
def view (s : State Thread) (fd : Nat) : Option FdCtx := (slot s.datas fd).bind fun p => s.ctxs[p]?.map Context.flags

theorem create_view (coherent : Coherent s) (t : Thread) (fd : Nat) (files : Files) :
    view (s.create t fd files) = Function.update (view s) fd (some (FdCtx.init files fd).1) := by
  have filled := create_slot coherent.wide t fd files
  have ctxs : (s.create t fd files).ctxs = s.ctxs ++ [Context.new files fd] := rfl
  funext other
  unfold view
  rw [filled,ctxs]
  by_cases same : other = fd
  · subst other
    rw [Function.update_self,Function.update_self,Option.bind_some,List.getElem?_concat_length]
    rfl
  · rw [Function.update_of_ne same,Function.update_of_ne same]
    cases held : slot s.datas other with
    | none => rfl
    | some p =>
        rw [Option.bind_some,Option.bind_some,List.getElem?_append_left (coherent.alive other p held)]

-- Without interference the two parts are the complete call.
theorem get_alone (coherent : Coherent s) {t : Thread} (free : s.creating t = none) {m : FdManager}
    (same : m.lookup = view s) (files : Files) (fd : Nat) :
    ∃ u, run next s (.get t fd true :: if (view s fd).isSome then [] else [.create t files]) = some u ∧
      u.creating t = none ∧
      (m.get files fd true).2.1.lookup = view u ∧ (m.get files fd true).1 = view u fd := by
  have first : next s (.get t fd true) = some (s.get t fd true) := if_pos free
  cases held : slot s.datas fd with
  | some p =>
      have found : m.lookup fd = s.ctxs[p]?.map Context.flags := by
        rw [same,view,held]
        rfl
      rw [List.getElem?_eq_getElem (coherent.alive fd p held),Option.map_some] at found
      have answer : s.get t fd true = s.answer fd p := by
        unfold State.get
        rw [held]
      refine ⟨s.answer fd p,?_,free,?_,?_⟩
      · rw [←same,found,Option.isSome_some,if_pos rfl,run,first,answer]
        rfl
      · unfold FdManager.get
        rw [found]
        exact same
      · unfold FdManager.get
        rw [found]
        exact found.symm.trans (congrFun same fd)
  | none =>
      have found : m.lookup fd = none := by
        rw [same,view,held]
        rfl
      have waits : s.get t fd true = {s with creating := Function.update s.creating t (some fd)} := by
        unfold State.get
        rw [held]
        rfl
      have waiting : Coherent {s with creating := Function.update s.creating t (some fd)} :=
        ⟨coherent.wide,coherent.alive,coherent.handed⟩
      have made := create_view waiting t fd files
      refine ⟨State.create {s with creating := Function.update s.creating t (some fd)} t fd files,?_,?_,?_,?_⟩
      · rw [←same,found,run,first,Option.bind_some,waits]
        simp only [Option.isSome_none,Bool.false_eq_true,if_false,run,next,Function.update_self,Option.map_some,
          Option.bind_some]
      · rw [create_creating,Function.update_self]
      · unfold FdManager.get
        rw [found,made]
        exact (FdManager.lookup_put m fd _).trans (by rw [same]; rfl)
      · unfold FdManager.get
        rw [found,made,Function.update_self]
        rfl

-- The context that the slot holds was returned, and so is the new one.
theorem create_sharp (coherent : Coherent s) (t : Thread) (files : Files) (same : Same (s.create t fd files)) :
    slot s.datas fd = none := by
  by_contra filled
  obtain ⟨p,held⟩ := Option.ne_none_iff_exists'.mp filled
  have old : p ∈ (s.create t fd files).returned fd := by
    rw [create_returned,Function.update_self]
    exact .tail _ ((coherent.handed fd p).mpr held)
  have fresh : s.ctxs.length ∈ (s.create t fd files).returned fd := by
    rw [create_returned,Function.update_self]
    exact .head _
  exact absurd (same fd p old _ fresh).1 (Nat.ne_of_lt (coherent.alive fd p held))

theorem same_sharp (coherent : Coherent s) (a : Action Thread) (after : ∀ u, next s a = some u → Same u) : Vacant s a := by
  cases a with
  | create t files =>
      intro fd busy
      refine create_sharp coherent t files (after _ ?_)
      simp only [next,busy,Option.map_some]
  | _ => trivial

end Steps

theorem same_exactly [DecidableEq Thread] (actions : List (Action Thread)) :
    Throughout next Same State.initial actions ↔ Along next Vacant State.initial actions :=
  throughout_exactly initial_coherent (fun _ => Coherent.same) (fun _ _ _ coherent => coherent.next)
    fun _ a coherent => same_sharp coherent a

-- Both threads find no context for descriptor 5, and each makes one.
def race : List (Action Bool) :=
  [.get false 5 true,.get true 5 true,.create false fun _ => none,.create true fun _ => none]

theorem two_creators : ¬∀ actions : List (Action Bool), Throughout next Same State.initial actions := by
  intro always
  have last := Throughout.reached race [] rfl (always (race ++ []))
  obtain ⟨equal,_⟩ := last 5 0 (by decide) 1 (by decide)
  cases equal

end Fishjoy.FdManagerGet
