import Fishjoy.Foundation.Transition
import Fishjoy.FdManager

namespace Fishjoy.HookNonblock
open Transition

structure State where
  files : Files
  fds : FdManager

-- The calls with the hook flag of their thread where they test it. What the
-- kernel returns is an input: the new descriptor, or nothing when it refuses. A
-- call on the descriptor -1 changes nothing.
inductive Call where
  | socket (hook : Bool) (flags : BitVec 32) (fd : Option Nat)
  | accept (fd : Option Nat)
  | setfl (fd : Nat) (arg : BitVec 32)
  | getfl (fd : Nat)
  | ioctl (d : Nat) (arg : Int)
  | close (hook : Bool) (fd : Nat)

namespace State

-- Nothing is open that the hooks have made.
def initial (files : Files) : State := ⟨files,.initial⟩

def opened (s : State) (fd : Nat) (flags : BitVec 32) : State :=
  {s with files := Function.update s.files fd (some ⟨true,flags,false⟩)}

-- `get(fd, true)`.
def manage (s : State) (fd : Nat) : State :=
  let (_,fds,files) := s.fds.get s.files fd true
  ⟨files,fds⟩

-- The context for `fcntl` and `ioctl`, where it counts.
def managed (s : State) (fd : Nat) : Option FdCtx :=
  (s.fds.lookup fd).filter fun ctx => !ctx.isClosed && ctx.isSocket

def setUserNonblock (s : State) (fd : Nat) (ctx : FdCtx) (v : Bool) : State :=
  {s with fds := s.fds.put fd {ctx with userNonblock := v}}

def setfl (s : State) (fd : Nat) (arg : BitVec 32) : State :=
  let s := {s with files := s.files.ask fd (nonblock arg)}
  match s.managed fd with
  | none => {s with files := s.files.setfl fd arg}
  | some ctx =>
    let s := s.setUserNonblock fd ctx (nonblock arg)
    let arg := if ctx.sysNonblock then arg ||| oNonblock else arg &&& ~~~oNonblock
    {s with files := s.files.setfl fd arg}

def getfl (s : State) (fd : Nat) : BitVec 32 :=
  let arg := s.files.getfl fd
  match s.managed fd with
  | none => arg
  | some ctx => if ctx.userNonblock then arg ||| oNonblock else arg &&& ~~~oNonblock

-- The argument goes to the kernel as it is.
def fionbio (s : State) (fd : Nat) (arg : Int) : State :=
  let userNonblock := decide (arg ≠ 0)
  let s := {s with files := s.files.ask fd userNonblock}
  match s.managed fd with
  | none => {s with files := s.files.fionbio fd arg}
  | some ctx =>
    let s := s.setUserNonblock fd ctx userNonblock
    {s with files := s.files.fionbio fd arg}

def close (s : State) (hook : Bool) (fd : Nat) : State :=
  let s := if hook && (s.fds.lookup fd).isSome then {s with fds := s.fds.del fd} else s
  {s with files := Function.update s.files fd none}

end State

-- `accept` gets the context on either setting of the hook flag, and the kernel
-- does not make what it accepts non-blocking.
def next (s : State) : Call → Option State
  | .socket _ _ none | .accept none | .getfl _ => some s
  | .socket hook flags (some fd) =>
    if s.files fd = none then
      let s := s.opened fd flags
      some (if hook then s.manage fd else s)
    else none
  | .accept (some fd) => if s.files fd = none then some ((s.opened fd 2).manage fd) else none
  | .setfl fd arg => some (s.setfl fd arg)
  | .ioctl d arg => some (s.fionbio d arg)
  | .close hook fd => some (s.close hook fd)

def InStep (s : State) : Prop := ∀ fd file ctx, s.files fd = some file → s.fds.lookup fd = some ctx →
  ctx.isSocket = true → ctx.sysNonblock = true → nonblock file.flags = true ∧ nonblock (s.getfl fd) = file.asked

-- A context that a `close` without the hook has left is taken for the new
-- file; and `FIONBIO` with 0 on a managed descriptor makes it blocking.
def Kept (s : State) : Call → Prop
  | .socket _ flags (some fd) => s.files fd = none → ∀ ctx, s.fds.lookup fd = some ctx →
      nonblock flags = true ∧ ctx.userNonblock = false
  | .accept (some fd) => s.files fd = none → s.fds.lookup fd = none
  | .ioctl d arg => s.files d ≠ none → s.fds.lookup d ≠ none → arg ≠ 0
  | _ => True

def Sound (ctx : FdCtx) : Prop := ctx.isSocket = true ∧ ctx.sysNonblock = true ∧ ctx.isClosed = false

def Agrees (file : File) (ctx : FdCtx) : Prop := nonblock file.flags = true ∧ ctx.userNonblock = file.asked

-- Only sockets get contexts.
structure Valid (s : State) : Prop where
  sound : ∀ fd ctx, s.fds.lookup fd = some ctx → Sound ctx
  agree : ∀ fd file ctx, s.files fd = some file → s.fds.lookup fd = some ctx → Agrees file ctx

variable {s s' : State}

theorem managed_eq (sound : ∀ fd ctx, s.fds.lookup fd = some ctx → Sound ctx) (fd : Nat) :
    s.managed fd = s.fds.lookup fd := by
  unfold State.managed
  cases found : s.fds.lookup fd with
  | none => rfl
  | some ctx =>
      obtain ⟨socket,_,open_⟩ := sound fd ctx found
      exact Option.filter_some_pos (by rw [socket,open_]; rfl)

theorem getfl_reports (managed : s.managed fd = some ctx) : nonblock (s.getfl fd) = ctx.userNonblock := by
  unfold State.getfl
  simp only [managed]
  cases ctx.userNonblock with
  | true => exact nonblock_set _
  | false => exact nonblock_clear _

theorem inStep_of_valid (valid : Valid s) : InStep s := by
  intro fd file ctx found managed _ _
  obtain ⟨flags,user⟩ := valid.agree fd file ctx found managed
  refine ⟨flags,?_⟩
  rw [getfl_reports ((managed_eq valid.sound fd).trans managed)]
  exact user

theorem agrees_of_inStep (sound : ∀ fd ctx, s.fds.lookup fd = some ctx → Sound ctx) (inStep : InStep s)
    (found : s.files fd = some file) (managed : s.fds.lookup fd = some ctx) : Agrees file ctx := by
  obtain ⟨socket,sys,_⟩ := sound fd ctx managed
  obtain ⟨flags,reports⟩ := inStep fd file ctx found managed socket sys
  refine ⟨flags,?_⟩
  rw [←getfl_reports ((managed_eq sound fd).trans managed)]
  exact reports

theorem initial_valid (files : Files) : Valid (.initial files) := by
  have empty : ∀ fd ctx, (State.initial files).fds.lookup fd ≠ some ctx := by
    intro fd ctx found
    rw [show (State.initial files).fds.lookup fd = none from FdManager.lookup_initial fd] at found
    cases found
  exact ⟨fun fd ctx found => absurd found (empty fd ctx),fun fd _ ctx _ found => absurd found (empty fd ctx)⟩

-- A call touches one descriptor.
structure Touches (s s' : State) (fd : Nat) : Prop where
  files : ∀ g ≠ fd, s'.files g = s.files g
  fds : ∀ g ≠ fd, s'.fds.lookup g = s.fds.lookup g
  sound : ∀ ctx, s'.fds.lookup fd = some ctx → Sound ctx

theorem Touches.all_sound (touches : Touches s s' fd) (sound : ∀ fd ctx, s.fds.lookup fd = some ctx → Sound ctx) :
    ∀ g ctx, s'.fds.lookup g = some ctx → Sound ctx := by
  intro g ctx found
  by_cases same : g = fd
  · subst g
    exact touches.sound ctx found
  · exact sound g ctx ((touches.fds g same).symm.trans found)

def Meets (s : State) (fd : Nat) : Prop :=
  ∀ file ctx, s.files fd = some file → s.fds.lookup fd = some ctx → Agrees file ctx

theorem Touches.valid (touches : Touches s s' fd) (valid : Valid s) (meets : Meets s' fd) : Valid s' := by
  refine ⟨touches.all_sound valid.sound,?_⟩
  intro g file ctx found managed
  by_cases same : g = fd
  · subst g
    exact meets file ctx found managed
  · exact valid.agree g file ctx ((touches.files g same).symm.trans found) ((touches.fds g same).symm.trans managed)

theorem manage_none (found : s.files fd = some file) (isSocket : file.isSocket = true) (free : s.fds.lookup fd = none) :
    (∀ g ≠ fd, (s.manage fd).files g = s.files g) ∧
    (s.manage fd).fds.lookup = Function.update s.fds.lookup fd (some ⟨true,true,true,false,false⟩) ∧
    ∃ file', (s.manage fd).files fd = some file' ∧ nonblock file'.flags = true ∧ file'.asked = file.asked := by
  obtain ⟨files,made,others,file',at_fd,flags,asked⟩ := FdCtx.init_socket found isSocket
  unfold State.manage FdManager.get
  simp only [free,made]
  exact ⟨others,FdManager.lookup_put _ _ _,file',at_fd,flags,asked⟩

theorem manage_some (left : s.fds.lookup fd = some ctx) : s.manage fd = s := by
  unfold State.manage FdManager.get
  rw [left]

-- The new file with the context that its descriptor then has.
theorem manage_touches (sound : ∀ fd ctx, s.fds.lookup fd = some ctx → Sound ctx) (fd : Nat) (flags : BitVec 32) :
    Touches s ((s.opened fd flags).manage fd) fd := by
  have opened : (s.opened fd flags).files fd = some ⟨true,flags,false⟩ := Function.update_self _ _ _
  have others : ∀ g ≠ fd, (s.opened fd flags).files g = s.files g := fun g other => Function.update_of_ne other _ _
  cases left : s.fds.lookup fd with
  | some ctx =>
      rw [manage_some (s := s.opened fd flags) left]
      exact ⟨others,fun _ _ => rfl,sound fd⟩
  | none =>
      obtain ⟨files,lookup,_⟩ := manage_none opened rfl left
      refine ⟨fun g other => (files g other).trans (others g other),?_,?_⟩
      · intro g other
        rw [lookup,Function.update_of_ne other]
        rfl
      · intro ctx found
        rw [lookup,Function.update_self] at found
        cases found
        exact ⟨rfl,rfl,rfl⟩

theorem opened_meets (s : State) (fd : Nat) (flags : BitVec 32) :
    Meets (s.opened fd flags) fd ↔
      ∀ ctx, s.fds.lookup fd = some ctx → nonblock flags = true ∧ ctx.userNonblock = false := by
  have opened : (s.opened fd flags).files fd = some ⟨true,flags,false⟩ := Function.update_self _ _ _
  constructor
  · intro meets ctx left
    exact meets _ ctx opened left
  · intro kept file ctx found left
    rw [opened] at found
    cases found
    exact kept ctx left

theorem manage_meets (s : State) (fd : Nat) (flags : BitVec 32) :
    Meets ((s.opened fd flags).manage fd) fd ↔
      ∀ ctx, s.fds.lookup fd = some ctx → nonblock flags = true ∧ ctx.userNonblock = false := by
  cases left : s.fds.lookup fd with
  | some ctx =>
      rw [manage_some (s := s.opened fd flags) left,opened_meets,left]
  | none =>
      obtain ⟨_,lookup,file',found',nonblocking,asked⟩ :=
        manage_none (s := s.opened fd flags) (Function.update_self _ _ _) rfl left
      refine ⟨fun _ => nofun,fun _ => ?_⟩
      intro file ctx found managed
      rw [found'] at found
      rw [lookup,Function.update_self] at managed
      cases found
      cases managed
      exact ⟨nonblocking,asked.symm⟩

-- Behind a change of the user's view the kernel is told, with the same context.
theorem setUserNonblock_spec (v : Bool) (sound : Sound ctx) (files : Files)
    (others : ∀ g ≠ fd, files g = s.files g) : Touches s {s.setUserNonblock fd ctx v with files := files} fd ∧
      (Meets {s.setUserNonblock fd ctx v with files := files} fd ↔
        ∀ file, files fd = some file → nonblock file.flags = true ∧ v = file.asked) := by
  have lookup : (s.setUserNonblock fd ctx v).fds.lookup = _ := FdManager.lookup_put s.fds fd {ctx with userNonblock := v}
  have here : (s.setUserNonblock fd ctx v).fds.lookup fd = some {ctx with userNonblock := v} := by
    rw [lookup,Function.update_self]
  refine ⟨⟨others,?_,?_⟩,?_,?_⟩
  · intro g other
    change (s.setUserNonblock fd ctx v).fds.lookup g = _
    rw [lookup,Function.update_of_ne other]
  · intro other (found : (s.setUserNonblock fd ctx v).fds.lookup fd = some other)
    rw [here] at found
    cases found
    exact sound
  · intro meets file found
    exact meets file _ found here
  · intro agrees file other found (managed : (s.setUserNonblock fd ctx v).fds.lookup fd = some other)
    rw [here] at managed
    cases managed
    exact agrees file found

theorem setfl_meets (valid : Valid s) (fd : Nat) (arg : BitVec 32) :
    Touches s (s.setfl fd arg) fd ∧ Meets (s.setfl fd arg) fd := by
  have others : ∀ v arg', ∀ g ≠ fd, ((s.files.ask fd v).setfl fd arg') g = s.files g := by
    intro v arg' g other
    exact (Files.edit_of_ne other _).trans (Files.edit_of_ne other _)
  have managed := managed_eq (s := {s with files := s.files.ask fd (nonblock arg)}) valid.sound fd
  unfold State.setfl
  simp only [managed]
  cases left : s.fds.lookup fd with
  | none =>
      refine ⟨⟨others _ _,fun _ _ => rfl,valid.sound fd⟩,?_⟩
      intro file ctx _ (found : s.fds.lookup fd = some ctx)
      rw [left] at found
      cases found
  | some ctx =>
      have sound := valid.sound fd ctx left
      simp only [sound.2.1,if_true]
      obtain ⟨touches,meets⟩ := setUserNonblock_spec (nonblock arg) sound _ (others (nonblock arg) (arg ||| oNonblock))
      refine ⟨touches,meets.mpr ?_⟩
      intro file found
      obtain ⟨middle,asked,rfl⟩ := Files.edit_found found
      obtain ⟨old,_,rfl⟩ := Files.edit_found asked
      exact ⟨(nonblock_setfl _ _).trans (nonblock_set _),rfl⟩

theorem fionbio_meets (valid : Valid s) (d : Nat) (arg : Int) : Touches s (s.fionbio d arg) d ∧
    (Meets (s.fionbio d arg) d ↔ (s.files d ≠ none → s.fds.lookup d ≠ none → arg ≠ 0)) := by
  have others : ∀ v, ∀ g ≠ d, ((s.files.ask d v).fionbio d arg) g = s.files g := by
    intro v g other
    exact (Files.edit_of_ne other _).trans (Files.edit_of_ne other _)
  have managed := managed_eq (s := {s with files := s.files.ask d (decide (arg ≠ 0))}) valid.sound d
  unfold State.fionbio
  simp only [managed]
  cases left : s.fds.lookup d with
  | none =>
      refine ⟨⟨others _,fun _ _ => rfl,valid.sound d⟩,fun _ _ taken => absurd rfl taken,fun _ => ?_⟩
      intro file ctx _ (found : s.fds.lookup d = some ctx)
      rw [left] at found
      cases found
  | some ctx =>
      obtain ⟨touches,meets⟩ :=
        setUserNonblock_spec (decide (arg ≠ 0)) (valid.sound d ctx left) _ (others (decide (arg ≠ 0)))
      refine ⟨touches,meets.trans ⟨?_,?_⟩⟩
      · intro agrees isOpen _ zero
        obtain ⟨old,found⟩ := Option.ne_none_iff_exists'.mp isOpen
        have cleared := (agrees _ (Files.edit_self (Files.edit_self found _) _)).1
        rw [if_neg (not_not.mpr zero),nonblock_clear] at cleared
        cases cleared
      · intro kept file found
        obtain ⟨middle,asked,rfl⟩ := Files.edit_found found
        obtain ⟨old,isOpen,rfl⟩ := Files.edit_found asked
        have set := kept (by rw [isOpen]; nofun) nofun
        refine ⟨?_,rfl⟩
        rw [if_pos set]
        exact nonblock_set _

theorem close_meets (valid : Valid s) (hook : Bool) (fd : Nat) :
    Touches s (s.close hook fd) fd ∧ Meets (s.close hook fd) fd := by
  have closed : (s.close hook fd).files fd = none := Function.update_self _ _ _
  refine ⟨?_,fun file ctx found => by rw [closed] at found; cases found⟩
  unfold State.close
  split
  · refine ⟨fun g other => Function.update_of_ne other _ _,?_,?_⟩
    · intro g other
      change (s.fds.del fd).lookup g = _
      rw [FdManager.lookup_del,Function.update_of_ne other]
    · intro ctx (found : (s.fds.del fd).lookup fd = some ctx)
      rw [FdManager.lookup_del,Function.update_self] at found
      cases found
  · exact ⟨fun g other => Function.update_of_ne other _ _,fun _ _ => rfl,valid.sound fd⟩

theorem call_exactly (valid : Valid s) (moved : next s c = some s') :
    ∃ fd, Touches s s' fd ∧ (Meets s' fd ↔ Kept s c) := by
  have still : Touches s s 0 ∧ (Meets s 0 ↔ True) :=
    ⟨⟨fun _ _ => rfl,fun _ _ => rfl,valid.sound 0⟩,fun _ => trivial,fun _ => valid.agree 0⟩
  cases c with
  | socket hook flags fd =>
      cases fd with
      | none =>
          cases moved
          exact ⟨0,still⟩
      | some fd =>
          obtain ⟨free,same⟩ := Option.ite_none_right_eq_some.mp moved
          cases same
          have kept : Kept s (.socket hook flags (some fd)) ↔
              ∀ ctx, s.fds.lookup fd = some ctx → nonblock flags = true ∧ ctx.userNonblock = false :=
            ⟨fun kept => kept free,fun kept _ => kept⟩
          cases hook with
          | true => exact ⟨fd,manage_touches valid.sound fd flags,(manage_meets s fd flags).trans kept.symm⟩
          | false =>
              refine ⟨fd,⟨?_,fun _ _ => rfl,valid.sound fd⟩,(opened_meets s fd flags).trans kept.symm⟩
              exact fun g other => Function.update_of_ne other _ _
  | accept fd =>
      cases fd with
      | none =>
          cases moved
          exact ⟨0,still⟩
      | some fd =>
          obtain ⟨free,same⟩ := Option.ite_none_right_eq_some.mp moved
          cases same
          refine ⟨fd,manage_touches valid.sound fd 2,(manage_meets s fd 2).trans ⟨?_,?_⟩⟩
          · intro kept _
            cases left : s.fds.lookup fd with
            | none => rfl
            | some ctx => exact absurd (kept ctx left).1 (by decide)
          · intro kept ctx left
            rw [kept free] at left
            cases left
  | setfl fd arg =>
      cases moved
      obtain ⟨touches,meets⟩ := setfl_meets valid fd arg
      exact ⟨fd,touches,fun _ => trivial,fun _ => meets⟩
  | getfl fd =>
      cases moved
      exact ⟨0,still⟩
  | ioctl d arg =>
      cases moved
      exact ⟨d,fionbio_meets valid d arg⟩
  | close hook fd =>
      cases moved
      obtain ⟨touches,meets⟩ := close_meets valid hook fd
      exact ⟨fd,touches,fun _ => trivial,fun _ => meets⟩

theorem valid_step (valid : Valid s) (kept : Kept s c) (moved : next s c = some s') : Valid s' := by
  obtain ⟨fd,touches,meets⟩ := call_exactly valid moved
  exact touches.valid valid (meets.mpr kept)

theorem kept_of_inStep (valid : Valid s) (after : ∀ s', next s c = some s' → InStep s') : Kept s c := by
  cases enabled : next s c with
  | some s' =>
      obtain ⟨fd,touches,meets⟩ := call_exactly valid enabled
      have sound := touches.all_sound valid.sound
      refine meets.mp fun file ctx found managed => ?_
      exact agrees_of_inStep sound (after s' enabled) found managed
  | none =>
      cases c with
      | socket hook flags fd =>
          cases fd with
          | none => trivial
          | some fd => exact fun free => by simp [next,free] at enabled
      | accept fd =>
          cases fd with
          | none => trivial
          | some fd => exact fun free => by simp [next,free] at enabled
      | _ => cases enabled

theorem inStep_exactly (files : Files) (calls : List Call) :
    Throughout next InStep (.initial files) calls ↔ Along next Kept (.initial files) calls :=
  throughout_exactly (initial_valid files) (fun _ => inStep_of_valid) (fun _ _ _ => valid_step) fun _ _ => kept_of_inStep

-- `FIONBIO` with 0 on a new socket: a `read` on it would block its thread.
def unblocked : List Call := [.socket true 2 (some 3),.ioctl 3 0]

theorem inStep_fails : ¬Throughout next InStep (.initial fun _ => none) unblocked := by
  intro holds
  obtain ⟨s,ran,file,found,ctx,managed,socket,sys,blocking⟩ : ∃ s, run next (.initial fun _ => none) unblocked = some s ∧
      ∃ file, s.files 3 = some file ∧ ∃ ctx, s.fds.lookup 3 = some ctx ∧
        ctx.isSocket = true ∧ ctx.sysNonblock = true ∧ nonblock file.flags = false :=
    ⟨_,rfl,_,rfl,_,rfl,rfl,rfl,rfl⟩
  have flag := (holds.reached unblocked [] ran 3 file ctx found managed socket sys).1
  rw [blocking] at flag
  cases flag

end Fishjoy.HookNonblock
