import Fishjoy.Foundation.Slots

namespace Fishjoy

def oNonblock : BitVec 32 := 0x800

-- What `F_SETFL` can change: append, non-blocking, asynchronous, direct, no access time.
def settable : BitVec 32 := 0x46c00

def nonblock (flags : BitVec 32) : Bool := flags &&& oNonblock != 0

-- An open file as the kernel has it, and as history what the last `F_SETFL` or
-- `FIONBIO` on it asked for.
structure File where
  isSocket : Bool
  flags : BitVec 32
  asked : Bool
  deriving DecidableEq

abbrev Files := Nat → Option File

namespace Files

def edit (files : Files) (fd : Nat) (change : File → File) : Files :=
  Function.update files fd ((files fd).map change)

def setfl (files : Files) (fd : Nat) (arg : BitVec 32) : Files :=
  files.edit fd fun file => {file with flags := file.flags &&& ~~~settable ||| arg &&& settable}

def fionbio (files : Files) (fd : Nat) (arg : Int) : Files :=
  files.edit fd fun file =>
    {file with flags := if arg ≠ 0 then file.flags ||| oNonblock else file.flags &&& ~~~oNonblock}

def ask (files : Files) (fd : Nat) (asked : Bool) : Files :=
  files.edit fd fun file => {file with asked := asked}

-- The error is the value -1.
def getfl (files : Files) (fd : Nat) : BitVec 32 :=
  match files fd with
  | some file => file.flags
  | none => -1

end Files

structure FdCtx where
  isInit : Bool
  isSocket : Bool
  sysNonblock : Bool
  userNonblock : Bool
  isClosed : Bool
  deriving DecidableEq

-- The constructor with `init`, which makes a socket non-blocking.
def FdCtx.init (files : Files) (fd : Nat) : FdCtx × Files :=
  match files fd with
  | none => (⟨false,false,false,false,false⟩,files)
  | some file =>
    if file.isSocket then
      let flags := files.getfl fd
      (⟨true,true,true,false,false⟩,if nonblock flags then files else files.setfl fd (flags ||| oNonblock))
    else (⟨true,false,false,false,false⟩,files)

-- `m_datas`, which has room for 64 descriptors from the start.
structure FdManager where
  datas : List (Option FdCtx)
  wide : 64 ≤ datas.length

namespace FdManager

def initial : FdManager := ⟨List.replicate 64 none,by simp⟩

def resized (m : FdManager) (fd : Nat) : List (Option FdCtx) :=
  if m.datas.length ≤ fd then m.datas ++ List.replicate (fd*3/2-m.datas.length) none else m.datas

theorem resized_length (m : FdManager) (fd : Nat) : 64 ≤ (m.resized fd).length ∧ fd < (m.resized fd).length := by
  have wide := m.wide
  obtain ⟨inside,longer⟩ := Slots.grown_length (l := m.datas) (i := fd) (n := fd*3/2) fun beyond => by omega
  exact ⟨Nat.le_trans wide longer,inside⟩

def put (m : FdManager) (fd : Nat) (ctx : FdCtx) : FdManager :=
  ⟨(m.resized fd).set fd (some ctx),by rw [List.length_set]; exact (m.resized_length fd).1⟩

def lookup (m : FdManager) (fd : Nat) : Option FdCtx := m.datas[fd]?.join

def get (m : FdManager) (files : Files) (fd : Nat) (autoCreate : Bool) : Option FdCtx × FdManager × Files :=
  match m.lookup fd with
  | some ctx => (some ctx,m,files)
  | none =>
    if autoCreate then
      let (ctx,files) := FdCtx.init files fd
      (some ctx,m.put fd ctx,files)
    else (none,m,files)

def del (m : FdManager) (fd : Nat) : FdManager :=
  ⟨m.datas.set fd none,by rw [List.length_set]; exact m.wide⟩

theorem lookup_initial (fd : Nat) : initial.lookup fd = none := Slots.slot_empty

theorem lookup_put (m : FdManager) (fd : Nat) (ctx : FdCtx) :
    (m.put fd ctx).lookup = Function.update m.lookup fd (some ctx) :=
  Slots.slot_put (m.resized_length fd).2 (some ctx)

theorem lookup_del (m : FdManager) (fd : Nat) : (m.del fd).lookup = Function.update m.lookup fd none :=
  Slots.slot_clear

end FdManager

theorem nonblock_bit (flags : BitVec 32) : nonblock flags = flags.getLsbD 11 := by
  have power : oNonblock = BitVec.twoPow 32 11 := by decide
  unfold nonblock
  rw [power,BitVec.and_twoPow]
  cases flags.getLsbD 11 <;> rfl

theorem nonblock_set (flags : BitVec 32) : nonblock (flags ||| oNonblock) = true := by
  rw [nonblock_bit,BitVec.getLsbD_or]
  exact Bool.or_eq_true_iff.mpr (.inr rfl)

theorem nonblock_clear (flags : BitVec 32) : nonblock (flags &&& ~~~oNonblock) = false := by
  rw [nonblock_bit,BitVec.getLsbD_and]
  exact Bool.and_eq_false_iff.mpr (.inr rfl)

theorem nonblock_setfl (flags arg : BitVec 32) :
    nonblock (flags &&& ~~~settable ||| arg &&& settable) = nonblock arg := by
  have kept : (~~~settable).getLsbD 11 = false := rfl
  have changed : settable.getLsbD 11 = true := rfl
  rw [nonblock_bit,nonblock_bit]
  simp only [BitVec.getLsbD_or,BitVec.getLsbD_and,kept,changed,Bool.and_false,Bool.false_or,Bool.and_true]

namespace Files

theorem edit_self {files : Files} (found : files fd = some file) (change : File → File) :
    files.edit fd change fd = some (change file) := by
  unfold edit
  rw [Function.update_self,found]
  rfl

theorem edit_found {files : Files} {change : File → File} (found : files.edit fd change fd = some file) :
    ∃ old, files fd = some old ∧ change old = file := by
  unfold edit at found
  rw [Function.update_self] at found
  exact Option.map_eq_some_iff.mp found

theorem edit_of_ne {files : Files} (other : g ≠ fd) (change : File → File) : files.edit fd change g = files g :=
  Function.update_of_ne other _ _

end Files

theorem FdCtx.init_socket {files : Files} (found : files fd = some file) (isSocket : file.isSocket = true) :
    ∃ files', FdCtx.init files fd = (⟨true,true,true,false,false⟩,files') ∧ (∀ g ≠ fd, files' g = files g) ∧
      ∃ file', files' fd = some file' ∧ nonblock file'.flags = true ∧ file'.asked = file.asked := by
  unfold FdCtx.init Files.getfl
  simp only [found,isSocket]
  rw [if_pos trivial]
  cases already : nonblock file.flags with
  | true => exact ⟨files,rfl,fun _ _ => rfl,file,found,already,rfl⟩
  | false =>
      refine ⟨_,rfl,fun g other => Files.edit_of_ne other _,_,Files.edit_self found _,?_,rfl⟩
      exact (nonblock_setfl _ _).trans (nonblock_set _)

end Fishjoy
