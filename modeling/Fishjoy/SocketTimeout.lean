import Fishjoy.HookIo
import Fishjoy.Foundation.Transition
import Mathlib.Logic.Function.Basic

namespace Fishjoy.SocketTimeout
open Transition HookIo

-- `struct timeval tv`, whose seconds and microseconds come from an `int` each.
structure Timeval where
  tv_sec : Int64
  tv_usec : Int64

def Timeval.of (v : Int64) : Timeval := ⟨(v/1000).toInt32.toInt64,(v%1000*1000).toInt32.toInt64⟩

-- The second argument of `setTimeout` in `setsockopt`.
def Timeval.milliseconds (v : Timeval) : UInt64 := (v.tv_sec*1000+v.tv_usec/1000).toUInt64

structure Timeouts where
  m_recvTimeout : UInt64
  m_sendTimeout : UInt64
  deriving DecidableEq

def Timeouts.new : Timeouts := ⟨-1,-1⟩

def Timeouts.setTimeout (t : Timeouts) (type : Int) (v : UInt64) : Timeouts :=
  if type = SO_RCVTIMEO then {t with m_recvTimeout := v} else {t with m_sendTimeout := v}

def Timeouts.getTimeout (t : Timeouts) (type : Int) : UInt64 :=
  if type = SO_RCVTIMEO then t.m_recvTimeout else t.m_sendTimeout

-- An open socket with the timeouts it was last asked to have, as history.
structure File where
  recv : Option Int64
  send : Option Int64

def File.ask (f : File) (type : Int) (v : Int64) : File :=
  if type = SO_RCVTIMEO then {f with recv := some v} else {f with send := some v}

def File.asked (f : File) (type : Int) : Int64 := (if type = SO_RCVTIMEO then f.recv else f.send).getD (-1)

-- The contexts of `FdManager`, as far as the timeouts go.
structure State where
  files : Nat → Option File
  fds : Nat → Option Timeouts

inductive Call where
  | socket (hook : Bool) (fd : Nat)
  | accept (fd : Nat)
  | setRecvTimeout (hook : Bool) (fd : Nat) (v : Int64)
  | setSendTimeout (hook : Bool) (fd : Nat) (v : Int64)
  | close (hook : Bool) (fd : Nat)

namespace State

def initial : State := ⟨fun _ => none,fun _ => none⟩

-- `get(fd, true)`.
def manage (s : State) (fd : Nat) : State := {s with fds := Function.update s.fds fd (some ((s.fds fd).getD .new))}

def opened (s : State) (fd : Nat) : State := {s with files := Function.update s.files fd (some ⟨none,none⟩)}

def setsockopt (s : State) (hook : Bool) (fd : Nat) (optname : Int) (v : Timeval) : State :=
  if hook then {s with fds := Function.update s.fds fd ((s.fds fd).map fun ctx : Timeouts => ctx.setTimeout optname v.milliseconds)}
  else s

def setOption (s : State) (hook : Bool) (fd : Nat) (optname : Int) (v : Int64) : State :=
  let s := {s with files := Function.update s.files fd ((s.files fd).map fun f : File => f.ask optname v)}
  s.setsockopt hook fd optname (.of v)

def getOption (s : State) (fd : Nat) (optname : Int) : Int64 :=
  match s.fds fd with
  | some ctx => (ctx.getTimeout optname).toInt64
  | none => -1

def getRecvTimeout (s : State) (fd : Nat) : Int64 := s.getOption fd SO_RCVTIMEO
def getSendTimeout (s : State) (fd : Nat) : Int64 := s.getOption fd SO_SNDTIMEO

def close (s : State) (hook : Bool) (fd : Nat) : State :=
  {s with files := Function.update s.files fd none, fds := if hook then Function.update s.fds fd none else s.fds}

end State

def next (s : State) : Call → Option State
  | .socket hook fd =>
    if (s.files fd).isSome then none else some (if hook then (s.opened fd).manage fd else s.opened fd)
  | .accept fd => if (s.files fd).isSome then none else some ((s.opened fd).manage fd)
  | .setRecvTimeout hook fd v => some (s.setOption hook fd SO_RCVTIMEO v)
  | .setSendTimeout hook fd v => some (s.setOption hook fd SO_SNDTIMEO v)
  | .close hook fd => some (s.close hook fd)

-- A managed socket has the timeouts it was asked to have, and none before.
def Obeys (s : State) : Prop := ∀ fd file, s.files fd = some file → s.fds fd ≠ none →
  s.getRecvTimeout fd = file.asked SO_RCVTIMEO ∧ s.getSendTimeout fd = file.asked SO_SNDTIMEO

def Fits (v : Int64) : Prop := -2^31 ≤ v.toInt.tdiv 1000 ∧ v.toInt.tdiv 1000 < 2^31

instance (v : Int64) : Decidable (Fits v) := inferInstanceAs (Decidable (_ ∧ _))

def Unset (ctx : Timeouts) : Prop :=
  (ctx.getTimeout SO_RCVTIMEO).toInt64 = -1 ∧ (ctx.getTimeout SO_SNDTIMEO).toInt64 = -1

def Settable (s : State) (hook : Bool) (fd : Nat) (optname : Int) (v : Int64) : Prop :=
  s.files fd ≠ none → s.fds fd ≠ none → if hook then Fits v else s.getOption fd optname = v

-- A context that a `close` without the hook has left has no timeouts; what is
-- set with the hook has its seconds in an `int`; and what is set without the hook
-- on a managed socket is there already.
def Kept (s : State) : Call → Prop
  | .socket _ fd | .accept fd => s.files fd = none → ∀ ctx, s.fds fd = some ctx → Unset ctx
  | .setRecvTimeout hook fd v => Settable s hook fd SO_RCVTIMEO v
  | .setSendTimeout hook fd v => Settable s hook fd SO_SNDTIMEO v
  | .close _ _ => True

-- The descriptor that a call is about.
def Call.fd : Call → Nat
  | .socket _ fd | .accept fd | .setRecvTimeout _ fd _ | .setSendTimeout _ fd _ | .close _ fd => fd

theorem stored_toInt (v : Int64) : (Timeval.of v).milliseconds.toInt64.toInt =
    (v.toInt.tdiv 1000).bmod (2^32)*1000+v.toInt.tmod 1000 := by
  have whole := Int.mul_tdiv_add_tmod v.toInt 1000
  have lower := Int.lt_tmod_of_pos v.toInt (b := 1000) (by decide)
  have upper := Int.tmod_lt_of_pos v.toInt (b := 1000) (by decide)
  have least := v.le_toInt
  have most := v.toInt_lt
  generalize quotient : v.toInt.tdiv 1000 = q at whole
  generalize remainder : v.toInt.tmod 1000 = r at whole lower upper
  have first : (v/1000).toInt = q := by
    rw [Int64.toInt_div]
    change (v.toInt.tdiv 1000).bmod (2^64) = q
    rw [quotient]
    exact Int.bmod_eq_of_le (by omega) (by omega)
  have second : (v%1000*1000).toInt = r*1000 := by
    rw [Int64.toInt_mul,Int64.toInt_mod]
    change (v.toInt.tmod 1000*1000).bmod (2^64) = r*1000
    rw [remainder]
    exact Int.bmod_eq_of_le (by omega) (by omega)
  have low := Int.le_bmod (x := q) (m := 2^32) (by decide)
  have high := Int.bmod_lt (x := q) (m := 2^32) (by decide)
  have usec : ((v%1000*1000).toInt32.toInt64/1000).toInt = r := by
    rw [Int64.toInt_div,Int32.toInt_toInt64,Int64.toInt_toInt32,second]
    change (((r*1000).bmod (2^32)).tdiv 1000).bmod (2^64) = r
    rw [Int.bmod_eq_of_le (n := r*1000) (by omega) (by omega),Int.mul_tdiv_cancel r (by decide)]
    exact Int.bmod_eq_of_le (by omega) (by omega)
  rw [Timeval.milliseconds,Int64.toInt64_toUInt64,Timeval.of,Int64.toInt_add,usec,Int64.toInt_mul,
    Int32.toInt_toInt64,Int64.toInt_toInt32,first]
  change ((q.bmod (2^32)*1000).bmod (2^64)+r).bmod (2^64) = _
  generalize q.bmod (2^32) = narrowed at low high ⊢
  rw [Int.bmod_eq_of_le (n := narrowed*1000) (by omega) (by omega)]
  exact Int.bmod_eq_of_le (by omega) (by omega)

theorem stored_iff (v : Int64) : (Timeval.of v).milliseconds.toInt64 = v ↔ Fits v := by
  have whole := Int.mul_tdiv_add_tmod v.toInt 1000
  have value := stored_toInt v
  have low := Int.le_bmod (x := v.toInt.tdiv 1000) (m := 2^32) (by decide)
  have high := Int.bmod_lt (x := v.toInt.tdiv 1000) (m := 2^32) (by decide)
  constructor
  · intro same
    rw [same] at value
    constructor <;> omega
  · rintro ⟨least,most⟩
    apply Int64.toInt.inj
    rw [value,Int.bmod_eq_of_le (by omega) (by omega)]
    omega

section Steps
variable {s t : State} {fd : Nat} {optname : Int} {v : Int64}

theorem ask_asked (f : File) (optname : Int) (v : Int64) (known : optname = SO_RCVTIMEO ∨ optname = SO_SNDTIMEO)
    (kind : Int) (one : kind = SO_RCVTIMEO ∨ kind = SO_SNDTIMEO) :
    (f.ask optname v).asked kind = if kind = optname then v else f.asked kind := by
  rcases known with rfl | rfl <;> rcases one with rfl | rfl <;> rfl

theorem setTimeout_getTimeout (ctx : Timeouts) (optname : Int) (v : UInt64)
    (known : optname = SO_RCVTIMEO ∨ optname = SO_SNDTIMEO) (kind : Int)
    (one : kind = SO_RCVTIMEO ∨ kind = SO_SNDTIMEO) :
    (ctx.setTimeout optname v).getTimeout kind = if kind = optname then v else ctx.getTimeout kind := by
  rcases known with rfl | rfl <;> rcases one with rfl | rfl <;> rfl

-- What is known of one managed descriptor.
def Matches (s : State) (fd : Nat) : Prop := ∀ file ctx, s.files fd = some file → s.fds fd = some ctx →
  ∀ kind, kind = SO_RCVTIMEO ∨ kind = SO_SNDTIMEO → (ctx.getTimeout kind).toInt64 = file.asked kind

theorem obeys_iff : Obeys s ↔ ∀ fd, Matches s fd := by
  constructor
  · intro obeys fd file ctx found managed kind one
    have both := obeys fd file found (by rw [managed]; exact Option.some_ne_none ctx)
    rw [State.getRecvTimeout,State.getSendTimeout,State.getOption,State.getOption,managed] at both
    rcases one with rfl | rfl
    · exact both.1
    · exact both.2
  · intro matched fd file found managed
    obtain ⟨ctx,here⟩ := Option.ne_none_iff_exists'.mp managed
    rw [State.getRecvTimeout,State.getSendTimeout,State.getOption,State.getOption,here]
    exact ⟨matched fd file ctx found here _ (.inl rfl),matched fd file ctx found here _ (.inr rfl)⟩

-- Another descriptor does not see the call.
theorem matches_other {other : Nat} (files : t.files other = s.files other) (fds : t.fds other = s.fds other) :
    Matches t other ↔ Matches s other := by
  unfold Matches
  rw [files,fds]

theorem opened_matches (files : t.files fd = some ⟨none,none⟩)
    (fds : ∀ ctx, t.fds fd = some ctx → Unset ctx) : Matches t fd := by
  intro file ctx found managed kind one
  rw [files] at found
  cases found
  have unset := fds ctx managed
  rcases one with rfl | rfl
  · exact unset.1
  · exact unset.2

theorem new_unset : Unset .new := ⟨rfl,rfl⟩

theorem manage_unset (unset : ∀ ctx, s.fds fd = some ctx → Unset ctx) (ctx : Timeouts)
    (managed : ((s.opened fd).manage fd).fds fd = some ctx) : Unset ctx := by
  have managed : Function.update s.fds fd (some ((s.fds fd).getD .new)) fd = some ctx := managed
  rw [Function.update_self] at managed
  cases managed
  cases found : s.fds fd with
  | none => exact new_unset
  | some ctx => exact unset ctx found

theorem setOption_other (s : State) (hook : Bool) {other : Nat} (apart : other ≠ fd) :
    (s.setOption hook fd optname v).files other = s.files other ∧
      (s.setOption hook fd optname v).fds other = s.fds other := by
  rw [State.setOption,State.setsockopt]
  cases hook with
  | true => exact ⟨Function.update_of_ne apart _ _,Function.update_of_ne apart _ _⟩
  | false => exact ⟨Function.update_of_ne apart _ _,rfl⟩

theorem setOption_here (s : State) (hook : Bool) (fd : Nat) (optname : Int) (v : Int64) :
    (s.setOption hook fd optname v).files fd = (s.files fd).map (fun f : File => f.ask optname v) ∧
      (s.setOption hook fd optname v).fds fd =
        if hook then (s.fds fd).map fun ctx : Timeouts => ctx.setTimeout optname (Timeval.of v).milliseconds
        else s.fds fd := by
  rw [State.setOption,State.setsockopt]
  cases hook with
  | true => exact ⟨Function.update_self _ _ _,Function.update_self _ _ _⟩
  | false => exact ⟨Function.update_self _ _ _,rfl⟩

theorem setOption_matches (known : optname = SO_RCVTIMEO ∨ optname = SO_SNDTIMEO) (hook : Bool)
    (matched : Matches s fd) : Matches (s.setOption hook fd optname v) fd ↔ Settable s hook fd optname v := by
  obtain ⟨files,fds⟩ := setOption_here s hook fd optname v
  constructor
  · intro after present managed
    obtain ⟨file,found⟩ := Option.ne_none_iff_exists'.mp present
    obtain ⟨ctx,here⟩ := Option.ne_none_iff_exists'.mp managed
    rw [found] at files
    rw [here] at fds
    cases hook with
    | true =>
        have told := after _ _ files fds optname known
        rw [ask_asked file optname v known optname known,setTimeout_getTimeout ctx optname _ known optname known,
          if_pos rfl,if_pos rfl] at told
        rw [if_pos rfl]
        exact (stored_iff v).mp told
    | false =>
        have told := after _ _ files fds optname known
        rw [ask_asked file optname v known optname known,if_pos rfl] at told
        rw [if_neg Bool.false_ne_true,State.getOption,here]
        exact told
  · intro settable file' ctx' found' managed' kind one
    rw [files] at found'
    obtain ⟨file,found,rfl⟩ := Option.map_eq_some_iff.mp found'
    rw [fds] at managed'
    rw [ask_asked file optname v known kind one]
    cases hook with
    | true =>
        obtain ⟨ctx,here,rfl⟩ := Option.map_eq_some_iff.mp managed'
        have fits := settable (by rw [found]; exact Option.some_ne_none _) (by rw [here]; exact Option.some_ne_none _)
        rw [if_pos rfl] at fits
        rw [setTimeout_getTimeout ctx optname _ known kind one]
        split
        · exact (stored_iff v).mpr fits
        · exact matched file ctx found here kind one
    | false =>
        have here : s.fds fd = some ctx' := managed'
        have told := settable (by rw [found]; exact Option.some_ne_none _) (by rw [here]; exact Option.some_ne_none _)
        rw [if_neg Bool.false_ne_true,State.getOption,here] at told
        split
        · rename_i same
          subst same
          exact told
        · exact matched file ctx' found here kind one

theorem manage_other (s : State) {other : Nat} (apart : other ≠ fd) :
    ((s.opened fd).manage fd).files other = s.files other ∧ ((s.opened fd).manage fd).fds other = s.fds other :=
  ⟨Function.update_of_ne apart _ _,Function.update_of_ne apart _ _⟩

theorem opened_here (s : State) (fd : Nat) : ((s.opened fd).manage fd).files fd = some ⟨none,none⟩ :=
  Function.update_self _ _ _

theorem matches_unset (files : t.files fd = some ⟨none,none⟩) (matched : Matches t fd) (ctx : Timeouts)
    (managed : t.fds fd = some ctx) : Unset ctx :=
  ⟨matched _ ctx files managed _ (.inl rfl),matched _ ctx files managed _ (.inr rfl)⟩

-- A descriptor that was free when it is opened and managed.
theorem manage_matches (s : State) (fd : Nat) (free : s.files fd = none) : Matches ((s.opened fd).manage fd) fd ↔
    (s.files fd = none → ∀ ctx, s.fds fd = some ctx → Unset ctx) := by
  constructor
  · intro after _ ctx managed
    refine matches_unset (opened_here s fd) after ctx ?_
    refine (Function.update_self _ _ _).trans ?_
    rw [show (s.opened fd).fds fd = some ctx from managed,Option.getD_some]
  · intro kept
    exact opened_matches (opened_here s fd) (manage_unset (kept free))

theorem step_other {other : Nat} (call : Call) (apart : other ≠ call.fd) (moved : next s call = some t) :
    t.files other = s.files other ∧ t.fds other = s.fds other := by
  cases call with
  | socket hook fd =>
      rw [next] at moved
      split at moved
      · cases moved
      · cases hook with
        | true =>
            cases moved
            exact manage_other s apart
        | false =>
            cases moved
            exact ⟨Function.update_of_ne apart _ _,rfl⟩
  | accept fd =>
      rw [next] at moved
      split at moved
      · cases moved
      · cases moved
        exact manage_other s apart
  | setRecvTimeout hook fd v =>
      cases moved
      exact setOption_other s hook apart
  | setSendTimeout hook fd v =>
      cases moved
      exact setOption_other s hook apart
  | close hook fd =>
      cases moved
      refine ⟨Function.update_of_ne apart _ _,?_⟩
      cases hook with
      | true => exact Function.update_of_ne apart _ _
      | false => rfl

theorem step_here (call : Call) (matched : Matches s call.fd) (moved : next s call = some t) :
    Matches t call.fd ↔ Kept s call := by
  cases call with
  | socket hook fd =>
      rw [next] at moved
      split at moved
      · cases moved
      · rename_i free
        rw [Bool.not_eq_true,Option.isSome_eq_false_iff,Option.isNone_iff_eq_none] at free
        cases hook with
        | true =>
            cases moved
            exact manage_matches s fd free
        | false =>
            cases moved
            have files : (s.opened fd).files fd = some ⟨none,none⟩ := Function.update_self _ _ _
            exact ⟨fun after _ ctx managed => matches_unset files after ctx managed,
              fun kept => opened_matches files (kept free)⟩
  | accept fd =>
      rw [next] at moved
      split at moved
      · cases moved
      · rename_i free
        rw [Bool.not_eq_true,Option.isSome_eq_false_iff,Option.isNone_iff_eq_none] at free
        cases moved
        exact manage_matches s fd free
  | setRecvTimeout hook fd v =>
      cases moved
      exact setOption_matches (.inl rfl) hook matched
  | setSendTimeout hook fd v =>
      cases moved
      exact setOption_matches (.inr rfl) hook matched
  | close hook fd =>
      cases moved
      refine iff_of_true (fun file ctx found => ?_) trivial
      have gone : (s.close hook fd).files fd = none := Function.update_self _ _ _
      rw [show (s.close hook fd).files (Call.close hook fd).fd = none from gone] at found
      cases found

theorem step_obeys (obeys : Obeys s) (call : Call) (moved : next s call = some t) : Obeys t ↔ Kept s call := by
  rw [obeys_iff] at obeys ⊢
  rw [←step_here call (obeys call.fd) moved]
  constructor
  · exact fun after => after call.fd
  · intro here other
    by_cases same : other = call.fd
    · rw [same]
      exact here
    · obtain ⟨files,fds⟩ := step_other call same moved
      exact (matches_other files fds).mpr (obeys other)

-- A call that is not enabled asks for an open descriptor.
theorem blocked_kept (call : Call) (stuck : next s call = none) : Kept s call := by
  cases call with
  | socket hook fd =>
      rw [next] at stuck
      split at stuck
      · rename_i busy
        intro free
        rw [free] at busy
        cases busy
      · cases stuck
  | accept fd =>
      rw [next] at stuck
      split at stuck
      · rename_i busy
        intro free
        rw [free] at busy
        cases busy
      · cases stuck
  | setRecvTimeout hook fd v => cases stuck
  | setSendTimeout hook fd v => cases stuck
  | close hook fd => trivial

end Steps

theorem timeouts_obeyed_exactly (calls : List Call) :
    Throughout next Obeys .initial calls ↔ Along next Kept .initial calls := by
  have start : Obeys .initial := by
    intro fd file found
    cases found
  refine throughout_exactly start (fun _ obeys => obeys) (fun s call t obeys kept moved => (step_obeys obeys call moved).mpr kept) ?_
  intro s call obeys after
  cases moved : next s call with
  | none => exact blocked_kept call moved
  | some t => exact (step_obeys obeys call moved).mp (after t moved)

end Fishjoy.SocketTimeout
