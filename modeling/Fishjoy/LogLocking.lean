import Fishjoy.Foundation.LockPrograms
import Fishjoy.LogAppenders

namespace Fishjoy.LogLocking
open Transition LockPrograms

-- `config` is the lock of the variable "logs".
inductive Lock (L A : Type) where
  | config
  | manager
  | logger (l : L)
  | appender (a : A)
  deriving DecidableEq

-- A level and the time that each appender finds.
structure Event (A : Type) where
  level : LogLevel
  now : A → Int

-- Definitions with the appenders that are made for them, and the formatters that are made
-- of patterns that are not empty and not wrong.
structure LogAppenderDefine (A F : Type) where
  appender : A
  level : LogLevel
  formatter : Option F

structure LogDefine (L A F : Type) where
  name : L
  level : LogLevel
  pattern : List UInt8
  formatter : Option F
  appenders : List (LogAppenderDefine A F)

-- What `operator==` of definitions compares.
def LogDefine.compared {L A F : Type} (i : LogDefine L A F) : L × LogLevel × List UInt8 := (i.name,i.level,i.pattern)

-- What a function gives back: the appenders or the formatter it reads, the level and the
-- formatter of a text in YAML, the value of the variable.
inductive Answer (L A F : Type) where
  | appenders (val : List A)
  | formatter (val : Option F)
  | node (level : LogLevel) (formatter : Option F)
  | value (val : List (LogDefine L A F))

-- What is done between two operations on locks, or while none is held.
inductive Work (L A F : Type) where
  | log (l : L) (event : Event A)
  | deliver (l : L) (event : Event A)
  | appenderLog (a : A) (event : Event A)
  | reopen (a : A)
  | setLastTime (a : A) (now : Int)
  | print (a : A)
  | setFormatter (l : L) (val : Option F)
  | inheritAll (l : L) (val : Option F)
  | inherit (a : A) (val : Option F)
  | getFormatter (a : A) (l : L)
  | give (a : A) (l : L)
  | push (l : L) (a : A)
  | erase (l : L) (a : A)
  | clear (l : L)
  | getAppenders (l : L)
  | loggerGetFormatter (l : L)
  | setLevel (l : L) (val : LogLevel)
  | appenderSetFormatter (a : A) (val : Option F)
  | appenderGetFormatter (a : A)
  | appenderSetLevel (a : A) (val : LogLevel)
  | appenderToYamlString (a : A)
  | toYamlString (l : L)
  | allToYamlString
  | create (l : L)
  | getValue
  | compare (v : List (LogDefine L A F)) (now : A → Int)
  | define (old_value : List (LogDefine L A F)) (i : LogDefine L A F)
  | remove (new_value : List (LogDefine L A F)) (i : LogDefine L A F)
  | store (v : List (LogDefine L A F))

-- The functions of loggers, appenders, the manager and the variable, from any thread.
inductive Call (L A F : Type) where
  | log (l : L) (event : Event A)
  | setFormatter (l : L) (val : Option F)
  | addAppender (l : L) (appender : A)
  | delAppender (l : L) (appender : A)
  | clearAppenders (l : L)
  | getAppenders (l : L)
  | getFormatter (l : L)
  | toYamlString (l : L)
  | setLevel (l : L) (val : LogLevel)
  | appenderSetFormatter (a : A) (val : Option F)
  | appenderGetFormatter (a : A)
  | appenderSetLevel (a : A) (val : LogLevel)
  | appenderToYamlString (a : A)
  | reopen (a : A)
  | getLogger (l : L)
  | managerToYamlString
  | getValue
  | setValue (v : List (LogDefine L A F)) (now : A → Int)

-- `m_loggers` are those the manager has handed out; each of them but the root has the
-- root as its `m_root`. `data` has the fields of the others as they are constructed.
-- `m_filestream` is how often a file was opened, `printed` what came out of an appender,
-- with which formatter. `crashed` is that a null pointer was used: the process may end
-- there, and here its threads go on with all they could still do.
structure Shared (L A F : Type) where
  data : LogAppenders.State L A F
  m_loggers : List L
  m_lastTime : A → Int
  m_filestream : A → Nat
  m_val : List (LogDefine L A F)
  printed : List (A × F)
  answers : List (Answer L A F)
  crashed : Bool

def Shared.answer {L A F : Type} (s : Shared L A F) (given : Answer L A F) : Shared L A F :=
  {s with answers := s.answers ++ [given]}

section Functions
variable {L A F : Type} [DecidableEq L] [DecidableEq A] (root : L) (file : A → Bool)

def guarded (m : Lock L A) (body : List (Op (Lock L A) (Work L A F))) : List (Op (Lock L A) (Work L A F)) :=
  .acquire ⟨m,false⟩ :: body ++ [.release m]

def script : Call L A F → List (Op (Lock L A) (Work L A F))
  | .log l event => [.work (.log l event)]
  | .setFormatter l val => guarded (.logger l) [.work (.setFormatter l val),.work (.inheritAll l val)]
  | .addAppender l appender =>
    guarded (.logger l) [.acquire ⟨.appender appender,false⟩,.work (.getFormatter appender l),.work (.push l appender)]
  | .delAppender l appender => guarded (.logger l) [.work (.erase l appender)]
  | .clearAppenders l => guarded (.logger l) [.work (.clear l)]
  | .getAppenders l => guarded (.logger l) [.work (.getAppenders l)]
  | .getFormatter l => guarded (.logger l) [.work (.loggerGetFormatter l)]
  | .toYamlString l => guarded (.logger l) [.work (.toYamlString l)]
  | .setLevel l val => [.work (.setLevel l val)]
  | .appenderSetFormatter a val => guarded (.appender a) [.work (.appenderSetFormatter a val)]
  | .appenderGetFormatter a => guarded (.appender a) [.work (.appenderGetFormatter a)]
  | .appenderSetLevel a val => [.work (.appenderSetLevel a val)]
  | .appenderToYamlString a => guarded (.appender a) [.work (.appenderToYamlString a)]
  | .reopen a => guarded (.appender a) [.work (.reopen a)]
  | .getLogger l => guarded .manager [.work (.create l)]
  | .managerToYamlString => guarded .manager [.work .allToYamlString]
  | .getValue => [.acquire ⟨.config,true⟩,.work .getValue,.release .config]
  | .setValue v now => [.acquire ⟨.config,true⟩,.work (.compare v now)]

-- What the listener does about an appender and about a definition that is new or changed.
def attach (l : L) (a : LogAppenderDefine A F) : List (Call L A F) :=
  (if file a.appender then [.reopen a.appender] else []) ++ [.appenderSetLevel a.appender a.level] ++
    (if a.formatter.isSome then [.appenderSetFormatter a.appender a.formatter] else []) ++ [.addAppender l a.appender]

def configure (i : LogDefine L A F) : List (Call L A F) :=
  [.getLogger i.name,.setLevel i.name i.level] ++
    (if i.formatter.isSome then [.setFormatter i.name i.formatter] else []) ++ [.clearAppenders i.name] ++
    i.appenders.flatMap (attach file i.name)

-- The effect of a piece of work, and what is put in its place.
def perform (s : Shared L A F) : Work L A F → Shared L A F × List (Op (Lock L A) (Work L A F))
  | .log l event =>
    (s,if event.level.value ≥ (s.data.logger l).level.value then guarded (.logger l) [.work (.deliver l event)] else [])
  | .deliver l event =>
    (s,
      if (s.data.logger l).appenders ≠ [] then (s.data.logger l).appenders.map fun i => .work (.appenderLog i event)
      else if l ≠ root ∧ l ∈ s.m_loggers then [.work (.log root event)]
      else [])
  | .appenderLog a event =>
    (s,
      if event.level.value ≥ (s.data.appender a).level.value then
        (if file a = true ∧ event.now a ≠ s.m_lastTime a then
          guarded (.appender a) [.work (.reopen a)] ++ [.work (.setLastTime a (event.now a))] else []) ++
        guarded (.appender a) [.work (.print a)]
      else [])
  | .reopen a => ({s with m_filestream := Function.update s.m_filestream a (s.m_filestream a+1)},[])
  | .setLastTime a now => ({s with m_lastTime := Function.update s.m_lastTime a now},[])
  | .print a =>
    (match (s.data.appender a).formatter with
      | some m_formatter => {s with printed := s.printed ++ [(a,m_formatter)]}
      | none => {s with crashed := true},[])
  | .setFormatter l val => ({s with data := s.data.setLogger l {s.data.logger l with formatter := val}},[])
  | .inheritAll l val =>
    (s,(s.data.logger l).appenders.flatMap fun i => guarded (.appender i) [.work (.inherit i val)])
  | .inherit a val => ({s with data := s.data.inherit val a},[])
  | .getFormatter a l =>
    (s,.release (.appender a) ::
      if (s.data.appender a).formatter.isNone then guarded (.appender a) [.work (.give a l)] else [])
  | .give a l =>
    ({s with data := s.data.setAppender a {s.data.appender a with formatter := (s.data.logger l).formatter}},[])
  | .push l a =>
    ({s with data := s.data.setLogger l {s.data.logger l with appenders := (s.data.logger l).appenders ++ [a]}},[])
  | .erase l a => ({s with data := s.data.delAppender l a},[])
  | .clear l => ({s with data := s.data.clearAppenders l},[])
  | .getAppenders l => (s.answer (.appenders (s.data.logger l).appenders),[])
  | .loggerGetFormatter l => (s.answer (.formatter (s.data.logger l).formatter),[])
  | .setLevel l val => ({s with data := s.data.setLogger l {s.data.logger l with level := val}},[])
  | .appenderSetFormatter a val => ({s with data := s.data.setAppender a ((s.data.appender a).setFormatter val)},[])
  | .appenderGetFormatter a => (s.answer (.formatter (s.data.appender a).formatter),[])
  | .appenderSetLevel a val => ({s with data := s.data.setAppender a ((s.data.appender a).setLevel val)},[])
  | .appenderToYamlString a =>
    (s.answer (.node (s.data.appender a).level
      (if (s.data.appender a).hasFormatter then (s.data.appender a).formatter else none)),[])
  | .toYamlString l =>
    (s.answer (.node (s.data.logger l).level (s.data.logger l).formatter),
      (s.data.logger l).appenders.flatMap fun i => guarded (.appender i) [.work (.appenderToYamlString i)])
  | .allToYamlString => (s,s.m_loggers.flatMap fun l => guarded (.logger l) [.work (.toYamlString l)])
  | .create l =>
    (if l ∈ s.m_loggers then s else {s with m_loggers := s.m_loggers ++ [l]},[])
  | .getValue => (s.answer (.value s.m_val),[])
  -- The listener runs under the read lock, the value is stored under the write lock.
  | .compare v now =>
    (s,
      if v.map LogDefine.compared = s.m_val.map LogDefine.compared then [.release .config]
      else .work (.log root ⟨.INFO,now⟩) :: v.map (fun i => .work (.define s.m_val i)) ++
        s.m_val.map (fun i => .work (.remove v i)) ++
        [.release .config,.acquire ⟨.config,false⟩,.work (.store v),.release .config])
  -- A definition that has not changed leaves the pointer to its logger null.
  | .define old_value i =>
    match old_value.find? fun it => it.name = i.name with
    | some it =>
      if i.compared = it.compared then ({s with crashed := true},[]) else (s,(configure file i).flatMap script)
    | none => (s,(configure file i).flatMap script)
  | .remove new_value i =>
    (s,
      if new_value.any fun it => it.name = i.name then []
      else [Call.getLogger i.name,.setLevel i.name .UNKNOWN,.clearAppenders i.name].flatMap script)
  | .store v => ({s with m_val := v},[])

-- The variable comes first, the manager before its loggers, these before their root, and
-- appenders last.
def rank : Lock L A → Nat
  | .config => 0
  | .manager => 1
  | .logger l => if l = root then 3 else 2
  | .appender _ => 4

-- The guards that protect what a piece of work reads and writes. Levels and the time of
-- the last opening have none.
def Work.needs : Work L A F → List (Guard (Lock L A))
  | .deliver l _ | .setFormatter l _ | .inheritAll l _ | .push l _ | .erase l _ | .clear l | .getAppenders l
  | .loggerGetFormatter l | .toYamlString l => [⟨.logger l,false⟩]
  | .reopen a | .print a | .inherit a _ | .appenderSetFormatter a _ | .appenderGetFormatter a
  | .appenderToYamlString a => [⟨.appender a,false⟩]
  | .getFormatter a l | .give a l => [⟨.logger l,false⟩,⟨.appender a,false⟩]
  | .allToYamlString | .create _ => [⟨.manager,false⟩]
  | .getValue | .compare _ _ | .define _ _ | .remove _ _ => [⟨.config,true⟩]
  | .store _ => [⟨.config,false⟩]
  | .log _ _ | .appenderLog _ _ | .setLastTime _ _ | .setLevel _ _ | .appenderSetLevel _ _ => []

-- The rank that what is held stays below, as the work may go on to further locks.
def Work.below : Work L A F → Nat
  | .log l _ => rank (A := A) root (.logger l)
  | .deliver l _ | .inheritAll l _ | .toYamlString l => rank (A := A) root (.logger l)+1
  | .appenderLog _ _ => 4
  | .allToYamlString => 2
  | .compare _ _ | .define _ _ | .remove _ _ => 1
  | _ => 5

-- `getFormatter` gives the appender back, and may take it once more. `compare` gives the
-- variable back.
def may (held : List (Guard (Lock L A))) (w : Work L A F) (after : List (Guard (Lock L A))) : Prop :=
  (∀ g ∈ w.needs, g ∈ held) ∧ (∀ h ∈ held, rank root h.lock < w.below root) ∧
    match w with
    | .getFormatter a _ => held = ⟨.appender a,false⟩ :: after ∧ ∀ h ∈ after, rank root h.lock < 4
    | .compare _ _ => held = [⟨.config,true⟩] ∧ after = []
    | _ => after = held

-- All but these two leave the locks as they are.
def Work.Keeps : Work L A F → Prop
  | .getFormatter _ _ | .compare _ _ => False
  | _ => True

omit [DecidableEq A] in
theorem may_keeps {root : L} {held : List (Guard (Lock L A))} {w : Work L A F} (keeps : w.Keeps)
    (needs : ∀ g ∈ w.needs, g ∈ held) (below : ∀ h ∈ held, rank root h.lock < w.below root) : may root held w held := by
  refine ⟨needs,below,?_⟩
  cases w with
  | getFormatter _ _ | compare _ _ => exact keeps.elim
  | _ => rfl

-- How far a piece of work is from its end.
def level : Work L A F → Nat
  | .compare _ _ => 6
  | .log l _ => if l = root then 3 else 5
  | .deliver l _ => if l = root then 2 else 4
  | .define _ _ | .remove _ _ | .allToYamlString => 2
  | .appenderLog _ _ | .inheritAll _ _ | .getFormatter _ _ | .toYamlString _ => 1
  | _ => 0

end Functions

section Order
variable {L A F : Type} [DecidableEq L] {root : L} {held after : List (Guard (Lock L A))} {n : Nat}

theorem rank_logger (l : L) : rank (A := A) root (.logger l) < 4 := by
  change (if l = root then 3 else 2) < 4
  split <;> omega

theorem rank_bounded (m : Lock L A) : rank root m ≤ 4 := by
  cases m with
  | config => exact Nat.zero_le _
  | manager => exact Nat.le_of_ble_eq_true rfl
  | logger l => exact Nat.le_of_lt (rank_logger l)
  | appender _ => exact Nat.le_refl _

theorem manager_logger (l : L) : 1 < rank (A := A) root (.logger l) := by
  change 1 < if l = root then 3 else 2
  split <;> omega

-- The root comes behind the others that hand on to it.
theorem logger_root {l : L} (other : l ≠ root) : rank (A := A) root (.logger l) < rank (A := A) root (.logger root) := by
  change (if l = root then 3 else 2) < if root = root then 3 else 2
  rw [if_neg other,if_pos rfl]
  omega

theorem deliver_lower (l : L) (event : Event A) :
    level root (.deliver l event : Work L A F) < level root (.log l event : Work L A F) := by
  change (if l = root then 2 else 4) < if l = root then 3 else 5
  split <;> omega

theorem appenderLog_lower (l : L) (event : Event A) : 1 < level root (.deliver l event : Work L A F) := by
  change 1 < if l = root then 2 else 4
  split <;> omega

theorem root_lower {l : L} (other : l ≠ root) (event : Event A) :
    level root (.log root event : Work L A F) < level root (.deliver l event : Work L A F) := by
  change (if root = root then 3 else 5) < if l = root then 2 else 4
  rw [if_pos rfl,if_neg other]
  omega

theorem log_lower (l : L) (event : Event A) : level root (.log l event : Work L A F) < 6 := by
  change (if l = root then 3 else 5) < 6
  split <;> omega

-- Operations that take locks in the order of `rank`, do only what they may, and come nearer
-- to the end than `n`.
abbrev Allowed (root : L) (n : Nat) (held : List (Guard (Lock L A))) (ops : List (Op (Lock L A) (Work L A F)))
    (after : List (Guard (Lock L A))) : Prop :=
  Leads (rank root) (Within (may root) (level root) n) held ops after

theorem allowed_guarded {m : Lock L A} {body : List (Op (Lock L A) (Work L A F))}
    (above : ∀ h ∈ held, rank root h.lock < rank root m)
    (inside : Allowed root n (⟨m,false⟩ :: held) body (⟨m,false⟩ :: held)) : Allowed root n held (guarded m body) held :=
  ⟨above,inside.append ⟨false,held,rfl,rfl⟩⟩

theorem allowed_work {w : Work L A F} {rest : List (Op (Lock L A) (Work L A F))} (lower : level root w < n)
    (allowed : may root held w held) (later : Allowed root n held rest after) :
    Allowed root n held (.work w :: rest) after :=
  ⟨held,⟨lower,allowed⟩,later⟩

-- What a guard adds when it is taken.
theorem below_cons {g : Guard (Lock L A)} {k : Nat} (above : ∀ h ∈ held, rank root h.lock < rank root g.lock)
    (room : rank root g.lock < k) : ∀ h ∈ g :: held, rank root h.lock < k := by
  intro h member
  rcases List.mem_cons.mp member with rfl | old
  · exact room
  · exact Nat.lt_trans (above h old) room

theorem below_le {n k : Nat} (below : ∀ h ∈ held, rank root h.lock < n) (room : n ≤ k) :
    ∀ h ∈ held, rank root h.lock < k :=
  fun h member => Nat.lt_of_lt_of_le (below h member) room

theorem below_logger (below : ∀ h ∈ held, rank root h.lock < 1) (l : L) :
    ∀ h ∈ held, rank root h.lock < rank (A := A) root (.logger l) := below_le below (Nat.le_of_lt (manager_logger l))

-- A piece of work on what the last guard protects.
theorem may_head {w : Work L A F} {g : Guard (Lock L A)} (keeps : w.Keeps) (needs : w.needs = [g])
    (above : ∀ h ∈ held, rank root h.lock < rank root g.lock) (room : rank root g.lock < w.below root) :
    may root (g :: held) w (g :: held) := by
  refine may_keeps keeps (fun l member => ?_) (below_cons above room)
  rw [needs] at member
  rw [List.mem_singleton.mp member]
  exact .head _

-- Most functions are one such piece of work.
theorem allowed_one {m : Lock L A} {w : Work L A F} (above : ∀ h ∈ held, rank root h.lock < rank root m)
    (lower : level root w < n) (keeps : w.Keeps) (needs : w.needs = [⟨m,false⟩]) (room : rank root m < w.below root) :
    Allowed root n held (guarded m [.work w]) held :=
  allowed_guarded above (allowed_work lower (may_head keeps needs above room) rfl)

end Order

section Programs
variable {L A F : Type} [DecidableEq L] [DecidableEq A] {root : L} {file : A → Bool}

-- The functions of the variable come before all locks, the others behind it.
def Call.base : Call L A F → Nat
  | .getValue | .setValue _ _ => 0
  | _ => 1

-- Its work is nearer to the end than this.
def Call.depth : Call L A F → Nat
  | .setValue _ _ => 7
  | .log _ _ => 6
  | .managerToYamlString => 3
  | _ => 2

-- Those the listener calls.
inductive Call.Listens : Call L A F → Prop where
  | getLogger (l : L) : Listens (.getLogger l)
  | setLevel (l : L) (val : LogLevel) : Listens (.setLevel l val)
  | setFormatter (l : L) (val : Option F) : Listens (.setFormatter l val)
  | clearAppenders (l : L) : Listens (.clearAppenders l)
  | reopen (a : A) : Listens (.reopen a)
  | appenderSetLevel (a : A) (val : LogLevel) : Listens (.appenderSetLevel a val)
  | appenderSetFormatter (a : A) (val : Option F) : Listens (.appenderSetFormatter a val)
  | addAppender (l : L) (appender : A) : Listens (.addAppender l appender)

omit [DecidableEq L] [DecidableEq A] in
theorem Call.Listens.low {c : Call L A F} (listens : c.Listens) : c.base = 1 ∧ c.depth = 2 := by
  cases listens <;> exact ⟨rfl,rfl⟩

omit [DecidableEq A] in
theorem addAppender_allowed (l : L) (appender : A) {held : List (Guard (Lock L A))}
    (below : ∀ h ∈ held, rank root h.lock < 1) :
    Allowed (F := F) root 2 held (script (.addAppender l appender)) held := by
  have free := below_logger below l
  have mine := below_cons (g := ⟨.logger l,false⟩) free (rank_logger l)
  refine allowed_guarded free ⟨mine,_,⟨Nat.one_lt_two,fun g member => ?_,below_cons mine (Nat.lt_succ_self 4),rfl,mine⟩,
    allowed_work Nat.zero_lt_two (may_head trivial rfl free (Nat.lt_succ_of_lt (rank_logger l))) rfl⟩
  rcases List.mem_cons.mp member with rfl | other
  · exact .tail _ (.head _)
  · rw [List.mem_singleton.mp other]
    exact .head _

omit [DecidableEq A] in
theorem script_allowed (c : Call L A F) (held : List (Guard (Lock L A)))
    (below : ∀ h ∈ held, rank root h.lock < c.base) : Allowed root c.depth held (script c) held := by
  cases c with
  | getValue =>
      exact ⟨below,allowed_work Nat.zero_lt_two
        (may_head trivial rfl below (Nat.zero_lt_succ 4)) ⟨true,held,rfl,rfl⟩⟩
  | setValue v now =>
      have none : held = [] := List.eq_nil_iff_forall_not_mem.mpr fun h member => Nat.not_lt_zero _ (below h member)
      rw [none]
      exact ⟨nofun,[],⟨Nat.lt_succ_self 6,fun _ member => member,below_cons nofun Nat.zero_lt_one,rfl,rfl⟩,rfl⟩
  | log l event => exact allowed_work (log_lower l event) (may_keeps trivial nofun (below_logger below l)) rfl
  | setLevel _ _ | appenderSetLevel _ _ =>
      exact allowed_work Nat.zero_lt_two (may_keeps trivial nofun (below_le below (Nat.le_add_left 1 4))) rfl
  | setFormatter l val =>
      have free := below_logger below l
      exact allowed_guarded free
        (allowed_work Nat.zero_lt_two (may_head trivial rfl free (Nat.lt_succ_of_lt (rank_logger l)))
          (allowed_work Nat.one_lt_two (may_head trivial rfl free (Nat.lt_succ_self _)) rfl))
  | addAppender l appender => exact addAppender_allowed l appender below
  | delAppender l _ | clearAppenders l | getAppenders l | getFormatter l =>
      exact allowed_one (below_logger below l) Nat.zero_lt_two trivial rfl (Nat.lt_succ_of_lt (rank_logger l))
  | toYamlString l => exact allowed_one (below_logger below l) Nat.one_lt_two trivial rfl (Nat.lt_succ_self _)
  | appenderSetFormatter a _ | appenderGetFormatter a | appenderToYamlString a | reopen a =>
      have free : ∀ h ∈ held, rank root h.lock < rank root (.appender a) := below_le below (Nat.le_add_left 1 3)
      exact allowed_one free Nat.zero_lt_two trivial rfl (Nat.lt_succ_self 4)
  | getLogger l => exact allowed_one below Nat.zero_lt_two trivial rfl (Nat.lt_add_left 3 (Nat.lt_succ_self 1))
  | managerToYamlString => exact allowed_one below (Nat.lt_succ_self 2) trivial rfl (Nat.lt_succ_self 1)

omit [DecidableEq A] in
theorem scripts_allowed {held : List (Guard (Lock L A))} (below : ∀ h ∈ held, rank root h.lock < 1)
    (calls : List (Call L A F)) (listens : ∀ c ∈ calls, c.Listens) :
    Allowed root 2 held (calls.flatMap script) held := by
  refine Leads.flatMap calls script fun c member => ?_
  obtain ⟨base,depth⟩ := (listens c member).low
  have allowed := script_allowed c held (by rw [base]; exact below)
  rwa [depth] at allowed

omit [DecidableEq L] [DecidableEq A] in
theorem attach_listens (l : L) (a : LogAppenderDefine A F) : ∀ c ∈ attach file l a, c.Listens := by
  intro c member
  rcases List.mem_append.mp member with first | add
  · rcases List.mem_append.mp first with first | pattern
    · rcases List.mem_append.mp first with opened | level
      · split at opened
        · rw [List.mem_singleton.mp opened]
          exact .reopen _
        · cases opened
      · rw [List.mem_singleton.mp level]
        exact .appenderSetLevel _ _
    · split at pattern
      · rw [List.mem_singleton.mp pattern]
        exact .appenderSetFormatter _ _
      · cases pattern
  · rw [List.mem_singleton.mp add]
    exact .addAppender _ _

omit [DecidableEq L] [DecidableEq A] in
theorem configure_listens (i : LogDefine L A F) : ∀ c ∈ configure file i, c.Listens := by
  intro c member
  rcases List.mem_append.mp member with first | attached
  · rcases List.mem_append.mp first with first | clear
    · rcases List.mem_append.mp first with begins | pattern
      · rcases List.mem_cons.mp begins with rfl | level
        · exact .getLogger _
        · rw [List.mem_singleton.mp level]
          exact .setLevel _ _
      · split at pattern
        · rw [List.mem_singleton.mp pattern]
          exact .setFormatter _ _
        · cases pattern
    · rw [List.mem_singleton.mp clear]
      exact .clearAppenders _
  · obtain ⟨a,_,inside⟩ := List.mem_flatMap.mp attached
    exact attach_listens i.name a c inside

omit [DecidableEq L] [DecidableEq A] in
theorem removal_listens (name : L) :
    ∀ c ∈ ([.getLogger name,.setLevel name .UNKNOWN,.clearAppenders name] : List (Call L A F)), c.Listens := by
  intro c member
  rcases List.mem_cons.mp member with rfl | rest
  · exact .getLogger _
  · rcases List.mem_cons.mp rest with rfl | last
    · exact .setLevel _ _
    · rw [List.mem_singleton.mp last]
      exact .clearAppenders _

section Expands
variable (s : Shared L A F) {held : List (Guard (Lock L A))}

theorem log_allowed (l : L) (event : Event A) (below : ∀ h ∈ held, rank root h.lock < rank (A := A) root (.logger l)) :
    Allowed root (level root (.log l event : Work L A F)) held (perform root file s (.log l event)).2 held := by
  unfold perform
  dsimp only
  split
  · exact allowed_one below (deliver_lower l event) trivial rfl (Nat.lt_succ_self _)
  · rfl

theorem deliver_allowed (l : L) (event : Event A)
    (below : ∀ h ∈ held, rank root h.lock < rank (A := A) root (.logger l)+1) :
    Allowed root (level root (.deliver l event : Work L A F)) held (perform root file s (.deliver l event)).2 held := by
  unfold perform
  dsimp only
  split
  · refine Leads.works _ _ fun i _ => ⟨appenderLog_lower l event,may_keeps trivial nofun ?_⟩
    exact below_le below (rank_logger l)
  · split
    · rename_i other
      exact allowed_work (root_lower other.1 event) (may_keeps trivial nofun (below_le below (logger_root other.1))) rfl
    · rfl

theorem appenderLog_allowed (a : A) (event : Event A) (below : ∀ h ∈ held, rank root h.lock < 4) :
    Allowed root 1 held (perform root file s (.appenderLog a event)).2 held := by
  have one {w : Work L A F} (lower : level root w < 1) (keeps : w.Keeps) (needs : w.needs = [⟨.appender a,false⟩])
      (room : 4 < w.below root) : Allowed root 1 held (guarded (.appender a) [.work w]) held :=
    allowed_one (m := .appender a) below lower keeps needs room
  unfold perform
  dsimp only
  split
  · refine Leads.append ?_ (one Nat.zero_lt_one trivial rfl (Nat.lt_succ_self 4))
    split
    · refine Leads.append (one Nat.zero_lt_one trivial rfl (Nat.lt_succ_self 4)) (allowed_work Nat.zero_lt_one ?_ rfl)
      exact may_keeps trivial nofun (below_le below (Nat.le_succ 4))
    · rfl
  · rfl

-- The listener runs between the comparison and the moment the variable is given back.
theorem compare_allowed (v : List (LogDefine L A F)) (now : A → Int) :
    Allowed root 6 [⟨.config,true⟩] (perform root file s (.compare v now)).2 [] := by
  have reading : ∀ h ∈ [(⟨.config,true⟩ : Guard (Lock L A))], rank root h.lock < 1 := below_cons nofun Nat.zero_lt_one
  have inside {w : Work L A F} (keeps : w.Keeps) (needs : w.needs = [⟨.config,true⟩]) (room : 0 < w.below root) :
      may root [⟨.config,true⟩] w [⟨.config,true⟩] := may_head keeps needs nofun room
  have store : Allowed root 6 [⟨.config,false⟩] [.work (.store v),.release .config] [] :=
    allowed_work (Nat.zero_lt_succ 5) (may_head trivial rfl nofun (Nat.zero_lt_succ 4)) ⟨false,[],rfl,rfl⟩
  have low : 2 < 6 := Nat.lt_add_left 3 (Nat.lt_succ_self 2)
  unfold perform
  dsimp only
  split
  · exact ⟨true,[],rfl,rfl⟩
  · have announce : may root [⟨.config,true⟩] (.log root ⟨.INFO,now⟩ : Work L A F) [⟨.config,true⟩] :=
      may_keeps trivial nofun (below_logger reading root)
    have defines : Allowed root 6 [⟨.config,true⟩] (v.map fun i => .work (.define s.m_val i)) [⟨.config,true⟩] :=
      Leads.works _ _ fun i _ => ⟨low,inside trivial rfl Nat.zero_lt_one⟩
    have removes : Allowed root 6 [⟨.config,true⟩] (s.m_val.map fun i => .work (.remove v i)) [⟨.config,true⟩] :=
      Leads.works _ _ fun i _ => ⟨low,inside trivial rfl Nat.zero_lt_one⟩
    exact allowed_work (log_lower root ⟨.INFO,now⟩) announce ((defines.append removes).append ⟨true,[],rfl,nofun,store⟩)

theorem expands_allowed (held : List (Guard (Lock L A))) (w : Work L A F) (after : List (Guard (Lock L A)))
    (allowed : may root held w after) : Allowed root (level root w) held (perform root file s w).2 after := by
  obtain ⟨needs,below,then_held⟩ := allowed
  cases w with
  | log l event =>
      cases then_held
      exact log_allowed s l event below
  | deliver l event =>
      cases then_held
      exact deliver_allowed s l event below
  | appenderLog a event =>
      cases then_held
      exact appenderLog_allowed s a event below
  | inheritAll l val =>
      cases then_held
      refine Leads.flatMap _ _ fun i _ => ?_
      have room : ∀ h ∈ held, rank root h.lock < rank root (.appender i) := below_le below (rank_logger l)
      exact allowed_one room Nat.zero_lt_one trivial rfl (Nat.lt_succ_self 4)
  | getFormatter a l =>
      obtain ⟨rfl,others⟩ := then_held
      refine ⟨false,after,rfl,?_⟩
      split
      · have mine : ∀ h ∈ (⟨.appender a,false⟩ :: after : List (Guard (Lock L A))), rank root h.lock < 5 :=
          below_cons others (Nat.lt_succ_self 4)
        exact allowed_guarded others (allowed_work Nat.zero_lt_one (may_keeps trivial needs mine) rfl)
      · rfl
  | toYamlString l =>
      cases then_held
      refine Leads.flatMap _ _ fun i _ => ?_
      have room : ∀ h ∈ held, rank root h.lock < rank root (.appender i) := below_le below (rank_logger l)
      exact allowed_one room Nat.zero_lt_one trivial rfl (Nat.lt_succ_self 4)
  | allToYamlString =>
      cases then_held
      refine Leads.flatMap _ _ fun l _ => ?_
      exact allowed_one (below_le below (manager_logger l)) Nat.one_lt_two trivial rfl (Nat.lt_succ_self _)
  | compare v now =>
      obtain ⟨rfl,rfl⟩ := then_held
      exact compare_allowed s v now
  | define old_value i =>
      cases then_held
      have listened : Allowed root 2 held ((configure file i).flatMap script) held :=
        scripts_allowed below _ (configure_listens i)
      unfold perform
      dsimp only
      split
      · split
        · rfl
        · exact listened
      · exact listened
  | remove new_value i =>
      cases then_held
      unfold perform
      dsimp only
      split
      · rfl
      · exact scripts_allowed below _ (removal_listens i.name)
  -- All else is done at once.
  | _ => exact then_held.symm

end Expands

variable (root) (file) in
def discipline : Discipline (perform (F := F) root file) script where
  rank := rank root
  bound := 4
  bounded := rank_bounded
  may := may root
  level := level root
  expands := expands_allowed
  calls c := (script_allowed c [] nofun).mono fun _ _ _ => And.right

variable {Thread : Type} [DecidableEq Thread] [Fintype Thread] {s : State Thread (Lock L A) (Work L A F) (Shared L A F)}

-- Logging never blocks itself, nor does a change of its configuration: a guard is alone or
-- beside others that share, the work of a thread has the guards it needs, and as long as
-- one thread has something left some thread goes on, until all the calls made so far are
-- done.
theorem logging_completes (path : Reached (next (perform root file) script) anyStep Start s) :
    (∀ t u g h, g ∈ s.guards t → h ∈ s.guards u → t ≠ u → g.Beside h) ∧
      (∀ t w rest, s.todo t = .work w :: rest → ∀ g ∈ w.needs, g ∈ s.guards t) ∧
      ((∃ t, s.todo t ≠ []) → ∃ u s', step (perform root file) s u = some s') ∧
      (∀ t, s.todo t = [] → s.guards t = []) ∧
      Acc (fun s' s => ∃ t, step (perform root file) s t = some s') s := by
  have safe := reached_safe (discipline root file) path
  refine ⟨safe.exclusive,fun t w rest ahead => ?_,fun ⟨t,busy⟩ => progress safe busy,fun t idle => ?_,
    steps_end safe⟩
  · have leads := safe.leads t
    rw [ahead] at leads
    obtain ⟨_,allowed,_⟩ := leads
    exact allowed.1
  · have leads := safe.leads t
    rwa [idle] at leads

end Programs

-- One thread holds a logger without appenders whose event goes on to the root, `false`,
-- and waits for the other, which has the root while it sets the variable.
def waiting : State Bool (Lock Bool Unit) (Work Bool Unit Unit) (Shared Bool Unit Unit) :=
  ⟨⟨⟨fun l => ⟨.DEBUG,if l then [] else [()],some ()⟩,fun _ => ⟨.DEBUG,false,some ()⟩⟩,[false,true],fun _ => 0,
    fun _ => 0,[],[],[],false⟩,fun _ => [],fun _ => []⟩

def waitingActions : List (Action Bool (Call Bool Unit Unit)) :=
  [.call true (.log true ⟨.INFO,fun _ => 1⟩),.step true,.step true,.step true,
    .call false (.setValue [⟨false,.INFO,[],none,[]⟩] fun _ => 1),.step false,.step false,.step false,.step false,
    .step true]

theorem logging_completes_waiting :
    ∃ s, Transition.run (next (perform false fun _ => true) script) waiting waitingActions = some s ∧
      step (perform false fun _ => true) s true = none ∧
      (∃ u s', step (perform false fun _ => true) s u = some s') ∧
      Acc (fun s' s => ∃ t, step (perform false fun _ => true) s t = some s') s := by
  have idle : Start waiting := fun _ => ⟨rfl,rfl⟩
  have ran : ∃ s, Transition.run (next (perform false fun _ => true) script) waiting waitingActions = some s ∧
      step (perform false fun _ => true) s true = none ∧ s.todo true ≠ [] :=
    ⟨_,rfl,rfl,nofun⟩
  obtain ⟨s,ran,waits,busy⟩ := ran
  have all := logging_completes (.run (.start idle) along_any ran)
  exact ⟨s,ran,waits,all.2.2.1 ⟨true,busy⟩,all.2.2.2.2⟩

end Fishjoy.LogLocking
