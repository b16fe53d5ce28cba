import Fishjoy.Log
import Mathlib.Data.List.Induction

namespace Fishjoy

-- A formatter is its pattern, and none is a null pointer. `isError` says of a
-- pattern whether `LogFormatter::init` finds it wrong.
inductive LogAppenderType where
  | FileLogAppender (filepath : List UInt8)
  | StdoutLogAppender
  deriving DecidableEq

structure LogAppender where
  type : LogAppenderType
  level : LogLevel
  hasFormatter : Bool
  formatter : Option (List UInt8)
  deriving DecidableEq

namespace LogAppender

def new (type : LogAppenderType) : LogAppender := ⟨type,.DEBUG,false,none⟩

def setLevel (ap : LogAppender) (val : LogLevel) : LogAppender := {ap with level := val}

def setFormatter (ap : LogAppender) (val : Option (List UInt8)) : LogAppender :=
  {ap with formatter := val,hasFormatter := val.isSome}

end LogAppender

structure Logger where
  level : LogLevel
  formatter : Option (List UInt8)
  appenders : List LogAppender
  deriving DecidableEq

namespace Logger

def new : Logger := ⟨.DEBUG,some (text "%d{%Y-%m-%d %H:%M:%S}%T%t%T%F%T[%p]%T[%c]%T%f:%l%T%m%n"),[]⟩

def setLevel (l : Logger) (val : LogLevel) : Logger := {l with level := val}

def setFormatter (l : Logger) (val : Option (List UInt8)) : Logger :=
  {l with
    formatter := val
    appenders := l.appenders.map fun i => if i.hasFormatter then i else {i with formatter := val}}

def setFormatterString (isError : List UInt8 → Bool) (l : Logger) (val : List UInt8) : Logger :=
  if isError val then l else l.setFormatter (some val)

def clearAppenders (l : Logger) : Logger := {l with appenders := []}

def addAppender (l : Logger) (appender : LogAppender) : Logger :=
  {l with
    appenders := l.appenders ++
      [if appender.formatter.isNone then {appender with formatter := l.formatter} else appender]}

end Logger

-- The loggers by name.
abbrev LoggerManager := List UInt8 → Option Logger

namespace LoggerManager

def getLogger (m : LoggerManager) (name : List UInt8) : Logger := (m name).getD .new

def put (m : LoggerManager) (name : List UInt8) (l : Logger) : LoggerManager := Function.update m name (some l)

end LoggerManager

section listener
variable (isError : List UInt8 → Bool)

-- The appender of a definition. Any other type leaves the pointer null.
def makeAppender (a : LogAppenderDefine) : Option LogAppender :=
  (if a.type = 1 then some (LogAppender.new (.FileLogAppender a.file))
    else if a.type = 2 then some (LogAppender.new .StdoutLogAppender)
    else none).map fun ap =>
      let ap := ap.setLevel a.level
      if a.formatter ≠ [] ∧ isError a.formatter = false then ap.setFormatter (some a.formatter) else ap

def configure (i : LogDefine) (logger : Logger) : Option Logger :=
  let logger := logger.setLevel i.level
  let logger := if i.formatter ≠ [] then logger.setFormatterString isError i.formatter else logger
  i.appenders.foldlM (fun logger a => (makeAppender isError a).map logger.addAppender) logger.clearAppenders

-- The pointer `logger` of the first loop is null unless the definition is new
-- or differs from the one of its name.
def defines (old_value : LogDefines) (m : LoggerManager) (i : LogDefine) : Option LoggerManager :=
  let logger : Option (List UInt8) :=
    match old_value.find i with
    | none => some i.name
    | some it => if i.equal it then none else some i.name
  logger.bind fun name => (configure isError i (m.getLogger name)).map (m.put name)

def removes (new_value : LogDefines) (m : LoggerManager) (i : LogDefine) : LoggerManager :=
  match new_value.find i with
  | none => m.put i.name ((m.getLogger i.name).setLevel .UNKNOWN).clearAppenders
  | some _ => m

-- The listener of `LogIniter`; none is the dereference of a null pointer.
def onLogsChanged (old_value new_value : LogDefines) (m : LoggerManager) : Option LoggerManager :=
  (new_value.entries.foldlM (defines isError old_value) m).map fun m => old_value.entries.foldl (removes new_value) m

-- `ConfigVar::setValue` of "logs" with this listener.
def setValue (m_val v : LogDefines) (m : LoggerManager) : Option (LogDefines × LoggerManager) :=
  if v.equal m_val then some (m_val,m) else (onLogsChanged isError m_val v m).map (v,·)

end listener

-- The type with its file, and the level.
def LogAppenderDefine.Describes (a : LogAppenderDefine) (ap : LogAppender) : Prop :=
  a.level = ap.level ∧
    match ap.type with
    | .FileLogAppender filepath => a.type = 1 ∧ a.file = filepath
    | .StdoutLogAppender => a.type = 2

def LogDefine.Describes (i : LogDefine) (logger : Option Logger) : Prop :=
  ∃ l, logger = some l ∧ l.level = i.level ∧ List.Forall₂ LogAppenderDefine.Describes i.appenders l.appenders

def Matches (defs : LogDefines) (m : LoggerManager) : Prop := ∀ i ∈ defs.entries, i.Describes (m i.name)

structure Applied (old_value new_value : LogDefines) (m m' : LoggerManager) : Prop where
  named : Matches new_value m'
  removed : ∀ j ∈ old_value.entries, (∀ i ∈ new_value.entries, i.name ≠ j.name) →
    ∃ l, m' j.name = some l ∧ l.level = .UNKNOWN ∧ l.appenders = []
  others : ∀ name, (∀ i ∈ new_value.entries, i.name ≠ name) → (∀ j ∈ old_value.entries, j.name ≠ name) →
    m' name = m name

def TakesEffect (isError : List UInt8 → Bool) (old_value new_value : LogDefines) (m : LoggerManager) : Prop :=
  ∃ m_val m', setValue isError old_value new_value m = some (m_val,m') ∧ Applied old_value new_value m m'

-- What the two definitions have in common when the comparison finds no change.
def LogDefine.Alike (i j : LogDefine) : Prop := i.name = j.name ∧ i.level = j.level ∧ i.formatter = j.formatter

def LogAppenderDefine.Same (a b : LogAppenderDefine) : Prop :=
  a.type = b.type ∧ a.level = b.level ∧ (a.type = 1 → a.file = b.file)

section effects
variable {isError : List UInt8 → Bool} {a b : LogAppenderDefine} {ap : LogAppender} {i j : LogDefine} {l : Logger}
  {m m' : LoggerManager} {old_value new_value : LogDefines}

theorem describes_same (describes : a.Describes ap) : b.Describes ap ↔ b.Same a := by
  obtain ⟨level,type⟩ := describes
  unfold LogAppenderDefine.Describes LogAppenderDefine.Same
  cases typeEq : ap.type with
  | FileLogAppender filepath =>
      rw [typeEq] at type
      obtain ⟨one,file⟩ := type
      dsimp only
      rw [←level,one,←file]
      constructor
      · rintro ⟨same,first,path⟩
        exact ⟨first,same,fun _ => path⟩
      · rintro ⟨first,same,path⟩
        exact ⟨same,first,path first⟩
  | StdoutLogAppender =>
      rw [typeEq] at type
      dsimp only at type ⊢
      rw [←level,type]
      constructor
      · rintro ⟨same,second⟩
        refine ⟨second,same,?_⟩
        intro one
        rw [second] at one
        cases one
      · rintro ⟨second,same,_⟩
        exact ⟨same,second⟩

theorem makeAppender_typed (isError : List UInt8 → Bool) (typed : a.Typed) :
    ∃ ap, makeAppender isError a = some ap ∧ a.Describes ap := by
  unfold makeAppender
  by_cases one : a.type = 1
  · rw [if_pos one,Option.map_some]
    refine ⟨_,rfl,?_⟩
    dsimp only
    split
    · exact ⟨rfl,one,rfl⟩
    · exact ⟨rfl,one,rfl⟩
  · have two : a.type = 2 := typed.resolve_left one
    rw [if_neg one,if_pos two,Option.map_some]
    refine ⟨_,rfl,?_⟩
    dsimp only
    split
    · exact ⟨rfl,two⟩
    · exact ⟨rfl,two⟩

theorem makeAppender_untyped (untyped : ¬a.Typed) : makeAppender isError a = none := by
  obtain ⟨one,two⟩ := not_or.mp untyped
  rw [makeAppender,if_neg one,if_neg two,Option.map_none]

-- The appender gets the formatter of the logger and keeps its description.
theorem addAppender_appenders (describes : a.Describes ap) :
    ∃ added, (l.addAppender ap).appenders = l.appenders ++ [added] ∧ a.Describes added := by
  refine ⟨_,rfl,?_⟩
  split
  · exact describes
  · exact describes

theorem addAppenders (isError : List UInt8 → Bool) (as : List LogAppenderDefine) (typed : ∀ a ∈ as, a.Typed)
    (l : Logger) :
    ∃ l' added, as.foldlM (fun logger a => (makeAppender isError a).map logger.addAppender) l = some l' ∧
      l'.level = l.level ∧ l'.appenders = l.appenders ++ added ∧ List.Forall₂ LogAppenderDefine.Describes as added := by
  induction as generalizing l with
  | nil => exact ⟨l,[],rfl,rfl,(List.append_nil _).symm,.nil⟩
  | cons a rest ih =>
      obtain ⟨ap,made,describes⟩ := makeAppender_typed isError (typed a (.head _))
      obtain ⟨one,first,described⟩ := addAppender_appenders (l := l) describes
      obtain ⟨l',added,folded,level,appenders,all⟩ := ih (fun b member => typed b (.tail _ member)) (l.addAppender ap)
      refine ⟨l',one :: added,?_,level,?_,.cons described all⟩
      · rw [List.foldlM_cons,made]
        exact folded
      · rw [appenders,first,List.append_assoc]
        rfl

-- An element that fails for every accumulator fails the fold.
theorem foldlM_none {α β : Type} {f : β → α → Option β} {x : α} {xs : List α} (member : x ∈ xs)
    (fails : ∀ y, f y x = none) (y : β) : xs.foldlM f y = none := by
  induction xs generalizing y with
  | nil => cases member
  | cons head rest ih =>
      rw [List.foldlM_cons]
      rcases List.mem_cons.mp member with same | later
      · rw [←same,fails y]
        rfl
      · cases f y head with
        | none => rfl
        | some z => exact ih later z

theorem configure_typed (isError : List UInt8 → Bool) (typed : ∀ a ∈ i.appenders, a.Typed) (l : Logger) :
    ∃ l', configure isError i l = some l' ∧ i.Describes (some l') := by
  unfold configure
  dsimp only
  obtain ⟨l',added,folded,level,appenders,all⟩ := addAppenders isError i.appenders typed
    (if i.formatter ≠ [] then (l.setLevel i.level).setFormatterString isError i.formatter
      else l.setLevel i.level).clearAppenders
  refine ⟨l',folded,l',rfl,?_,?_⟩
  · rw [level]
    split
    · unfold Logger.setFormatterString
      split
      · rfl
      · rfl
    · rfl
  · rw [appenders]
    exact all

theorem configure_untyped (member : a ∈ i.appenders) (untyped : ¬a.Typed) (l : Logger) :
    configure isError i l = none := by
  apply foldlM_none member
  intro y
  rw [makeAppender_untyped untyped]
  rfl

-- A definition the first loop gets through: it is new or differs from the one
-- of its name, and it names no other type of appender.
structure Handled (old_value : LogDefines) (i : LogDefine) : Prop where
  typed : ∀ a ∈ i.appenders, a.Typed
  fresh : ∀ j ∈ old_value.entries, ¬i.Alike j

theorem defines_fresh (isError : List UInt8 → Bool) (fresh : ∀ j ∈ old_value.entries, ¬i.Alike j) (m : LoggerManager) :
    defines isError old_value m i = (configure isError i (m.getLogger i.name)).map (m.put i.name) := by
  unfold defines
  cases found : old_value.find i with
  | none => rfl
  | some it =>
      obtain ⟨member,_⟩ := LogDefines.find_some.mp found
      have differs : ¬i.equal it = true := fun equal => fresh it member (LogDefine.equal_iff.mp equal)
      simp only [if_neg differs,Option.bind_some]

theorem defines_handled (isError : List UInt8 → Bool) (handled : Handled old_value i) (m : LoggerManager) :
    ∃ l, defines isError old_value m i = some (m.put i.name l) ∧ i.Describes (some l) := by
  obtain ⟨l,done,described⟩ := configure_typed isError handled.typed (m.getLogger i.name)
  refine ⟨l,?_,described⟩
  rw [defines_fresh isError handled.fresh,done,Option.map_some]

theorem defines_unhandled (unhandled : ¬Handled old_value i) (m : LoggerManager) :
    defines isError old_value m i = none := by
  by_cases typed : ∀ a ∈ i.appenders, a.Typed
  · have alike : ∃ j ∈ old_value.entries, i.Alike j := by
      apply Classical.byContradiction
      intro nowhere
      exact unhandled ⟨typed,fun j member alike => nowhere ⟨j,member,alike⟩⟩
    obtain ⟨j,member,alike⟩ := alike
    have found : old_value.find i = some j := LogDefines.find_some.mpr ⟨member,alike.1.symm⟩
    simp only [defines,found,if_pos (LogDefine.equal_iff.mpr alike),Option.bind_none]
  · obtain ⟨a,rest⟩ := not_forall.mp typed
    obtain ⟨member,untyped⟩ := Classical.not_imp.mp rest
    unfold defines
    apply Option.bind_eq_none_iff.mpr
    intro name _
    rw [configure_untyped member untyped,Option.map_none]

theorem put_other {name : List UInt8} (other : name ≠ i.name) : m.put i.name l name = m name :=
  Function.update_of_ne other _ _

theorem put_self : m.put i.name l i.name = some l := Function.update_self _ _ _

-- The first loop over definitions of different names.
theorem defines_all (isError : List UInt8 → Bool) (is : List LogDefine) (names : (is.map LogDefine.name).Nodup)
    (handled : ∀ i ∈ is, Handled old_value i) (m : LoggerManager) :
    ∃ m', is.foldlM (defines isError old_value) m = some m' ∧
      (∀ i ∈ is, i.Describes (m' i.name)) ∧ ∀ name, (∀ i ∈ is, i.name ≠ name) → m' name = m name := by
  induction is generalizing m with
  | nil => exact ⟨m,rfl,fun _ member => absurd member List.not_mem_nil,fun _ _ => rfl⟩
  | cons i rest ih =>
      obtain ⟨absent,distinct⟩ := List.nodup_cons.mp names
      have apart : ∀ j ∈ rest, j.name ≠ i.name := by
        intro j member same
        exact absent (List.mem_map.mpr ⟨j,member,same⟩)
      obtain ⟨l,first,described⟩ := defines_handled isError (handled i (.head _)) m
      obtain ⟨m',folded,named,others⟩ := ih distinct (fun j member => handled j (.tail _ member)) (m.put i.name l)
      refine ⟨m',?_,?_,?_⟩
      · rw [List.foldlM_cons,first]
        exact folded
      · intro j member
        rcases List.mem_cons.mp member with same | later
        · rw [same,others i.name apart,put_self]
          exact described
        · exact named j later
      · intro name free
        rw [others name fun j member => free j (.tail _ member),put_other (Ne.symm (free i (.head _)))]

-- The second loop.
theorem removes_all (new_value : LogDefines) (js : List LogDefine) (m : LoggerManager) :
    (∀ name, (∀ j ∈ js, new_value.find j = none → j.name ≠ name) →
      js.foldl (removes new_value) m name = m name) ∧
    ∀ j ∈ js, new_value.find j = none →
      ∃ l, js.foldl (removes new_value) m j.name = some l ∧ l.level = .UNKNOWN ∧ l.appenders = [] := by
  induction js using List.reverseRecOn with
  | nil => exact ⟨fun _ _ => rfl,fun _ member => absurd member List.not_mem_nil⟩
  | append_singleton rest last ih =>
      obtain ⟨kept,gone⟩ := ih
      simp only [List.foldl_append,List.foldl_cons,List.foldl_nil]
      cases found : new_value.find last with
      | some it =>
          simp only [removes,found]
          refine ⟨?_,?_⟩
          · intro name free
            exact kept name fun j member => free j (List.mem_append_left _ member)
          · intro j member none
            rcases List.mem_append.mp member with before | here
            · exact gone j before none
            · rw [List.mem_singleton.mp here,found] at none
              cases none
      | none =>
          simp only [removes,found]
          refine ⟨?_,?_⟩
          · intro name free
            have other := free last (List.mem_append_right _ (.head _)) found
            rw [put_other other.symm]
            exact kept name fun j member => free j (List.mem_append_left _ member)
          · intro j member none
            by_cases same : j.name = last.name
            · rw [same,put_self]
              exact ⟨_,rfl,rfl,rfl⟩
            · rw [put_other same]
              rcases List.mem_append.mp member with before | here
              · exact gone j before none
              · exact absurd (congrArg LogDefine.name (List.mem_singleton.mp here)) same

theorem onLogsChanged_handled (isError : List UInt8 → Bool) (handled : ∀ i ∈ new_value.entries, Handled old_value i)
    (m : LoggerManager) :
    ∃ m', onLogsChanged isError old_value new_value m = some m' ∧ Applied old_value new_value m m' := by
  obtain ⟨m₁,folded,named,others⟩ := defines_all isError new_value.entries new_value.names_nodup handled m
  obtain ⟨kept,gone⟩ := removes_all new_value old_value.entries m₁
  refine ⟨old_value.entries.foldl (removes new_value) m₁,?_,?_,?_,?_⟩
  · rw [onLogsChanged,folded,Option.map_some]
  · intro i member
    rw [kept i.name]
    · exact named i member
    · intro j _ none same
      exact LogDefines.find_none.mp none i member same.symm
  · intro j member apart
    exact gone j member (LogDefines.find_none.mpr apart)
  · intro name free unknown
    rw [kept name fun j member _ => unknown j member]
    exact others name free

theorem onLogsChanged_unhandled (member : i ∈ new_value.entries) (unhandled : ¬Handled old_value i)
    (m : LoggerManager) : onLogsChanged isError old_value new_value m = none := by
  rw [onLogsChanged,foldlM_none member fun y => defines_unhandled unhandled y,Option.map_none]

def LogDefine.SameAppenders (i j : LogDefine) : Prop := List.Forall₂ LogAppenderDefine.Same i.appenders j.appenders

theorem describes_all_same {as bs : List LogAppenderDefine} {aps : List LogAppender}
    (described : List.Forall₂ LogAppenderDefine.Describes bs aps) :
    List.Forall₂ LogAppenderDefine.Describes as aps ↔ List.Forall₂ LogAppenderDefine.Same as bs := by
  induction described generalizing as with
  | nil => rw [List.forall₂_nil_right_iff,List.forall₂_nil_right_iff]
  | cons here _ ih =>
      cases as with
      | nil => exact iff_of_false nofun nofun
      | cons a rest => rw [List.forall₂_cons,List.forall₂_cons,describes_same here,ih]

theorem describes_alike {logger : Option Logger} (described : j.Describes logger) (alike : i.Alike j) :
    i.Describes logger ↔ i.SameAppenders j := by
  obtain ⟨l,rfl,level,appenders⟩ := described
  unfold LogDefine.SameAppenders
  rw [←describes_all_same appenders]
  constructor
  · rintro ⟨_,same,_,all⟩
    cases same
    exact all
  · intro all
    exact ⟨l,rfl,level.trans alike.2.1.symm,all⟩

theorem matches_alike {is js : List LogDefine} (matched : ∀ j ∈ js, j.Describes (m j.name))
    (alike : List.Forall₂ LogDefine.Alike is js) :
    (∀ i ∈ is, i.Describes (m i.name)) ↔ List.Forall₂ LogDefine.SameAppenders is js := by
  induction alike with
  | nil => exact iff_of_true nofun .nil
  | cons here _ ih =>
      have described := matched _ (.head _)
      rw [←here.1] at described
      rw [List.forall_mem_cons,List.forall₂_cons,describes_alike described here,
        ih fun j member => matched j (.tail _ member)]

theorem alike_names {is js : List LogDefine} (alike : List.Forall₂ LogDefine.Alike is js) :
    is.map LogDefine.name = js.map LogDefine.name := by
  induction alike with
  | nil => rfl
  | cons here _ ih => rw [List.map_cons,List.map_cons,here.1,ih]

-- Sets that compare equal leave everything as it is.
theorem unchanged_applied (matched : Matches old_value m)
    (alike : List.Forall₂ LogDefine.Alike new_value.entries old_value.entries) :
    Applied old_value new_value m m ↔ List.Forall₂ LogDefine.SameAppenders new_value.entries old_value.entries := by
  rw [←matches_alike matched alike]
  constructor
  · intro applied
    exact applied.named
  · intro named
    refine ⟨named,?_,fun _ _ _ => rfl⟩
    intro j member apart
    have inside : j.name ∈ new_value.entries.map LogDefine.name := by
      rw [alike_names alike]
      exact List.mem_map_of_mem member
    obtain ⟨i,present,same⟩ := List.mem_map.mp inside
    exact absurd same (apart i present)

theorem logs_applied_exactly (isError : List UInt8 → Bool) (matched : Matches old_value m) :
    TakesEffect isError old_value new_value m ↔
      (List.Forall₂ LogDefine.Alike new_value.entries old_value.entries ∧
          List.Forall₂ LogDefine.SameAppenders new_value.entries old_value.entries ∨
        ¬List.Forall₂ LogDefine.Alike new_value.entries old_value.entries ∧
          ∀ i ∈ new_value.entries, Handled old_value i) := by
  by_cases alike : List.Forall₂ LogDefine.Alike new_value.entries old_value.entries
  · have equal : new_value.equal old_value = true := LogDefines.equal_iff.mpr alike
    rw [←unchanged_applied matched alike]
    simp only [TakesEffect,setValue,if_pos equal]
    constructor
    · rintro ⟨_,_,same,applied⟩
      cases same
      exact .inl ⟨alike,applied⟩
    · rintro (⟨_,applied⟩ | ⟨different,_⟩)
      · exact ⟨_,_,rfl,applied⟩
      · exact absurd alike different
  · have differs : ¬new_value.equal old_value = true := fun equal => alike (LogDefines.equal_iff.mp equal)
    simp only [TakesEffect,setValue,if_neg differs]
    constructor
    · rintro ⟨_,_,done,_⟩
      refine .inr ⟨alike,?_⟩
      intro i member
      apply Classical.byContradiction
      intro unhandled
      rw [onLogsChanged_unhandled member unhandled] at done
      cases done
    · rintro (⟨same,_⟩ | ⟨_,handled⟩)
      · exact absurd same alike
      · obtain ⟨m',done,applied⟩ := onLogsChanged_handled isError handled m
        exact ⟨new_value,m',by rw [done,Option.map_some],applied⟩

end effects

def consoleDefine (name : String) (level : LogLevel) : LogDefine := ⟨text name,level,[],[⟨2,.INFO,[],[]⟩]⟩

def oneLogger : LogDefines := ⟨[consoleDefine "a" .INFO],List.pairwise_singleton _ _⟩

-- The logger stays as it is and a second one comes.
def twoLoggers : LogDefines := ⟨[consoleDefine "a" .INFO,consoleDefine "b" .DEBUG],by decide⟩

def oneManager : LoggerManager :=
  LoggerManager.put (fun _ => none) (text "a") ⟨.INFO,none,[⟨.StdoutLogAppender,.INFO,false,none⟩]⟩

theorem oneManager_matches : Matches oneLogger oneManager := by
  intro i member
  cases List.mem_singleton.mp member
  exact ⟨_,rfl,rfl,.cons ⟨rfl,rfl⟩ .nil⟩

-- One logger goes and another comes.
def otherLogger : LogDefines := ⟨[consoleDefine "b" .DEBUG],List.pairwise_singleton _ _⟩

theorem logs_applied_removed : TakesEffect (fun _ => false) oneLogger otherLogger oneManager := by
  refine (logs_applied_exactly (fun _ => false) oneManager_matches).mpr (.inr ⟨?_,fun i member => ⟨?_,?_⟩⟩)
  · intro alike
    cases alike with
    | cons here _ => exact absurd here.1 (by decide)
  · cases List.mem_singleton.mp member
    intro a inside
    cases List.mem_singleton.mp inside
    exact .inr rfl
  · cases List.mem_singleton.mp member
    intro j inside alike
    cases List.mem_singleton.mp inside
    exact absurd alike.1 (by decide)

theorem unchanged_crashes : ¬∀ (isError : List UInt8 → Bool) (old_value new_value : LogDefines) (m : LoggerManager),
    Matches old_value m → TakesEffect isError old_value new_value m := by
  intro effective
  obtain ⟨m_val,m',done,_⟩ := effective (fun _ => false) oneLogger twoLoggers oneManager oneManager_matches
  have crashes : setValue (fun _ => false) oneLogger twoLoggers oneManager = none := rfl
  rw [crashes] at done
  cases done

end Fishjoy
