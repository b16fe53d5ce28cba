import Fishjoy.LogFormatter
import Fishjoy.LogConfig
import Fishjoy.Foundation.Transition
import Mathlib.Data.Fintype.Basic
import Mathlib.Logic.Function.Basic

namespace Fishjoy

def LogLevel.value : LogLevel → Nat
  | .UNKNOWN => 0
  | .DEBUG => 1
  | .INFO => 2
  | .WARN => 3
  | .ERROR => 4
  | .FATAL => 5

namespace LogAppenders
open Transition

-- `L`, `A` and `F` are the pointers to loggers, appenders and formatters. A null
-- formatter is none; the others are never null.
variable {L A F : Type}

structure LogAppender (F : Type) where
  level : LogLevel
  hasFormatter : Bool
  formatter : Option F

structure Logger (A F : Type) where
  level : LogLevel
  appenders : List A
  formatter : Option F

structure State (L A F : Type) where
  logger : L → Logger A F
  appender : A → LogAppender F

namespace LogAppender

def new : LogAppender F := ⟨.DEBUG,false,none⟩

def setFormatter (ap : LogAppender F) (val : Option F) : LogAppender F :=
  {ap with formatter := val,hasFormatter := val.isSome}

def setLevel (ap : LogAppender F) (val : LogLevel) : LogAppender F := {ap with level := val}

-- The formatter that prints the event, if the level is high enough. Without one
-- the null pointer is dereferenced.
def log (ap : LogAppender F) (level : LogLevel) : Option (Option F) :=
  if level.value ≥ ap.level.value then ap.formatter.map some else some none

end LogAppender

namespace State
variable [DecidableEq L] [DecidableEq A]

-- Fresh loggers with the formatters they were constructed with.
def initial (formatters : L → F) : State L A F :=
  ⟨fun l => ⟨.DEBUG,[],some (formatters l)⟩,fun _ => .new⟩

def setLogger (s : State L A F) (l : L) (logger : Logger A F) : State L A F :=
  {s with logger := Function.update s.logger l logger}

def setAppender (s : State L A F) (a : A) (ap : LogAppender F) : State L A F :=
  {s with appender := Function.update s.appender a ap}

def addAppender (s : State L A F) (l : L) (appender : A) : State L A F :=
  let s := if (s.appender appender).formatter.isNone
    then s.setAppender appender {s.appender appender with formatter := (s.logger l).formatter} else s
  s.setLogger l {s.logger l with appenders := (s.logger l).appenders ++ [appender]}

def delAppender (s : State L A F) (l : L) (appender : A) : State L A F :=
  s.setLogger l {s.logger l with appenders := (s.logger l).appenders.erase appender}

def clearAppenders (s : State L A F) (l : L) : State L A F := s.setLogger l {s.logger l with appenders := []}

-- One round of the loop of `Logger::setFormatter`.
def inherit (val : Option F) (s : State L A F) (i : A) : State L A F :=
  if (s.appender i).hasFormatter then s else s.setAppender i {s.appender i with formatter := val}

def setFormatter (s : State L A F) (l : L) (val : Option F) : State L A F :=
  (s.logger l).appenders.foldl (inherit val) (s.setLogger l {s.logger l with formatter := val})

-- `new_val` is the formatter that is constructed from the string.
def setFormatterString (s : State L A F) (l : L) (val : List UInt8) (new_val : F) : State L A F :=
  if (LogFormatter.init val).isError then s else s.setFormatter l (some new_val)

-- What each of the appenders prints with.
def logAll (s : State L A F) (level : LogLevel) : List A → Option (List (A × F))
  | [] => some []
  | i :: rest => ((s.appender i).log level).bind fun printed =>
      (s.logAll level rest).map ((printed.toList.map (i,·)) ++ ·)

-- `roots` are the `m_root` of the logger, the `m_root` of that one and so on.
def log (s : State L A F) (level : LogLevel) : L → List L → Option (List (A × F))
  | l,roots =>
    if level.value ≥ (s.logger l).level.value then
      if (s.logger l).appenders ≠ [] then s.logAll level (s.logger l).appenders
      else
        match roots with
        | [] => some []
        | m_root :: roots => s.log level m_root roots
    else some []

end State

inductive Action (L A F : Type) where
  | addAppender (l : L) (appender : A)
  | delAppender (l : L) (appender : A)
  | clearAppenders (l : L)
  | setFormatter (l : L) (val : F)
  | setFormatterString (l : L) (val : List UInt8) (new_val : F)
  | setLevel (l : L) (val : LogLevel)
  | appenderSetFormatter (ap : A) (val : Option F)
  | appenderSetLevel (ap : A) (val : LogLevel)

section system
variable [DecidableEq L] [DecidableEq A]

def State.apply (s : State L A F) : Action L A F → State L A F
  | .addAppender l appender => s.addAppender l appender
  | .delAppender l appender => s.delAppender l appender
  | .clearAppenders l => s.clearAppenders l
  | .setFormatter l val => s.setFormatter l (some val)
  | .setFormatterString l val new_val => s.setFormatterString l val new_val
  | .setLevel l val => s.setLogger l {s.logger l with level := val}
  | .appenderSetFormatter ap val => s.setAppender ap ((s.appender ap).setFormatter val)
  | .appenderSetLevel ap val => s.setAppender ap ((s.appender ap).setLevel val)

def next (s : State L A F) (action : Action L A F) : Option (State L A F) := some (s.apply action)

end system

-- Each appender is attached to at most one logger.
def Exclusive (s : State L A F) : Prop :=
  ∀ l m a, a ∈ (s.logger l).appenders → a ∈ (s.logger m).appenders → l = m

-- What the callers have to see to: the appender is in no other logger's list.
def Free (s : State L A F) : Action L A F → Prop
  | .addAppender l a => ∀ m, a ∈ (s.logger m).appenders → m = l
  | _ => True

structure Formatted (s : State L A F) : Prop where
  formatter : ∀ l, ∀ a ∈ (s.logger l).appenders, (s.appender a).formatter ≠ none
  inherited : ∀ l, ∀ a ∈ (s.logger l).appenders, (s.appender a).hasFormatter = false →
    (s.appender a).formatter = (s.logger l).formatter
  logged : ∀ level l roots, s.log level l roots ≠ none

-- An appender has its own formatter, none, or that of the logger when it is
-- attached, and its formatter is set to null only while it is not attached.
def Inherits (s : State L A F) : Action L A F → Prop
  | .addAppender l a => (s.appender a).hasFormatter = true ∨ (s.appender a).formatter = none ∨
      (s.appender a).formatter = (s.logger l).formatter
  | .appenderSetFormatter a none => ∀ l, a ∉ (s.logger l).appenders
  | _ => True

instance [Fintype L] [DecidableEq L] [DecidableEq A] (s : State L A F) :
    (action : Action L A F) → Decidable (Free s action)
  | .addAppender l a => Fintype.decidableForallFintype (p := fun m => a ∈ (s.logger m).appenders → m = l)
  | .delAppender .. | .clearAppenders .. | .setFormatter .. | .setFormatterString .. | .setLevel ..
  | .appenderSetFormatter .. | .appenderSetLevel .. => isTrue trivial

instance [Fintype L] [DecidableEq A] [DecidableEq F] (s : State L A F) :
    (action : Action L A F) → Decidable (Inherits s action)
  | .addAppender l a =>
    inferInstanceAs (Decidable ((s.appender a).hasFormatter = true ∨ (s.appender a).formatter = none ∨
      (s.appender a).formatter = (s.logger l).formatter))
  | .appenderSetFormatter a none => Fintype.decidableForallFintype (p := fun l => a ∉ (s.logger l).appenders)
  | .appenderSetFormatter _ (some _) | .delAppender .. | .clearAppenders .. | .setFormatter ..
  | .setFormatterString .. | .setLevel .. | .appenderSetLevel .. => isTrue trivial

-- The invariant of the runs along that law.
structure Settled (s : State L A F) : Prop where
  given : ∀ l, (s.logger l).formatter ≠ none
  own : ∀ a, (s.appender a).hasFormatter = true → (s.appender a).formatter ≠ none
  inherited : ∀ l, ∀ a ∈ (s.logger l).appenders, (s.appender a).hasFormatter = false →
    (s.appender a).formatter = (s.logger l).formatter

theorem Settled.attached {s : State L A F} (settled : Settled s) (l : L) (a : A) (member : a ∈ (s.logger l).appenders) :
    (s.appender a).formatter ≠ none := by
  cases has : (s.appender a).hasFormatter with
  | true => exact settled.own a has
  | false =>
      rw [settled.inherited l a member has]
      exact settled.given l

theorem LogAppender.log_some {ap : LogAppender F} (formatted : ap.formatter ≠ none) (level : LogLevel) :
    ap.log level ≠ none := by
  unfold log
  split
  · simpa using formatted
  · simp

section system
variable {s : State L A F} {l : L} {a : A}

theorem logAll_some (level : LogLevel) {items : List A} (formatted : ∀ a ∈ items, (s.appender a).formatter ≠ none) :
    s.logAll level items ≠ none := by
  induction items with
  | nil => simp [State.logAll]
  | cons i rest ih =>
      obtain ⟨printed,here⟩ := Option.ne_none_iff_exists'.mp
        (LogAppender.log_some (formatted i (.head _)) level)
      obtain ⟨later,tail⟩ := Option.ne_none_iff_exists'.mp (ih fun a member => formatted a (.tail _ member))
      simp [State.logAll,here,tail]

theorem log_some (formatted : ∀ l, ∀ a ∈ (s.logger l).appenders, (s.appender a).formatter ≠ none) (level : LogLevel)
    (l : L) (roots : List L) : s.log level l roots ≠ none := by
  induction roots generalizing l with
  | nil =>
      unfold State.log
      split_ifs
      · exact logAll_some level (formatted l)
      · simp
      · simp
  | cons m_root roots ih =>
      unfold State.log
      split_ifs
      · exact logAll_some level (formatted l)
      · exact ih m_root
      · simp

theorem Settled.formatted (settled : Settled s) : Formatted s :=
  ⟨settled.attached,settled.inherited,log_some settled.attached⟩

theorem initial_settled (formatters : L → F) : Settled (.initial formatters : State L A F) := by
  refine ⟨?_,?_,?_⟩
  · simp [State.initial]
  · intro a has
    cases has
  · intro l a member
    cases member

theorem setLogger_settled [DecidableEq L] (settled : Settled s) {logger : Logger A F} (given : logger.formatter ≠ none)
    (inherited : ∀ a ∈ logger.appenders, (s.appender a).hasFormatter = false →
      (s.appender a).formatter = logger.formatter) : Settled (s.setLogger l logger) := by
  refine ⟨?_,settled.own,?_⟩
  · intro m
    by_cases same : m = l
    · subst m; simpa [State.setLogger] using given
    · simpa [State.setLogger,same] using settled.given m
  · intro m a member has
    by_cases same : m = l
    · subst m
      simp only [State.setLogger,Function.update_self] at member has ⊢
      exact inherited a member has
    · simp only [State.setLogger,Function.update_of_ne same] at member has ⊢
      exact settled.inherited m a member has

theorem setLogger_exclusive [DecidableEq L] (exclusive : Exclusive s) {logger : Logger A F}
    (free : ∀ a ∈ logger.appenders, ∀ m, a ∈ (s.logger m).appenders → m = l) : Exclusive (s.setLogger l logger) := by
  intro m n a first second
  by_cases left : m = l <;> by_cases right : n = l
  · exact left.trans right.symm
  · simp only [State.setLogger,left,Function.update_self,Function.update_of_ne right] at first second
    exact absurd (free a first n second) right
  · simp only [State.setLogger,right,Function.update_self,Function.update_of_ne left] at first second
    exact absurd (free a second m first) left
  · simp only [State.setLogger,Function.update_of_ne left,Function.update_of_ne right] at first second
    exact exclusive m n a first second

theorem setAppender_settled [DecidableEq A] (settled : Settled s) {ap : LogAppender F}
    (own : ap.hasFormatter = true → ap.formatter ≠ none)
    (inherited : ∀ l, a ∈ (s.logger l).appenders → ap.hasFormatter = false → ap.formatter = (s.logger l).formatter) :
    Settled (s.setAppender a ap) := by
  refine ⟨settled.given,?_,?_⟩
  · intro b has
    by_cases same : b = a
    · subst b
      simp only [State.setAppender,Function.update_self] at has ⊢
      exact own has
    · simp only [State.setAppender,Function.update_of_ne same] at has ⊢
      exact settled.own b has
  · intro l b member has
    by_cases same : b = a
    · subst b
      simp only [State.setAppender,Function.update_self] at has ⊢
      exact inherited l member has
    · simp only [State.setAppender,Function.update_of_ne same] at has ⊢
      exact settled.inherited l b member has

-- The loop gives its formatter to the appenders of the list that have none of
-- their own.
theorem foldl_inherit [DecidableEq A] (val : Option F) (items : List A) (s : State L A F) :
    (items.foldl (State.inherit val) s).logger = s.logger ∧ ∀ a,
      (items.foldl (State.inherit val) s).appender a =
        if a ∈ items ∧ (s.appender a).hasFormatter = false then {s.appender a with formatter := val}
        else s.appender a := by
  induction items generalizing s with
  | nil => simp
  | cons i rest ih =>
      obtain ⟨loggers,appenders⟩ := ih (s.inherit val i)
      have kept : (s.inherit val i).logger = s.logger := by
        unfold State.inherit
        split <;> rfl
      refine ⟨loggers.trans kept,?_⟩
      intro a
      rw [List.foldl_cons,appenders]
      cases has : (s.appender i).hasFormatter with
      | true =>
          have same : s.inherit val i = s := by simp [State.inherit,has]
          by_cases here : a = i
          · subst a; simp [same,has]
          · simp [same,here]
      | false =>
          by_cases here : a = i
          · subst a; simp [State.inherit,State.setAppender,has]
          · simp [State.inherit,State.setAppender,has,here]

variable [DecidableEq L] [DecidableEq A]

theorem setFormatter_appender (s : State L A F) (l : L) (val : Option F) (a : A) :
    (s.setFormatter l val).appender a =
      if a ∈ (s.logger l).appenders ∧ (s.appender a).hasFormatter = false then {s.appender a with formatter := val}
      else s.appender a :=
  (foldl_inherit val _ _).2 a

theorem setFormatter_logger (s : State L A F) (l : L) (val : Option F) :
    (s.setFormatter l val).logger = Function.update s.logger l {s.logger l with formatter := val} :=
  (foldl_inherit val _ _).1

-- The appenders that inherit from another logger are not in this one's list.
theorem setFormatter_settled (settled : Settled s) (exclusive : Exclusive s) (l : L) (val : F) :
    Settled (s.setFormatter l (some val)) := by
  refine ⟨?_,?_,?_⟩
  · intro m
    rw [setFormatter_logger]
    by_cases same : m = l
    · subst m; simp
    · rw [Function.update_of_ne same]
      exact settled.given m
  · intro a has
    rw [setFormatter_appender] at has ⊢
    by_cases heir : a ∈ (s.logger l).appenders ∧ (s.appender a).hasFormatter = false
    · simp [heir]
    · rw [if_neg heir] at has ⊢
      exact settled.own a has
  · intro m a member has
    rw [setFormatter_logger] at member ⊢
    rw [setFormatter_appender] at has ⊢
    by_cases same : m = l
    · subst m
      rw [Function.update_self] at member ⊢
      by_cases heir : a ∈ (s.logger l).appenders ∧ (s.appender a).hasFormatter = false
      · rw [if_pos heir]
      · rw [if_neg heir] at has
        exact absurd ⟨member,has⟩ heir
    · rw [Function.update_of_ne same] at member ⊢
      have elsewhere : a ∉ (s.logger l).appenders := fun also => same (exclusive m l a member also)
      rw [if_neg fun both => elsewhere both.1] at has ⊢
      exact settled.inherited m a member has

theorem addAppender_settled (settled : Settled s) (inherits : Inherits s (.addAppender l a)) :
    Settled (s.addAppender l a) := by
  have append {r : State L A F} (settled : Settled r)
      (fits : (r.appender a).hasFormatter = false → (r.appender a).formatter = (r.logger l).formatter) :
      Settled (r.setLogger l {r.logger l with appenders := (r.logger l).appenders ++ [a]}) := by
    refine setLogger_settled settled (settled.given l) ?_
    intro b member has
    rcases List.mem_append.mp member with old | new
    · exact settled.inherited l b old has
    · cases List.mem_singleton.mp new
      exact fits has
  unfold State.addAppender
  split
  · rename_i empty
    rw [Option.isNone_iff_eq_none] at empty
    apply append
    · refine setAppender_settled settled (fun _ => settled.given l) ?_
      intro m member
      exact absurd empty (settled.attached m a member)
    · intro _
      simp [State.setAppender]
  · rename_i filled
    apply append settled
    intro has
    rcases inherits with own | empty | same
    · rw [has] at own; cases own
    · rw [empty] at filled; exact absurd rfl filled
    · exact same

theorem apply_settled (settled : Settled s) (exclusive : Exclusive s) {action : Action L A F}
    (inherits : Inherits s action) : Settled (s.apply action) := by
  cases action with
  | addAppender l a => exact addAppender_settled settled inherits
  | delAppender l a =>
      refine setLogger_settled settled (settled.given l) ?_
      exact fun b member => settled.inherited l b (List.mem_of_mem_erase member)
  | clearAppenders l => exact setLogger_settled settled (settled.given l) fun b member => by cases member
  | setFormatter l val => exact setFormatter_settled settled exclusive l val
  | setFormatterString l val new_val =>
      change Settled (s.setFormatterString l val new_val)
      unfold State.setFormatterString
      split
      · exact settled
      · exact setFormatter_settled settled exclusive l new_val
  | setLevel l val => exact setLogger_settled settled (settled.given l) (settled.inherited l)
  | appenderSetFormatter a val =>
      cases val with
      | none =>
          refine setAppender_settled settled (fun has => by cases has) ?_
          exact fun l member => absurd member (inherits l)
      | some val =>
          refine setAppender_settled settled (fun _ => by simp [LogAppender.setFormatter]) ?_
          exact fun l member has => by cases has
  | appenderSetLevel a val =>
      exact setAppender_settled settled (settled.own a) fun l member => settled.inherited l a member

-- A step outside of the law leaves an attached appender without a formatter or
-- with the formatter of another time.
theorem inherits_of_formatted {action : Action L A F} (after : Formatted (s.apply action)) : Inherits s action := by
  cases action with
  | addAppender l a =>
      cases has : (s.appender a).hasFormatter with
      | true => exact .inl has
      | false =>
          cases filled : (s.appender a).formatter with
          | none => exact .inr (.inl filled)
          | some val =>
              have same := after.inherited l a
              simp only [State.apply,State.addAppender,State.setLogger,filled,Option.isNone_some,Bool.false_eq_true,
                if_false,Function.update_self] at same
              exact .inr (.inr (filled.trans (same (by simp) has)))
  | appenderSetFormatter a val =>
      cases val with
      | none =>
          intro l member
          apply after.formatter l a member
          simp [State.apply,State.setAppender,LogAppender.setFormatter]
      | some val => trivial
  | _ => trivial

theorem formatters_exactly (formatters : L → F) (actions : List (Action L A F))
    (exclusive : Throughout next Exclusive (.initial formatters) actions) :
    Throughout next Formatted (.initial formatters) actions ↔ Along next Inherits (.initial formatters) actions := by
  apply throughout_exactly_along (initial_settled formatters) fun _ => Settled.formatted
  · intro s action t settled exclusive inherits moved
    cases moved
    exact apply_settled settled exclusive inherits
  · intro s action _ _ after
    exact inherits_of_formatted (after _ rfl)
  · exact exclusive.along

theorem setFormatter_exclusive (exclusive : Exclusive s) (l : L) (val : Option F) :
    Exclusive (s.setFormatter l val) := by
  have same : Exclusive (s.setLogger l {s.logger l with formatter := val}) :=
    setLogger_exclusive exclusive fun a member m also => exclusive m l a also member
  unfold Exclusive at same ⊢
  rw [setFormatter_logger]
  exact same

theorem apply_exclusive (exclusive : Exclusive s) {action : Action L A F} (free : Free s action) :
    Exclusive (s.apply action) := by
  have here (l : L) (a : A) (member : a ∈ (s.logger l).appenders) (m : L) (also : a ∈ (s.logger m).appenders) : m = l :=
    exclusive m l a also member
  cases action with
  | addAppender l a =>
      have added : ∀ b ∈ (s.logger l).appenders ++ [a], ∀ m, b ∈ (s.logger m).appenders → m = l := by
        intro b member
        rcases List.mem_append.mp member with old | new
        · exact here l b old
        · cases List.mem_singleton.mp new
          exact free
      change Exclusive (s.addAppender l a)
      unfold State.addAppender
      split
      · exact setLogger_exclusive (s := s.setAppender a _) exclusive added
      · exact setLogger_exclusive exclusive added
  | delAppender l a => exact setLogger_exclusive exclusive fun b member => here l b (List.mem_of_mem_erase member)
  | clearAppenders l => exact setLogger_exclusive exclusive fun b member => by cases member
  | setFormatter l val => exact setFormatter_exclusive exclusive l _
  | setFormatterString l val new_val =>
      change Exclusive (s.setFormatterString l val new_val)
      unfold State.setFormatterString
      split
      · exact exclusive
      · exact setFormatter_exclusive exclusive l _
  | setLevel l val => exact setLogger_exclusive exclusive (here l)
  | appenderSetFormatter a val => exact exclusive
  | appenderSetLevel a val => exact exclusive

theorem exclusive_of_free (formatters : L → F) {actions : List (Action L A F)}
    (free : Along next Free (.initial formatters) actions) : Throughout next Exclusive (.initial formatters) actions := by
  refine throughout_of_along ?_ (fun _ exclusive => exclusive) ?_ free
  · intro l m a member
    cases member
  · intro s action t exclusive free moved
    cases moved
    exact apply_exclusive exclusive free

end system

-- A logger as a value of its own, with the patterns of the formatters.
def LogAppender.view (pattern : F → List UInt8) (type : LogAppenderType) (ap : LogAppender F) : Fishjoy.LogAppender :=
  ⟨type,ap.level,ap.hasFormatter,ap.formatter.map pattern⟩

def State.view (pattern : F → List UInt8) (type : A → LogAppenderType) (s : State L A F) (l : L) : Fishjoy.Logger :=
  ⟨(s.logger l).level,(s.logger l).formatter.map pattern,
    (s.logger l).appenders.map fun a => (s.appender a).view pattern (type a)⟩

section view
variable {s : State L A F} {a : A} (pattern : F → List UInt8) (type : A → LogAppenderType)

-- A call on one logger changes that value as the same call on values does, and
-- no other logger.
theorem setLogger_view [DecidableEq L] (l : L) (logger : Logger A F) : (s.setLogger l logger).view pattern type =
    Function.update (s.view pattern type) l
      ⟨logger.level,logger.formatter.map pattern,
        logger.appenders.map fun a => (s.appender a).view pattern (type a)⟩ := by
  funext m
  by_cases same : m = l
  · subst m
    simp [State.view,State.setLogger]
  · simp [State.view,State.setLogger,same]

theorem clearAppenders_view [DecidableEq L] (l : L) : (s.clearAppenders l).view pattern type =
    Function.update (s.view pattern type) l (s.view pattern type l).clearAppenders :=
  setLogger_view pattern type l _

theorem setAppender_view [DecidableEq A] (apart : ∀ l, a ∉ (s.logger l).appenders) (ap : LogAppender F) :
    (s.setAppender a ap).view pattern type = s.view pattern type := by
  funext l
  have kept : ∀ b ∈ (s.logger l).appenders, (s.setAppender a ap).appender b = s.appender b := by
    intro b member
    have other : b ≠ a := fun same => apart l (same ▸ member)
    exact Function.update_of_ne other _ _
  unfold State.view
  rw [List.map_congr_left fun b member => by rw [kept b member]]
  rfl

variable [DecidableEq L] [DecidableEq A]

theorem addAppender_view (settled : Settled s) (l : L) (a : A) : (s.addAppender l a).view pattern type =
    Function.update (s.view pattern type) l
      ((s.view pattern type l).addAppender ((s.appender a).view pattern (type a))) := by
  unfold State.addAppender
  cases filled : (s.appender a).formatter with
  | some val =>
      rw [Option.isNone_some,if_neg Bool.false_ne_true,setLogger_view]
      simp [Fishjoy.Logger.addAppender,State.view,LogAppender.view,filled]
  | none =>
      have apart (m : L) : a ∉ (s.logger m).appenders := fun member => settled.attached m a member filled
      have kept := congrFun (setAppender_view pattern type apart
        {s.appender a with formatter := (s.logger l).formatter}) l
      rw [Option.isNone_none,if_pos rfl,setLogger_view,setAppender_view pattern type apart]
      have items := congrArg Fishjoy.Logger.appenders kept
      simp only [State.view] at items
      simp only [List.map_append,items]
      simp [Fishjoy.Logger.addAppender,State.view,State.setAppender,LogAppender.view,filled]

theorem setFormatter_view (exclusive : Exclusive s) (l : L) (val : Option F) :
    (s.setFormatter l val).view pattern type =
      Function.update (s.view pattern type) l ((s.view pattern type l).setFormatter (val.map pattern)) := by
  funext m
  by_cases same : m = l
  · subst m
    rw [Function.update_self]
    simp only [State.view,setFormatter_logger,Function.update_self,Fishjoy.Logger.setFormatter,List.map_map]
    congr 1
    apply List.map_congr_left
    intro a member
    rw [setFormatter_appender]
    cases has : (s.appender a).hasFormatter with
    | true => simp [LogAppender.view,has]
    | false => simp [LogAppender.view,has,member]
  · rw [Function.update_of_ne same]
    simp only [State.view,setFormatter_logger,Function.update_of_ne same]
    congr 1
    apply List.map_congr_left
    intro a member
    have elsewhere : a ∉ (s.logger l).appenders := fun also => same (exclusive m l a member also)
    rw [setFormatter_appender,if_neg fun both => elsewhere both.1]

theorem setFormatterString_view (exclusive : Exclusive s) (l : L) (val : List UInt8) (new_val : F)
    (constructed : pattern new_val = val) : (s.setFormatterString l val new_val).view pattern type =
      Function.update (s.view pattern type) l
        ((s.view pattern type l).setFormatterString (fun val => (LogFormatter.init val).isError) val) := by
  unfold State.setFormatterString Fishjoy.Logger.setFormatterString
  split
  · rw [Function.update_eq_self]
  · rw [setFormatter_view pattern type exclusive,Option.map_some,constructed]

end view

-- Two loggers with the formatters 0 and 1, and an appender.
def constructed (l : Bool) : Nat := l.toNat

-- The appender gets no formatter before it goes to the other logger.
def handedOver : List (Action Bool Unit Nat) :=
  [.addAppender false (),.setFormatter false 2,.delAppender false (),.appenderSetFormatter () none,.addAppender true ()]

theorem formatters_exactly_handed : Throughout next Formatted (.initial constructed) handedOver :=
  (formatters_exactly constructed handedOver (exclusive_of_free constructed (by decide))).mpr (by decide)

-- It loses its formatter while it is attached.
def reset : List (Action Bool Unit Nat) := [.addAppender false (),.appenderSetFormatter () none]

-- It keeps the formatter of the logger it is taken from.
def moved : List (Action Bool Unit Nat) := [.addAppender false (),.delAppender false (),.addAppender true ()]

theorem reset_fails : ¬Throughout next Formatted (.initial constructed) reset := by
  intro holds
  obtain ⟨s,ran,crash⟩ : ∃ s, run next (.initial constructed) reset = some s ∧ s.log .DEBUG false [] = none := ⟨_,rfl,rfl⟩
  exact (holds.reached reset [] ran).logged .DEBUG false [] crash

theorem moved_fails : ¬Throughout next Formatted (.initial constructed) moved := by
  intro holds
  obtain ⟨s,ran,member,has,old,new⟩ : ∃ s, run next (.initial constructed) moved = some s ∧
      () ∈ (s.logger true).appenders ∧ (s.appender ()).hasFormatter = false ∧
        (s.appender ()).formatter = some 0 ∧ (s.logger true).formatter = some 1 :=
    ⟨_,rfl,.head _,rfl,rfl,rfl⟩
  have same := (holds.reached moved [] ran).inherited true () member has
  rw [old,new] at same
  cases same

theorem inheritance_fails :
    (Throughout next Exclusive (.initial constructed) reset ∧ ¬Throughout next Formatted (.initial constructed) reset) ∧
      Throughout next Exclusive (.initial constructed) moved ∧
        ¬Throughout next Formatted (.initial constructed) moved :=
  ⟨⟨exclusive_of_free constructed (by decide),reset_fails⟩,exclusive_of_free constructed (by decide),moved_fails⟩

end LogAppenders
end Fishjoy
