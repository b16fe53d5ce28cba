import Fishjoy.UrlCodec
import Fishjoy.Foundation.RankedSet
import Mathlib.Data.List.Lex

namespace Fishjoy

inductive LogLevel where
  | UNKNOWN
  | DEBUG
  | INFO
  | WARN
  | ERROR
  | FATAL
  deriving DecidableEq

namespace LogLevel

def ToString : LogLevel → List UInt8
  | .DEBUG => text "DEBUG"
  | .INFO => text "INFO"
  | .WARN => text "WARN"
  | .ERROR => text "ERROR"
  | .FATAL => text "FATAL"
  | .UNKNOWN => text "UNKNOWN"

def FromString (str : List UInt8) : LogLevel :=
  if str = text "debug" then .DEBUG
  else if str = text "info" then .INFO
  else if str = text "warn" then .WARN
  else if str = text "error" then .ERROR
  else if str = text "fatal" then .FATAL
  else if str = text "DEBUG" then .DEBUG
  else if str = text "INFO" then .INFO
  else if str = text "WARN" then .WARN
  else if str = text "ERROR" then .ERROR
  else if str = text "FATAL" then .FATAL
  else .UNKNOWN

theorem FromString_ToString (level : LogLevel) : FromString level.ToString = level := by
  cases level <;> rfl

end LogLevel

-- 1 is a file and 2 is the standard output.
structure LogAppenderDefine where
  type : Int
  level : LogLevel
  formatter : List UInt8
  file : List UInt8
  deriving DecidableEq

-- Of one of the two types there are.
def LogAppenderDefine.Typed (a : LogAppenderDefine) : Prop := a.type = 1 ∨ a.type = 2

structure LogDefine where
  name : List UInt8
  level : LogLevel
  formatter : List UInt8
  appenders : List LogAppenderDefine
  deriving DecidableEq

namespace LogDefine

-- `operator==`; its last comparison is of a list with itself.
def equal (i oth : LogDefine) : Bool :=
  i.name == oth.name && i.level == oth.level && i.formatter == oth.formatter && i.appenders == i.appenders

-- Names compare byte by byte.
def byName (name : List UInt8) : List Nat := name.map UInt8.toNat

theorem byName_inj {x y : List UInt8} : byName x = byName y ↔ x = y := by
  apply List.map_inj_right
  intro a b same
  exact UInt8.toNat_inj.mp same

theorem equal_iff {i oth : LogDefine} :
    i.equal oth = true ↔ i.name = oth.name ∧ i.level = oth.level ∧ i.formatter = oth.formatter := by
  simp only [equal,beq_self_eq_true,Bool.and_true,Bool.and_eq_true,beq_iff_eq,and_assoc]

end LogDefine

abbrev LogDefines := RankedSet fun i : LogDefine => LogDefine.byName i.name

namespace LogDefines

def find (s : LogDefines) (i : LogDefine) : Option LogDefine := RankedSet.find s (LogDefine.byName i.name)

-- `operator==` of the set.
def equal (s oth : LogDefines) : Bool :=
  s.entries.length == oth.entries.length && (s.entries.zip oth.entries).all fun e => e.1.equal e.2

theorem find_some {s : LogDefines} {i j : LogDefine} : s.find i = some j ↔ j ∈ s.entries ∧ j.name = i.name :=
  RankedSet.find_some.trans (and_congr_right' LogDefine.byName_inj)

theorem find_none {s : LogDefines} {i : LogDefine} : s.find i = none ↔ ∀ j ∈ s.entries, j.name ≠ i.name :=
  RankedSet.find_none.trans (forall₂_congr fun _ _ => not_congr LogDefine.byName_inj)

theorem names_nodup (s : LogDefines) : (s.entries.map LogDefine.name).Nodup := by
  have ranks := RankedSet.ranks_nodup s
  exact List.Nodup.of_map LogDefine.byName (by rwa [List.map_map])

theorem equal_iff {s oth : LogDefines} : s.equal oth = true ↔
    List.Forall₂ (fun i j => i.name = j.name ∧ i.level = j.level ∧ i.formatter = j.formatter)
      s.entries oth.entries := by
  rw [equal,List.forall₂_iff_zip,Bool.and_eq_true,beq_iff_eq,List.all_eq_true]
  apply and_congr_right'
  simp only [LogDefine.equal_iff,Prod.forall]

end LogDefines

end Fishjoy
