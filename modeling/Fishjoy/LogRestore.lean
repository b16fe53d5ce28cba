import Fishjoy.LogConfig
import Fishjoy.LogLexicalCast

namespace Fishjoy.LogRestore
open YamlNode

-- The loggers of a manager in the order of their names.
abbrev Loggers := RankedSet fun entry : List UInt8 × Logger => LogDefine.byName entry.1

def own (ap : LogAppender) : Option (List UInt8) := if ap.hasFormatter then ap.formatter else none

def appenderNode (ap : LogAppender) : YamlNode :=
  .ofFields <|
    (match ap.type with
      | .FileLogAppender filepath => [(text "type",.scalar (text "FileLogAppender")),(text "file",.scalar filepath)]
      | .StdoutLogAppender => [(text "type",.scalar (text "StdoutLogAppender"))]) ++
    (if ap.level ≠ .UNKNOWN then [(text "level",.scalar ap.level.ToString)] else []) ++
    (match own ap with
      | some pattern => [(text "formatter",.scalar pattern)]
      | none => [])

def loggerNode (m_name : List UInt8) (l : Logger) (appenders : List YamlNode) : YamlNode :=
  .ofFields <|
    [(text "name",.scalar m_name)] ++
    (if l.level ≠ .UNKNOWN then [(text "level",.scalar l.level.ToString)] else []) ++
    (match l.formatter with
      | some pattern => [(text "formatter",.scalar pattern)]
      | none => []) ++
    (if appenders = [] then [] else [(text "appenders",.ofItems appenders)])

section Yaml
variable (Load : List UInt8 → Option YamlNode) (emit : YamlNode → List UInt8)

-- `FileLogAppender::toYamlString` and `StdoutLogAppender::toYamlString`.
def appenderToYamlString (ap : LogAppender) : List UInt8 := emit (appenderNode ap)

-- What is written of the parts is parsed again, which may throw.
def loggerToYamlString (m_name : List UInt8) (l : Logger) : Option (List UInt8) :=
  (l.appenders.mapM fun i => Load (appenderToYamlString emit i)).map fun appenders => emit (loggerNode m_name l appenders)

def toYamlString (m_loggers : Loggers) : Option (List UInt8) :=
  (m_loggers.entries.mapM fun i => (loggerToYamlString Load emit i.1 i.2).bind Load).map fun nodes => emit (.ofItems nodes)

end Yaml

def loggerWhole (entry : List UInt8 × Logger) : YamlNode :=
  loggerNode entry.1 entry.2 (entry.2.appenders.map appenderNode)

-- yaml-cpp reads back the nodes that are written.
structure Returned (Load : List UInt8 → Option YamlNode) (emit : YamlNode → List UInt8) (m : Loggers) : Prop where
  appenders : ∀ entry ∈ m.entries, ∀ ap ∈ entry.2.appenders, Load (emit (appenderNode ap)) = some (appenderNode ap)
  loggers : ∀ entry ∈ m.entries, Load (emit (loggerWhole entry)) = some (loggerWhole entry)
  whole : Load (emit (.ofItems (m.entries.map loggerWhole))) = some (.ofItems (m.entries.map loggerWhole))

-- A pattern that is taken over.
abbrev Good (isError : List UInt8 → Bool) (pattern : List UInt8) : Prop := pattern ≠ [] ∧ isError pattern = false

-- What definitions there are of appenders and loggers when they are read back.
def defineAppender (ap : LogAppender) : LogAppenderDefine :=
  match ap.type with
  | .FileLogAppender filepath => ⟨1,.UNKNOWN,(own ap).getD [],filepath⟩
  | .StdoutLogAppender => ⟨2,.UNKNOWN,[],[]⟩

def define (entry : List UInt8 × Logger) : LogDefine :=
  ⟨entry.1,entry.2.level,entry.2.formatter.getD [],entry.2.appenders.map defineAppender⟩

-- What becomes of an appender and of a logger in a manager that had `before` under its name.
def restoredAppender (isError : List UInt8 → Bool) (formatter : Option (List UInt8)) (ap : LogAppender) : LogAppender :=
  if Good isError (defineAppender ap).formatter then ⟨ap.type,.UNKNOWN,true,some (defineAppender ap).formatter⟩
  else ⟨ap.type,.UNKNOWN,false,formatter⟩

def restoredFormatter (isError : List UInt8 → Bool) (before formatter : Option (List UInt8)) : Option (List UInt8) :=
  if Good isError (formatter.getD []) then formatter else before

def restored (isError : List UInt8 → Bool) (before l : Logger) : Logger :=
  ⟨l.level,restoredFormatter isError before.formatter l.formatter,
    l.appenders.map (restoredAppender isError (restoredFormatter isError before.formatter l.formatter))⟩

-- The loggers that come back as they were: their appenders print every level, with the
-- logger's formatter, or else to a file and with a pattern of their own.
structure Restorable (isError : List UInt8 → Bool) (before : Option (List UInt8)) (l : Logger) : Prop where
  formatter : Good isError (l.formatter.getD []) ∨ l.formatter = before
  levels : ∀ ap ∈ l.appenders, ap.level = .UNKNOWN
  patterns : ∀ ap ∈ l.appenders, ap.hasFormatter = false ∧ ap.formatter = l.formatter ∨
    ap.hasFormatter = true ∧ ap.type ≠ .StdoutLogAppender ∧ ap.formatter.isSome ∧ Good isError (ap.formatter.getD [])

variable {Load : List UInt8 → Option YamlNode} {emit : YamlNode → List UInt8} {isError : List UInt8 → Bool}
  {m : Loggers} {old_value : LogDefines}

theorem mapM_each {α β : Type} {f : α → Option β} {g : α → β} (l : List α) (each : ∀ a ∈ l, f a = some (g a)) :
    l.mapM f = some (l.map g) := by
  induction l with
  | nil => rfl
  | cons a rest ih =>
      rw [List.mapM_cons,each a (.head _),ih fun b member => each b (.tail _ member)]
      rfl

theorem written (returned : Returned Load emit m) :
    toYamlString Load emit m = some (emit (.ofItems (m.entries.map loggerWhole))) := by
  have each : ∀ entry ∈ m.entries,
      (loggerToYamlString Load emit entry.1 entry.2).bind Load = some (loggerWhole entry) := by
    intro entry member
    have appenders : entry.2.appenders.mapM (fun i => Load (appenderToYamlString emit i)) = _ :=
      mapM_each entry.2.appenders (returned.appenders entry member)
    rw [loggerToYamlString,appenders]
    exact returned.loggers entry member
  rw [toYamlString,mapM_each m.entries each]
  rfl

theorem decodeAppender_node (ap : LogAppender) : decodeAppender (appenderNode ap) = some (some (defineAppender ap)) := by
  obtain ⟨type,level,hasFormatter,formatter⟩ := ap
  cases type <;> cases level <;> cases hasFormatter <;> cases formatter <;> rfl

theorem decodeDefine_node (entry : List UInt8 × Logger) :
    decodeDefine (loggerWhole entry) = some (some (define entry)) := by
  obtain ⟨name,level,formatter,appenders⟩ := entry
  have named : (loggerWhole (name,⟨level,formatter,appenders⟩)).field "name" = some (some (.scalar name)) := rfl
  have levelled : ∃ word, (loggerWhole (name,⟨level,formatter,appenders⟩)).stringField "level" = some word ∧
      LogLevel.FromString word = level := by
    by_cases unknown : level = .UNKNOWN
    · refine ⟨[],?_,unknown.symm⟩
      rw [unknown]
      cases formatter <;> cases appenders <;> rfl
    · refine ⟨level.ToString,?_,LogLevel.FromString_ToString level⟩
      simp only [loggerWhole,loggerNode,Ne,unknown,not_false_eq_true,if_true]
      rfl
  have formatted : (loggerWhole (name,⟨level,formatter,appenders⟩)).stringField "formatter" =
      some (formatter.getD []) := by
    cases level <;> cases formatter <;> cases appenders <;> rfl
  have listed : decodeAppenders (loggerWhole (name,⟨level,formatter,appenders⟩)) =
      some (appenders.map defineAppender) := by
    have loop := mapM_reread appenders fun ap _ => decodeAppender_node ap
    cases appenders with
    | nil => cases level <;> cases formatter <;> rfl
    | cons ap rest =>
        have found : (loggerWhole (name,⟨level,formatter,ap :: rest⟩)).field "appenders" =
            some (some (.ofItems ((ap :: rest).map appenderNode))) := by
          cases level <;> cases formatter <;> rfl
        simp only [decodeAppenders,found,Option.bind_some,items_ofItems]
        exact loop
  obtain ⟨word,read,meaning⟩ := levelled
  simp only [decodeDefine,named,read,formatted,listed,Option.bind_some,Option.map_some,asString,meaning]
  rfl

-- The definitions that are read from what is written.
theorem read_back (returned : Returned Load emit m) : ∃ defs,
    LogDefines.ofString Load (emit (.ofItems (m.entries.map loggerWhole))) = some defs ∧
      defs.entries = m.entries.map define := by
  have loop := mapM_reread m.entries fun entry _ => decodeDefine_node entry
  obtain ⟨entries,read,kept⟩ := Option.map_eq_some_iff.mp loop
  have sorted : (m.entries.map define).Pairwise fun i j => LogDefine.byName i.name < LogDefine.byName j.name :=
    List.pairwise_map.mpr m.sorted
  refine ⟨RankedSet.collect (m.entries.map define),?_,RankedSet.collect_sorted sorted⟩
  rw [LogDefines.ofString,returned.whole,Option.bind_some,decode,items_ofItems,read,Option.map_some,kept]

theorem defineAppender_type (ap : LogAppender) : (defineAppender ap).level = .UNKNOWN ∧
    (if (defineAppender ap).type = 1 then some (LogAppender.new (.FileLogAppender (defineAppender ap).file))
      else if (defineAppender ap).type = 2 then some (LogAppender.new .StdoutLogAppender)
      else none) = some (LogAppender.new ap.type) := by
  unfold defineAppender
  cases ap.type with
  | FileLogAppender filepath => exact ⟨rfl,rfl⟩
  | StdoutLogAppender => exact ⟨rfl,rfl⟩

theorem add_restored (isError : List UInt8 → Bool) (logger : Logger) (ap : LogAppender) :
    (makeAppender isError (defineAppender ap)).map logger.addAppender =
      some {logger with appenders := logger.appenders ++ [restoredAppender isError logger.formatter ap]} := by
  obtain ⟨level,made⟩ := defineAppender_type ap
  rw [makeAppender,made,Option.map_some,Option.map_some,level]
  unfold restoredAppender
  by_cases good : Good isError (defineAppender ap).formatter
  · rw [if_pos good,if_pos good]
    rfl
  · rw [if_neg good,if_neg good]
    rfl

theorem add_all (isError : List UInt8 → Bool) (aps : List LogAppender) (logger : Logger) :
    (aps.map defineAppender).foldlM (fun logger a => (makeAppender isError a).map logger.addAppender) logger =
      some {logger with appenders := logger.appenders ++ aps.map (restoredAppender isError logger.formatter)} := by
  induction aps generalizing logger with
  | nil =>
      rw [List.map_nil,List.map_nil,List.append_nil]
      rfl
  | cons ap rest ih =>
      rw [List.map_cons,List.foldlM_cons,add_restored]
      refine (ih _).trans ?_
      rw [List.append_assoc]
      rfl

theorem configure_define (isError : List UInt8 → Bool) (before : Logger) (entry : List UInt8 × Logger) :
    configure isError (define entry) before = some (restored isError before entry.2) := by
  refine (add_all isError entry.2.appenders _).trans (congrArg some ?_)
  unfold define restored restoredFormatter Good Logger.setFormatterString
  dsimp only
  cases formatter : entry.2.formatter with
  | none => rfl
  | some pattern =>
      rw [Option.getD_some]
      by_cases empty : pattern = []
      · rw [if_neg (not_not.mpr empty),if_neg fun both => both.1 empty]
        rfl
      · rw [if_pos empty]
        cases wrong : isError pattern with
        | true =>
            rw [if_pos rfl,if_neg fun both => nomatch both.2]
            rfl
        | false =>
            rw [if_neg nofun,if_pos ⟨empty,rfl⟩]
            rfl

-- The listener's first loop over definitions of different names, each of them new or
-- other than before.
theorem defines_restored (isError : List UInt8 → Bool) (entries : List (List UInt8 × Logger))
    (names : (entries.map Prod.fst).Nodup) (fresh : ∀ entry ∈ entries, ∀ j ∈ old_value.entries, ¬(define entry).Alike j)
    (m₀ : LoggerManager) : ∃ m',
      (entries.map define).foldlM (defines isError old_value) m₀ = some m' ∧
      (∀ entry ∈ entries, m' entry.1 = some (restored isError (m₀.getLogger entry.1) entry.2)) ∧
      ∀ name, (∀ entry ∈ entries, entry.1 ≠ name) → m' name = m₀ name := by
  induction entries generalizing m₀ with
  | nil => exact ⟨m₀,rfl,fun _ member => absurd member List.not_mem_nil,fun _ _ => rfl⟩
  | cons entry rest ih =>
      obtain ⟨absent,distinct⟩ := List.nodup_cons.mp names
      have apart : ∀ other ∈ rest, other.1 ≠ entry.1 :=
        fun other member same => absent (List.mem_map.mpr ⟨other,member,same⟩)
      have first : defines isError old_value m₀ (define entry) =
          some (m₀.put entry.1 (restored isError (m₀.getLogger entry.1) entry.2)) := by
        rw [defines_fresh isError (fresh entry (.head _)),configure_define,Option.map_some]
        rfl
      obtain ⟨m',folded,named,others⟩ := ih distinct (fun other member => fresh other (.tail _ member))
        (m₀.put entry.1 (restored isError (m₀.getLogger entry.1) entry.2))
      refine ⟨m',?_,fun other member => ?_,fun name free => ?_⟩
      · rw [List.map_cons,List.foldlM_cons,first]
        exact folded
      · rcases List.mem_cons.mp member with same | later
        · rw [same,others entry.1 apart]
          exact Function.update_self _ _ _
        · have untouched : (m₀.put entry.1 (restored isError (m₀.getLogger entry.1) entry.2)).getLogger other.1 =
              m₀.getLogger other.1 := congrArg (Option.getD · _) (Function.update_of_ne (apart other later) _ _)
          rw [named other later,untouched]
      · rw [others name fun other member => free other (.tail _ member)]
        exact Function.update_of_ne (free entry (.head _)).symm _ _

theorem restoredAppender_same {formatter : Option (List UInt8)} {ap : LogAppender} :
    restoredAppender isError formatter ap = ap ↔ ap.level = .UNKNOWN ∧
      (ap.hasFormatter = false ∧ ap.formatter = formatter ∨
        ap.hasFormatter = true ∧ ap.type ≠ .StdoutLogAppender ∧ ap.formatter.isSome ∧
          Good isError (ap.formatter.getD [])) := by
  rw [@eq_comm LogAppender]
  obtain ⟨type,level,hasFormatter,pattern⟩ := ap
  unfold restoredAppender
  cases type with
  | StdoutLogAppender =>
      rw [if_neg fun good => good.1 rfl]
      simp
  | FileLogAppender filepath =>
      cases hasFormatter with
      | false =>
          rw [if_neg fun good => good.1 rfl]
          simp
      | true =>
          have written : (defineAppender ⟨.FileLogAppender filepath,level,true,pattern⟩).formatter = pattern.getD [] := rfl
          rw [written]
          by_cases good : Good isError (pattern.getD [])
          · rw [if_pos good]
            cases pattern with
            | none => exact absurd rfl good.1
            | some p =>
                constructor
                · intro same
                  exact ⟨(LogAppender.mk.inj same).2.1,.inr ⟨rfl,nofun,rfl,good⟩⟩
                · rintro ⟨same,_⟩
                  change level = .UNKNOWN at same
                  rw [same]
                  rfl
          · rw [if_neg good]
            refine iff_of_false nofun ?_
            rintro ⟨_,⟨absent,_⟩ | ⟨_,_,_,taken⟩⟩
            · cases absent
            · exact good taken

theorem restored_same {before l : Logger} : restored isError before l = l ↔ Restorable isError before.formatter l := by
  have formatter : restoredFormatter isError before.formatter l.formatter = l.formatter ↔
      Good isError (l.formatter.getD []) ∨ l.formatter = before.formatter := by
    unfold restoredFormatter
    split
    · rename_i good
      exact iff_of_true rfl (.inl good)
    · rename_i bad
      rw [eq_comm]
      exact (or_iff_right bad).symm
  have fields : restored isError before l = l ↔ restoredFormatter isError before.formatter l.formatter = l.formatter ∧
      l.appenders.map (restoredAppender isError l.formatter) = l.appenders := by
    obtain ⟨level,formatter,appenders⟩ := l
    constructor
    · intro same
      obtain ⟨_,kept,all⟩ := Logger.mk.inj same
      rw [kept] at all
      exact ⟨kept,all⟩
    · rintro ⟨kept,all⟩
      unfold restored
      rw [kept,all]
  have pointwise := List.map_inj_left (l := l.appenders) (f := restoredAppender isError l.formatter) (g := id)
  rw [List.map_id] at pointwise
  rw [fields,formatter,pointwise]
  constructor
  · rintro ⟨kept,each⟩
    exact ⟨kept,fun ap member => (restoredAppender_same.mp (each ap member)).1,
      fun ap member => (restoredAppender_same.mp (each ap member)).2⟩
  · rintro ⟨kept,levels,patterns⟩
    exact ⟨kept,fun ap member => restoredAppender_same.mpr ⟨levels ap member,patterns ap member⟩⟩

-- What the process that had `old_value` has then: the printed loggers, no others of
-- `old_value`, and the rest as it was.
structure Restores (isError : List UInt8 → Bool) (m : Loggers) (old_value : LogDefines) (m₀ m' : LoggerManager) :
    Prop where
  named : ∀ entry ∈ m.entries, m' entry.1 = some (restored isError (m₀.getLogger entry.1) entry.2)
  removed : ∀ j ∈ old_value.entries, (∀ entry ∈ m.entries, entry.1 ≠ j.name) →
    ∃ l, m' j.name = some l ∧ l.level = .UNKNOWN ∧ l.appenders = []
  others : ∀ name, (∀ entry ∈ m.entries, entry.1 ≠ name) → (∀ j ∈ old_value.entries, j.name ≠ name) →
    m' name = m₀ name
  exactly : (∀ entry ∈ m.entries, m' entry.1 = some entry.2) ↔
    ∀ entry ∈ m.entries, Restorable isError (m₀.getLogger entry.1).formatter entry.2

theorem onLogsChanged_restores {defs : LogDefines} (entries : defs.entries = m.entries.map define)
    (fresh : ∀ entry ∈ m.entries, ∀ j ∈ old_value.entries, ¬(define entry).Alike j) (m₀ : LoggerManager) :
    ∃ m', onLogsChanged isError old_value defs m₀ = some m' ∧ Restores isError m old_value m₀ m' := by
  have names : (m.entries.map Prod.fst).Nodup := by
    have ranks := m.ranks_nodup
    exact List.Nodup.of_map LogDefine.byName (by rwa [List.map_map])
  obtain ⟨m₁,folded,named,others⟩ := defines_restored isError m.entries names fresh m₀
  obtain ⟨kept,gone⟩ := removes_all defs old_value.entries m₁
  have absent (j : LogDefine) : defs.find j = none ↔ ∀ entry ∈ m.entries, entry.1 ≠ j.name := by
    rw [LogDefines.find_none,entries]
    exact List.forall_mem_map
  have restores : ∀ entry ∈ m.entries, old_value.entries.foldl (removes defs) m₁ entry.1 =
      some (restored isError (m₀.getLogger entry.1) entry.2) := by
    intro entry member
    rw [kept entry.1 fun j _ missing same => (absent j).mp missing entry member same.symm]
    exact named entry member
  refine ⟨old_value.entries.foldl (removes defs) m₁,?_,restores,?_,?_,?_⟩
  · rw [onLogsChanged,entries,folded,Option.map_some]
  · exact fun j member free => gone j member ((absent j).mpr free)
  · intro name free unknown
    rw [kept name fun j member _ => unknown j member]
    exact others name free
  · refine forall₂_congr fun entry member => ?_
    rw [restores entry member,Option.some_inj]
    exact restored_same

-- What one process prints of its loggers, set as the configuration of another.
theorem loggers_restored_exactly (Load : List UInt8 → Option YamlNode) (emit : YamlNode → List UInt8)
    (isError : List UInt8 → Bool) (m : Loggers) (old_value : LogDefines) (m₀ : LoggerManager)
    (returned : Returned Load emit m) :
    ∃ v defs, toYamlString Load emit m = some v ∧ LogDefines.ofString Load v = some defs ∧
      (List.Forall₂ LogDefine.Alike (m.entries.map define) old_value.entries →
        setValue isError old_value defs m₀ = some (old_value,m₀)) ∧
      (¬List.Forall₂ LogDefine.Alike (m.entries.map define) old_value.entries →
        (∃ entry ∈ m.entries, ∃ j ∈ old_value.entries, (define entry).Alike j) →
          setValue isError old_value defs m₀ = none) ∧
      ((∀ entry ∈ m.entries, ∀ j ∈ old_value.entries, ¬(define entry).Alike j) →
        ∃ m', setValue isError old_value defs m₀ = some (defs,m') ∧ Restores isError m old_value m₀ m') := by
  obtain ⟨defs,read,entries⟩ := read_back returned
  refine ⟨_,defs,written returned,read,fun alike => ?_,fun differs => ?_,fun fresh => ?_⟩
  · rw [←entries] at alike
    rw [setValue,if_pos (LogDefines.equal_iff.mpr alike)]
  · rintro ⟨entry,member,j,there,alike⟩
    rw [←entries] at differs
    have inside : define entry ∈ defs.entries := by
      rw [entries]
      exact List.mem_map_of_mem member
    rw [setValue,if_neg fun equal => differs (LogDefines.equal_iff.mp equal),
      onLogsChanged_unhandled inside fun handled => handled.fresh j there alike,Option.map_none]
  · obtain ⟨m',changed,restores⟩ := onLogsChanged_restores entries fresh m₀
    refine ⟨m',?_,restores⟩
    unfold setValue
    split
    · rename_i equal
      -- Definitions that compare equal are none at all here.
      have alike := LogDefines.equal_iff.mp equal
      have none : defs.entries = [] := by
        rw [entries] at alike ⊢
        cases found : m.entries with
        | nil => rfl
        | cons entry rest =>
            rw [found,List.map_cons] at alike
            cases old : old_value.entries with
            | nil => rw [old] at alike; cases alike
            | cons j js =>
                rw [old] at alike
                cases alike with
                | cons here _ =>
                    exact absurd here (fresh entry (by rw [found]; exact .head _) j (by rw [old]; exact .head _))
      rw [none,List.forall₂_nil_left_iff] at alike
      have same : defs = .empty := RankedSet.ext none
      have old : old_value = .empty := RankedSet.ext alike
      rw [same,old] at changed ⊢
      exact congrArg (fun m => some (RankedSet.empty,m)) (Option.some.inj changed)
    · rw [changed,Option.map_some]

-- A logger that prints to a file with a pattern of its own, as yaml-cpp writes it.
def fileAppender : LogAppender := ⟨.FileLogAppender (text "a.txt"),.UNKNOWN,true,some (text "%m%n")⟩

def oneEntry : List UInt8 × Logger := (text "a",⟨.INFO,some (text "%d%n"),[fileAppender]⟩)

def onePrinted : Loggers := ⟨[oneEntry],List.pairwise_singleton _ _⟩

def printed : YamlNode → List UInt8
  | .map ((key,_) :: _) =>
    if key = text "type" then text "type: FileLogAppender\nfile: a.txt\nformatter: \"%m%n\""
    else text "name: a\nlevel: INFO\nformatter: \"%d%n\"\nappenders:\n" ++
      text "  - type: FileLogAppender\n    file: a.txt\n    formatter: \"%m%n\""
  | _ => text "- name: a\n  level: INFO\n  formatter: \"%d%n\"\n  appenders:\n" ++
      text "    - type: FileLogAppender\n      file: a.txt\n      formatter: \"%m%n\""

-- The three texts differ in their first byte.
def parsed (v : List UInt8) : Option YamlNode :=
  if v.head? = some 116 then some (appenderNode fileAppender)
  else if v.head? = some 110 then some (loggerWhole oneEntry)
  else some (.sequence [loggerWhole oneEntry])

theorem onePrinted_returned : Returned parsed printed onePrinted := by
  refine ⟨fun entry member ap inside => ?_,fun entry member => ?_,rfl⟩
  · cases List.mem_singleton.mp member
    cases List.mem_singleton.mp inside
    rfl
  · cases List.mem_singleton.mp member
    rfl

-- The process has another logger, which goes.
theorem loggers_restored_file : ∃ v defs m', toYamlString parsed printed onePrinted = some v ∧
    LogDefines.ofString parsed v = some defs ∧
    setValue (fun _ => false) otherLogger defs (fun _ => none) = some (defs,m') ∧ m' (text "a") = some oneEntry.2 ∧
      ∃ l, m' (text "b") = some l ∧ l.level = .UNKNOWN ∧ l.appenders = [] := by
  obtain ⟨v,defs,dumped,read,_,_,fresh⟩ :=
    loggers_restored_exactly parsed printed (fun _ => false) onePrinted otherLogger (fun _ => none) onePrinted_returned
  obtain ⟨m',set,restores⟩ := fresh fun entry member j inside alike => by
    cases List.mem_singleton.mp member
    cases List.mem_singleton.mp inside
    exact absurd alike.1 (by decide)
  refine ⟨v,defs,m',dumped,read,set,restores.exactly.mpr (fun entry member => ?_) oneEntry (.head _),?_⟩
  · cases List.mem_singleton.mp member
    refine ⟨.inl (by decide),fun ap inside => ?_,fun ap inside => ?_⟩
    · cases List.mem_singleton.mp inside
      rfl
    · cases List.mem_singleton.mp inside
      exact .inr (by decide)
  · refine restores.removed (consoleDefine "b" .DEBUG) (.head _) fun entry member => ?_
    cases List.mem_singleton.mp member
    decide

end Fishjoy.LogRestore
