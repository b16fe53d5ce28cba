import Fishjoy.Log

namespace Fishjoy

-- What a YAML text says. The emitter and the parser are arguments of the two
-- casts.
inductive YamlNode where
  | null
  | scalar (value : List UInt8)
  | sequence (items : List YamlNode)
  | map (fields : List (List UInt8 × YamlNode))

namespace YamlNode

-- A node that was given these keys one after another, or these elements.
def ofFields (fields : List (List UInt8 × YamlNode)) : YamlNode := if fields.isEmpty then .null else .map fields

def ofItems (items : List YamlNode) : YamlNode := if items.isEmpty then .null else .sequence items

-- `node[key]`, none where it is not defined. Subscripts of a scalar throw.
def field (node : YamlNode) (key : String) : Option (Option YamlNode) :=
  match node with
  | .map fields => some (fields.lookup (text key))
  | .scalar _ => none
  | _ => some none

-- `node[0]` up to `node[node.size()-1]`. Both loops pass over an undefined one.
def items : YamlNode → List YamlNode
  | .sequence items => items
  | .map fields => (List.range fields.length).filterMap fun i => fields.lookup (text (ToString.toString i))
  | _ => []

-- `as<std::string>`.
def asString : YamlNode → Option (List UInt8)
  | .scalar value => some value
  | _ => none

-- The string under a key, empty where the key is not defined.
def stringField (node : YamlNode) (key : String) : Option (List UInt8) :=
  (node.field key).bind fun
    | some value => value.asString
    | none => some []

end YamlNode
open YamlNode

def encodeAppender (a : LogAppenderDefine) : YamlNode :=
  .ofFields <|
    (if a.type = 1 then [(text "type",.scalar (text "FileLogAppender")),(text "file",.scalar a.file)]
      else if a.type = 2 then [(text "type",.scalar (text "StdoutLogAppender"))]
      else []) ++
    (if a.level ≠ .UNKNOWN then [(text "level",.scalar a.level.ToString)] else []) ++
    (if a.formatter ≠ [] then [(text "formatter",.scalar a.formatter)] else [])

def encodeDefine (i : LogDefine) : YamlNode :=
  .ofFields <|
    [(text "name",.scalar i.name)] ++
    (if i.level ≠ .UNKNOWN then [(text "level",.scalar i.level.ToString)] else []) ++
    (if i.formatter = [] then [(text "formatter",.scalar i.formatter)] else []) ++
    (if i.appenders = [] then [] else [(text "appenders",.ofItems (i.appenders.map encodeAppender))])

def encode (v : LogDefines) : YamlNode := .ofItems (v.entries.map encodeDefine)

-- The outer option is an exception, the inner one an entry that is passed over.
def decodeAppender (a : YamlNode) : Option (Option LogAppenderDefine) :=
  (a.field "type").bind fun
    | none => some none
    | some type =>
      type.asString.bind fun type =>
        if type = text "FileLogAppender" then
          (a.field "file").bind fun
            | none => some none
            | some file =>
              file.asString.bind fun file =>
                (a.stringField "formatter").map fun formatter => some ⟨1,.UNKNOWN,formatter,file⟩
        else if type = text "StdoutLogAppender" then some (some ⟨2,.UNKNOWN,[],[]⟩)
        else some none

def decodeAppenders (n : YamlNode) : Option (List LogAppenderDefine) :=
  (n.field "appenders").bind fun
    | none => some []
    | some appenders => (appenders.items.mapM decodeAppender).map List.reduceOption

def decodeDefine (n : YamlNode) : Option (Option LogDefine) :=
  (n.field "name").bind fun
    | none => some none
    | some name =>
      name.asString.bind fun name =>
        (n.stringField "level").bind fun level =>
          (n.stringField "formatter").bind fun formatter =>
            (decodeAppenders n).map fun appenders => some ⟨name,LogLevel.FromString level,formatter,appenders⟩

def decode (node : YamlNode) : Option LogDefines :=
  (node.items.mapM decodeDefine).map fun read => RankedSet.collect read.reduceOption

-- `LexicalCast<std::set<LogDefine>, std::string>` and back.
def LogDefines.toString (emit : YamlNode → List UInt8) (v : LogDefines) : List UInt8 := emit (encode v)

def LogDefines.ofString (Load : List UInt8 → Option YamlNode) (v : List UInt8) : Option LogDefines :=
  (Load v).bind decode

theorem items_ofItems (items : List YamlNode) : (ofItems items).items = items := by
  cases items with
  | nil => rfl
  | cons => rfl

-- What is left of an appender and of a logger.
def LogAppenderDefine.reread (a : LogAppenderDefine) : LogAppenderDefine :=
  if a.type = 1 then {a with level := .UNKNOWN} else {a with level := .UNKNOWN,formatter := [],file := []}

def LogDefine.reread (i : LogDefine) : LogDefine :=
  {i with formatter := [],appenders := i.appenders.map LogAppenderDefine.reread}

theorem decodeAppender_encode (a : LogAppenderDefine) (typed : a.Typed) :
    decodeAppender (encodeAppender a) = some (some a.reread) := by
  obtain ⟨type,level,formatter,file⟩ := a
  rcases typed with one | two
  · dsimp only at one
    subst one
    cases level <;> cases formatter <;> rfl
  · dsimp only at two
    subst two
    cases level <;> cases formatter <;> rfl

-- A loop that reads back each entry.
theorem mapM_reread {α β γ : Type} {write : α → γ} {read : γ → Option (Option β)} {back : α → β} (l : List α)
    (each : ∀ a ∈ l, read (write a) = some (some (back a))) :
    ((l.map write).mapM read).map List.reduceOption = some (l.map back) := by
  induction l with
  | nil => rfl
  | cons a rest ih =>
      have here := each a (.head _)
      obtain ⟨entries,read_rest,kept⟩ := Option.map_eq_some_iff.mp (ih fun b member => each b (.tail _ member))
      rw [List.map_cons,List.mapM_cons,here,read_rest]
      exact congrArg (fun tail => some (back a :: tail)) kept

theorem decodeAppenders_encode (i : LogDefine) (typed : ∀ a ∈ i.appenders, a.Typed) :
    decodeAppenders (encodeDefine i) = some (i.appenders.map LogAppenderDefine.reread) := by
  have loop := mapM_reread i.appenders fun a member => decodeAppender_encode a (typed a member)
  obtain ⟨name,level,formatter,appenders⟩ := i
  cases appenders with
  | nil => cases level <;> cases formatter <;> rfl
  | cons a rest =>
      have found : (encodeDefine ⟨name,level,formatter,a :: rest⟩).field "appenders" =
          some (some (.ofItems ((a :: rest).map encodeAppender))) := by
        cases level <;> cases formatter <;> rfl
      simp only [decodeAppenders,found,Option.bind_some,items_ofItems]
      exact loop

theorem decodeDefine_encode (i : LogDefine) (typed : ∀ a ∈ i.appenders, a.Typed) :
    decodeDefine (encodeDefine i) = some (some i.reread) := by
  have appenders := decodeAppenders_encode i typed
  obtain ⟨name,level,formatter,as⟩ := i
  have named : (encodeDefine ⟨name,level,formatter,as⟩).field "name" = some (some (.scalar name)) := rfl
  have levelled : ∃ word, (encodeDefine ⟨name,level,formatter,as⟩).stringField "level" = some word ∧
      LogLevel.FromString word = level := by
    by_cases unknown : level = .UNKNOWN
    · refine ⟨[],?_,unknown.symm⟩
      rw [unknown]
      cases formatter <;> cases as <;> rfl
    · refine ⟨level.ToString,?_,LogLevel.FromString_ToString level⟩
      simp only [encodeDefine,Ne,unknown,not_false_eq_true,if_true]
      rfl
  have formatted : (encodeDefine ⟨name,level,formatter,as⟩).stringField "formatter" = some [] := by
    cases level <;> cases formatter <;> cases as <;> rfl
  obtain ⟨word,read,meaning⟩ := levelled
  simp only [decodeDefine,named,read,formatted,appenders,Option.bind_some,Option.map_some,asString,meaning]
  rfl

theorem decode_encode (v : LogDefines) (typed : ∀ i ∈ v.entries, ∀ a ∈ i.appenders, a.Typed) :
    ∃ v', decode (encode v) = some v' ∧ v'.entries = v.entries.map LogDefine.reread := by
  have loop := mapM_reread v.entries fun i member => decodeDefine_encode i (typed i member)
  obtain ⟨entries,read,kept⟩ := Option.map_eq_some_iff.mp loop
  have sorted :
      (v.entries.map LogDefine.reread).Pairwise fun i j => LogDefine.byName i.name < LogDefine.byName j.name :=
    List.pairwise_map.mpr v.sorted
  refine ⟨RankedSet.collect (v.entries.map LogDefine.reread),?_,RankedSet.collect_sorted sorted⟩
  rw [decode,encode,items_ofItems,read,Option.map_some,kept]

theorem LogAppenderDefine.reread_same {a : LogAppenderDefine} (typed : a.Typed) :
    a.reread = a ↔ a.level = .UNKNOWN ∧ (a.type = 2 → a.formatter = [] ∧ a.file = []) := by
  obtain ⟨type,level,formatter,file⟩ := a
  rcases typed with one | two
  · dsimp only at one
    subst one
    simp [reread,eq_comm]
  · dsimp only at two
    subst two
    simp [reread,eq_comm]

theorem LogDefine.reread_same {i : LogDefine} (typed : ∀ a ∈ i.appenders, a.Typed) :
    i.reread = i ↔ i.formatter = [] ∧
      ∀ a ∈ i.appenders, a.level = .UNKNOWN ∧ (a.type = 2 → a.formatter = [] ∧ a.file = []) := by
  have each : i.appenders.map LogAppenderDefine.reread = i.appenders ↔ ∀ a ∈ i.appenders, a.reread = a := by
    have pointwise := List.map_inj_left (l := i.appenders) (f := LogAppenderDefine.reread) (g := id)
    rwa [List.map_id] at pointwise
  have fields : i.reread = i ↔ i.formatter = [] ∧ i.appenders.map LogAppenderDefine.reread = i.appenders := by
    obtain ⟨name,level,formatter,appenders⟩ := i
    simp [reread,eq_comm]
  rw [fields,each]
  apply and_congr_right'
  apply forall₂_congr
  intro a member
  exact LogAppenderDefine.reread_same (typed a member)

theorem lexical_cast_exactly (Load : List UInt8 → Option YamlNode) (emit : YamlNode → List UInt8) (v : LogDefines)
    (typed : ∀ i ∈ v.entries, ∀ a ∈ i.appenders, a.Typed) (inverse : Load (emit (encode v)) = some (encode v)) :
    LogDefines.ofString Load (v.toString emit) = some v ↔
      ∀ i ∈ v.entries, i.formatter = [] ∧
        ∀ a ∈ i.appenders, a.level = .UNKNOWN ∧ (a.type = 2 → a.formatter = [] ∧ a.file = []) := by
  obtain ⟨v',read,entries⟩ := decode_encode v typed
  have pointwise := List.map_inj_left (l := v.entries) (f := LogDefine.reread) (g := id)
  rw [List.map_id] at pointwise
  have same : v' = v ↔ ∀ i ∈ v.entries, i.reread = i := by
    constructor
    · intro equal
      apply pointwise.mp
      rw [←entries,equal]
    · intro each
      apply RankedSet.ext
      rw [entries]
      exact pointwise.mpr each
  rw [LogDefines.ofString,LogDefines.toString,inverse,Option.bind_some,read,Option.some_inj,same]
  apply forall₂_congr
  intro i member
  exact LogDefine.reread_same (typed i member)

-- A logger with a file and the console as yaml-cpp writes it.
def twoAppenders : LogDefines :=
  ⟨[⟨text "a",.INFO,[],[⟨1,.UNKNOWN,text "%m%n",text "a.txt"⟩,⟨2,.UNKNOWN,[],[]⟩]⟩],List.pairwise_singleton _ _⟩

def twoAppendersText : List UInt8 :=
  text "- name: a\n  level: INFO\n  formatter: \"\"\n  appenders:\n    - type: FileLogAppender\n" ++
    text "      file: a.txt\n      formatter: \"%m%n\"\n    - type: StdoutLogAppender"

theorem twoAppenders_typed : ∀ i ∈ twoAppenders.entries, ∀ a ∈ i.appenders, a.Typed := by
  intro i member a inside
  cases List.mem_singleton.mp member
  rcases List.mem_cons.mp inside with rfl | last
  · exact .inl rfl
  · rw [List.mem_singleton.mp last]
    exact .inr rfl

theorem lexical_cast_plain :
    LogDefines.ofString (fun _ => some (encode twoAppenders)) (twoAppenders.toString fun _ => twoAppendersText) =
      some twoAppenders :=
  (lexical_cast_exactly (fun _ => some (encode twoAppenders)) (fun _ => twoAppendersText) twoAppenders
    twoAppenders_typed rfl).mpr (by decide)

def plainDefines : LogDefines := ⟨[⟨text "a",.INFO,[],[]⟩],List.pairwise_singleton _ _⟩

def formattedDefines : LogDefines := ⟨[⟨text "a",.INFO,text "%m%n",[]⟩],List.pairwise_singleton _ _⟩

theorem formatter_lost : ¬∀ (Load : List UInt8 → Option YamlNode) (emit : YamlNode → List UInt8) (v : LogDefines),
    (∀ i ∈ v.entries, ∀ a ∈ i.appenders, a.Typed) → Load (emit (encode v)) = some (encode v) →
      LogDefines.ofString Load (v.toString emit) = some v := by
  intro returns
  have typed : ∀ i ∈ formattedDefines.entries, ∀ a ∈ i.appenders, a.Typed := by
    intro i member a inside
    cases List.mem_singleton.mp member
    cases inside
  have back := returns (fun _ => some (encode formattedDefines)) (fun _ => text "- name: a\n  level: INFO")
    formattedDefines typed rfl
  have lost : decode (encode formattedDefines) = some plainDefines := rfl
  have same := congrArg RankedSet.entries (Option.some.inj (lost.symm.trans back))
  exact absurd same (by decide)

end Fishjoy
