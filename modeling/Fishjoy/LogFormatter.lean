import Fishjoy.UrlCodec

namespace Fishjoy

-- What a logger, a level and an event have to show; `time` is `strftime` of the
-- event's time.
structure LogEvent where
  content : List UInt8
  level : List UInt8
  elapse : List UInt8
  name : List UInt8
  threadId : List UInt8
  fiberId : List UInt8
  file : List UInt8
  line : List UInt8
  threadName : List UInt8
  time : List UInt8 → List UInt8

namespace LogFormatter

-- The classes of items, without `StringFormatItem`.
inductive Field where
  | message
  | level
  | elapse
  | name
  | threadId
  | newLine
  | dateTime
  | filename
  | line
  | tab
  | fiberId
  deriving DecidableEq

-- `format` of an item of the class, constructed with `fmt`.
def Field.format (event : LogEvent) (fmt : List UInt8) : Field → List UInt8
  | .message => event.content
  | .level => event.level
  | .elapse => event.elapse
  | .name => event.name
  | .threadId => event.threadId
  | .newLine => [10]
  | .dateTime => event.time (if fmt = [] then text "%Y-%m-%d %H:%M:%S" else fmt)
  | .filename => event.file
  | .line => event.line
  | .tab => [9]
  | .fiberId => event.fiberId

def s_format_items : List (List UInt8 × Field) :=
  [(text "m",.message),(text "p",.level),(text "r",.elapse),(text "c",.name),(text "t",.threadId),(text "n",.newLine),
    (text "d",.dateTime),(text "f",.filename),(text "l",.line),(text "T",.tab),(text "F",.fiberId)]

inductive FormatItem where
  | string (m_string : List UInt8)
  | field (kind : Field) (fmt : List UInt8)
  deriving DecidableEq

def FormatItem.format (event : LogEvent) : FormatItem → List UInt8
  | .string m_string => m_string
  | .field kind fmt => kind.format event fmt

def isalpha (c : UInt8) : Bool := (65 ≤ c && c ≤ 90) || (97 ≤ c && c ≤ 122)

-- The inner loop, from the position behind `%`; `n` counts from there. It leaves
-- `fmt_status` 0 with `str` and `fmt`, or 1.
inductive Scan where
  | closed (str fmt : List UInt8) (n : Nat)
  | unclosed
  deriving DecidableEq

def scanFmt (str : List UInt8) : List UInt8 → Nat → List UInt8 → Scan
  | _,_,[] => .unclosed
  | fmt,n,c :: rest => if c = 125 then .closed str fmt (n+1) else scanFmt str (fmt ++ [c]) (n+1) rest

def scan : List UInt8 → Nat → List UInt8 → Scan
  | str,n,[] => .closed str [] n
  | str,n,c :: rest =>
    if !isalpha c && c ≠ 123 && c ≠ 125 then .closed str [] n
    else if c = 123 then scanFmt str [] (n+1) rest
    else scan (str ++ [c]) (n+1) rest

-- The elements of `vec`: a text (0) or a name with its format (1).
inductive Part where
  | literal (str : List UInt8)
  | named (str fmt : List UInt8)
  deriving DecidableEq

structure Parsing where
  nstr : List UInt8
  vec : List Part
  error : Bool

def Parsing.flush (s : Parsing) : Parsing :=
  if s.nstr ≠ [] then {s with nstr := [],vec := s.vec ++ [.literal s.nstr]} else s

-- The outer loop. Where it sets `i = n - 1` the next bytes are skipped.
def initLoop : Nat → List UInt8 → Parsing → Parsing
  | _,[],s => s
  | skip+1,_ :: rest,s => initLoop skip rest s
  | 0,c :: rest,s =>
    if c ≠ 37 then initLoop 0 rest {s with nstr := s.nstr ++ [c]}
    else if rest.head? = some 37 then initLoop 0 rest {s with nstr := s.nstr ++ [37]}
    else
      match scan [] 0 rest with
      | .closed str fmt n => initLoop n rest {s.flush with vec := s.flush.vec ++ [.named str fmt]}
      | .unclosed => initLoop 0 rest {s with vec := s.vec ++ [.literal (text "<<pattern_error>>")],error := true}

-- An item for each element of `vec`, and whether its name is unknown.
def Part.item : Part → FormatItem × Bool
  | .literal str => (.string str,false)
  | .named str fmt =>
    match s_format_items.lookup str with
    | none => (.string (text "<<error_format %" ++ str ++ text ">>"),true)
    | some kind => (.field kind fmt,false)

end LogFormatter

structure LogFormatter where
  pattern : List UInt8
  items : List LogFormatter.FormatItem
  error : Bool

namespace LogFormatter

def init (pattern : List UInt8) : LogFormatter :=
  let s := (initLoop 0 pattern ⟨[],[],false⟩).flush
  ⟨pattern,s.vec.map fun i => i.item.1,s.error || s.vec.any fun i => i.item.2⟩

def isError (f : LogFormatter) : Bool := f.error

def format (f : LogFormatter) (event : LogEvent) : List UInt8 := f.items.flatMap (FormatItem.format event)

-- What the scanner takes a pattern for, one by one.
inductive Symbol where
  | char (c : UInt8)
  | named (str fmt : List UInt8)
  | unclosed
  deriving DecidableEq

def Symbol.wrong : Symbol → Bool
  | .char _ => false
  | .named str _ => (s_format_items.lookup str).isNone
  | .unclosed => true

def Symbol.print (event : LogEvent) : Symbol → List UInt8
  | .char c => [c]
  | .named str fmt => ((s_format_items.lookup str).map fun kind => kind.format event fmt).getD []
  | .unclosed => []

namespace Parsing

def wrong (s : Parsing) : Bool := s.error || s.vec.any fun i => i.item.2

def print (event : LogEvent) (s : Parsing) : List UInt8 := s.vec.flatMap (fun i => i.item.1.format event) ++ s.nstr

end Parsing

end LogFormatter
end Fishjoy
