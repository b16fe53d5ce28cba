import Fishjoy.LogFormatter

namespace Fishjoy.LogFormatter

-- The letters of the documented pattern and what each one stands for.
inductive Letter where
  | m
  | p
  | r
  | c
  | t
  | n
  | d
  | f
  | l
  | T
  | F
  | N
  deriving DecidableEq

def Letter.byte : Letter → UInt8
  | .m => 109
  | .p => 112
  | .r => 114
  | .c => 99
  | .t => 116
  | .n => 110
  | .d => 100
  | .f => 102
  | .l => 108
  | .T => 84
  | .F => 70
  | .N => 78

def Letter.print (event : LogEvent) (arg : List UInt8) : Letter → List UInt8
  | .m => event.content
  | .p => event.level
  | .r => event.elapse
  | .c => event.name
  | .t => event.threadId
  | .n => text "\n"
  | .d => event.time (if arg = [] then text "%Y-%m-%d %H:%M:%S" else arg)
  | .f => event.file
  | .l => event.line
  | .T => text "\t"
  | .F => event.fiberId
  | .N => event.threadName

inductive Token where
  | literal (str : List UInt8)
  | escape
  | bare (x : Letter)
  | braced (x : Letter) (arg : List UInt8)

def Token.pattern : Token → List UInt8
  | .literal str => str
  | .escape => text "%%"
  | .bare x => [37,x.byte]
  | .braced x arg => 37 :: x.byte :: 123 :: arg ++ [125]

def Token.print (event : LogEvent) : Token → List UInt8
  | .literal str => str
  | .escape => text "%"
  | .bare x => x.print event []
  | .braced x arg => x.print event arg

def patternOf (tokens : List Token) : List UInt8 := tokens.flatMap Token.pattern

-- A bare specifier ends in front of this text.
def Ends (rest : List UInt8) : Prop := ∀ c ∈ rest.head?, isalpha c = false ∧ c ≠ 123 ∧ c ≠ 125

def Valid : List Token → Prop
  | [] => True
  | .literal str :: rest => 37 ∉ str ∧ Valid rest
  | .escape :: rest => Valid rest
  | .bare _ :: rest => Ends (patternOf rest) ∧ Valid rest
  | .braced _ arg :: rest => 125 ∉ arg ∧ Valid rest

instance Ends.decide : (rest : List UInt8) → Decidable (Ends rest)
  | [] => isTrue fun _ first => by cases first
  | c :: _ => decidable_of_iff (isalpha c = false ∧ c ≠ 123 ∧ c ≠ 125)
      ⟨fun holds _ first => by cases first; exact holds,fun ends => ends c rfl⟩

instance Valid.decide : (tokens : List Token) → Decidable (Valid tokens)
  | [] => isTrue trivial
  | .literal str :: rest =>
    have := Valid.decide rest
    inferInstanceAs (Decidable (37 ∉ str ∧ Valid rest))
  | .escape :: rest => Valid.decide rest
  | .bare _ :: rest =>
    have := Valid.decide rest
    inferInstanceAs (Decidable (Ends (patternOf rest) ∧ Valid rest))
  | .braced _ arg :: rest =>
    have := Valid.decide rest
    inferInstanceAs (Decidable (125 ∉ arg ∧ Valid rest))

-- A specifier with another name, and a brace that is not closed, with any text
-- behind them.
inductive Malformed : List UInt8 → Prop where
  | unknown : name.all isalpha = true → (∀ x : Letter, name ≠ [x.byte]) → Ends rest →
      (name = [] → rest.head? ≠ some 37) → Malformed (37 :: name ++ rest)
  | unknownBraced : name.all isalpha = true → (∀ x : Letter, name ≠ [x.byte]) → 125 ∉ arg →
      Malformed (37 :: name ++ 123 :: arg ++ 125 :: rest)
  | unclosed : name.all isalpha = true → 125 ∉ rest → Malformed (37 :: name ++ 123 :: rest)

-- Neither an escape nor a specifier of the thread's name.
def Token.Plain : Token → Prop
  | .literal _ => True
  | .escape => False
  | .bare x | .braced x _ => x ≠ .N

instance : (token : Token) → Decidable token.Plain
  | .literal _ => isTrue trivial
  | .escape => isFalse id
  | .bare x | .braced x _ => inferInstanceAs (Decidable (x ≠ .N))

variable {name str arg rest bad : List UInt8} {tokens : List Token} {x : Letter} {c : UInt8}

theorem Ends.append (first : Ends str) (second : Ends rest) : Ends (str ++ rest) := by
  cases str with
  | nil => exact second
  | cons c str => exact first

theorem Valid.tail {token : Token} (valid : Valid (token :: tokens)) : Valid tokens := by
  cases token with
  | escape => exact valid
  | _ => exact valid.2

theorem Malformed.ends (malformed : Malformed bad) : Ends bad := by
  have percent : isalpha 37 = false ∧ (37 : UInt8) ≠ 123 ∧ (37 : UInt8) ≠ 125 := by decide
  intro c first
  cases malformed <;> cases first <;> exact percent

end Fishjoy.LogFormatter
