import Fishjoy.Foundation.KeyedMap
import Fishjoy.UrlCodec
import Mathlib.Data.List.Lex
import Mathlib.Data.List.TakeWhile

namespace Fishjoy
open KeyedMap

def tolower (c : UInt8) : UInt8 := if 65 ≤ c && c ≤ 90 then c+32 else c

-- A string up to its first NUL.
def c_str (s : List UInt8) : List UInt8 := s.takeWhile (· ≠ 0)

def strcasecmp : List UInt8 → List UInt8 → Int
  | [],[] => 0
  | [],b :: _ => -(tolower b).toNat
  | a :: _,[] => (tolower a).toNat
  | a :: as,b :: bs => if tolower a = tolower b then strcasecmp as bs else (tolower a).toNat-(tolower b).toNat

def CaseInsensitiveLess (lhs rhs : List UInt8) : Bool := strcasecmp (c_str lhs) (c_str rhs) < 0

-- What the comparator sees of a key.
def caseFold (s : List UInt8) : List Nat := (c_str s).map fun c => (tolower c).toNat

theorem tolower_zero (c : UInt8) : c ≠ 0 → 0 < (tolower c).toNat := by
  revert c
  exact StringUtil.every_byte (by decide +kernel)

theorem strcasecmp_neg {as bs : List UInt8} (ended : 0 ∉ bs) :
    strcasecmp as bs < 0 ↔ (as.map fun c => (tolower c).toNat) < bs.map fun c => (tolower c).toNat := by
  induction as generalizing bs with
  | nil =>
      cases bs with
      | nil => simp [strcasecmp]
      | cons b bs =>
          have positive := tolower_zero b fun zero => ended (zero ▸ .head _)
          simp only [strcasecmp,List.map_nil,List.map_cons,List.nil_lt_cons,iff_true]
          omega
  | cons a as ih =>
      cases bs with
      | nil =>
          simp only [strcasecmp,List.map_nil,List.not_lt_nil,iff_false]
          omega
      | cons b bs =>
          rw [strcasecmp,List.map_cons,List.map_cons,List.cons_lt_cons_iff]
          by_cases same : tolower a = tolower b
          · rw [if_pos same,ih fun later => ended (.tail _ later),same]
            simp
          · have apart : (tolower a).toNat ≠ (tolower b).toNat := fun equal => same (UInt8.toNat_inj.mp equal)
            rw [if_neg same]
            omega

theorem c_str_ended (s : List UInt8) : 0 ∉ c_str s := by
  intro member
  have kept := List.mem_takeWhile_imp member
  simp at kept

theorem CaseInsensitiveLess_iff (lhs rhs : List UInt8) :
    CaseInsensitiveLess lhs rhs = true ↔ caseFold lhs < caseFold rhs := by
  rw [CaseInsensitiveLess,decide_eq_true_iff,strcasecmp_neg (c_str_ended rhs)]
  rfl

instance CaseInsensitiveLess.order : WeakOrder CaseInsensitiveLess :=
  WeakOrder.of_rank caseFold CaseInsensitiveLess_iff

theorem equivalent_caseFold (x y : List UInt8) :
    equivalent CaseInsensitiveLess x y = true ↔ caseFold x = caseFold y :=
  equivalent_rank caseFold CaseInsensitiveLess_iff x y

abbrev MapType := KeyedMap CaseInsensitiveLess (List UInt8)

-- Methods and status codes are cast from the numbers the parser gives.
structure HttpRequest where
  method : Nat
  version : UInt8
  close : Bool
  parserParamFlag : UInt8
  path : List UInt8
  query : List UInt8
  fragment : List UInt8
  body : List UInt8
  headers : MapType
  params : MapType

structure HttpResponse where
  status : Nat
  version : UInt8
  close : Bool
  body : List UInt8
  headers : MapType

namespace HttpRequest

def initial (version : UInt8) (close : Bool) : HttpRequest :=
  ⟨1,version,close,0,text "/",[],[],[],.empty,.empty⟩

def setQuery (r : HttpRequest) (v : List UInt8) : HttpRequest := {r with query := v}

def getHeader (r : HttpRequest) (key def_ : List UInt8) : List UInt8 := (r.headers.find key).getD def_

def setHeader (r : HttpRequest) (key val : List UInt8) : HttpRequest := {r with headers := r.headers.assign key val}

def setVersion (r : HttpRequest) (v : UInt8) : HttpRequest := {r with version := v}

def setMethod (r : HttpRequest) (v : Nat) : HttpRequest := {r with method := v}

def setPath (r : HttpRequest) (v : List UInt8) : HttpRequest := {r with path := v}

def setFragment (r : HttpRequest) (v : List UInt8) : HttpRequest := {r with fragment := v}

def appendBody (r : HttpRequest) (v : List UInt8) : HttpRequest := {r with body := r.body ++ v}

def init (r : HttpRequest) : HttpRequest :=
  let conn := r.getHeader (text "connection") []
  if conn = [] then r
  else if strcasecmp (c_str conn) (text "keep-alive") = 0 then {r with close := false}
  else {r with close := true}

end HttpRequest

namespace HttpResponse

def initial (version : UInt8) (close : Bool) : HttpResponse := ⟨200,version,close,[],.empty⟩

def setHeader (r : HttpResponse) (key val : List UInt8) : HttpResponse := {r with headers := r.headers.assign key val}

def setVersion (r : HttpResponse) (v : UInt8) : HttpResponse := {r with version := v}

def setStatus (r : HttpResponse) (v : Nat) : HttpResponse := {r with status := v}

def appendBody (r : HttpResponse) (v : List UInt8) : HttpResponse := {r with body := r.body ++ v}

end HttpResponse
end Fishjoy
