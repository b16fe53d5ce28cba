import Fishjoy.Http
import Fishjoy.Foundation.Lines
import Mathlib.Data.Nat.Digits.Defs

namespace Fishjoy
open KeyedMap Lines

def crlf : List UInt8 := [13,10]

-- An unsigned integer as a stream writes it.
def decimal (n : Nat) : List UInt8 :=
  if n = 0 then text "0" else (Nat.digits 10 n).reverse.map fun d => UInt8.ofNat (48+d)

-- `1*DIGIT` as a number.
def decimalValue (value : List UInt8) : Option Nat :=
  if value ≠ [] ∧ value.all fun c => 48 ≤ c.toNat ∧ c.toNat ≤ 57 then
    some (Nat.ofDigits 10 (value.reverse.map fun c => c.toNat-48))
  else none

def s_method_string : List String :=
  ["DELETE","GET","HEAD","POST","PUT","CONNECT","OPTIONS","TRACE","COPY","LOCK","MKCOL","MOVE","PROPFIND",
    "PROPPATCH","SEARCH","UNLOCK","BIND","REBIND","UNBIND","ACL","REPORT","MKACTIVITY","CHECKOUT","MERGE",
    "M-SEARCH","NOTIFY","SUBSCRIBE","UNSUBSCRIBE","PATCH","PURGE","MKCALENDAR","LINK","UNLINK","SOURCE"]

def HTTP_STATUS_MAP : List (Nat × String) :=
  [(100,"Continue"),(101,"Switching Protocols"),(102,"Processing"),(200,"OK"),(201,"Created"),(202,"Accepted"),
    (203,"Non-Authoritative Information"),(204,"No Content"),(205,"Reset Content"),(206,"Partial Content"),
    (207,"Multi-Status"),(208,"Already Reported"),(226,"IM Used"),(300,"Multiple Choices"),
    (301,"Moved Permanently"),(302,"Found"),(303,"See Other"),(304,"Not Modified"),(305,"Use Proxy"),
    (307,"Temporary Redirect"),(308,"Permanent Redirect"),(400,"Bad Request"),(401,"Unauthorized"),
    (402,"Payment Required"),(403,"Forbidden"),(404,"Not Found"),(405,"Method Not Allowed"),(406,"Not Acceptable"),
    (407,"Proxy Authentication Required"),(408,"Request Timeout"),(409,"Conflict"),(410,"Gone"),
    (411,"Length Required"),(412,"Precondition Failed"),(413,"Payload Too Large"),(414,"URI Too Long"),
    (415,"Unsupported Media Type"),(416,"Range Not Satisfiable"),(417,"Expectation Failed"),
    (421,"Misdirected Request"),(422,"Unprocessable Entity"),(423,"Locked"),(424,"Failed Dependency"),
    (426,"Upgrade Required"),(428,"Precondition Required"),(429,"Too Many Requests"),
    (431,"Request Header Fields Too Large"),(451,"Unavailable For Legal Reasons"),(500,"Internal Server Error"),
    (501,"Not Implemented"),(502,"Bad Gateway"),(503,"Service Unavailable"),(504,"Gateway Timeout"),
    (505,"HTTP Version Not Supported"),(506,"Variant Also Negotiates"),(507,"Insufficient Storage"),
    (508,"Loop Detected"),(510,"Not Extended"),(511,"Network Authentication Required")]

def HttpMethodToString (m : Nat) : List UInt8 := text (s_method_string[m]?.getD "<unknown>")

def HttpStatusToString (s : Nat) : List UInt8 := text ((HTTP_STATUS_MAP.lookup s).getD "<unknown>")

-- What `dump` reads besides.
structure HttpRequestOut extends HttpRequest where
  websocket : Bool

structure HttpResponseOut extends HttpResponse where
  websocket : Bool
  reason : List UInt8
  cookies : List (List UInt8)

def connectionValue (close : Bool) : List UInt8 := if close then text "close" else text "keep-alive"

def isNamed (key : List UInt8) (name : String) : Bool := strcasecmp (c_str key) (text name) = 0

-- `HTTP/` and the two halves of the version byte.
def dumpVersion (version : UInt8) : List UInt8 :=
  text "HTTP/" ++ decimal (version >>> 4).toNat ++ text "." ++ decimal (version &&& 0x0F).toNat

def dumpBody (body : List UInt8) : List UInt8 :=
  if body = [] then crlf else text "content-length: " ++ decimal body.length ++ crlf ++ crlf ++ body

namespace HttpRequestOut

def dump (r : HttpRequestOut) : List UInt8 :=
  HttpMethodToString r.method ++ text " " ++ r.path ++ (if r.query = [] then [] else text "?") ++ r.query ++
    (if r.fragment = [] then [] else text "#") ++ r.fragment ++ text " " ++ dumpVersion r.version ++ crlf ++
    (if r.websocket then [] else text "connection: " ++ connectionValue r.close ++ crlf) ++
    (r.headers.entries.flatMap fun i =>
      if !r.websocket && isNamed i.1 "connection" then []
      else if r.body ≠ [] && isNamed i.1 "content-length" then []
      else i.1 ++ text ": " ++ i.2 ++ crlf) ++
    dumpBody r.body

end HttpRequestOut

namespace HttpResponseOut

def initial (version : UInt8) (close : Bool) : HttpResponseOut := ⟨.initial version close,false,[],[]⟩

def setHeader (r : HttpResponseOut) (key val : List UInt8) : HttpResponseOut :=
  {r with headers := r.headers.assign key val}

def setReason (r : HttpResponseOut) (v : List UInt8) : HttpResponseOut := {r with reason := v}

def setBody (r : HttpResponseOut) (v : List UInt8) : HttpResponseOut := {r with body := v}

def setRedirect (r : HttpResponseOut) (uri : List UInt8) : HttpResponseOut :=
  {r with status := 302}.setHeader (text "Location") uri

-- `Time2Str` calls `strftime` in the local time zone.
def setCookie (Time2Str : Int → List UInt8) (r : HttpResponseOut) (key val : List UInt8) (expired : Int)
    (path domain : List UInt8) (secure : Bool) : HttpResponseOut :=
  {r with cookies := r.cookies ++ [
    key ++ text "=" ++ val ++
      (if 0 < expired then text ";expires=" ++ Time2Str expired ++ text " GMT" else []) ++
      (if domain = [] then [] else text ";domain=" ++ domain) ++
      (if path = [] then [] else text ";path=" ++ path) ++
      (if secure then text ";secure" else [])]}

def statusLine (r : HttpResponseOut) : List UInt8 :=
  dumpVersion r.version ++ text " " ++ decimal r.status ++ text " " ++
    (if r.reason = [] then HttpStatusToString r.status else r.reason)

def dump (r : HttpResponseOut) : List UInt8 :=
  r.statusLine ++ crlf ++
    (r.headers.entries.flatMap fun i =>
      if !r.websocket && isNamed i.1 "connection" then [] else i.1 ++ text ": " ++ i.2 ++ crlf) ++
    (r.cookies.flatMap fun i => text "Set-Cookie: " ++ i ++ crlf) ++
    (if r.websocket then [] else text "connection: " ++ connectionValue r.close ++ crlf) ++
    dumpBody r.body

end HttpResponseOut

-- The fields that `dump` writes, name and value, in their order.
def HttpRequestOut.fields (r : HttpRequestOut) : List (List UInt8 × List UInt8) :=
  (if r.websocket then [] else [(text "connection",connectionValue r.close)]) ++
    (r.headers.entries.filter fun i =>
      !(!r.websocket && isNamed i.1 "connection" || r.body ≠ [] && isNamed i.1 "content-length")) ++
    (if r.body = [] then [] else [(text "content-length",decimal r.body.length)])

def HttpResponseOut.emitted (r : HttpResponseOut) : List (List UInt8 × List UInt8) :=
  r.headers.entries.filter fun i => !(!r.websocket && isNamed i.1 "connection")

def HttpResponseOut.fields (r : HttpResponseOut) : List (List UInt8 × List UInt8) :=
  r.emitted ++ r.cookies.map (text "Set-Cookie",·) ++
    (if r.websocket then [] else [(text "connection",connectionValue r.close)]) ++
    (if r.body = [] then [] else [(text "content-length",decimal r.body.length)])

def line (field : List UInt8 × List UInt8) : List UInt8 := field.1 ++ text ": " ++ field.2

def HttpRequestOut.requestLine (r : HttpRequestOut) : List UInt8 :=
  HttpMethodToString r.method ++ text " " ++ r.path ++ (if r.query = [] then [] else text "?") ++ r.query ++
    (if r.fragment = [] then [] else text "#") ++ r.fragment ++ text " " ++ dumpVersion r.version

def message (start : List UInt8) (fields : List (List UInt8 × List UInt8)) (body : List UInt8) : List UInt8 :=
  start ++ crlf ++ (fields.flatMap fun f => line f ++ crlf) ++ crlf ++ body

theorem flatMap_skip {α β : Type} (l : List α) (skip : α → Bool) (f : α → List β) :
    (l.flatMap fun a => if skip a then [] else f a) = (l.filter fun a => !skip a).flatMap f := by
  induction l with
  | nil => rfl
  | cons a rest ih =>
      rw [List.flatMap_cons,ih]
      cases known : skip a with
      | true => rw [List.filter_cons_of_neg (by simp [known])]; rfl
      | false => rw [List.filter_cons_of_pos (by simp [known]),List.flatMap_cons]; rfl

theorem dumpBody_fields (body : List UInt8) :
    dumpBody body = ((if body = [] then [] else [(text "content-length",decimal body.length)] :
      List (List UInt8 × List UInt8)).flatMap fun f => line f ++ crlf) ++ crlf ++ body := by
  unfold dumpBody
  by_cases empty : body = []
  · rw [if_pos empty,if_pos empty,empty]
    rfl
  · rw [if_neg empty,if_neg empty,List.flatMap_singleton,line]
    have name : text "content-length: " = text "content-length" ++ text ": " := by decide
    rw [name]

theorem connection_line (websocket close : Bool) :
    (if websocket then [] else text "connection: " ++ connectionValue close ++ crlf) =
      ((if websocket then [] else [(text "connection",connectionValue close)] :
        List (List UInt8 × List UInt8)).flatMap fun f => line f ++ crlf) := by
  cases websocket with
  | true => rfl
  | false =>
      have name : text "connection: " = text "connection" ++ text ": " := by decide
      rw [if_neg Bool.false_ne_true,if_neg Bool.false_ne_true,List.flatMap_singleton,line,name]

theorem HttpRequestOut.dump_fields (r : HttpRequestOut) : r.dump = message r.requestLine r.fields r.body := by
  have headers : (r.headers.entries.flatMap fun i =>
      if (!r.websocket && isNamed i.1 "connection") = true then []
      else if (decide (r.body ≠ []) && isNamed i.1 "content-length") = true then []
      else i.1 ++ text ": " ++ i.2 ++ crlf) =
      (r.headers.entries.filter fun i =>
        !(!r.websocket && isNamed i.1 "connection" || decide (r.body ≠ []) && isNamed i.1 "content-length")).flatMap
        fun f => line f ++ crlf := by
    rw [←flatMap_skip]
    congr 1
    funext i
    cases !r.websocket && isNamed i.1 "connection" <;> rfl
  rw [dump,headers,connection_line,dumpBody_fields,message,requestLine,fields,List.flatMap_append,List.flatMap_append]
  simp only [List.append_assoc]

theorem HttpResponseOut.dump_fields (r : HttpResponseOut) : r.dump = message r.statusLine r.fields r.body := by
  have headers : (r.headers.entries.flatMap fun i =>
      if (!r.websocket && isNamed i.1 "connection") = true then [] else i.1 ++ text ": " ++ i.2 ++ crlf) =
      r.emitted.flatMap fun f => line f ++ crlf := flatMap_skip _ _ _
  have cookies : (r.cookies.flatMap fun i => text "Set-Cookie: " ++ i ++ crlf) =
      (r.cookies.map (text "Set-Cookie",·)).flatMap fun f => line f ++ crlf := by
    have name : text "Set-Cookie: " = text "Set-Cookie" ++ text ": " := by decide
    rw [List.flatMap_map,name]
    rfl
  rw [dump,headers,cookies,connection_line,dumpBody_fields,message,fields,List.flatMap_append,List.flatMap_append,
    List.flatMap_append]
  simp only [List.append_assoc]

theorem decimalValue_decimal (n : Nat) : decimalValue (decimal n) = some n := by
  unfold decimal
  by_cases zero : n = 0
  · rw [if_pos zero,zero]
    decide
  · have small : ∀ d ∈ Nat.digits 10 n, (UInt8.ofNat (48+d)).toNat = 48+d ∧ d < 10 := by
      intro d member
      have bound := Nat.digits_lt_base (by decide : 1 < 10) member
      rw [UInt8.toNat_ofNat']
      omega
    have filled : Nat.digits 10 n ≠ [] := Nat.digits_ne_nil_iff_ne_zero.mpr zero
    have digits : ∀ c ∈ (Nat.digits 10 n).reverse.map fun d => UInt8.ofNat (48+d), 48 ≤ c.toNat ∧ c.toNat ≤ 57 := by
      intro c member
      obtain ⟨d,inside,rfl⟩ := List.mem_map.mp member
      obtain ⟨value,bound⟩ := small d (List.mem_reverse.mp inside)
      omega
    have back : (((Nat.digits 10 n).reverse.map fun d => UInt8.ofNat (48+d)).reverse.map fun c => c.toNat-48) =
        Nat.digits 10 n := by
      rw [←List.map_reverse,List.reverse_reverse,List.map_map]
      have same : ∀ d ∈ Nat.digits 10 n, ((fun c : UInt8 => c.toNat-48) ∘ fun d => UInt8.ofNat (48+d)) d = id d := by
        intro d member
        rw [Function.comp_apply,(small d member).1,Nat.add_sub_cancel_left]
        rfl
      rw [List.map_congr_left same,List.map_id]
    have every := List.all_eq_true.mpr fun c member => decide_eq_true (digits c member)
    rw [if_neg zero,decimalValue,if_pos ⟨by simpa using filled,every⟩,back,Nat.ofDigits_digits]

theorem decimalValue_digits {value : List UInt8} {n : Nat} (known : decimalValue value = some n) :
    ∀ c ∈ value, 48 ≤ c.toNat ∧ c.toNat ≤ 57 := by
  intro c member
  unfold decimalValue at known
  split at known
  · next digits => exact of_decide_eq_true (List.all_eq_true.mp digits.2 c member)
  · cases known

theorem decimal_digits (n : Nat) : ∀ c ∈ decimal n, 48 ≤ c.toNat ∧ c.toNat ≤ 57 :=
  decimalValue_digits (decimalValue_decimal n)

theorem strcasecmp_zero {as bs : List UInt8} (left : 0 ∉ as) (right : 0 ∉ bs) :
    strcasecmp as bs = 0 ↔ as.map tolower = bs.map tolower := by
  induction as generalizing bs with
  | nil =>
      cases bs with
      | nil => exact ⟨fun _ => rfl,fun _ => rfl⟩
      | cons b bs =>
          have positive := tolower_zero b fun zero => right (zero ▸ .head _)
          simp only [strcasecmp,List.map_nil,List.map_cons,List.nil_eq,reduceCtorEq,iff_false]
          omega
  | cons a as ih =>
      cases bs with
      | nil =>
          have positive := tolower_zero a fun zero => left (zero ▸ .head _)
          simp only [strcasecmp,List.map_nil,List.map_cons,reduceCtorEq,iff_false]
          omega
      | cons b bs =>
          rw [strcasecmp,List.map_cons,List.map_cons,List.cons.injEq]
          by_cases same : tolower a = tolower b
          · rw [if_pos same,ih (fun inside => left (.tail _ inside)) fun inside => right (.tail _ inside)]
            exact ⟨fun rest => ⟨same,rest⟩,fun both => both.2⟩
          · have apart : (tolower a).toNat ≠ (tolower b).toNat := fun equal => same (UInt8.toNat_inj.mp equal)
            rw [if_neg same]
            exact ⟨fun zero => by omega,fun both => absurd both.1 same⟩

-- The fields of a name, in any letter case.
def named (name : String) (fields : List (List UInt8 × List UInt8)) : List (List UInt8 × List UInt8) :=
  fields.filter fun f => f.1.map tolower = text name

-- How a receiver finds the body.
structure LengthAgrees (fields : List (List UInt8 × List UInt8)) (body : List UInt8) : Prop where
  single : (named "content-length" fields).length ≤ 1
  filled : body ≠ [] → ∃ f, named "content-length" fields = [f] ∧ decimalValue f.2 = some body.length
  blank : body = [] → ∀ f ∈ named "content-length" fields, decimalValue f.2 = some 0

def ConnectionAgrees (fields : List (List UInt8 × List UInt8)) (close : Bool) : Prop :=
  ∃ f, named "connection" fields = [f] ∧ f.2 = connectionValue close

section names
variable {key : List UInt8} {name : String}

theorem c_str_same (whole : 0 ∉ text name) (same : key.map tolower = text name) : c_str key = key := by
  apply List.takeWhile_eq_self_iff.mpr
  intro c member
  apply Classical.byContradiction
  intro zero
  have null : c = 0 := by simpa using zero
  apply whole
  rw [←same]
  exact List.mem_map.mpr ⟨c,member,by rw [null]; rfl⟩

-- What `dump` asks of a key that is spelled like `spelled`.
theorem isNamed_same {spelled : String} (whole : 0 ∉ text spelled) (same : key.map tolower = text spelled)
    (ended : 0 ∉ text name) :
    isNamed key name = decide (text spelled = (text name).map tolower) := by
  have free : 0 ∉ key := by
    rw [←c_str_same whole same]
    exact c_str_ended key
  rw [isNamed,c_str_same whole same]
  apply Bool.decide_congr
  rw [strcasecmp_zero free ended,same]

theorem named_append (first second : List (List UInt8 × List UInt8)) :
    named name (first ++ second) = named name first ++ named name second := List.filter_append _ _

theorem named_one (key value : List UInt8) :
    named name [(key,value)] = if key.map tolower = text name then [(key,value)] else [] := by
  by_cases same : key.map tolower = text name
  · rw [if_pos same]
    exact List.filter_cons_of_pos (decide_eq_true same)
  · rw [if_neg same]
    exact List.filter_cons_of_neg (by simpa using same)

theorem named_skipped (headers : List (List UInt8 × List UInt8)) (keep : List UInt8 × List UInt8 → Bool)
    (skips : ∀ i : List UInt8 × List UInt8, i.1.map tolower = text name → keep i = false) :
    named name (headers.filter keep) = [] := by
  rw [named,List.filter_filter]
  apply List.filter_eq_nil_iff.mpr
  intro i _ both
  obtain ⟨same,kept⟩ := Bool.and_eq_true_iff.mp both
  rw [skips i (of_decide_eq_true same)] at kept
  cases kept

theorem named_kept (headers : List (List UInt8 × List UInt8)) (keep : List UInt8 × List UInt8 → Bool)
    (keeps : ∀ i : List UInt8 × List UInt8, i.1.map tolower = text name → keep i = true) :
    named name (headers.filter keep) = named name headers := by
  rw [named,List.filter_filter]
  apply List.filter_congr
  intro i _
  by_cases same : i.1.map tolower = text name
  · rw [keeps i same,Bool.and_true]
  · rw [decide_eq_false same,Bool.false_and]

-- The map holds one key of every spelling.
theorem named_single (headers : MapType) (whole : 0 ∉ text name) : (named name headers.entries).length ≤ 1 := by
  have sorted : (named name headers.entries).Pairwise fun a b => CaseInsensitiveLess a.1 b.1 = true :=
    headers.sorted.filter _
  have fold : ∀ i ∈ named name headers.entries, caseFold i.1 = (text name).map UInt8.toNat := by
    intro i member
    have same : i.1.map tolower = text name := of_decide_eq_true (List.mem_filter.mp member).2
    rw [caseFold,c_str_same whole same,←same,List.map_map]
    rfl
  match found : named name headers.entries with
  | [] => exact Nat.zero_le _
  | [_] => exact Nat.le_refl _
  | first :: second :: rest =>
      rw [found] at sorted fold
      have less := (List.pairwise_cons.mp sorted).1 second (.head _)
      rw [CaseInsensitiveLess_iff,fold first (.head _),fold second (.tail _ (.head _))] at less
      exact absurd less (lt_irrefl _)

end names

theorem length_named (same : key.map tolower = text "content-length") :
    isNamed key "content-length" = true ∧ isNamed key "connection" = false := by
  rw [isNamed_same (by decide) same (by decide),isNamed_same (by decide) same (by decide)]
  decide

theorem connection_named (same : key.map tolower = text "connection") : isNamed key "connection" = true := by
  rw [isNamed_same (by decide) same (by decide)]
  decide

theorem connection_generated (websocket close : Bool) :
    named "content-length" (if websocket then [] else [(text "connection",connectionValue close)]) = [] ∧
    named "connection" (if websocket then [] else [(text "connection",connectionValue close)]) =
      if websocket then [] else [(text "connection",connectionValue close)] := by
  cases websocket with
  | true => exact ⟨rfl,rfl⟩
  | false =>
      rw [if_neg Bool.false_ne_true,named_one,named_one]
      exact ⟨if_neg (by decide),if_pos (by decide)⟩

theorem length_generated (body : List UInt8) :
    named "content-length" (if body = [] then [] else [(text "content-length",decimal body.length)]) =
      (if body = [] then [] else [(text "content-length",decimal body.length)]) ∧
    named "connection" (if body = [] then [] else [(text "content-length",decimal body.length)]) = [] := by
  by_cases empty : body = []
  · rw [if_pos empty]
    exact ⟨rfl,rfl⟩
  · rw [if_neg empty,named_one,named_one]
    exact ⟨if_pos (by decide),if_neg (by decide)⟩

theorem cookies_generated (cookies : List (List UInt8)) (apart : ¬(text "Set-Cookie").map tolower = text name) :
    named name (cookies.map (text "Set-Cookie",·)) = [] := by
  apply List.filter_eq_nil_iff.mpr
  intro i member
  obtain ⟨cookie,_,rfl⟩ := List.mem_map.mp member
  exact fun same => apart (of_decide_eq_true same)

namespace HttpRequestOut

theorem named_length (r : HttpRequestOut) : named "content-length" r.fields =
    if r.body = [] then named "content-length" r.headers.entries
    else [(text "content-length",decimal r.body.length)] := by
  rw [fields,named_append,named_append,(connection_generated _ _).1,(length_generated _).1,List.nil_append]
  by_cases empty : r.body = []
  · rw [if_pos empty,if_pos empty,List.append_nil]
    exact named_kept _ _ fun i same => by simp [length_named same,empty]
  · rw [if_neg empty,if_neg empty,named_skipped _ _ fun i same => by simp [length_named same,empty],List.nil_append]

theorem named_connection (r : HttpRequestOut) (plain : r.websocket = false) :
    named "connection" r.fields = [(text "connection",connectionValue r.close)] := by
  rw [fields,named_append,named_append,(connection_generated _ _).2,(length_generated _).2,
    named_skipped _ _ fun i same => by simp [connection_named same,plain],plain]
  rfl

end HttpRequestOut

namespace HttpResponseOut

theorem named_length (r : HttpResponseOut) : named "content-length" r.fields =
    named "content-length" r.headers.entries ++
      if r.body = [] then [] else [(text "content-length",decimal r.body.length)] := by
  rw [fields,named_append,named_append,named_append,(connection_generated _ _).1,(length_generated _).1,
    cookies_generated _ (by decide),List.append_nil,List.append_nil,emitted]
  rw [named_kept _ _ fun i same => by simp [length_named same]]

theorem named_connection (r : HttpResponseOut) (plain : r.websocket = false) :
    named "connection" r.fields = [(text "connection",connectionValue r.close)] := by
  rw [fields,named_append,named_append,named_append,(connection_generated _ _).2,(length_generated _).2,
    cookies_generated _ (by decide),emitted,named_skipped _ _ fun i same => by simp [connection_named same,plain],plain]
  rfl

end HttpResponseOut

section lengths
variable {fields : List (List UInt8 × List UInt8)} {body : List UInt8}

-- Without a body the length is the one a header gives.
theorem length_given {headers : MapType} (empty : body = [])
    (found : named "content-length" fields = named "content-length" headers.entries) :
    LengthAgrees fields body ↔ ∀ i ∈ named "content-length" headers.entries, decimalValue i.2 = some 0 := by
  constructor
  · rintro ⟨_,_,blank⟩
    rw [found] at blank
    exact blank empty
  · intro zero
    refine ⟨?_,fun some => absurd empty some,?_⟩
    · rw [found]
      exact named_single _ (by decide)
    · rw [found]
      exact fun _ => zero

-- With a body the length is the one `dump` writes, and there is no other.
theorem length_written (filled : body ≠ [])
    (found : named "content-length" fields = [(text "content-length",decimal body.length)]) :
    LengthAgrees fields body := by
  refine ⟨?_,fun _ => ⟨_,found,decimalValue_decimal _⟩,fun none => absurd none filled⟩
  rw [found]
  exact Nat.le_refl _

end lengths

theorem HttpRequestOut.length_agrees (r : HttpRequestOut) : LengthAgrees r.fields r.body ↔
    (r.body = [] → ∀ i ∈ named "content-length" r.headers.entries, decimalValue i.2 = some 0) := by
  have found := r.named_length
  by_cases empty : r.body = []
  · rw [if_pos empty] at found
    rw [length_given empty found]
    exact ⟨fun zero _ => zero,fun zero => zero empty⟩
  · rw [if_neg empty] at found
    exact iff_of_true (length_written empty found) fun none => absurd none empty

theorem HttpResponseOut.length_agrees (r : HttpResponseOut) : LengthAgrees r.fields r.body ↔
    ∀ i ∈ named "content-length" r.headers.entries, r.body = [] ∧ decimalValue i.2 = some 0 := by
  have found := r.named_length
  by_cases empty : r.body = []
  · rw [if_pos empty,List.append_nil] at found
    rw [length_given empty found]
    exact ⟨fun zero i member => ⟨empty,zero i member⟩,fun zero i member => (zero i member).2⟩
  · rw [if_neg empty] at found
    constructor
    · rintro ⟨single,_,_⟩ i member
      rw [found,List.length_append,List.length_singleton] at single
      have some := List.length_pos_of_mem member
      omega
    · intro none
      have nothing : named "content-length" r.headers.entries = [] := by
        apply List.eq_nil_iff_forall_not_mem.mpr
        intro i member
        exact empty (none i member).1
      rw [nothing,List.nil_append] at found
      exact length_written empty found

-- The fields are the lines of the dump between the start line and the body.
theorem dump_framed_exactly (req : HttpRequestOut) (rsp : HttpResponseOut) (plain : rsp.websocket = false) :
    (req.dump = message req.requestLine req.fields req.body ∧
      (LengthAgrees req.fields req.body ∧ (req.websocket = false → ConnectionAgrees req.fields req.close) ↔
        (req.body = [] → ∀ i ∈ named "content-length" req.headers.entries, decimalValue i.2 = some 0))) ∧
    (rsp.dump = message rsp.statusLine rsp.fields rsp.body ∧
      (LengthAgrees rsp.fields rsp.body ∧ ConnectionAgrees rsp.fields rsp.close ↔
        ∀ i ∈ named "content-length" rsp.headers.entries, rsp.body = [] ∧ decimalValue i.2 = some 0)) := by
  constructor
  · refine ⟨req.dump_fields,?_⟩
    rw [req.length_agrees]
    apply and_iff_left
    intro http
    exact ⟨_,req.named_connection http,rfl⟩
  · refine ⟨rsp.dump_fields,?_⟩
    rw [rsp.length_agrees]
    apply and_iff_left
    exact ⟨_,rsp.named_connection plain,rfl⟩

-- A response of two bytes whose length was set by hand as well.
def declared : HttpResponseOut :=
  ((HttpResponseOut.initial 0x11 true).setHeader (text "Content-Length") (text "1")).setBody (text "ab")

theorem dump_framed_declared : declared.dump = message declared.statusLine declared.fields declared.body ∧
    (LengthAgrees declared.fields declared.body ∧ ConnectionAgrees declared.fields declared.close ↔
      ∀ i ∈ named "content-length" declared.headers.entries, declared.body = [] ∧ decimalValue i.2 = some 0) :=
  (dump_framed_exactly ⟨.initial 0x11 true,false⟩ declared rfl).2

theorem declared_twice : ¬((∀ r : HttpRequestOut, LengthAgrees r.fields r.body ∧
      (r.websocket = false → ConnectionAgrees r.fields r.close)) ∧
    ∀ r : HttpResponseOut, r.websocket = false → LengthAgrees r.fields r.body ∧ ConnectionAgrees r.fields r.close) := by
  rintro ⟨_,responses⟩
  have single := (responses declared rfl).1.single
  exact absurd single (by decide)

end Fishjoy
