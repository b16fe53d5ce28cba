import Fishjoy.HttpDump

namespace Fishjoy

-- Each field that is set is the text its offset and length point to.
structure http_parser_url where
  schema : Option (List UInt8)
  userinfo : Option (List UInt8)
  host : Option (List UInt8)
  port : Option (List UInt8)
  path : Option (List UInt8)
  query : Option (List UInt8)
  fragment : Option (List UInt8)
  deriving DecidableEq

structure Uri where
  scheme : List UInt8
  userinfo : List UInt8
  host : List UInt8
  path : List UInt8
  query : List UInt8
  fragment : List UInt8
  port : Nat
  deriving DecidableEq

namespace Uri

-- `std::stoi` of the port the parser has let through.
def stoi (port : List UInt8) : Option Nat := decimalValue port

def Create (http_parser_parse_url : List UInt8 → Option http_parser_url) (urlstr : List UInt8) : Option Uri :=
  (http_parser_parse_url urlstr).bind fun parser =>
    let scheme := parser.schema.getD []
    let port :=
      match parser.port with
      | some port => stoi port
      | none =>
        if scheme = text "http" ∨ scheme = text "ws" then some 80
        else if scheme = text "https" then some 443
        else some 0
    port.map fun port =>
      ⟨scheme,parser.userinfo.getD [],parser.host.getD [],parser.path.getD [],parser.query.getD [],
        parser.fragment.getD [],port⟩

def getPath (u : Uri) : List UInt8 := if u.path = [] then text "/" else u.path

def isDefaultPort (u : Uri) : Bool :=
  if u.scheme = text "http" ∨ u.scheme = text "ws" then u.port = 80
  else if u.scheme = text "https" then u.port = 443
  else false

def toString (u : Uri) : List UInt8 :=
  u.scheme ++ text "://" ++ u.userinfo ++ (if u.userinfo = [] then [] else text "@") ++ u.host ++
    (if u.isDefaultPort then [] else text ":" ++ decimal u.port) ++ u.getPath ++
    (if u.query = [] then [] else text "?") ++ u.query ++ (if u.fragment = [] then [] else text "#") ++ u.fragment

end Uri

-- scheme://[userinfo@]host[:port][path][?query][#fragment]
def spell (f : http_parser_url) : List UInt8 :=
  f.schema.getD [] ++ text "://" ++ (f.userinfo.elim [] fun x => x ++ text "@") ++ f.host.getD [] ++
    (f.port.elim [] fun x => text ":" ++ x) ++ f.path.getD [] ++ (f.query.elim [] fun x => text "?" ++ x) ++
    (f.fragment.elim [] fun x => text "#" ++ x)

-- What stands between the slashes and the path.
def authority (s : List UInt8) : List UInt8 :=
  ((s.dropWhile fun c => c ≠ 58).drop 3).takeWhile fun c => c ∉ text "/?#"

-- What the parser takes for each part of a URL. A host is a plain one or, in
-- brackets, a literal.
structure UrlParts where
  schema : List UInt8 → Prop
  userinfo : List UInt8 → Prop
  host : List UInt8 → Prop
  literal : List UInt8 → Prop
  path : List UInt8 → Prop
  query : List UInt8 → Prop
  fragment : List UInt8 → Prop
  schema_plain : schema x → 58 ∉ x
  userinfo_plain : userinfo x → ∀ c ∈ x, c ∉ text "/?#["
  literal_plain : literal x → x ≠ [] ∧ ∀ c ∈ x, c ∉ text "/?#["
  path_rooted : path x → x.head? = some 47
  root : path (text "/")

structure Absolute (parts : UrlParts) (f : http_parser_url) : Prop where
  schema : ∃ x, f.schema = some x ∧ parts.schema x
  userinfo : ∀ x ∈ f.userinfo, parts.userinfo x
  host : ∃ x, f.host = some x ∧ (parts.host x ∨ parts.literal x)
  port : ∀ x ∈ f.port, ∃ n, decimalValue x = some n ∧ n < 2^16
  path : ∀ x ∈ f.path, parts.path x
  query : ∀ x ∈ f.query, parts.query x
  fragment : ∀ x ∈ f.fragment, parts.fragment x

-- The URLs of an absolute form with a plain host are read as they are spelled;
-- what is read is well formed, starts with a scheme or a path, and had its
-- host in brackets where that is no plain one.
structure Parses (parts : UrlParts) (http_parser_parse_url : List UInt8 → Option http_parser_url) : Prop where
  accepts : ∀ f, Absolute parts f → (∀ x ∈ f.host, parts.host x) → http_parser_parse_url (spell f) = some f
  absolute : ∀ s f, http_parser_parse_url s = some f → f.schema ≠ none → Absolute parts f
  starts : ∀ s f, http_parser_parse_url s = some f → s.head? ≠ some 58
  brackets : ∀ s f x, http_parser_parse_url s = some f → f.host = some x → ¬parts.host x → 91 ∈ authority s

namespace Uri

structure Same (u v : Uri) : Prop where
  scheme : v.scheme = u.scheme
  userinfo : v.userinfo = u.userinfo
  host : v.host = u.host
  port : v.port = u.port
  query : v.query = u.query
  fragment : v.fragment = u.fragment
  path : v.getPath = u.getPath

def RoundTrips (http_parser_parse_url : List UInt8 → Option http_parser_url) (u : Uri) : Prop :=
  ∃ v, Create http_parser_parse_url u.toString = some v ∧ Same u v

-- The fields of what `toString` writes.
def printed (u : Uri) : http_parser_url where
  schema := some u.scheme
  userinfo := if u.userinfo = [] then none else some u.userinfo
  host := some u.host
  port := if u.isDefaultPort then none else some (decimal u.port)
  path := some u.getPath
  query := if u.query = [] then none else some u.query
  fragment := if u.fragment = [] then none else some u.fragment

-- A part behind its mark, both left out where the part is empty.
theorem marked (mark x : List UInt8) :
    (if x = [] then none else some x).elim [] (fun y => mark ++ y) = (if x = [] then [] else mark) ++ x := by
  by_cases blank : x = []
  · rw [if_pos blank,if_pos blank,blank]
    rfl
  · rw [if_neg blank,if_neg blank]
    rfl

theorem toString_spell (u : Uri) : u.toString = spell u.printed := by
  have userinfo : (if u.userinfo = [] then none else some u.userinfo).elim [] (fun x => x ++ text "@") =
      u.userinfo ++ if u.userinfo = [] then [] else text "@" := by
    by_cases blank : u.userinfo = []
    · rw [if_pos blank,if_pos blank,blank]
      rfl
    · rw [if_neg blank,if_neg blank]
      rfl
  have port : (if u.isDefaultPort then none else some (decimal u.port)).elim [] (fun x => text ":" ++ x) =
      if u.isDefaultPort then [] else text ":" ++ decimal u.port := by
    cases u.isDefaultPort with
    | true => rfl
    | false => rfl
  rw [toString,spell,printed,userinfo,port,marked,marked]
  simp only [Option.getD_some,List.append_assoc]

section created
variable {parts : UrlParts} {http_parser_parse_url : List UInt8 → Option http_parser_url} {f : http_parser_url}
  {u : Uri} {s : List UInt8}

-- What `Create` takes over from the parser.
structure Read (f : http_parser_url) (u : Uri) : Prop where
  scheme : u.scheme = f.schema.getD []
  userinfo : u.userinfo = f.userinfo.getD []
  host : u.host = f.host.getD []
  path : u.path = f.path.getD []
  query : u.query = f.query.getD []
  fragment : u.fragment = f.fragment.getD []
  port : (match f.port with
    | some port => stoi port
    | none =>
      if u.scheme = text "http" ∨ u.scheme = text "ws" then some 80
      else if u.scheme = text "https" then some 443
      else some 0) = some u.port

theorem Create_some : Create http_parser_parse_url s = some u ↔ ∃ f, http_parser_parse_url s = some f ∧ Read f u := by
  unfold Create
  rw [Option.bind_eq_some_iff]
  apply exists_congr
  intro f
  apply and_congr_right
  intro _
  dsimp only
  rw [Option.map_eq_some_iff]
  constructor
  · rintro ⟨port,found,rfl⟩
    exact ⟨rfl,rfl,rfl,rfl,rfl,rfl,found⟩
  · intro read
    obtain ⟨scheme,userinfo,host,path,query,fragment,port⟩ := read
    refine ⟨u.port,?_,?_⟩
    · rw [←scheme]
      exact port
    · rw [←scheme,←userinfo,←host,←path,←query,←fragment]

theorem getD_blank {x : List UInt8} : (if x = [] then none else some x).getD [] = x := by
  by_cases blank : x = []
  · rw [if_pos blank,blank]
    rfl
  · rw [if_neg blank]
    rfl

-- Reading back the fields that were written. A default port is left out and
-- filled in again.
theorem printed_read (u : Uri) : ∃ v, Read u.printed v ∧ Same u v := by
  refine ⟨{u with path := u.getPath},⟨rfl,getD_blank.symm,rfl,rfl,getD_blank.symm,getD_blank.symm,?_⟩,
    ⟨rfl,rfl,rfl,rfl,rfl,rfl,?_⟩⟩
  · cases default_ : u.isDefaultPort with
    | false =>
        simp only [printed,default_,Bool.false_eq_true,if_false]
        exact decimalValue_decimal u.port
    | true =>
        simp only [printed,default_,if_true]
        unfold isDefaultPort at default_
        split
        · next web =>
            rw [if_pos web] at default_
            rw [of_decide_eq_true default_]
        · next other =>
            rw [if_neg other] at default_
            split
            · next secure =>
                rw [if_pos secure] at default_
                rw [of_decide_eq_true default_]
            · next neither =>
                rw [if_neg neither] at default_
                cases default_
  · unfold getPath
    dsimp only
    by_cases blank : u.path = []
    · rw [if_pos blank]
      rfl
    · rw [if_neg blank,if_neg blank]

theorem getD_some_of (given : x = o.getD []) (filled : x ≠ []) : o = some x := by
  cases o with
  | none => exact absurd given filled
  | some y => rw [given,Option.getD_some]

theorem port_small (absolute : Absolute parts f) (read : Read f u) : u.port < 2^16 := by
  have port := read.port
  cases given : f.port with
  | some digits =>
      rw [given] at port
      obtain ⟨n,value,small⟩ := absolute.port digits given
      have same : some n = some u.port := value.symm.trans port
      cases same
      exact small
  | none =>
      rw [given] at port
      dsimp only at port
      split at port
      · rw [←Option.some.inj port]
        decide
      · split at port
        · rw [←Option.some.inj port]
          decide
        · rw [←Option.some.inj port]
          decide

theorem printed_absolute (absolute : Absolute parts f) (read : Read f u) : Absolute parts u.printed := by
  obtain ⟨schema,schemaEq,known⟩ := absolute.schema
  obtain ⟨host,hostEq,either⟩ := absolute.host
  have scheme : u.scheme = schema := by rw [read.scheme,schemaEq,Option.getD_some]
  have same : u.host = host := by rw [read.host,hostEq,Option.getD_some]
  have kept : ∀ {P : List UInt8 → Prop} {o : Option (List UInt8)} {x : List UInt8}, (∀ y ∈ o, P y) → x = o.getD [] →
      ∀ y ∈ (if x = [] then none else some x), P y := by
    intro P o x all given y member
    by_cases blank : x = []
    · rw [if_pos blank] at member
      cases member
    · rw [if_neg blank] at member
      cases member
      exact all x (getD_some_of given blank)
  refine ⟨⟨u.scheme,rfl,scheme ▸ known⟩,kept absolute.userinfo read.userinfo,⟨u.host,rfl,same ▸ either⟩,?_,?_,
    kept absolute.query read.query,kept absolute.fragment read.fragment⟩
  · intro digits member
    cases default_ : u.isDefaultPort with
    | true =>
        simp only [printed,default_,if_true] at member
        cases member
    | false =>
        simp only [printed,default_,Bool.false_eq_true,if_false] at member
        cases member
        exact ⟨u.port,decimalValue_decimal u.port,port_small absolute read⟩
  · intro path member
    cases member
    unfold getPath
    by_cases blank : u.path = []
    · rw [if_pos blank]
      exact parts.root
    · rw [if_neg blank]
      exact absolute.path u.path (getD_some_of read.path blank)

theorem plain_round_trips (parses : Parses parts http_parser_parse_url) (absolute : Absolute parts f) (read : Read f u)
    (plain : ∀ x ∈ f.host, parts.host x) : RoundTrips http_parser_parse_url u := by
  obtain ⟨v,back,same⟩ := printed_read u
  have host : ∀ x ∈ u.printed.host, parts.host x := by
    intro x member
    cases member
    obtain ⟨host,hostEq,_⟩ := absolute.host
    rw [read.host,hostEq]
    exact plain host hostEq
  refine ⟨v,Create_some.mpr ⟨u.printed,?_,back⟩,same⟩
  rw [toString_spell]
  exact parses.accepts u.printed (printed_absolute absolute read) host

theorem getPath_rooted (absolute : Absolute parts f) (read : Read f u) : ∃ rest, u.getPath = 47 :: rest := by
  unfold getPath
  by_cases blank : u.path = []
  · rw [if_pos blank]
    exact ⟨[],rfl⟩
  · rw [if_neg blank]
    have known := absolute.path u.path (getD_some_of read.path blank)
    exact List.head?_eq_some_iff.mp (parts.path_rooted known)

-- What stands in front of the path.
def middle (u : Uri) : List UInt8 :=
  u.userinfo ++ (if u.userinfo = [] then [] else text "@") ++ u.host ++
    if u.isDefaultPort then [] else text ":" ++ decimal u.port

theorem authority_toString (absolute : Absolute parts f) (read : Read f u)
    (ends : ∀ c ∈ u.middle, c ∉ text "/?#") : authority u.toString = u.middle := by
  obtain ⟨schema,schemaEq,known⟩ := absolute.schema
  have scheme : ∀ c ∈ u.scheme, decide (c ≠ 58) = true := by
    intro c member
    rw [read.scheme,schemaEq,Option.getD_some] at member
    apply decide_eq_true
    intro colon
    exact parts.schema_plain known (colon ▸ member)
  obtain ⟨rest,path⟩ := getPath_rooted absolute read
  have whole : ∃ tail, u.toString = u.scheme ++ (58 :: 47 :: 47 :: (u.middle ++ 47 :: tail)) := by
    refine ⟨rest ++ (if u.query = [] then [] else text "?") ++ u.query ++
      (if u.fragment = [] then [] else text "#") ++ u.fragment,?_⟩
    rw [toString,path,middle]
    simp only [List.append_assoc,List.cons_append]
    rfl
  obtain ⟨tail,whole⟩ := whole
  have inside : ∀ c ∈ u.middle, decide (c ∉ text "/?#") = true := fun c member => decide_eq_true (ends c member)
  rw [authority,whole,List.dropWhile_append_of_pos scheme,List.dropWhile_cons_of_neg (by decide)]
  change List.takeWhile _ (u.middle ++ 47 :: tail) = u.middle
  rw [List.takeWhile_append_of_pos inside,List.takeWhile_cons_of_neg (by decide),List.append_nil]

def isdigit (c : UInt8) : Bool := 48 ≤ c.toNat ∧ c.toNat ≤ 57

theorem free_of {marks x : List UInt8} (checked : x.all (fun c => !marks.contains c) = true) : ∀ c ∈ x, c ∉ marks := by
  intro c member inside
  have outside := List.all_eq_true.mp checked c member
  rw [List.contains_iff_mem.mpr inside] at outside
  cases outside

theorem digits_plain (n : Nat) : ∀ c ∈ decimal n, c ∉ text "/?#[" := by
  have apart : (text "/?#[").all (fun d => !isdigit d) = true := by decide
  intro c member mark
  have digit : isdigit c = true := decide_eq_true (decimal_digits n c member)
  have other := List.all_eq_true.mp apart c mark
  rw [digit] at other
  cases other

theorem middle_plain (absolute : Absolute parts f) (read : Read f u) (literal : parts.literal u.host) :
    ∀ c ∈ u.middle, c ∉ text "/?#[" := by
  intro c member
  simp only [middle,List.mem_append] at member
  rcases member with ((userinfo | at_) | host) | port
  · have filled : u.userinfo ≠ [] := List.ne_nil_of_mem userinfo
    exact parts.userinfo_plain (absolute.userinfo u.userinfo (getD_some_of read.userinfo filled)) c userinfo
  · split at at_
    · cases at_
    · exact free_of (by decide) c at_
  · exact (parts.literal_plain literal).2 c host
  · split at port
    · cases port
    · rcases List.mem_append.mp port with colon | digits
      · exact free_of (by decide) c colon
      · exact digits_plain u.port c digits

-- Without its brackets a literal is not read again.
theorem literal_lost (parses : Parses parts http_parser_parse_url) (absolute : Absolute parts f) (read : Read f u)
    (given : f.host = some x) (special : ¬parts.host x) : ¬RoundTrips http_parser_parse_url u := by
  rintro ⟨v,created,same⟩
  obtain ⟨host,hostEq,either⟩ := absolute.host
  cases given.symm.trans hostEq
  have literal := either.resolve_left special
  have host : u.host = x := by rw [read.host,given,Option.getD_some]
  obtain ⟨g,parsed,back⟩ := Create_some.mp created
  have filled := (parts.literal_plain literal).1
  have again : g.host = some x := getD_some_of ((host.symm.trans same.host.symm).trans back.host) filled
  have bracket := parses.brackets u.toString g x parsed again special
  have plain := middle_plain absolute read (host ▸ literal)
  have ends : ∀ c ∈ u.middle, c ∉ text "/?#" := by
    intro c member mark
    exact plain c member (List.mem_append_left (text "[") mark)
  rw [authority_toString absolute read ends] at bracket
  exact plain 91 bracket (by decide)

theorem relative_lost (parses : Parses parts http_parser_parse_url) (read : Read f u) (relative : f.schema = none) :
    ¬RoundTrips http_parser_parse_url u := by
  rintro ⟨v,created,_⟩
  obtain ⟨g,parsed,_⟩ := Create_some.mp created
  have blank : u.scheme = [] := by rw [read.scheme,relative,Option.getD_none]
  have colon : u.toString.head? = some 58 := by
    rw [toString,blank]
    rfl
  exact parses.starts u.toString g parsed colon

theorem round_trips_exactly (parts : UrlParts) (http_parser_parse_url : List UInt8 → Option http_parser_url)
    (parses : Parses parts http_parser_parse_url) (s : List UInt8) (u : Uri)
    (created : Create http_parser_parse_url s = some u) : RoundTrips http_parser_parse_url u ↔
      ∃ f, http_parser_parse_url s = some f ∧ f.schema ≠ none ∧ ∀ x ∈ f.host, parts.host x := by
  obtain ⟨f,parsed,read⟩ := Create_some.mp created
  constructor
  · intro returns
    have schema : f.schema ≠ none := fun relative => relative_lost parses read relative returns
    refine ⟨f,parsed,schema,?_⟩
    intro x given
    apply Classical.byContradiction
    intro special
    exact literal_lost parses (parses.absolute s f parsed schema) read given special returns
  · rintro ⟨g,again,schema,plain⟩
    cases parsed.symm.trans again
    exact plain_round_trips parses (parses.absolute s f parsed schema) read plain

end created

-- A parser that knows the scheme http, the host a, the literal ::1 and the
-- path /.
def sampleParts : UrlParts where
  schema x := x = text "http"
  userinfo _ := False
  host x := x = text "a"
  literal x := x = text "::1"
  path x := x = text "/"
  query _ := False
  fragment _ := False
  schema_plain known := by rw [known]; decide
  userinfo_plain known := known.elim
  literal_plain known := by rw [known]; exact ⟨by decide,free_of (by decide)⟩
  path_rooted known := by rw [known]; rfl
  root := rfl

def samplePath : List UInt8 → Option (Option (List UInt8))
  | [] => some none
  | [47] => some (some [47])
  | _ => none

def sampleParse (s : List UInt8) : Option http_parser_url :=
  if s = text "http://[::1]/" then some ⟨some (text "http"),none,some (text "::1"),none,some (text "/"),none,none⟩
  else if s.take 8 = text "http://a" then
    match s.drop 8 with
    | 58 :: rest =>
      (decimalValue (rest.takeWhile isdigit)).bind fun n =>
        if n < 2^16 then
          (samplePath (rest.dropWhile isdigit)).map fun path =>
            ⟨some (text "http"),none,some (text "a"),some (rest.takeWhile isdigit),path,none,none⟩
        else none
    | rest => (samplePath rest).map fun path => ⟨some (text "http"),none,some (text "a"),none,path,none,none⟩
  else none

theorem samplePath_some {path : Option (List UInt8)} : samplePath s = some path →
    s = path.getD [] ∧ ∀ x ∈ path, x = text "/" := by
  intro found
  unfold samplePath at found
  split at found
  · cases found
    exact ⟨rfl,nofun⟩
  · cases found
    refine ⟨rfl,?_⟩
    intro x member
    cases member
    rfl
  · cases found

theorem sampleParse_plain {port path : Option (List UInt8)}
    (digits : ∀ x ∈ port, ∃ n, decimalValue x = some n ∧ n < 2^16) (known : ∀ x ∈ path, x = text "/") :
    sampleParse (text "http://a" ++ ((port.elim [] fun x => 58 :: x) ++ path.getD [])) =
      some ⟨some (text "http"),none,some (text "a"),port,path,none,none⟩ := by
  have ways : path = none ∨ path = some (text "/") := by
    cases path with
    | none => exact .inl rfl
    | some x => exact .inr (congrArg some (known x rfl))
  cases port with
  | none =>
      rcases ways with rfl | rfl
      · rfl
      · rfl
  | some x =>
      obtain ⟨n,value,small⟩ := digits x rfl
      have every : ∀ c ∈ x, isdigit c = true := fun c member => decide_eq_true (decimalValue_digits value c member)
      have first : (x ++ path.getD []).takeWhile isdigit = x := by
        rw [List.takeWhile_append_of_pos every]
        rcases ways with rfl | rfl
        · exact List.append_nil x
        · exact List.append_nil x
      have last : (x ++ path.getD []).dropWhile isdigit = path.getD [] := by
        rw [List.dropWhile_append_of_pos every]
        rcases ways with rfl | rfl
        · rfl
        · rfl
      have tail : samplePath (path.getD []) = some path := by
        rcases ways with rfl | rfl
        · rfl
        · rfl
      have other : text "http://a" ++ (58 :: x ++ path.getD []) ≠ text "http://[::1]/" := by
        intro same
        have front : text "http://a" = (text "http://[::1]/").take 8 := congrArg (List.take 8) same
        exact absurd front (by decide)
      have front : (text "http://a" ++ (58 :: x ++ path.getD [])).take 8 = text "http://a" := rfl
      have back : (text "http://a" ++ (58 :: x ++ path.getD [])).drop 8 = 58 :: (x ++ path.getD []) := rfl
      simp only [Option.elim_some,sampleParse,if_neg other,if_pos front,back,first,last,value,Option.bind_some,
        if_pos small,tail,Option.map_some]

-- The two kinds of URLs it reads.
theorem sampleParse_cases (parsed : sampleParse s = some f) :
    (s = text "http://[::1]/" ∧ f = ⟨some (text "http"),none,some (text "::1"),none,some (text "/"),none,none⟩) ∨
    (s.take 8 = text "http://a" ∧ f.schema = some (text "http") ∧ f.userinfo = none ∧ f.host = some (text "a") ∧
      (∀ x ∈ f.port, ∃ n, decimalValue x = some n ∧ n < 2^16) ∧ (∀ x ∈ f.path, x = text "/") ∧
      f.query = none ∧ f.fragment = none) := by
  unfold sampleParse at parsed
  split at parsed
  · next same =>
      cases parsed
      exact .inl ⟨same,rfl⟩
  · split at parsed
    · next front =>
        right
        split at parsed
        · next rest _ =>
            obtain ⟨n,value,more⟩ := Option.bind_eq_some_iff.mp parsed
            split at more
            · next small =>
                obtain ⟨path,found,rfl⟩ := Option.map_eq_some_iff.mp more
                refine ⟨front,rfl,rfl,rfl,?_,(samplePath_some found).2,rfl,rfl⟩
                intro x member
                cases member
                exact ⟨n,value,small⟩
            · cases more
        · obtain ⟨path,found,rfl⟩ := Option.map_eq_some_iff.mp parsed
          exact ⟨front,rfl,rfl,rfl,nofun,(samplePath_some found).2,rfl,rfl⟩
    · cases parsed

theorem sample_parses : Parses sampleParts sampleParse := by
  refine ⟨?_,?_,?_,?_⟩
  · intro f absolute plain
    obtain ⟨schema,schemaEq,http⟩ := absolute.schema
    obtain ⟨host,hostEq,_⟩ := absolute.host
    have known := plain host hostEq
    obtain ⟨_,userinfo,_,port,path,query,fragment⟩ := f
    cases userinfo with
    | some x => exact (absolute.userinfo x rfl).elim
    | none =>
        cases query with
        | some x => exact (absolute.query x rfl).elim
        | none =>
            cases fragment with
            | some x => exact (absolute.fragment x rfl).elim
            | none =>
                have read := sampleParse_plain absolute.port absolute.path
                dsimp only at schemaEq hostEq read
                rw [schemaEq,hostEq,http,known,←read]
                apply congrArg
                simp only [spell,Option.getD_some,Option.elim_none,List.append_nil,List.append_assoc]
                rfl
  · intro s f parsed _
    rcases sampleParse_cases parsed with ⟨_,rfl⟩ | ⟨_,schema,userinfo,host,port,path,query,fragment⟩
    · refine ⟨⟨_,rfl,rfl⟩,nofun,⟨_,rfl,.inr rfl⟩,nofun,?_,nofun,nofun⟩
      intro x member
      cases member
      rfl
    · refine ⟨⟨_,schema,rfl⟩,?_,⟨_,host,.inl rfl⟩,port,path,?_,?_⟩
      · rw [userinfo]
        exact nofun
      · rw [query]
        exact nofun
      · rw [fragment]
        exact nofun
  · intro s f parsed colon
    rcases sampleParse_cases parsed with ⟨same,_⟩ | ⟨front,_⟩
    · rw [same] at colon
      exact absurd colon (by decide)
    · have first := congrArg List.head? front
      rw [List.head?_take,if_neg (by decide),colon] at first
      exact absurd first (by decide)
  · intro s f x parsed given special
    rcases sampleParse_cases parsed with ⟨same,_⟩ | ⟨_,_,_,host,_⟩
    · rw [same]
      decide
    · cases given.symm.trans host
      exact absurd rfl special

def plainUri : Uri := ⟨text "http",[],text "a",[],[],[],80⟩

theorem round_trips_plainUri : RoundTrips sampleParse plainUri ↔
    ∃ f, sampleParse (text "http://a") = some f ∧ f.schema ≠ none ∧ ∀ x ∈ f.host, sampleParts.host x :=
  round_trips_exactly sampleParts sampleParse sample_parses (text "http://a") plainUri rfl

def literalUri : Uri := ⟨text "http",[],text "::1",text "/",[],[],80⟩

theorem brackets_lost : ¬∀ (parts : UrlParts) (http_parser_parse_url : List UInt8 → Option http_parser_url),
    Parses parts http_parser_parse_url → ∀ s u, Create http_parser_parse_url s = some u →
      RoundTrips http_parser_parse_url u := by
  intro returns
  have created : Create sampleParse (text "http://[::1]/") = some literalUri := by decide
  obtain ⟨v,again,_⟩ := returns sampleParts sampleParse sample_parses (text "http://[::1]/") literalUri created
  have rejected : Create sampleParse literalUri.toString = none := by decide
  rw [rejected] at again
  cases again

end Uri

end Fishjoy
