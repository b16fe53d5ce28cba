import Fishjoy.HttpDump

namespace Fishjoy
open KeyedMap Lines

inductive ResponseCall where
  | setHeader (key val : List UInt8)
  | setCookie (key val : List UInt8) (expired : Int) (path domain : List UInt8) (secure : Bool)
  | setRedirect (uri : List UInt8)
  | setReason (v : List UInt8)
  | setBody (v : List UInt8)

namespace HttpResponseOut

def apply (Time2Str : Int → List UInt8) (r : HttpResponseOut) : ResponseCall → HttpResponseOut
  | .setHeader key val => r.setHeader key val
  | .setCookie key val expired path domain secure => r.setCookie Time2Str key val expired path domain secure
  | .setRedirect uri => r.setRedirect uri
  | .setReason v => r.setReason v
  | .setBody v => r.setBody v

def built (Time2Str : Int → List UInt8) (version : UInt8) (close : Bool) (calls : List ResponseCall) : HttpResponseOut :=
  calls.foldl (apply Time2Str) (initial version close)

-- The lines a response is meant to have.
def lines (r : HttpResponseOut) : List (List UInt8) :=
  [r.statusLine] ++ r.emitted.map line ++ r.cookies.map (text "Set-Cookie: " ++ ·) ++
    [text "connection: " ++ connectionValue r.close] ++
    (if r.body = [] then [] else [text "content-length: " ++ decimal r.body.length])

-- What a receiver takes for the lines and the body.
def ReadAs (r : HttpResponseOut) (lines : List (List UInt8)) (body : List UInt8) : Prop :=
  ∃ head, Lines.cut (crlf ++ crlf) r.dump = some (head,body) ∧ split 13 10 head = lines

structure Unbroken (r : HttpResponseOut) : Prop where
  reason : Whole 13 10 r.reason
  headers : ∀ i ∈ r.emitted, Whole 13 10 i.1 ∧ Whole 13 10 i.2
  cookies : ∀ cookie ∈ r.cookies, Whole 13 10 cookie

theorem built_plain (Time2Str : Int → List UInt8) (version : UInt8) (close : Bool) (calls : List ResponseCall) :
    (built Time2Str version close calls).websocket = false := by
  have kept : ∀ (r : HttpResponseOut) (call : ResponseCall), (r.apply Time2Str call).websocket = r.websocket := by
    intro r call
    cases call <;> rfl
  have all : ∀ r : HttpResponseOut, (calls.foldl (apply Time2Str) r).websocket = r.websocket := by
    induction calls with
    | nil => exact fun _ => rfl
    | cons call rest ih =>
        intro r
        rw [List.foldl_cons,ih,kept]
  exact all _

theorem lines_fields (r : HttpResponseOut) (plain : r.websocket = false) : r.lines = r.statusLine :: r.fields.map line := by
  have cookie : text "Set-Cookie: " = text "Set-Cookie" ++ text ": " := by decide
  have connection : text "connection: " = text "connection" ++ text ": " := by decide
  have length : text "content-length: " = text "content-length" ++ text ": " := by decide
  rw [lines,fields,plain,cookie,connection,length]
  simp only [List.map_append,List.map_map,List.cons_append]
  by_cases empty : r.body = []
  · rw [if_pos empty,if_pos empty]
    rfl
  · rw [if_neg empty,if_neg empty]
    rfl

theorem join_lines (start : List UInt8) (ls : List (List UInt8)) :
    join 13 10 (start :: ls) ++ crlf = start ++ crlf ++ ls.flatMap fun l => l ++ crlf := by
  induction ls generalizing start with
  | nil => rw [List.flatMap_nil,List.append_nil]; rfl
  | cons l rest ih =>
      rw [join_cons,List.append_assoc,List.cons_append,List.cons_append,ih,List.flatMap_cons]
      simp only [crlf,List.append_assoc,List.cons_append,List.nil_append]

theorem dump_join (r : HttpResponseOut) (plain : r.websocket = false) :
    r.dump = join 13 10 r.lines ++ (13 :: 10 :: 13 :: 10 :: r.body) := by
  have whole : join 13 10 r.lines ++ (13 :: 10 :: 13 :: 10 :: r.body) = join 13 10 r.lines ++ crlf ++ crlf ++ r.body := by
    simp only [crlf,List.append_assoc,List.cons_append,List.nil_append]
  rw [whole,lines_fields r plain,join_lines,r.dump_fields,message,List.flatMap_map]

theorem decimal_plain (n : Nat) : (13 : UInt8) ∉ decimal n := by
  intro member
  have low := (decimal_digits n 13 member).1
  exact absurd low (by decide)

theorem status_whole (status : Nat) : Whole 13 10 (HttpStatusToString status) := by
  have table : ∀ entry ∈ HTTP_STATUS_MAP, 13 ∉ text entry.2 := by decide +kernel
  apply whole_of_not_mem
  unfold HttpStatusToString
  cases found : HTTP_STATUS_MAP.lookup status with
  | none => decide
  | some name =>
      obtain ⟨front,back,whole,_⟩ := List.lookup_eq_some_iff.mp found
      apply table (status,name)
      rw [whole]
      exact List.mem_append_right _ (.head _)

theorem line_whole (field : List UInt8 × List UInt8) : Whole 13 10 (line field) ↔ Whole 13 10 field.1 ∧ Whole 13 10 field.2 := by
  have shape : line field = field.1 ++ 58 :: ([] ++ 32 :: field.2) := by
    rw [line,List.append_assoc]
    rfl
  rw [shape,whole_middle _ _ (by decide) (by decide),whole_middle _ _ (by decide) (by decide)]
  exact and_congr_right fun _ => and_iff_right (whole_of_not_mem List.not_mem_nil)

theorem cookie_whole (cookie : List UInt8) : Whole 13 10 (text "Set-Cookie: " ++ cookie) ↔ Whole 13 10 cookie := by
  have name : text "Set-Cookie: " = text "Set-Cookie:" ++ [32] := by decide +kernel
  have shape : text "Set-Cookie: " ++ cookie = text "Set-Cookie:" ++ 32 :: cookie := by
    rw [name,List.append_assoc]
    rfl
  rw [shape,whole_middle _ _ (by decide) (by decide)]
  exact and_iff_right (whole_of_not_mem (by decide))

theorem statusLine_whole (r : HttpResponseOut) : Whole 13 10 r.statusLine ↔ Whole 13 10 r.reason := by
  have shape : r.statusLine = (dumpVersion r.version ++ text " " ++ decimal r.status) ++
      32 :: (if r.reason = [] then HttpStatusToString r.status else r.reason) := by
    rw [statusLine,List.append_assoc]
    rfl
  have front : (13 : UInt8) ∉ dumpVersion r.version ++ text " " ++ decimal r.status := by
    unfold dumpVersion
    simp only [List.mem_append,not_or]
    exact ⟨⟨⟨⟨⟨by decide,decimal_plain _⟩,by decide⟩,decimal_plain _⟩,by decide⟩,decimal_plain _⟩
  rw [shape,whole_middle _ _ (by decide) (by decide),and_iff_right (whole_of_not_mem front)]
  by_cases empty : r.reason = []
  · rw [if_pos empty,empty]
    exact ⟨fun _ => whole_of_not_mem List.not_mem_nil,fun _ => status_whole r.status⟩
  · rw [if_neg empty]

theorem connection_whole (close : Bool) : Whole 13 10 (text "connection: " ++ connectionValue close) := by
  cases close <;> exact whole_of_not_mem (by decide)

theorem length_whole (n : Nat) : Whole 13 10 (text "content-length: " ++ decimal n) := by
  apply whole_of_not_mem
  rw [List.mem_append,not_or]
  exact ⟨by decide,decimal_plain n⟩

theorem lines_whole (r : HttpResponseOut) : (∀ l ∈ r.lines, Whole 13 10 l) ↔ r.Unbroken := by
  constructor
  · intro clean
    refine ⟨(statusLine_whole r).mp (clean _ ?_),?_,?_⟩
    · simp [lines]
    · intro i member
      apply (line_whole i).mp
      apply clean
      simp only [lines,List.mem_append,List.mem_map]
      exact .inl (.inl (.inl (.inr ⟨i,member,rfl⟩)))
    · intro cookie member
      apply (cookie_whole cookie).mp
      apply clean
      simp only [lines,List.mem_append,List.mem_map]
      exact .inl (.inl (.inr ⟨cookie,member,rfl⟩))
  · rintro ⟨reason,headers,cookies⟩ l member
    simp only [lines,List.mem_append,List.mem_map,List.mem_singleton] at member
    rcases member with (((rfl | ⟨i,inside,rfl⟩) | ⟨cookie,inside,rfl⟩) | rfl) | length
    · exact (statusLine_whole r).mpr reason
    · exact (line_whole i).mpr (headers i inside)
    · exact (cookie_whole cookie).mpr (cookies cookie inside)
    · exact connection_whole r.close
    · by_cases empty : r.body = []
      · rw [if_pos empty] at length
        cases length
      · rw [if_neg empty] at length
        rw [List.mem_singleton.mp length]
        exact length_whole _

theorem lines_filled (r : HttpResponseOut) : ∀ l ∈ r.lines, l ≠ [] := by
  intro l member empty
  have some : ∀ (front : String) (back : List UInt8), text front ≠ [] → text front ++ back ≠ [] :=
    fun _ _ filled none => filled (List.append_eq_nil_iff.mp none).1
  simp only [lines,List.mem_append,List.mem_map,List.mem_singleton] at member
  rcases member with (((rfl | ⟨i,inside,rfl⟩) | ⟨cookie,inside,rfl⟩) | rfl) | length
  · unfold statusLine dumpVersion at empty
    simp only [List.append_eq_nil_iff] at empty
    exact absurd empty.1.1.1.1.1.1.1 (by decide)
  · unfold line at empty
    simp only [List.append_eq_nil_iff] at empty
    exact absurd empty.1.2 (by decide)
  · exact some _ _ (by decide) empty
  · exact some _ _ (by decide) empty
  · by_cases none : r.body = []
    · rw [if_pos none] at length
      cases length
    · rw [if_neg none,List.mem_singleton] at length
      rw [length] at empty
      exact some _ _ (by decide) empty

theorem read_iff (r : HttpResponseOut) (plain : r.websocket = false) : r.ReadAs r.lines r.body ↔ r.Unbroken := by
  have filled : r.lines ≠ [] := by
    rw [lines_fields r plain]
    exact List.cons_ne_nil _ _
  constructor
  · rintro ⟨head,_,pieces⟩
    apply (lines_whole r).mp
    rw [←pieces]
    exact split_whole head
  · intro unbroken
    have clean := (lines_whole r).mpr unbroken
    refine ⟨join 13 10 r.lines,?_,split_join (by decide) _ filled clean⟩
    rw [dump_join r plain]
    exact cut_join (by decide) _ filled (fun l member => ⟨clean l member,lines_filled r l member⟩) r.body

theorem built_read_exactly (Time2Str : Int → List UInt8) (version : UInt8) (close : Bool) (calls : List ResponseCall) :
    (built Time2Str version close calls).ReadAs (built Time2Str version close calls).lines
      (built Time2Str version close calls).body ↔ (built Time2Str version close calls).Unbroken :=
  read_iff _ (built_plain Time2Str version close calls)

-- A redirect to a target that ends the line and begins another.
theorem redirect_splits : ¬∀ (Time2Str : Int → List UInt8) (version : UInt8) (close : Bool) (calls : List ResponseCall),
    (built Time2Str version close calls).ReadAs (built Time2Str version close calls).lines
      (built Time2Str version close calls).body := by
  intro reads
  have unbroken := (read_iff (built (fun _ => []) 0x11 true [.setRedirect (text "/\r\nX: y")]) rfl).mp (reads _ _ _ _)
  exact absurd (unbroken.headers (text "Location",text "/\r\nX: y") (by decide)).2 (by decide)

end HttpResponseOut
end Fishjoy
