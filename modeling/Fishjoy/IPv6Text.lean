import Fishjoy.ByteArrayCodec
import Fishjoy.Foundation.Compressed
import Fishjoy.HttpDump
import Fishjoy.IPv6Address
import Fishjoy.UrlCodec
import Mathlib.Data.Nat.Digits.Lemmas

namespace Fishjoy.IPv6Address
open Lines

def byteswapOnLittleEndian16 (host : Endian) (t : Nat) : Nat :=
  match host with
  | .little => byteswap 2 t
  | .big => t

-- `s6_addr` through a `uint16_t *`.
def addr (host : Endian) (bytes : Vector UInt8 16) : List Nat :=
  (List.range 8).map fun i => ofLayout host [byteAt bytes (2*i),byteAt bytes (2*i+1)]

-- An `int` that is not negative after `std::hex`.
def hex (n : Nat) : List UInt8 :=
  if n = 0 then text "0" else (Nat.digits 16 n).reverse.map fun d => (text "0123456789abcdef").getD d 0

-- The loop and the flag it leaves; `previous` is `addr[i - 1]`, absent for `i` 0.
def insertLoop (shown : Nat → List UInt8) : Option Nat → Bool → List Nat → List UInt8 × Bool
  | _,usedZeros,[] => ([],usedZeros)
  | previous,usedZeros,group :: rest =>
    if group = 0 && !usedZeros then insertLoop shown (some group) usedZeros rest
    else
      let skipped := previous == some 0 && !usedZeros
      let os := (if skipped then text ":" else []) ++ (if previous.isSome then text ":" else []) ++ shown group
      let (later,used) := insertLoop shown (some group) (usedZeros || skipped) rest
      (os ++ later,used)

def insertGroups (shown : Nat → List UInt8) (addr : List Nat) : List UInt8 :=
  let (os,usedZeros) := insertLoop shown none false addr
  if !usedZeros && addr.getLast? == some 0 then os ++ text "::" else os

def insert (host : Endian) (m_addr : SockaddrIn6) : List UInt8 :=
  text "[" ++ insertGroups (fun group => hex (byteswapOnLittleEndian16 host group)) (addr host m_addr.addr) ++
    text "]:" ++ decimal (byteswapOnLittleEndian16 host m_addr.port.toNat)

-- The eight groups of the address, in network byte order.
def groups (a : SockaddrIn6) : List Nat :=
  (List.range 8).map fun i => 256*(byteAt a.addr (2*i)).toNat+(byteAt a.addr (2*i+1)).toNat

-- Of the text forms of RFC 4291 the two that consist of hexadecimal groups.
def readGroup (piece : List UInt8) : Option Nat :=
  if piece ≠ [] ∧ piece.length ≤ 4 ∧ piece.all StringUtil.isxdigit then
    some (Nat.ofDigits 16 (piece.reverse.map fun c => (StringUtil.xdigit c).toNat))
  else none

def readGroups (str : List UInt8) : Option (List Nat) :=
  if str = [] then some [] else (str.splitOn 58).mapM readGroup

def parse (str : List UInt8) : Option (List Nat) :=
  match Lines.cut (text "::") str with
  | none => (readGroups str).filter fun groups => groups.length = 8
  | some (front,back) =>
    (readGroups front).bind fun left => (readGroups back).bind fun right =>
      if left.length+right.length ≤ 7 then
        some (left ++ List.replicate (8-(left.length+right.length)) 0 ++ right)
      else none

variable {shown : Nat → List UInt8} {previous : Option Nat} {front back l : List Nat} {g k : Nat}

-- The groups of a run, with a colon in front of each but the first of the text.
def run (shown : Nat → List UInt8) : Option Nat → List Nat → List UInt8
  | _,[] => []
  | previous,group :: rest => (if previous.isSome then text ":" else []) ++ shown group ++ run shown (some group) rest

theorem run_some (g : Nat) (front : List Nat) :
    run shown (some g) front = front.flatMap fun group => 58 :: shown group := by
  induction front generalizing g with
  | nil => rfl
  | cons group rest ih =>
      rw [run,ih]
      rfl

theorem run_none (front : List Nat) : run shown none front = Compressed.join 58 (front.map shown) := by
  induction front with
  | nil => rfl
  | cons group rest ih =>
      cases rest with
      | nil => simp [run,Compressed.join]
      | cons next rest =>
          rw [List.map_cons,List.map_cons,Compressed.join_cons,←List.map_cons,←ih]
          rfl

theorem loop_used (g : Nat) (l : List Nat) :
    insertLoop shown (some g) true l = (l.flatMap fun group => 58 :: shown group,true) := by
  induction l generalizing g with
  | nil => rfl
  | cons group rest ih =>
      rw [insertLoop]
      simp only [Bool.not_true,Bool.and_false,Bool.false_eq_true,if_false,Bool.or_false,Option.isSome_some,if_true,ih]
      rfl

theorem loop_zeros (k : Nat) (l : List Nat) :
    insertLoop shown (some 0) false (List.replicate k 0 ++ l) = insertLoop shown (some 0) false l := by
  induction k with
  | zero => rfl
  | succ k ih => exact ih

-- The first group behind the zeros gets a second colon.
theorem loop_lands (other : g ≠ 0) (back : List Nat) : insertLoop shown (some 0) false (g :: back) =
    (58 :: 58 :: (shown g ++ back.flatMap fun group => 58 :: shown group),true) := by
  rw [insertLoop]
  simp [other,loop_used]
  rfl

-- Before the first zero group each group is written behind its colon.
theorem loop_group (fresh : previous ≠ some 0) (other : g ≠ 0) (l : List Nat) :
    insertLoop shown previous false (g :: l) =
      ((if previous.isSome then text ":" else []) ++ shown g ++ (insertLoop shown (some g) false l).1,
        (insertLoop shown (some g) false l).2) := by
  have kept : (previous == some 0) = false := beq_eq_false_iff_ne.mpr fresh
  rw [insertLoop]
  simp [other,kept]

theorem loop_front (fresh : previous ≠ some 0) (filled : ∀ g ∈ front, g ≠ 0) (l : List Nat) :
    insertLoop shown previous false (front ++ 0 :: l) =
      (run shown previous front ++ (insertLoop shown (some 0) false l).1,(insertLoop shown (some 0) false l).2) := by
  induction front generalizing previous with
  | nil => rfl
  | cons g front ih =>
      have other := filled g (.head _)
      have apart : some g ≠ some 0 := fun same => other (Option.some.inj same)
      have later := ih apart fun x member => filled x (.tail _ member)
      rw [List.cons_append,loop_group fresh other,later]
      simp [run]

theorem loop_filled (fresh : previous ≠ some 0) (filled : ∀ g ∈ front, g ≠ 0) :
    insertLoop shown previous false front = (run shown previous front,false) := by
  induction front generalizing previous with
  | nil => rfl
  | cons g front ih =>
      have other := filled g (.head _)
      have apart : some g ≠ some 0 := fun same => other (Option.some.inj same)
      have later := ih apart fun x member => filled x (.tail _ member)
      rw [loop_group fresh other,later,run]

theorem leading_zeros (l : List Nat) :
    ∃ k back, l = List.replicate k 0 ++ back ∧ (back = [] ∨ ∃ g rest, back = g :: rest ∧ g ≠ 0) := by
  induction l with
  | nil => exact ⟨0,[],rfl,.inl rfl⟩
  | cons g rest ih =>
      by_cases zero : g = 0
      · obtain ⟨k,back,same,shape⟩ := ih
        exact ⟨k+1,back,by rw [zero,same]; rfl,shape⟩
      · exact ⟨0,g :: rest,rfl,.inr ⟨g,rest,rfl,zero⟩⟩

-- A text without zero groups, or one in which a run of at least one zero group is
-- left out at the doubled colon.
theorem insertGroups_shape (shown : Nat → List UInt8) (l : List Nat) :
    insertGroups shown l = Compressed.join 58 (l.map shown) ∨
      ∃ (front back : List Nat) (k : Nat), l = front ++ List.replicate (k+1) 0 ++ back ∧ insertGroups shown l =
        Compressed.join 58 (front.map shown) ++ 58 :: 58 :: Compressed.join 58 (back.map shown) := by
  by_cases zero : 0 ∈ l
  · obtain ⟨front,rest,rfl,absent⟩ := List.eq_append_cons_of_mem zero
    obtain ⟨k,back,rfl,shape⟩ := leading_zeros rest
    have filled : ∀ g ∈ front, g ≠ 0 := fun g member same => absent (same ▸ member)
    have loop : insertLoop shown none false (front ++ 0 :: (List.replicate k 0 ++ back)) = _ :=
      loop_front (Option.some_ne_none 0).symm filled _
    rw [loop_zeros,run_none] at loop
    refine .inr ⟨front,back,k,by simp [List.replicate_succ],?_⟩
    rcases shape with rfl | ⟨g,back,rfl,other⟩
    · have last : (front ++ 0 :: (List.replicate k 0 ++ [])).getLast? = some 0 := by
        rw [List.append_nil,←List.replicate_succ,List.getLast?_append,List.getLast?_replicate]
        simp
      rw [insertGroups,loop,last]
      simp [insertLoop,Compressed.join]
      rfl
    · have tail : Compressed.join 58 ((g :: back).map shown) =
          shown g ++ back.flatMap fun group => 58 :: shown group := by
        rw [←run_none,run,run_some]
        rfl
      rw [loop_lands other] at loop
      rw [insertGroups,loop,tail]
      simp
  · have filled : ∀ g ∈ l, g ≠ 0 := fun g member same => zero (same ▸ member)
    have last : (l.getLast? == some 0) = false := by
      rw [beq_eq_false_iff_ne]
      exact fun same => zero (List.mem_of_mem_getLast? same)
    refine .inl ?_
    rw [insertGroups,loop_filled (Option.some_ne_none 0).symm filled,run_none]
    simp [last]

-- A group as it is written: up to four hexadecimal digits, and no zero in front.
structure Written (piece : List UInt8) : Prop where
  filled : piece ≠ []
  short : piece.length ≤ 4
  digits : ∀ c ∈ piece, StringUtil.isxdigit c = true
  plain : piece = text "0" ∨ piece.head? ≠ some 48

theorem hex_digit : ∀ d < 16, StringUtil.isxdigit ((text "0123456789abcdef").getD d 0) = true ∧
    (StringUtil.xdigit ((text "0123456789abcdef").getD d 0)).toNat = d ∧
    ((text "0123456789abcdef").getD d 0 = 48 → d = 0) := by decide

theorem xdigit_apart (c : UInt8) : StringUtil.isxdigit c = true → c ≠ 58 ∧ c ≠ 93 := by
  revert c
  exact StringUtil.every_byte (by decide +kernel)

theorem hex_nonzero {n : Nat} (other : n ≠ 0) (small : n < 65536) : Written (hex n) ∧ readGroup (hex n) = some n := by
  have digit (d : Nat) (member : d ∈ Nat.digits 16 n) := hex_digit d (Nat.digits_lt_base (by decide) member)
  have shown : hex n = (Nat.digits 16 n).reverse.map fun d => (text "0123456789abcdef").getD d 0 := if_neg other
  have written : Written (hex n) := by
    rw [shown]
    refine ⟨by simpa using Nat.digits_ne_nil_iff_ne_zero.mpr other,?_,?_,.inr ?_⟩
    · rw [List.length_map,List.length_reverse,Nat.digits_length_le_iff (by decide)]
      exact small
    · intro c member
      obtain ⟨d,inside,rfl⟩ := List.mem_map.mp member
      exact (digit d (List.mem_reverse.mp inside)).1
    · -- The first digit is the last of `Nat.digits`, which is not zero.
      intro zero
      obtain ⟨d,first,same⟩ := Option.map_eq_some_iff.mp (List.head?_map.symm.trans zero)
      rw [List.head?_reverse] at first
      have member := List.mem_of_getLast? first
      have last := Nat.getLast_digit_ne_zero 16 other
      rw [List.getLast?_eq_getLast_of_ne_nil (Nat.digits_ne_nil_iff_ne_zero.mpr other)] at first
      exact last ((Option.some.inj first).trans ((digit d member).2.2 same))
  have back : ((hex n).reverse.map fun c => (StringUtil.xdigit c).toNat) = Nat.digits 16 n := by
    rw [shown,←List.map_reverse,List.reverse_reverse,List.map_map]
    exact (List.map_congr_left fun d member => (digit d member).2.1).trans (List.map_id _)
  refine ⟨written,?_⟩
  rw [readGroup,if_pos ⟨written.filled,written.short,List.all_eq_true.mpr written.digits⟩,back,Nat.ofDigits_digits]

theorem hex_written (n : Nat) (small : n < 65536) : Written (hex n) ∧ readGroup (hex n) = some n := by
  by_cases zero : n = 0
  · subst n
    refine ⟨⟨by decide,by decide,?_,.inl rfl⟩,by decide⟩
    intro c member
    rw [List.mem_singleton.mp member]
    rfl
  · exact hex_nonzero zero small

-- The written forms of groups of 16 bits.
theorem written_tidy {l : List Nat} (small : ∀ n ∈ l, n < 65536) : Compressed.Tidy 58 (l.map hex) := by
  intro piece member
  obtain ⟨n,inside,rfl⟩ := List.mem_map.mp member
  have written := (hex_written n (small n inside)).1
  exact ⟨written.filled,fun colon => (xdigit_apart 58 (written.digits 58 colon)).1 rfl⟩

theorem readGroups_join {l : List Nat} (small : ∀ n ∈ l, n < 65536) :
    readGroups (Compressed.join 58 (l.map hex)) = some l := by
  have read : (l.map hex).mapM readGroup = some l := by
    induction l with
    | nil => rfl
    | cons n rest ih =>
        have first := (hex_written n (small n (.head _))).2
        simp [first,ih fun m member => small m (.tail _ member)]
  cases l with
  | nil => rfl
  | cons n rest =>
      have filled : Compressed.join 58 ((n :: rest).map hex) ≠ [] := by
        have written := (hex_written n (small n (.head _))).1
        cases rest with
        | nil => exact written.filled
        | cons next rest => exact List.append_ne_nil_of_left_ne_nil written.filled _
      rw [readGroups,if_neg filled,Compressed.splitOn_join (written_tidy small) (List.cons_ne_nil _ _)]
      exact read

theorem parse_plain {l : List Nat} (small : ∀ n ∈ l, n < 65536) (eight : l.length = 8) :
    parse (Compressed.join 58 (l.map hex)) = some l := by
  have whole : Whole 58 58 (Compressed.join 58 (l.map hex)) := fun inside =>
    Compressed.join_behind (written_tidy small) (inside.trans List.infix_append_left)
  rw [parse,show text "::" = [58,58] from rfl,Compressed.cut_none whole]
  simp [readGroups_join small,eight]

theorem parse_doubled {front back : List Nat} {k : Nat} (left : ∀ n ∈ front, n < 65536) (right : ∀ n ∈ back, n < 65536)
    (eight : (front ++ List.replicate (k+1) 0 ++ back).length = 8) :
    parse (Compressed.join 58 (front.map hex) ++ 58 :: 58 :: Compressed.join 58 (back.map hex)) =
      some (front ++ List.replicate (k+1) 0 ++ back) := by
  simp only [List.length_append,List.length_replicate] at eight
  have run : 8-(front.length+back.length) = k+1 := by omega
  rw [parse,show text "::" = [58,58] from rfl,Compressed.cut_doubled (Compressed.join_behind (written_tidy left))]
  dsimp only
  rw [readGroups_join left,readGroups_join right,Option.bind_some,Option.bind_some,if_pos (by omega),run]

theorem swapped_bytes (host : Endian) (a b : UInt8) :
    byteswapOnLittleEndian16 host (ofLayout host [a,b]) = 256*a.toNat+b.toNat := by
  cases host with
  | little =>
      have back := Words.littleBytes_ofLittleBytes [a,b]
      simp only [List.length_cons,List.length_nil,Nat.zero_add,Nat.reduceAdd] at back
      simp only [byteswapOnLittleEndian16,byteswap,ofLayout,back]
      simp [Words.ofLittleBytes]
      omega
  | big =>
      simp [byteswapOnLittleEndian16,ofLayout,Words.ofLittleBytes]
      omega

theorem addr_groups (host : Endian) (a : SockaddrIn6) :
    (addr host a.addr).map (byteswapOnLittleEndian16 host) = groups a := by
  rw [addr,groups,List.map_map]
  exact List.map_congr_left fun i _ => swapped_bytes host _ _

theorem groups_small (a : SockaddrIn6) : ∀ n ∈ groups a, n < 65536 := by
  intro n member
  obtain ⟨i,_,rfl⟩ := List.mem_map.mp member
  have first := (byteAt a.addr (2*i)).toNat_lt
  have second := (byteAt a.addr (2*i+1)).toNat_lt
  omega

theorem swapped_zero (host : Endian) : byteswapOnLittleEndian16 host 0 = 0 := by
  cases host <;> rfl

-- The text between the brackets, over the groups of the address.
theorem inserted_shape (host : Endian) (a : SockaddrIn6) :
    let inner := insertGroups (fun group => hex (byteswapOnLittleEndian16 host group)) (addr host a.addr)
    inner = Compressed.join 58 ((groups a).map hex) ∨
      ∃ (front back : List Nat) (k : Nat), groups a = front ++ List.replicate (k+1) 0 ++ back ∧
        inner = Compressed.join 58 (front.map hex) ++ 58 :: 58 :: Compressed.join 58 (back.map hex) := by
  rcases insertGroups_shape (fun group => hex (byteswapOnLittleEndian16 host group)) (addr host a.addr) with
    plain | ⟨front,back,k,same,doubled⟩
  · refine .inl (plain.trans ?_)
    rw [←addr_groups host,List.map_map]
    rfl
  · refine .inr ⟨front.map (byteswapOnLittleEndian16 host),back.map (byteswapOnLittleEndian16 host),k,?_,doubled.trans ?_⟩
    · rw [←addr_groups host,same]
      simp [swapped_zero]
    · rw [List.map_map,List.map_map]
      rfl

theorem join_symbols {l : List Nat} (small : ∀ n ∈ l, n < 65536) :
    93 ∉ Compressed.join 58 (l.map hex) := by
  intro member
  rcases Compressed.mem_join member with colon | ⟨piece,inside,found⟩
  · exact absurd colon (by decide)
  · obtain ⟨n,among,rfl⟩ := List.mem_map.mp inside
    exact (xdigit_apart 93 ((hex_written n (small n among)).1.digits 93 found)).2 rfl

theorem join_pieces {l : List Nat} (small : ∀ n ∈ l, n < 65536) :
    ∀ piece ∈ (Compressed.join 58 (l.map hex)).splitOn 58, piece = [] ∨ Written piece := by
  intro piece member
  cases l with
  | nil => exact .inl (List.mem_singleton.mp member)
  | cons n rest =>
      rw [Compressed.splitOn_join (written_tidy small) (List.cons_ne_nil _ _)] at member
      obtain ⟨m,among,rfl⟩ := List.mem_map.mp member
      exact .inr (hex_written m (small m among)).1

-- An address in the notation of RFC 4291: its groups are written without zeros in
-- front, and a doubled colon stands at one place at most.
structure Notation (inner : List UInt8) (groups : List Nat) : Prop where
  parsed : parse inner = some groups
  written : ∀ piece ∈ inner.splitOn 58, piece = [] ∨ Written piece
  once : ∀ f b f' b', inner = f ++ 58 :: 58 :: b → inner = f' ++ 58 :: 58 :: b' → f = f'

theorem notation_plain {l : List Nat} (small : ∀ n ∈ l, n < 65536) (eight : l.length = 8) :
    Notation (Compressed.join 58 (l.map hex)) l where
  parsed := parse_plain small eight
  written := join_pieces small
  once f b _ _ found _ := by
    have whole := Compressed.join_behind (written_tidy small)
    rw [found] at whole
    exact absurd ⟨f,b ++ [58],by simp⟩ whole

theorem notation_doubled {front back : List Nat} {k : Nat} (left : ∀ n ∈ front, n < 65536) (right : ∀ n ∈ back, n < 65536)
    (eight : (front ++ List.replicate (k+1) 0 ++ back).length = 8) :
    Notation (Compressed.join 58 (front.map hex) ++ 58 :: 58 :: Compressed.join 58 (back.map hex))
      (front ++ List.replicate (k+1) 0 ++ back) where
  parsed := parse_doubled left right eight
  written piece member := by
    have gap : (58 :: Compressed.join 58 (back.map hex)).splitOn 58 =
        [[]] ++ (Compressed.join 58 (back.map hex)).splitOn 58 := List.splitOn_append_cons_self [] _
    rw [List.splitOn_append_cons_self,gap,List.mem_append,List.mem_append,List.mem_singleton] at member
    rcases member with before | empty | behind
    · exact join_pieces left piece before
    · exact .inl empty
    · exact join_pieces right piece behind
  once f b f' b' first second := by
    have unique {x y : List UInt8} := Compressed.doubled_once (f := x) (b := y)
      (Compressed.join_behind (written_tidy left)) (Compressed.join_before (written_tidy right))
    exact (unique first).symm.trans (unique second)

theorem insert_notation (host : Endian) (a : SockaddrIn6) :
    ∃ inner, insert host a = text "[" ++ inner ++ text "]:" ++ decimal (byteswapOnLittleEndian16 host a.port.toNat) ∧
      93 ∉ inner ∧ Notation inner (groups a) := by
  refine ⟨_,rfl,?_⟩
  have small := groups_small a
  have eight : (groups a).length = 8 := by simp [groups]
  rcases inserted_shape host a with plain | ⟨front,back,k,same,doubled⟩
  · rw [plain]
    exact ⟨join_symbols small,notation_plain small eight⟩
  · have left : ∀ n ∈ front, n < 65536 := fun n member => small n (by simp [same,member])
    have right : ∀ n ∈ back, n < 65536 := fun n member => small n (by simp [same,member])
    rw [same] at eight
    rw [doubled,same]
    refine ⟨?_,notation_doubled left right eight⟩
    simp only [List.mem_append,List.mem_cons,join_symbols left,join_symbols right]
    decide

example : parse (text "2001:db8::1:0:0:1") = some [0x2001,0xdb8,0,0,1,0,0,1] ∧ parse (text "1::2::3") = none ∧
    parse (text "::") = some [0,0,0,0,0,0,0,0] ∧ parse (text "1:2:3:4:5:6:7::8") = none := by decide +kernel

end Fishjoy.IPv6Address
