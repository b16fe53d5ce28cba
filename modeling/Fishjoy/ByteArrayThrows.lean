import Fishjoy.ByteArrayVarint

namespace Fishjoy
open Blocks Transition Groups Reading

-- What a value begins with, or is: a number of bytes, or a varint.
inductive Lead where
  | fixed (count : Nat)
  | varint (width limit : Nat)

def Kind.lead : Kind → Lead
  | .fint8 | .fuint8 => .fixed 1
  | .fint16 | .fuint16 => .fixed 2
  | .fint32 | .fuint32 | .float => .fixed 4
  | .fint64 | .fuint64 | .double => .fixed 8
  | .int32 | .uint32 => .varint 32 5
  | .int64 | .uint64 => .varint 64 10

def TypedRead.lead : TypedRead → Lead
  | .value kind => kind.lead
  | .stringF16 => .fixed 2
  | .string .f32 => .fixed 4
  | .string .f64 => .fixed 8
  | .string .vint => .varint 64 10

namespace Lead

def Whole : Lead → List UInt8 → Prop
  | .fixed count,bytes => bytes.length = count
  | .varint _ limit,bytes => Ended bytes ∧ bytes.length ≤ limit

def Encodes (order : Endian) : Lead → List UInt8 → Nat → Prop
  | .fixed count,bytes,n => n < 256^count ∧ bytes = layout order count n
  | .varint width limit,bytes,n => n < 2^width ∧ Ended bytes ∧ bytes.length ≤ limit ∧ value bytes = n

-- What the first primitive read asks for.
def first : Lead → Nat
  | .fixed count => count
  | .varint .. => 1

end Lead

def TypedRead.isString : TypedRead → Bool
  | .value _ => false
  | _ => true

-- These bytes are one value: a string has its length in front of its text.
def TypedRead.Holds (order : Endian) (read : TypedRead) (header text : List UInt8) : Prop :=
  if read.isString then read.lead.Encodes order header text.length else read.lead.Whole header ∧ text = []

namespace Reading

def Complete (read : TypedRead) (b : ByteArray) : Prop :=
  ∃ header text rest, b.unread = header ++ (text ++ rest) ∧ read.Holds b.endian header text

-- A null dereference stands here for a throw.
def Kept (host : Endian) (maxSize : Nat) (read : TypedRead) (b : ByteArray) : Prop :=
  ((∃ left, readTyped host maxSize read b = .error .outOfRange left) ↔ ¬Complete read b) ∧
  ∀ thrown left, readTyped host maxSize read b = .error thrown left → left.position = b.position ∧
    left.cur = b.cur ∧ left.size = b.size ∧ left.flat.content = b.flat.content

-- Nothing can be read at all, or one value is there, which if it is a string
-- fits into one and, if it is an empty one, does not end with the capacity.
def Safe (maxSize : Nat) (read : TypedRead) (b : ByteArray) : Prop :=
  b.unread.length < read.lead.first ∨
  ∃ header text rest, b.unread = header ++ (text ++ rest) ∧ read.Holds b.endian header text ∧
    (read.isString = true → text.length ≤ maxSize ∧ (text = [] → b.position+header.length < b.capacity))

variable {host : Endian} {b middle left after : ByteArray} {header rest text : List UInt8} {read : TypedRead}
  {maxSize count : Nat}

def forget : EStateM.Result Thrown ByteArray α → EStateM.Result Thrown ByteArray Unit
  | .ok _ after => .ok () after
  | .error thrown left => .error thrown left

theorem forget_map (x : Reading α) (f : α → β) (b : ByteArray) :
    forget ((do return f (← x) : Reading β) b) = forget (x b) := by
  cases done : x b with
  | ok value after => rw [bind_ok done]; rfl
  | error thrown left => rw [bind_error done]; rfl

theorem forget_unit (x : Reading α) (b : ByteArray) : (do let _ ← x : Reading Unit) b = forget (x b) := by
  cases done : x b with
  | ok value after => rw [bind_ok done]; rfl
  | error thrown left => rw [bind_error done]; rfl

-- The reader of what a value begins with.
def lead (count : Lead) : Reading Unit :=
  match count with
  | .fixed count => do let _ ← Reading.read count
  | .varint width _ => do let _ ← readVarint width 0 0

theorem readFixed_forget (host : Endian) (count : Nat) (b : ByteArray) :
    forget (readFixed host count b) = lead (.fixed count) b := by
  rw [lead,forget_unit]
  cases done : Reading.read count b with
  | ok value after => rw [readFixed,bind_ok done]; rfl
  | error thrown left => rw [readFixed,bind_error done]; rfl

theorem readValue_forget (host : Endian) (kind : Kind) (b : ByteArray) :
    forget (readValue host kind b) = lead kind.lead b := by
  have fixed := readFixed_forget host
  cases kind with
  | fint8 | fuint8 => rw [readValue,forget_map]; exact (forget_map _ _ b).trans (forget_unit _ b).symm
  | fint16 | fuint16 => rw [readValue,forget_map]; exact (forget_map _ _ b).trans (fixed 2 b)
  | fint32 | fuint32 => rw [readValue,forget_map]; exact (forget_map _ _ b).trans (fixed 4 b)
  | float => rw [readValue,forget_map]; exact (forget_map _ _ b).trans (fixed 4 b)
  | fint64 | fuint64 => rw [readValue,forget_map]; exact (forget_map _ _ b).trans (fixed 8 b)
  | double => rw [readValue,forget_map]; exact (forget_map _ _ b).trans (fixed 8 b)
  | uint32 => rw [readValue,forget_map]; exact (forget_map _ _ b).trans (forget_unit _ b).symm
  | uint64 => rw [readValue,forget_map]; exact (forget_map _ _ b).trans (forget_unit _ b).symm
  | int32 => rw [readValue,forget_map,readInt32,forget_map]; exact (forget_map _ _ b).trans (forget_unit _ b).symm
  | int64 => rw [readValue,forget_map,readInt64,forget_map]; exact (forget_map _ _ b).trans (forget_unit _ b).symm

-- The number of bytes and the width, as the loop of a varint needs them.
def Sound : Lead → Prop
  | .fixed count => 0 < count
  | .varint width limit => 0 < width ∧ 7*limit < width+7 ∧ width ≤ 7*limit

theorem lead_sound (read : TypedRead) : Sound read.lead := by
  cases read with
  | value kind => cases kind <;> simp [TypedRead.lead,Kind.lead,Sound]
  | stringF16 => simp [TypedRead.lead,Sound]
  | string kind => cases kind <;> simp [TypedRead.lead,Sound]

theorem first_pos {count : Lead} (sound : Sound count) : 0 < count.first := by
  cases count with
  | fixed count => exact sound
  | varint width limit => exact Nat.one_pos

theorem whole_first {count : Lead} (whole : count.Whole header) : count.first ≤ header.length := by
  cases count with
  | fixed count => exact Nat.le_of_eq whole.symm
  | varint width limit => exact whole.1.length_pos

theorem encodes_whole {count : Lead} (encodes : count.Encodes order header n) : count.Whole header := by
  cases count with
  | fixed count => rw [Lead.Whole,encodes.2,layout_length]
  | varint width limit => exact ⟨encodes.2.1,encodes.2.2.1⟩

theorem whole_unique {count : Lead} (one : count.Whole header) (two : count.Whole other)
    (same : header ++ rest = other ++ back) : header = other := by
  cases count with
  | fixed count => exact (List.append_inj same (one.trans two.symm)).1
  | varint width limit => exact one.1.unique two.1 same

theorem lead_short (valid : b.Valid) {count : Lead} (sound : Sound count) (short : b.unread.length < count.first) :
    lead count b = .error .outOfRange b := by
  cases count with
  | fixed count =>
      have failed : Reading.read count b = .error .outOfRange b := read_short valid short
      rw [lead,forget_unit,failed]
      rfl
  | varint width limit =>
      have empty : b.unread = [] := List.length_eq_zero_iff.mp (Nat.lt_one_iff.mp short)
      rw [lead,forget_unit,readVarint,if_pos sound.1,bind_error (readFuint8_empty valid empty)]
      rfl

-- With a byte to read, either a whole lead is read, or bytes are consumed that
-- are none.
theorem lead_cases (valid : b.Valid) {count : Lead} (sound : Sound count) (enough : count.first ≤ b.unread.length) :
    (∃ header rest after, b.unread = header ++ rest ∧ count.Whole header ∧ lead count b = .ok () after ∧
      Moved b after header.length) ∨
    ((∀ header rest, b.unread = header ++ rest → ¬count.Whole header) ∧
      ∃ left moved, 0 < moved ∧ Moved b left moved ∧
        (lead count b = .ok () left ∨ lead count b = .error .outOfRange left)) := by
  cases count with
  | fixed count =>
      have length : (b.unread.take count).length = count := by rw [List.length_take]; exact Nat.min_eq_left enough
      have some : b.unread.take count ≠ [] := by
        intro none
        rw [none] at length
        exact Nat.ne_of_lt sound length
      obtain ⟨after,done,moved⟩ := read_moved valid some (List.take_append_drop count b.unread).symm
      rw [length] at done
      refine .inl ⟨_,_,after,(List.take_append_drop count b.unread).symm,length,?_,moved⟩
      rw [lead,forget_unit,done]
      rfl
  | varint width limit =>
      obtain ⟨positive,room,full⟩ := sound
      have scanned := readVarint_scanned valid room full
      rw [lead,forget_unit]
      generalize readVarint width 0 0 b = result at scanned
      cases scanned with
      | @ended header rest after stream ended within moved =>
          exact .inl ⟨header,rest,after,stream,⟨ended,within⟩,rfl,moved⟩
      | @overlong header rest after stream continues length moved =>
          refine .inr ⟨?_,after,header.length,by omega,moved,.inl rfl⟩
          rintro other back stream' ⟨ended,within⟩
          exact overlong_none stream continues (Nat.le_of_eq length.symm) stream' ended within
      | @short left continues less moved =>
          refine .inr ⟨?_,left,b.unread.length,enough,moved,.inr rfl⟩
          rintro other back stream' ⟨ended,_⟩
          rw [stream'] at continues
          exact ended.broken continues

theorem value_complete (kind : Kind) :
    Complete (.value kind) b ↔ ∃ header rest, b.unread = header ++ rest ∧ kind.lead.Whole header := by
  constructor
  · rintro ⟨header,text,rest,stream,whole,rfl⟩
    exact ⟨header,rest,stream,whole⟩
  · rintro ⟨header,rest,stream,whole⟩
    exact ⟨header,[],rest,stream,whole,rfl⟩

theorem complete_lead (complete : Complete read b) :
    ∃ header rest, b.unread = header ++ rest ∧ read.lead.Whole header := by
  obtain ⟨header,text,rest,stream,holds⟩ := complete
  refine ⟨header,text ++ rest,stream,?_⟩
  unfold TypedRead.Holds at holds
  split at holds
  · exact encodes_whole holds
  · exact holds.1

-- A throw after the cursor has moved does not keep the state.
theorem moved_lost (moved : Moved b left count) (some : 0 < count)
    (failed : readTyped host maxSize read b = .error thrown left) : ¬Kept host maxSize read b := by
  intro kept
  have same := (kept.2 thrown left failed).1
  have position := moved.position
  omega

theorem returned_kept (done : readTyped host maxSize read b = .ok () after) :
    Kept host maxSize read b ↔ Complete read b := by
  rw [Kept,done]
  constructor
  · intro kept
    by_contra incomplete
    obtain ⟨left,thrown⟩ := kept.1.mpr incomplete
    cases thrown
  · intro complete
    exact ⟨⟨nofun,fun incomplete => absurd complete incomplete⟩,nofun⟩

theorem untouched_kept (failed : readTyped host maxSize read b = .error .outOfRange b) :
    Kept host maxSize read b ↔ ¬Complete read b := by
  rw [Kept,failed]
  constructor
  · exact fun kept => kept.1.mp ⟨b,rfl⟩
  · intro incomplete
    refine ⟨⟨fun _ => incomplete,fun _ => ⟨b,rfl⟩⟩,?_⟩
    intro thrown left same
    cases same
    exact ⟨rfl,rfl,rfl,rfl⟩

-- The length of a string, by the reader of its type.
def length (host : Endian) : TypedRead → Reading Nat
  | .value _ => return 0
  | .stringF16 => do return (← readFuint16 host).toNat
  | .string .f32 => do return (← readFuint32 host).toNat
  | .string .f64 => do return (← readFuint64 host).toNat
  | .string .vint => do return (← readUint64).toNat

theorem bind_return (x : Reading α) (f : α → β) (g : β → Reading γ) (b : ByteArray) :
    (do g (← (do return f (← x) : Reading β)) : Reading γ) b = (do g (f (← x)) : Reading γ) b := by
  cases done : x b with
  | ok value middle =>
      have inner : (do return f (← x) : Reading β) b = .ok (f value) middle := bind_ok done
      rw [bind_ok inner,bind_ok done]
  | error thrown left =>
      have inner : (do return f (← x) : Reading β) b = .error thrown left := bind_error done
      rw [bind_error inner,bind_error done]

theorem readTyped_string (string : read.isString = true) (host : Endian) (maxSize : Nat) (b : ByteArray) :
    readTyped host maxSize read b =
      forget ((do readText maxSize (← length host read) : Reading (List UInt8)) b) := by
  cases read with
  | value kind => cases string
  | stringF16 => rw [readTyped,forget_unit,length,bind_return]; rfl
  | string kind => cases kind <;> (rw [readTyped,forget_unit,length,bind_return]; rfl)

theorem length_lead (string : read.isString = true) (host : Endian) (b : ByteArray) :
    forget (length host read b) = lead read.lead b := by
  have fixed := readFixed_forget host
  cases read with
  | value kind => cases string
  | stringF16 => rw [length,forget_map]; exact (forget_map _ _ b).trans (fixed 2 b)
  | string kind =>
      cases kind with
      | f32 => rw [length,forget_map]; exact (forget_map _ _ b).trans (fixed 4 b)
      | f64 => rw [length,forget_map]; exact (forget_map _ _ b).trans (fixed 8 b)
      | vint => rw [length,forget_map]; exact (forget_map _ _ b).trans (forget_unit _ b).symm

-- A fixed-width length, narrowed to its type and taken as a number again.
theorem fixed_decoded (host : Endian) (narrow : Nat → α) (toNat : α → Nat) (exact_ : toNat (narrow n) = n)
    (valid : b.Valid) (positive : 0 < count) (small : n < 256^count)
    (stream : b.unread = layout b.endian count n ++ rest) :
    ∃ after, (do return toNat (← (do return narrow (← readFixed host count) : Reading α)) : Reading Nat) b =
      .ok n after := by
  obtain ⟨after,done,_⟩ := ByteArray.readFixed_yields host valid positive small stream
  have read := (readFixed_agrees host count b).1 n after done
  have inner : (do return narrow (← readFixed host count) : Reading α) b = .ok (narrow n) after := bind_ok read
  refine ⟨after,?_⟩
  rw [bind_ok inner,exact_]
  rfl

-- The length that is read is the one that the lead encodes.
theorem length_decoded (string : read.isString = true) (valid : b.Valid) (stream : b.unread = header ++ rest)
    (encodes : read.lead.Encodes b.endian header n) : ∃ after, length host read b = .ok n after := by
  cases read with
  | value kind => cases string
  | stringF16 =>
      obtain ⟨small,rfl⟩ := encodes
      have same : (UInt16.ofNat n).toNat = n := by
        rw [UInt16.toNat_ofNat',Nat.mod_eq_of_lt (show n < 2^16 from small)]
      exact fixed_decoded host UInt16.ofNat UInt16.toNat same valid (by decide) small stream
  | string kind =>
      cases kind with
      | f32 =>
          obtain ⟨small,rfl⟩ := encodes
          have same : (UInt32.ofNat n).toNat = n := by
            rw [UInt32.toNat_ofNat',Nat.mod_eq_of_lt (show n < 2^32 from small)]
          exact fixed_decoded host UInt32.ofNat UInt32.toNat same valid (by decide) small stream
      | f64 =>
          obtain ⟨small,rfl⟩ := encodes
          have same : (UInt64.ofNat n).toNat = n := by
            rw [UInt64.toNat_ofNat',Nat.mod_eq_of_lt (show n < 2^64 from small)]
          exact fixed_decoded host UInt64.ofNat UInt64.toNat same valid (by decide) small stream
      | vint =>
          obtain ⟨small,ended,within,rfl⟩ := encodes
          obtain ⟨after,done,_⟩ := readVarint_ended valid ended stream (show 0+7*header.length < 64+7 by omega)
            (Nat.two_pow_pos 0) (Nat.two_pow_pos 64)
          rw [Nat.zero_add,Nat.pow_zero,Nat.one_mul,Nat.mod_eq_of_lt small] at done
          refine ⟨after,?_⟩
          have inner : readUint64 b = .ok (UInt64.ofNat (value header)) after := bind_ok done
          rw [length,bind_ok inner,UInt64.toNat_ofNat',Nat.mod_eq_of_lt small]
          rfl

-- What decides about the text: it fits into a string, it is there, and for an
-- empty one there is a node to look at.
def Readable (maxSize : Nat) (middle : ByteArray) (len : Nat) : Prop :=
  len ≤ maxSize ∧ len ≤ middle.unread.length ∧ (len = 0 → middle.position < middle.capacity)

theorem readText_readable (valid : middle.Valid) (readable : Readable maxSize middle len) :
    ∃ after, forget (readText maxSize len middle) = .ok () after := by
  obtain ⟨fits,there,node⟩ := readable
  have sized : resize maxSize len middle = .ok () middle := by
    rw [resize,if_neg (Nat.not_lt.mpr fits)]
    rfl
  rw [readText,bind_ok sized,Reading.read]
  rcases Nat.eq_zero_or_pos len with rfl | asked
  · rw [ByteArray.read_none valid,if_neg (Nat.ne_of_lt (node rfl))]
    exact ⟨middle,rfl⟩
  · rw [unread_length valid] at there
    obtain ⟨after,done,_⟩ := ByteArray.read_spec valid len asked there
    rw [done]
    exact ⟨after,rfl⟩

theorem readText_unreadable (valid : middle.Valid) (unreadable : ¬Readable maxSize middle len) :
    ∃ thrown, forget (readText maxSize len middle) = .error thrown middle := by
  by_cases fits : len ≤ maxSize
  · have sized : resize maxSize len middle = .ok () middle := by
      rw [resize,if_neg (Nat.not_lt.mpr fits)]
      rfl
    rw [readText,bind_ok sized,Reading.read]
    by_cases there : len ≤ middle.unread.length
    · have order := valid.position
      have bound := valid.size
      have empty : len = 0 ∧ middle.position = middle.capacity := by
        by_contra other
        refine unreadable ⟨fits,there,fun none => ?_⟩
        have apart : middle.position ≠ middle.capacity := fun same => other ⟨none,same⟩
        omega
      rw [empty.1,ByteArray.read_none valid,if_pos empty.2]
      exact ⟨_,rfl⟩
    · rw [unread_length valid] at there
      rw [ByteArray.read,if_pos (Nat.lt_of_not_le there)]
      exact ⟨_,rfl⟩
  · have refused : resize maxSize len middle = .error .lengthError middle := by
      rw [resize,if_pos (Nat.lt_of_not_le fits)]
      rfl
    rw [readText,bind_error refused]
    exact ⟨_,rfl⟩

theorem safe_enough (enough : read.lead.first ≤ b.unread.length) :
    Safe maxSize read b ↔ ∃ header text rest, b.unread = header ++ (text ++ rest) ∧
      read.Holds b.endian header text ∧
      (read.isString = true → text.length ≤ maxSize ∧ (text = [] → b.position+header.length < b.capacity)) :=
  or_iff_right (Nat.not_lt.mpr enough)

-- With a lead that is whole, the rest is up to the text.
theorem string_kept (string : read.isString = true) (enough : read.lead.first ≤ b.unread.length)
    (stream : b.unread = header ++ rest) (whole : read.lead.Whole header) (valid : b.Valid)
    (done : length host read b = .ok len middle) (moved : Moved b middle header.length) (some : 0 < header.length) :
    Kept host maxSize read b ↔ Safe maxSize read b := by
  have run : readTyped host maxSize read b = forget (readText maxSize len middle) := by
    rw [readTyped_string string,bind_ok done]
  have decoded : ∀ other text back, b.unread = other ++ (text ++ back) → read.Holds b.endian other text →
      other = header ∧ text.length = len := by
    intro other text back stream' holds
    rw [TypedRead.Holds,if_pos string] at holds
    obtain ⟨after,again⟩ := length_decoded string valid stream' holds
    rw [done] at again
    cases again
    exact ⟨whole_unique (encodes_whole holds) whole (stream'.symm.trans stream),rfl⟩
  rw [safe_enough enough]
  by_cases readable : Readable maxSize middle len
  · obtain ⟨after,read⟩ := readText_readable moved.valid readable
    rw [returned_kept (run.trans read)]
    constructor
    · rintro ⟨other,text,back,stream',holds⟩
      obtain ⟨rfl,size⟩ := decoded other text back stream' holds
      refine ⟨other,text,back,stream',holds,fun _ => ⟨by rw [size]; exact readable.1,?_⟩⟩
      rintro rfl
      have node := readable.2.2 size.symm
      rw [moved.position,moved.capacity] at node
      exact node
    · rintro ⟨other,text,back,stream',holds,_⟩
      exact ⟨other,text,back,stream',holds⟩
  · obtain ⟨thrown,failed⟩ := readText_unreadable moved.valid readable
    refine iff_of_false (moved_lost moved some (run.trans failed)) ?_
    rintro ⟨other,text,back,stream',holds,fits⟩
    obtain ⟨rfl,size⟩ := decoded other text back stream' holds
    obtain ⟨least,node⟩ := fits string
    refine readable ⟨by rw [←size]; exact least,?_,?_⟩
    · rw [moved.unread,stream',List.drop_left,List.length_append,size]
      exact Nat.le_add_right _ _
    · intro none
      rw [moved.position,moved.capacity]
      exact node (List.length_eq_zero_iff.mp (size.trans none))

theorem value_run (host : Endian) (maxSize : Nat) (kind : Kind) (b : ByteArray) :
    readTyped host maxSize (.value kind) b = lead kind.lead b := by
  rw [readTyped,forget_unit,readValue_forget]

theorem length_returned (string : read.isString = true) (host : Endian) (returned : lead read.lead b = .ok () after) :
    ∃ len, length host read b = .ok len after := by
  have same := length_lead string host b
  rw [returned] at same
  cases done : length host read b with
  | error thrown last => rw [done] at same; cases same
  | ok len last => rw [done] at same; cases same; exact ⟨len,rfl⟩

theorem lead_thrown (host : Endian) (maxSize : Nat) (failed : lead read.lead b = .error thrown left) :
    readTyped host maxSize read b = .error thrown left := by
  cases string : read.isString with
  | false =>
      cases read with
      | value kind => exact (value_run host maxSize kind b).trans failed
      | stringF16 | string => cases string
  | true =>
      have same := length_lead string host b
      rw [failed] at same
      rw [readTyped_string string]
      cases done : length host read b with
      | ok len last => rw [done] at same; cases same
      | error other last => rw [done] at same; cases same; rw [bind_error done]; rfl

-- Bytes that are consumed and are no lead lose the state or return a value
-- that is not there.
theorem broken_lost (consumed : Moved b left count) (some : 0 < count) (incomplete : ¬Complete read b)
    (ran : lead read.lead b = .ok () left ∨ lead read.lead b = .error .outOfRange left) :
    ¬Kept host maxSize read b := by
  rcases ran with returned | failed
  · cases string : read.isString with
    | false =>
        cases read with
        | value kind =>
            rw [returned_kept ((value_run host maxSize kind b).trans returned)]
            exact incomplete
        | stringF16 | string => cases string
    | true =>
        obtain ⟨len,done⟩ := length_returned string host returned
        have run := readTyped_string string host maxSize b
        rw [bind_ok done] at run
        by_cases readable : Readable maxSize left len
        · obtain ⟨after,text⟩ := readText_readable consumed.valid readable
          rw [returned_kept (run.trans text)]
          exact incomplete
        · obtain ⟨thrown,refused⟩ := readText_unreadable consumed.valid readable
          exact moved_lost consumed some (run.trans refused)
  · exact moved_lost consumed some (lead_thrown host maxSize failed)

theorem typed_exactly (host : Endian) (maxSize : Nat) (path : Reached ByteArray.next anyStep ByteArray.Start b)
    (read : TypedRead) : Kept host maxSize read b ↔ Safe maxSize read b := by
  have valid := ByteArray.reached_valid path
  have sound := lead_sound read
  by_cases short : b.unread.length < read.lead.first
  · rw [untouched_kept (lead_thrown host maxSize (lead_short valid sound short))]
    refine iff_of_true ?_ (.inl short)
    intro complete
    obtain ⟨header,rest,stream,whole⟩ := complete_lead complete
    have least := whole_first whole
    rw [stream,List.length_append] at short
    omega
  · have enough := Nat.le_of_not_lt short
    rcases lead_cases valid sound enough with ⟨header,rest,after,stream,whole,returned,moved⟩ |
      ⟨none,left,count,some,moved,ran⟩
    · cases string : read.isString with
      | true =>
          obtain ⟨len,done⟩ := length_returned string host returned
          exact string_kept string enough stream whole valid done moved
            (Nat.lt_of_lt_of_le (first_pos sound) (whole_first whole))
      | false =>
          cases read with
          | value kind =>
              rw [returned_kept ((value_run host maxSize kind b).trans returned)]
              exact iff_of_true ((value_complete kind).mpr ⟨header,rest,stream,whole⟩)
                (.inr ⟨header,[],rest,stream,⟨whole,rfl⟩,nofun⟩)
          | stringF16 | string => cases string
    · have incomplete : ¬Complete read b := by
        intro complete
        obtain ⟨header,rest,stream,whole⟩ := complete_lead complete
        exact none header rest stream whole
      refine iff_of_false (broken_lost moved some incomplete ran) ?_
      rw [safe_enough enough]
      rintro ⟨header,text,rest,stream,holds,_⟩
      exact incomplete ⟨header,text,rest,stream,holds⟩

-- For the reads of a fixed width there is nothing to ask.
theorem fixed_safe (maxSize : Nat) (b : ByteArray) (kind : Kind) (fixed : kind.lead = .fixed count) :
    Safe maxSize (.value kind) b := by
  by_cases short : b.unread.length < kind.lead.first
  · exact .inl short
  · refine .inr ⟨b.unread.take count,[],b.unread.drop count,(List.take_append_drop count b.unread).symm,⟨?_,rfl⟩,nofun⟩
    rw [fixed] at short
    rw [TypedRead.lead,fixed,Lead.Whole,List.length_take]
    exact Nat.min_eq_left (Nat.le_of_not_lt short)

theorem typed_exactly_word : Kept .little 100 (.string .vint) (holding [2,97,98,7]) ↔
    Safe 100 (.string .vint) (holding [2,97,98,7]) :=
  typed_exactly .little 100 (holding_reached _ rfl) (.string .vint)

-- A length of two and one byte behind it.
theorem typed_lost : ¬∀ (host : Endian) (maxSize : Nat) (b : ByteArray) (read : TypedRead),
    Reached ByteArray.next anyStep ByteArray.Start b → Kept host maxSize read b := by
  intro kept
  have path : Reached ByteArray.next anyStep ByteArray.Start (holding [0,2,97]) := holding_reached _ rfl
  have thrown : readTyped .little 100 .stringF16 (holding [0,2,97]) =
      .error .outOfRange {holding [0,2,97] with position := 2} := by rfl
  have position := ((kept .little 100 _ .stringF16 path).2 _ _ thrown).1
  cases position

end Reading
end Fishjoy
