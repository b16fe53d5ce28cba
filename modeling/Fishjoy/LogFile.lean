import Fishjoy.Foundation.Transition
import Mathlib.Algebra.Ring.Nat
import Mathlib.Data.Int.DivMod

namespace Fishjoy

inductive FileWriterType where
  | MMAPFILE
  | APPENDFILE
  deriving DecidableEq

-- `m_written` is the length of the content. Only a mapped file has a size, and only there
-- does the source set `m_written` at first: in an `APPENDFILE` it counts on from whatever
-- value is there, which is 0 here.
structure FileWriter where
  type : FileWriterType
  memSize : Int
  content : List UInt8
  deriving DecidableEq

namespace FileWriter

-- Opening and mapping succeed. The size is stored in an `int32_t`.
def new (type : FileWriterType) (rollSize : UInt32) : FileWriter := ⟨type,rollSize.toInt32.toInt,[]⟩

def writtenBytes (w : FileWriter) : Nat := w.content.length

def append (w : FileWriter) (msg : List UInt8) : FileWriter :=
  match w.type with
  | .MMAPFILE => if msg.length > w.memSize-w.writtenBytes then w else {w with content := w.content ++ msg}
  | .APPENDFILE => {w with content := w.content ++ msg}

end FileWriter

-- `closed` are the contents of the files before `file`.
structure LogFile where
  rollSize : UInt32
  flushInterval : UInt32
  checkFreqCount : UInt32
  count : UInt32
  startOfPeriod : Int
  lastRoll : Int
  lastFlush : Int
  file : FileWriter
  fileWriterType : FileWriterType
  closed : List (List UInt8)
  deriving DecidableEq

namespace LogFile
open Transition

def kRollPerSeconds : Int := 60*60*24

def periodOf (now : Int) : Int := now.tdiv kRollPerSeconds*kRollPerSeconds

-- `now` is also the time that `getLogFileName` gives, and its name is fresh.
def rollFile (s : LogFile) (now : Int) : LogFile :=
  if now > s.lastRoll then
    {s with
      lastRoll := now
      lastFlush := now
      startOfPeriod := periodOf now
      closed := s.closed ++ [s.file.content]
      file := .new s.fileWriterType s.rollSize}
  else s

-- The part of `append` behind the writer.
def check (s : LogFile) (now : Int) : LogFile :=
  if s.file.writtenBytes > s.rollSize.toNat then s.rollFile now
  else
    let s := {s with count := s.count+1}
    if s.count ≥ s.checkFreqCount then
      let s := {s with count := 0}
      if periodOf now ≠ s.startOfPeriod then s.rollFile now
      else if now-s.lastFlush > s.flushInterval.toNat then {s with lastFlush := now}
      else s
    else s

structure Call where
  now : Int
  msg : List UInt8

def append (s : LogFile) (call : Call) : LogFile := check {s with file := s.file.append call.msg} call.now

def appendAll (s : LogFile) (calls : List Call) : LogFile := calls.foldl append s

def next (s : LogFile) (call : Call) : Option LogFile := some (s.append call)

def stored (s : LogFile) : List UInt8 := s.closed.flatten ++ s.file.content

-- A file is open and mapped.
structure Opened (s : LogFile) : Prop where
  writer : s.fileWriterType = .MMAPFILE
  mapped : s.rollSize.toNat < 2^31
  type : s.file.type = .MMAPFILE
  size : s.file.memSize = s.rollSize.toNat
  room : s.file.writtenBytes ≤ s.rollSize.toNat

-- The message is no longer than what is left of the file.
def Fits (s : LogFile) (call : Call) : Prop := s.file.writtenBytes+call.msg.length ≤ s.rollSize.toNat

def total : List Call → Nat
  | [] => 0
  | call :: rest => call.msg.length+total rest

variable {s : LogFile} {call : Call} {calls : List Call}

theorem rollFile_stored (s : LogFile) (now : Int) : (s.rollFile now).stored = s.stored := by
  unfold rollFile
  split
  · simp [stored,FileWriter.new]
  · rfl

theorem check_stored (s : LogFile) (now : Int) : (s.check now).stored = s.stored := by
  unfold check
  split
  · exact rollFile_stored s now
  · dsimp only
    split
    · split
      · exact rollFile_stored _ now
      · split <;> rfl
    · rfl

theorem new_size (mapped : s.rollSize.toNat < 2^31) (type : FileWriterType) :
    (FileWriter.new type s.rollSize).memSize = s.rollSize.toNat := by
  have small : s.rollSize.toInt32.toInt = Int.bmod s.rollSize.toNat (2^32) := BitVec.toInt_eq_toNat_bmod _
  rw [FileWriter.new,small,Int.bmod_eq_of_le (by omega) (by omega)]

theorem rollFile_opened (opened : Opened s) (now : Int) : Opened (s.rollFile now) := by
  unfold rollFile
  split
  · exact ⟨opened.writer,opened.mapped,opened.writer,new_size opened.mapped _,Nat.zero_le _⟩
  · exact opened

theorem check_opened (opened : Opened s) (now : Int) : Opened (s.check now) := by
  have counted (count : UInt32) (lastFlush : Int) : Opened {s with count := count,lastFlush := lastFlush} :=
    ⟨opened.writer,opened.mapped,opened.type,opened.size,opened.room⟩
  unfold check
  split
  · exact rollFile_opened opened now
  · dsimp only
    split
    · split
      · exact rollFile_opened (counted 0 s.lastFlush) now
      · split
        · exact counted 0 now
        · exact counted 0 s.lastFlush
    · exact counted (s.count+1) s.lastFlush

theorem written_append (opened : Opened s) (call : Call) : s.file.append call.msg =
    if s.file.writtenBytes+call.msg.length ≤ s.rollSize.toNat then {s.file with content := s.file.content ++ call.msg}
    else s.file := by
  have size := opened.size
  simp only [FileWriter.append,opened.type]
  by_cases fits : s.file.writtenBytes+call.msg.length ≤ s.rollSize.toNat
  · rw [if_pos fits,if_neg (by omega)]
  · rw [if_neg fits,if_pos (by omega)]

theorem append_fits (opened : Opened s) (fits : Fits s call) :
    Opened (s.append call) ∧ (s.append call).stored = s.stored ++ call.msg := by
  have written := (written_append opened call).trans (if_pos fits)
  have after : Opened {s with file := {s.file with content := s.file.content ++ call.msg}} := by
    refine ⟨opened.writer,opened.mapped,opened.type,opened.size,?_⟩
    simpa [FileWriter.writtenBytes,Fits] using fits
  unfold append
  rw [check_stored,written]
  exact ⟨check_opened after call.now,by simp [stored]⟩

-- A message that does not fit is not stored, and it is not empty.
theorem append_refused (opened : Opened s) (refused : ¬Fits s call) :
    Opened (s.append call) ∧ (s.append call).stored = s.stored ∧ 0 < call.msg.length := by
  have written := (written_append opened call).trans (if_neg refused)
  have room := opened.room
  unfold append
  rw [check_stored,written]
  refine ⟨check_opened opened call.now,rfl,?_⟩
  unfold Fits at refused
  omega

theorem stored_length (opened : Opened s) (calls : List Call) :
    (s.appendAll calls).stored.length ≤ s.stored.length+total calls := by
  induction calls generalizing s with
  | nil => exact Nat.le_refl _
  | cons call rest ih =>
      have whole : total (call :: rest) = call.msg.length+total rest := rfl
      rw [appendAll,List.foldl_cons,←appendAll,whole]
      by_cases fits : Fits s call
      · obtain ⟨after,here⟩ := append_fits opened fits
        have later := ih after
        rw [here,List.length_append] at later
        omega
      · obtain ⟨after,here,_⟩ := append_refused opened fits
        have later := ih after
        rw [here] at later
        omega

theorem flatMap_total (calls : List Call) : (calls.flatMap Call.msg).length = total calls := by
  induction calls with
  | nil => rfl
  | cons call rest ih => rw [List.flatMap_cons,List.length_append,ih,total]

theorem appendAll_stored (opened : Opened s) (calls : List Call) :
    (s.appendAll calls).stored = s.stored ++ calls.flatMap Call.msg ↔ Along next Fits s calls := by
  induction calls generalizing s with
  | nil => simp [appendAll,Along]
  | cons call rest ih =>
      have along : Along next Fits s (call :: rest) ↔ Fits s call ∧ Along next Fits (s.append call) rest :=
        and_congr_right fun _ => ⟨fun later => later _ rfl,fun later t same => by cases same; exact later⟩
      rw [along,appendAll,List.foldl_cons,←appendAll]
      by_cases fits : Fits s call
      · obtain ⟨after,here⟩ := append_fits opened fits
        rw [List.flatMap_cons,←List.append_assoc,←here,ih after]
        exact (and_iff_right fits).symm
      · obtain ⟨after,here,filled⟩ := append_refused opened fits
        refine iff_of_false ?_ fun both => fits both.1
        intro same
        have least := stored_length after rest
        have lengths := congrArg List.length same
        rw [List.length_append,flatMap_total] at lengths
        have whole : total (call :: rest) = call.msg.length+total rest := rfl
        rw [here] at least
        omega

-- Within its day a mapped file is never left.
theorem check_file (room : s.file.writtenBytes ≤ s.rollSize.toNat) (day : periodOf now = s.startOfPeriod) :
    (s.check now).file = s.file ∧ (s.check now).rollSize = s.rollSize ∧
      (s.check now).startOfPeriod = s.startOfPeriod := by
  unfold check
  rw [if_neg (Nat.not_lt.mpr room)]
  dsimp only
  split
  · rw [if_neg fun other => other day]
    split <;> exact ⟨rfl,rfl,rfl⟩
  · exact ⟨rfl,rfl,rfl⟩

theorem fits_in_day (opened : Opened s) (calls : List Call)
    (day : ∀ call ∈ calls, periodOf call.now = s.startOfPeriod) :
    Along next Fits s calls ↔ s.file.writtenBytes+total calls ≤ s.rollSize.toNat := by
  induction calls generalizing s with
  | nil => exact iff_of_true trivial opened.room
  | cons call rest ih =>
      have whole : total (call :: rest) = call.msg.length+total rest := rfl
      by_cases fits : Fits s call
      · obtain ⟨after,_⟩ := append_fits opened fits
        have content := (written_append opened call).trans (if_pos fits)
        have room : (s.file.append call.msg).writtenBytes = s.file.writtenBytes+call.msg.length := by
          rw [content]
          exact List.length_append
        obtain ⟨file,rollSize,start⟩ := check_file (s := {s with file := s.file.append call.msg})
          (Nat.le_trans (Nat.le_of_eq room) fits) (day call (.head _))
        have later := ih after fun other member => (day other (.tail _ member)).trans start.symm
        have written : (s.append call).file.writtenBytes = s.file.writtenBytes+call.msg.length :=
          (congrArg FileWriter.writtenBytes file).trans room
        have same : (s.append call).rollSize = s.rollSize := rollSize
        rw [written,same] at later
        rw [whole,←Nat.add_assoc,←later]
        exact ⟨fun both => both.2 _ rfl,fun tail => ⟨fits,fun t moved => by cases moved; exact tail⟩⟩
      · refine iff_of_false (fun both => fits both.1) ?_
        unfold Fits at fits
        omega

theorem stored_exactly (s : LogFile) (opened : Opened s) (calls : List Call) :
    ((s.appendAll calls).stored = s.stored ++ calls.flatMap Call.msg ↔ Along next Fits s calls) ∧
      ((∀ call ∈ calls, periodOf call.now = s.startOfPeriod) →
        (Along next Fits s calls ↔ s.file.writtenBytes+total calls ≤ s.rollSize.toNat)) :=
  ⟨appendAll_stored opened calls,fits_in_day opened calls⟩

-- A file of eight bytes that is open since the first second of the day.
def eight : LogFile := ⟨8,3,1024,0,0,1,1,.new .MMAPFILE 8,.MMAPFILE,[]⟩

theorem eight_opened : Opened eight := ⟨rfl,by decide,rfl,by decide,by decide⟩

theorem stored_exactly_eight : (eight.appendAll [⟨2,[1,2,3]⟩,⟨3,[4,5,6,7,8]⟩]).stored = [1,2,3,4,5,6,7,8] := by
  obtain ⟨all,day⟩ := stored_exactly eight eight_opened [⟨2,[1,2,3]⟩,⟨3,[4,5,6,7,8]⟩]
  exact all.mpr ((day (by decide)).mpr (by decide))

theorem third_message_lost : ¬∀ (s : LogFile) (calls : List Call), Opened s →
    calls.Pairwise (fun earlier later => earlier.now < later.now) →
    (∀ call ∈ calls, periodOf call.now = s.startOfPeriod ∧ call.msg.length ≤ s.rollSize.toNat) →
    (s.appendAll calls).stored = s.stored ++ calls.flatMap Call.msg := by
  intro always
  have all := always eight [⟨2,[1,2,3]⟩,⟨3,[4,5,6]⟩,⟨4,[7,8,9]⟩] eight_opened (by decide) (by decide)
  exact absurd all (by decide)

end LogFile
end Fishjoy
