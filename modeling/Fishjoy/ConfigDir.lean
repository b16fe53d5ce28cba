import Fishjoy.FileList
import Fishjoy.Foundation.Transition
import Fishjoy.UrlCodec
import Mathlib.Logic.Function.Basic

namespace Fishjoy.ConfigDir
open Transition Places FSUtil EnvMgr

-- The disk, the table of modification times under the texts of the paths, and as
-- history what was last loaded under each of them and the directory that no change
-- of the disk has followed since.
structure State (Content : Type) where
  kernel : Kernel
  tree : FileTree FileName
  st_mtime : Place FileName → UInt64
  content : Place FileName → Content
  s_file2modifytime : Str → UInt64
  applied : Str → Option Content
  loaded : Option Str

inductive Action (Content : Type) where
  | change (kernel : Kernel) (tree : FileTree FileName) (st_mtime : Place FileName → UInt64)
      (content : Place FileName → Content)
  | LoadFromDir (path : Str) (force : Bool)

section Functions
variable {Content : Type} (env : Env) (loads : Content → Bool)

def State.initial (kernel : Kernel) (content : Content) : State Content :=
  ⟨kernel,⟨[],.nil,fun _ _ _ member => nomatch member⟩,fun _ => 0,fun _ => content,fun _ => 0,fun _ => none,none⟩

-- Where `lstat` and `LoadFile` find a file. What is listed is somewhere.
def located (s : State Content) (file : Str) : Place FileName := (resolve s.kernel.cwd s.tree file).getD []

-- One round of the loop; a file that cannot be loaded is only logged.
def loadFile (force : Bool) (s : State Content) (i : Str) : State Content :=
  let st_mtime := s.st_mtime (located s i)
  if !force && s.s_file2modifytime i = st_mtime then s
  else
    let s := {s with s_file2modifytime := Function.update s.s_file2modifytime i st_mtime}
    let content := s.content (located s i)
    if loads content then {s with applied := Function.update s.applied i (some content)} else s

def LoadFromDir (s : State Content) (path : Str) (force : Bool) : Option (State Content) :=
  (ListAllFile s.kernel s.tree (env.getAbsolutePath path) (text ".yml")).map fun files =>
    {files.foldl (loadFile loads force) s with loaded := some path}

def next (s : State Content) : Action Content → Option (State Content)
  | .change kernel tree st_mtime content => some {s with kernel, tree, st_mtime, content, loaded := none}
  | .LoadFromDir path force => LoadFromDir env loads s path force

-- The files that are found under a path, with what is known of each.
def Under (s : State Content) (path file : Str) : Prop :=
  ∃ place rest, resolve s.kernel.cwd s.tree (env.getAbsolutePath path) = some place ∧
    file = below (env.getAbsolutePath path) rest ∧
    Lists s.kernel s.tree (text ".yml") (env.getAbsolutePath path) place rest

def Applied (s : State Content) (file : Str) : Prop := s.applied file = some (s.content (located s file))

def Due (s : State Content) (file : Str) : Prop := s.s_file2modifytime file ≠ s.st_mtime (located s file)

-- What is not loaded as it is will be by the next load, and behind a load
-- everything is.
structure Current (s : State Content) : Prop where
  due : ∀ path file, Under env s path file → Applied s file ∨ Due s file
  applied : ∀ path, s.loaded = some path → ∀ file, Under env s path file → Applied s file

-- A change shows in the modification time, which a first one is not zero for; and
-- what is loaded can be loaded.
def Kept (s : State Content) : Action Content → Prop
  | .change kernel tree st_mtime content =>
    let t := {s with kernel, tree, st_mtime, content}
    ∀ path file, Under env t path file → Applied t file ∨ Due t file
  | .LoadFromDir path force => ∀ file, Under env s path file → force = true ∨ Due s file →
    loads (s.content (located s file)) = true

end Functions

section Steps
variable {Content : Type} {env : Env} {loads : Content → Bool} {s t : State Content} {path file : Str} {force : Bool}

-- A found file is where its text leads, under whatever path it was found.
theorem Under.found (under : Under env s path file) :
    resolve s.kernel.cwd s.tree file = some (located s file) ∧ s.tree.find (located s file) = some .regular := by
  obtain ⟨place,rest,led,rfl,lists⟩ := under
  have led := lists.led led
  rw [located,led]
  exact ⟨rfl,lists.file⟩

theorem located_same (kernel : t.kernel = s.kernel) (tree : t.tree = s.tree) (file : Str) : located t file = located s file := by
  rw [located,located,kernel,tree]

-- What the loop leaves of one file.
structure Visited (loads : Content → Bool) (s t : State Content) (force : Bool) (files : List Str) : Prop where
  kernel : t.kernel = s.kernel
  tree : t.tree = s.tree
  times : t.st_mtime = s.st_mtime
  contents : t.content = s.content
  others : ∀ file, file ∉ files → t.s_file2modifytime file = s.s_file2modifytime file ∧ t.applied file = s.applied file
  skipped : ∀ file ∈ files, ¬(force = true ∨ Due s file) → t.applied file = s.applied file
  loaded : ∀ file ∈ files, force = true ∨ Due s file →
    t.applied file = if loads (s.content (located s file)) then some (s.content (located s file)) else s.applied file

theorem loadFile_visits (loads : Content → Bool) (s : State Content) (force : Bool) (i : Str) :
    Visited loads s (loadFile loads force s i) force [i] := by
  unfold loadFile
  dsimp only
  split
  · rename_i skip
    rw [Bool.and_eq_true,Bool.not_eq_true',decide_eq_true_iff] at skip
    have idle : ¬(force = true ∨ Due s i) := by
      rintro (forced | due)
      · rw [skip.1] at forced
        cases forced
      · exact due skip.2
    refine ⟨rfl,rfl,rfl,rfl,fun _ _ => ⟨rfl,rfl⟩,fun _ _ _ => rfl,fun file member due => ?_⟩
    rw [List.mem_singleton.mp member] at due
    exact absurd due idle
  · rename_i enabled
    rw [Bool.and_eq_true,Bool.not_eq_true',decide_eq_true_iff,not_and_or,Bool.not_eq_false] at enabled
    split
    · rename_i good
      refine ⟨rfl,rfl,rfl,rfl,fun file other => ?_,fun file member idle => ?_,fun file member _ => ?_⟩
      · have apart : file ≠ i := fun same => other (List.mem_singleton.mpr same)
        exact ⟨Function.update_of_ne apart _ _,Function.update_of_ne apart _ _⟩
      · rw [List.mem_singleton.mp member] at idle
        exact absurd enabled idle
      · rw [List.mem_singleton.mp member]
        exact (Function.update_self _ _ _).trans (if_pos good).symm
    · rename_i bad
      refine ⟨rfl,rfl,rfl,rfl,fun file other => ?_,fun file member idle => rfl,fun file member _ => ?_⟩
      · have apart : file ≠ i := fun same => other (List.mem_singleton.mpr same)
        exact ⟨Function.update_of_ne apart _ _,rfl⟩
      · rw [List.mem_singleton.mp member]
        exact (if_neg bad).symm

theorem loadFiles_visit (loads : Content → Bool) (s : State Content) (force : Bool) (files : List Str)
    (once : files.Nodup) : Visited loads s (files.foldl (loadFile loads force) s) force files := by
  induction files generalizing s with
  | nil => exact ⟨rfl,rfl,rfl,rfl,fun _ _ => ⟨rfl,rfl⟩,nofun,nofun⟩
  | cons i rest ih =>
      obtain ⟨fresh,once⟩ := List.nodup_cons.mp once
      have first := loadFile_visits loads s force i
      have later := ih (loadFile loads force s i) once
      have here (file : Str) := located_same first.kernel first.tree file
      have before : ∀ file ∈ rest, (Due (loadFile loads force s i) file ↔ Due s file) := by
        intro file member
        have apart : file ∉ [i] := fun same => fresh (List.mem_singleton.mp same ▸ member)
        rw [Due,Due,here,first.times,(first.others file apart).1]
      refine ⟨later.kernel.trans first.kernel,later.tree.trans first.tree,later.times.trans first.times,
        later.contents.trans first.contents,fun file other => ?_,?_,?_⟩
      · obtain ⟨seen,kept⟩ := later.others file fun member => other (.tail _ member)
        obtain ⟨seen',kept'⟩ := first.others file fun member => other (List.mem_singleton.mp member ▸ .head _)
        exact ⟨seen.trans seen',kept.trans kept'⟩
      · intro file member idle
        rcases List.mem_cons.mp member with rfl | after
        · exact (later.others file fresh).2.trans (first.skipped file (.head _) idle)
        · have apart : file ∉ [i] := fun same => fresh (List.mem_singleton.mp same ▸ after)
          rw [←before file after] at idle
          exact (later.skipped file after idle).trans (first.others file apart).2
      · intro file member due
        rcases List.mem_cons.mp member with rfl | after
        · exact (later.others file fresh).2.trans (first.loaded file (.head _) due)
        · have apart : file ∉ [i] := fun same => fresh (List.mem_singleton.mp same ▸ after)
          rw [←before file after] at due
          rw [List.foldl_cons,later.loaded file after due,here,first.contents,(first.others file apart).2]

-- What a whole call does, with the files it finds.
theorem LoadFromDir_visits (moved : LoadFromDir env loads s path force = some t) : ∃ files,
    (∀ file, file ∈ files ↔ Under env s path file) ∧ Visited loads s t force files ∧ t.loaded = some path := by
  obtain ⟨files,found,rfl⟩ := Option.map_eq_some_iff.mp moved
  obtain ⟨_,same,once,exactly⟩ := listAll s.kernel s.tree (env.getAbsolutePath path) (text ".yml")
  rw [found] at same
  cases same
  obtain ⟨kernel,tree,times,contents,others,skipped,loaded⟩ := loadFiles_visit loads s force files once
  exact ⟨files,exactly,⟨kernel,tree,times,contents,others,skipped,loaded⟩,rfl⟩

-- Only what could be loaded has been.
def Passed (loads : Content → Bool) (s : State Content) : Prop := ∀ file c, s.applied file = some c → loads c = true

theorem Visited.passed {files : List Str} (visited : Visited loads s t force files)
    (passed : Passed loads s) : Passed loads t := by
  intro file c found
  by_cases member : file ∈ files
  · by_cases due : force = true ∨ Due s file
    · rw [visited.loaded file member due] at found
      split at found
      · cases found
        assumption
      · exact passed file c found
    · rw [visited.skipped file member due] at found
      exact passed file c found
  · rw [(visited.others file member).2] at found
    exact passed file c found

theorem step_passed (passed : Passed loads s) (a : Action Content) (moved : next env loads s a = some t) :
    Passed loads t := by
  cases a with
  | change kernel tree st_mtime content =>
      cases moved
      exact passed
  | LoadFromDir path force =>
      obtain ⟨files,_,visited,_⟩ := LoadFromDir_visits moved
      exact visited.passed passed

-- Behind a load that goes through, the files of the directory are as they are on the disk.
theorem load_applied (current : Current env s) {files : List Str}
    (found : ∀ file, file ∈ files ↔ Under env s path file) (visited : Visited loads s t force files)
    (kept : Kept env loads s (.LoadFromDir path force)) (under : Under env s path file) : Applied t file := by
  have member := (found file).mpr under
  rw [Applied,located_same visited.kernel visited.tree,visited.contents]
  by_cases due : force = true ∨ Due s file
  · rw [visited.loaded file member due,if_pos (kept file under due)]
  · rw [visited.skipped file member due]
    rcases current.due path file under with applied | late
    · exact applied
    · exact absurd (.inr late) due

theorem under_same (kernel : t.kernel = s.kernel) (tree : t.tree = s.tree) :
    Under env t path file ↔ Under env s path file := by
  rw [Under,Under,kernel,tree]

theorem load_current (current : Current env s) (moved : LoadFromDir env loads s path force = some t)
    (kept : Kept env loads s (.LoadFromDir path force)) : Current env t := by
  obtain ⟨files,found,visited,last⟩ := LoadFromDir_visits moved
  have here (other file : Str) : Under env t other file ↔ Under env s other file :=
    under_same visited.kernel visited.tree
  constructor
  · intro other file under
    have before := (here other file).mp under
    by_cases member : file ∈ files
    · exact .inl (load_applied current found visited kept ((found file).mp member))
    · obtain ⟨seen,same⟩ := visited.others file member
      rw [Applied,Due,same,seen,located_same visited.kernel visited.tree,visited.times,visited.contents]
      exact current.due other file before
  · intro other same file under
    rw [last] at same
    cases same
    exact load_applied current found visited kept ((here path file).mp under)

theorem load_kept (passed : Passed loads s) (moved : LoadFromDir env loads s path force = some t)
    (current : Current env t) : Kept env loads s (.LoadFromDir path force) := by
  obtain ⟨files,found,visited,last⟩ := LoadFromDir_visits moved
  intro file under due
  have applied := current.applied path last file ((under_same visited.kernel visited.tree).mpr under)
  rw [Applied,located_same visited.kernel visited.tree,visited.contents,
    visited.loaded file ((found file).mpr under) due] at applied
  split at applied
  · assumption
  · exact passed file _ applied

theorem step_current (current : Current env s) (passed : Passed loads s) (a : Action Content)
    (moved : next env loads s a = some t) : Current env t ↔ Kept env loads s a := by
  cases a with
  | change kernel tree st_mtime content =>
      cases moved
      exact ⟨fun after => after.due,fun kept => ⟨kept,nofun⟩⟩
  | LoadFromDir path force => exact ⟨load_kept passed moved,load_current current moved⟩

end Steps

theorem directory_current {Content : Type} (env : Env) (loads : Content → Bool) (kernel : Kernel) (blank : Content) :
    (∀ (s : State Content) path file, Under env s path file → resolve s.kernel.cwd s.tree file = some (located s file) ∧
      s.tree.find (located s file) = some .regular) ∧
    ∀ actions : List (Action Content), Throughout (next env loads) (Current env) (.initial kernel blank) actions ↔
      Along (next env loads) (Kept env loads) (.initial kernel blank) actions := by
  refine ⟨fun _ _ _ under => under.found,fun actions => ?_⟩
  have start : Current env (State.initial kernel blank) ∧ Passed loads (State.initial kernel blank) := by
    refine ⟨⟨fun path file under => ?_,nofun⟩,nofun⟩
    cases under.found.2
  refine throughout_exactly (P := fun s => Current env s ∧ Passed loads s) start (fun _ both => both.1)
    (fun s a t both kept moved => ⟨(step_current both.1 both.2 a moved).mpr kept,step_passed both.2 a moved⟩) ?_
  intro s a both after
  cases moved : next env loads s a with
  | some t => exact (step_current both.1 both.2 a moved).mp (after t moved)
  | none =>
      cases a with
      | change => cases moved
      | LoadFromDir path force =>
          obtain ⟨files,found,_⟩ := listAll s.kernel s.tree (env.getAbsolutePath path) (text ".yml")
          have moved : LoadFromDir env loads s path force = none := moved
          rw [LoadFromDir,found] at moved
          cases moved

end Fishjoy.ConfigDir
