import Fishjoy.Foundation.Places

namespace Fishjoy.FSUtil
open Places

-- A link with the place it leads to.
inductive Kind (Name : Type) where
  | directory
  | regular
  | symlink (target : List Name)
  | socket
  | fifo
  | character
  | block

-- The bits of `S_IFMT`.
def Kind.st_mode {Name : Type} : Kind Name → UInt32
  | .directory => 0x4000
  | .regular => 0x8000
  | .symlink _ => 0xA000
  | .socket => 0xC000
  | .fifo => 0x1000
  | .character => 0x2000
  | .block => 0x6000

def S_IFDIR : UInt32 := 0x4000

def Kind.IsDirectory {Name : Type} (k : Kind Name) : Prop := k = .directory

-- The names from an entry up to the root, each but the first that of a directory.
abbrev Place (Name : Type) := List Name

abbrev FileTree (Name : Type) := Tree Name (Kind Name) Kind.IsDirectory

inductive Dirent (Name : Type) where
  | dot
  | dotdot
  | entry (d_name : Name)

section Kernel
variable {Name : Type} [DecidableEq Name] (denied : Place Name → Bool) (t : FileTree Name) (path : Place Name)

-- Where one link leads to the next, with the number of them that may still come:
-- it is an error to meet more than `MAXSYMLINKS`.
def chase : Nat → Place Name → Option (Nat × Place Name)
  | 0,place =>
    match t.find place with
    | some (.symlink _) => none
    | _ => some (0,place)
  | links+1,place =>
    match t.find place with
    | some (.symlink target) => chase links target
    | _ => some (links+1,place)

def MAXSYMLINKS : Nat := 40

-- `lstat` does not follow a link, `opendir` does, and so does a path that goes on behind it.
def lstat : Option UInt32 := (t.find path).map Kind.st_mode

def follow : Place Name := ((chase t MAXSYMLINKS path).map Prod.snd).getD path

def opendir : Option (List (Dirent Name)) :=
  match t.find (follow t path) with
  | some .directory => some (.dot :: .dotdot :: (t.children (follow t path)).map .entry)
  | _ => none

-- An entry with others below it is not taken away, and no other that is denied.
def takeAway : Option (FileTree Name) :=
  if denied path then none
  else if leaf : t.children path = [] then some (t.remove path leaf)
  else none

-- What `unlink` and `rmdir` leave, or that they fail.
def unlink : Option (FileTree Name) :=
  match t.find path with
  | none => none
  | some .directory => none
  | _ => takeAway denied t path

def rmdir : Option (FileTree Name) :=
  match t.find path with
  | some .directory => takeAway denied t path
  | _ => none

end Kernel

section Functions
variable {Name : Type} [DecidableEq Name] (denied : Place Name → Bool)

def Unlink (t : FileTree Name) (filename : Place Name) (exist : Bool) : Bool × FileTree Name :=
  if !exist && (lstat t filename).isNone then (true,t)
  else
    match unlink denied t filename with
    | none => (false,t)
    | some t => (true,t)

-- The loop of `Rm` over what `readdir` gives, with `rm` for the call of itself.
def readdir (rm : FileTree Name → Place Name → Option (Bool × FileTree Name)) (path : Place Name) :
    List (Dirent Name) → Bool → FileTree Name → Option (Bool × FileTree Name)
  | [],ret,t => some (ret,t)
  | .dot :: rest,ret,t => readdir rm path rest ret t
  | .dotdot :: rest,ret,t => readdir rm path rest ret t
  | .entry d_name :: rest,_,t => (rm t (d_name :: follow t path)).bind fun (ret,t) => readdir rm path rest ret t

def rmWithin : Nat → FileTree Name → Place Name → Option (Bool × FileTree Name)
  | 0,_,_ => none
  | levels+1,t,path =>
    match lstat t path with
    | none => some (true,t)
    | some st_mode =>
      if st_mode &&& S_IFDIR = 0 then some (Unlink denied t path false)
      else
        match opendir t path with
        | none => some (false,t)
        | some dir => (readdir (rmWithin levels) path dir true t).map fun (ret,t) =>
          match rmdir denied t path with
          | none => (false,t)
          | some t => (ret,t)

-- The calls of `Rm` are nested no deeper than the tree.
def Rm (t : FileTree Name) (path : Place Name) : Option (Bool × FileTree Name) := rmWithin denied (t.depth+1) t path

end Functions

-- Sockets and block devices have the bit of `S_IFDIR` in their modes as well.
def Kind.Stubborn {Name : Type} (k : Kind Name) : Prop := k = .socket ∨ k = .block

section Claims
variable {Name : Type} [DecidableEq Name] (denied : Place Name → Bool) (t : FileTree Name) (path : Place Name)

def Permitted : Prop := ∀ q, path <:+ q → t.find q ≠ none → denied q = false

def Yielding : Prop := ∀ q kind, path <:+ q → t.find q = some kind → ¬kind.Stubborn

-- What is said of the result and of the tree that is left.
structure Truthful (ret : Bool) (after : FileTree Name) : Prop where
  absent : ret = true ↔ after.find path = none
  outside : ∀ q, ¬path <:+ q → after.find q = t.find q
  unaltered : ∀ q, after.find q = t.find q ∨ after.find q = none
  unfollowed : ∀ link target, t.find link = some (.symlink target) →
    ∀ q, target <:+ q → ¬path <:+ q → after.find q = t.find q
  whole : Permitted denied t path → ∀ q, path <:+ q → after.find q = none

def Done : Prop := ∃ ret after, Rm denied t path = some (ret,after) ∧ Truthful denied t path ret after

end Claims

section Steps
variable {Name : Type} [DecidableEq Name] {denied : Place Name → Bool} {s t u : FileTree Name} {path : Place Name}

def Fewer (s t : FileTree Name) : Prop := ∀ q, s.find q = t.find q ∨ s.find q = none

theorem Fewer.refl (t : FileTree Name) : Fewer t t := fun _ => .inl rfl

theorem Fewer.trans (first : Fewer s t) (second : Fewer t u) : Fewer s u := by
  intro q
  rcases first q with same | gone
  · rw [same]; exact second q
  · exact .inr gone

theorem Fewer.found (fewer : Fewer s t) {q : Place Name} {kind : Kind Name} (found : s.find q = some kind) :
    t.find q = some kind := by
  rcases fewer q with same | gone
  · rw [←same]; exact found
  · rw [gone] at found; cases found

theorem Fewer.present (fewer : Fewer s t) {q : Place Name} (present : s.find q ≠ none) : t.find q ≠ none := by
  rcases fewer q with same | gone
  · rw [←same]; exact present
  · exact absurd gone present

theorem Permitted.fewer (permitted : Permitted denied t path) (fewer : Fewer s t) : Permitted denied s path :=
  fun q suffix present => permitted q suffix (fewer.present present)

theorem Yielding.fewer (yielding : Yielding t path) (fewer : Fewer s t) : Yielding s path :=
  fun q kind suffix found => yielding q kind suffix (fewer.found found)

-- What a call of `Rm` does, with what its caller needs of it.
structure Removes (denied : Place Name → Bool) (t : FileTree Name) (path : Place Name) (ret : Bool)
    (after : FileTree Name) : Prop where
  absent : ret = true ↔ after.find path = none
  outside : ∀ q, ¬path <:+ q → after.find q = t.find q
  fewer : Fewer after t
  stays : ∀ q kind, t.find q = some kind → kind.Stubborn → after.find q = some kind
  cleared : Permitted denied t path → Yielding t path → after.find path = none

omit [DecidableEq Name] in
theorem mode_plain {kind : Kind Name} (plain : kind ≠ .directory) (yields : ¬kind.Stubborn) :
    kind.st_mode &&& S_IFDIR = 0 := by
  cases kind with
  | directory => exact absurd rfl plain
  | socket => exact absurd (.inl rfl) yields
  | block => exact absurd (.inr rfl) yields
  | _ =>
      simp only [Kind.st_mode,S_IFDIR]
      decide

omit [DecidableEq Name] in
theorem mode_stubborn {kind : Kind Name} (stubborn : kind.Stubborn) : ¬kind.st_mode &&& S_IFDIR = 0 := by
  rcases stubborn with rfl | rfl
  · simp only [Kind.st_mode,S_IFDIR]
    decide
  · simp only [Kind.st_mode,S_IFDIR]
    decide

theorem takeAway_some (taken : takeAway denied t path = some s) :
    t.children path = [] ∧ ∀ q, s.find q = if q = path then none else t.find q := by
  unfold takeAway at taken
  split at taken
  · cases taken
  · split at taken
    · rename_i leaf
      cases taken
      exact ⟨leaf,Tree.find_remove leaf⟩
    · cases taken

theorem takeAway_free (free : denied path = false) (leaf : t.children path = []) :
    ∃ s, takeAway denied t path = some s := by
  unfold takeAway
  rw [if_neg (by rw [free]; exact Bool.false_ne_true),dif_pos leaf]
  exact ⟨_,rfl⟩

-- An entry that is not stubborn is taken away, or nothing changes.
theorem removes_taken {kind : Kind Name} (found : t.find path = some kind) (yields : ¬kind.Stubborn)
    (taken : takeAway denied t path = some s) : Removes denied t path true s := by
  have after := (takeAway_some taken).2
  have gone : s.find path = none := by rw [after,if_pos rfl]
  refine ⟨iff_of_true rfl gone,?_,?_,?_,fun _ _ => gone⟩
  · intro q outside
    rw [after,if_neg ?_]
    rintro rfl
    exact outside (List.suffix_refl q)
  · intro q
    rw [after]
    split
    · exact .inr rfl
    · exact .inl rfl
  · intro q other here stubborn
    rw [after,if_neg ?_]
    · exact here
    · rintro rfl
      rw [found] at here
      cases here
      exact yields stubborn

theorem removes_kept {kind : Kind Name} (found : t.find path = some kind)
    (stuck : Permitted denied t path → Yielding t path → False) : Removes denied t path false t := by
  refine ⟨iff_of_false Bool.false_ne_true ?_,fun _ _ => rfl,.refl t,fun _ _ here _ => here,?_⟩
  · rw [found]
    exact Option.some_ne_none kind
  · intro permitted yielding
    exact absurd (stuck permitted yielding) id

theorem removes_absent (missing : t.find path = none) : Removes denied t path true t :=
  ⟨iff_of_true rfl missing,fun _ _ => rfl,.refl t,fun _ _ here _ => here,fun _ _ => missing⟩

theorem Unlink_removes {kind : Kind Name} (found : t.find path = some kind) (plain : kind ≠ .directory)
    (yields : ¬kind.Stubborn) :
    Removes denied t path (Unlink denied t path false).1 (Unlink denied t path false).2 := by
  have there : (lstat t path).isNone = false := by
    unfold lstat
    rw [found]
    rfl
  have call : unlink denied t path = takeAway denied t path := by
    unfold unlink
    rw [found]
    cases kind <;> first | rfl | exact absurd rfl plain
  unfold Unlink
  rw [there,Bool.and_false,if_neg Bool.false_ne_true,call]
  cases taken : takeAway denied t path with
  | some s => exact removes_taken found yields taken
  | none =>
      refine removes_kept found fun permitted _ => ?_
      have free := permitted path (List.suffix_refl path) (by rw [found]; exact Option.some_ne_none kind)
      obtain ⟨s,some⟩ := takeAway_free free (Tree.childless found plain)
      rw [taken] at some
      cases some

theorem chase_other (plain : ∀ target, t.find path ≠ some (.symlink target)) (links : Nat) :
    chase t links path = some (links,path) := by
  rw [chase.eq_def]
  cases links with
  | zero =>
      dsimp only
      split
      · exact absurd (by assumption) (plain _)
      · rfl
  | succ links =>
      dsimp only
      split
      · exact absurd (by assumption) (plain _)
      · rfl

theorem follow_other (plain : ∀ target, t.find path ≠ some (.symlink target)) : follow t path = path := by
  rw [follow,chase_other plain]
  rfl

theorem sibling_suffix {m n : Name} (suffix : m :: path <:+ n :: path) : m = n := by
  rcases List.suffix_cons_iff.mp suffix with same | shorter
  · exact (List.cons.inj same).1
  · have bound := shorter.length_le
    rw [List.length_cons] at bound
    omega

omit [DecidableEq Name] in
theorem below_suffix {name : Name} {q : Place Name} (suffix : name :: path <:+ q) : path <:+ q :=
  (List.suffix_cons name path).trans suffix

omit [DecidableEq Name] in
theorem child_outside (path : Place Name) (name : Name) : ¬name :: path <:+ path := by
  intro suffix
  have bound := suffix.length_le
  rw [List.length_cons] at bound
  omega

-- What the loop does with the entries of these names.
structure Empties (denied : Place Name → Bool) (t : FileTree Name) (path : Place Name) (names : List Name)
    (first ret : Bool) (after : FileTree Name) : Prop where
  last : first = true → (∀ name ∈ names, after.find (name :: path) = none) → ret = true
  outside : ∀ q, (∀ name ∈ names, ¬name :: path <:+ q) → after.find q = t.find q
  fewer : Fewer after t
  stays : ∀ q kind, t.find q = some kind → kind.Stubborn → after.find q = some kind
  cleared : Permitted denied t path → Yielding t path → ∀ name ∈ names, after.find (name :: path) = none

-- The result of an earlier child is lost, but then the child is still there.
theorem readdir_empties {rm : FileTree Name → Place Name → Option (Bool × FileTree Name)} {names : List Name}
    (directory : t.find path = some .directory) (once : names.Nodup)
    (each : ∀ name ∈ names, ∀ s, Fewer s t → ∃ ret after, rm s (name :: path) = some (ret,after) ∧
      Removes denied s (name :: path) ret after) (first : Bool) :
    ∃ ret after, readdir rm path (names.map .entry) first t = some (ret,after) ∧
      Empties denied t path names first ret after := by
  induction names generalizing t first with
  | nil =>
      refine ⟨first,t,rfl,fun yes _ => yes,fun _ _ => rfl,.refl t,fun _ _ here _ => here,?_⟩
      intro _ _ name member
      cases member
  | cons name rest ih =>
      obtain ⟨absent,once⟩ := List.nodup_cons.mp once
      obtain ⟨one,middle,called,removes⟩ := each name (.head _) t (.refl t)
      have still : middle.find path = some .directory := by
        rw [removes.outside path (child_outside path name)]
        exact directory
      obtain ⟨ret,after,ran,empties⟩ := ih still once
        (fun other member s fewer => each other (.tail _ member) s (fewer.trans removes.fewer)) one
      have same : after.find (name :: path) = middle.find (name :: path) :=
        empties.outside _ fun other member suffix => absent (sibling_suffix suffix ▸ member)
      refine ⟨ret,after,?_,?_,?_,empties.fewer.trans removes.fewer,?_,?_⟩
      · have place : follow t path = path := follow_other fun target => by rw [directory]; exact nofun
        rw [List.map_cons,readdir,place,called]
        exact ran
      · intro _ gone
        refine empties.last (removes.absent.mpr ?_) fun other member => gone other (.tail _ member)
        rw [←same]
        exact gone name (.head _)
      · intro q apart
        rw [empties.outside q fun other member => apart other (.tail _ member),removes.outside q (apart name (.head _))]
      · intro q kind here stubborn
        exact empties.stays q kind (removes.stays q kind here stubborn) stubborn
      · intro permitted yielding other member
        rcases List.mem_cons.mp member with rfl | later
        · rw [same]
          exact removes.cleared (fun q suffix => permitted q (below_suffix suffix))
            fun q kind suffix => yielding q kind (below_suffix suffix)
        · exact empties.cleared (permitted.fewer removes.fewer) (yielding.fewer removes.fewer) other later

-- `rmdir` fails while an entry is left, so the result is that of no failure.
theorem rmdir_removes {ret : Bool} (directory : t.find path = some .directory)
    (empties : Empties denied t path (t.children path) true ret s) :
    ∃ result after, (match rmdir denied s path with | none => (false,s) | some u => (ret,u)) = (result,after) ∧
      Removes denied t path result after := by
  have still : s.find path = some .directory := by
    rw [empties.outside path fun name _ => child_outside path name]
    exact directory
  have call : rmdir denied s path = takeAway denied s path := by
    unfold rmdir
    rw [still]
  have outside : ∀ q, ¬path <:+ q → s.find q = t.find q :=
    fun q apart => empties.outside q fun name _ suffix => apart (below_suffix suffix)
  have plain : ¬(Kind.directory : Kind Name).Stubborn := by
    rintro (same | same) <;> cases same
  rw [call]
  cases taken : takeAway denied s path with
  | some u =>
      have removes := removes_taken still plain taken
      have childless : ∀ name ∈ t.children path, s.find (name :: path) = none := by
        intro name _
        by_contra present
        have child := Tree.mem_children.mpr present
        rw [(takeAway_some taken).1] at child
        cases child
      obtain rfl := empties.last rfl childless
      refine ⟨true,u,rfl,removes.absent,?_,removes.fewer.trans empties.fewer,?_,?_⟩
      · intro q apart
        rw [removes.outside q apart,outside q apart]
      · intro q kind here stubborn
        exact removes.stays q kind (empties.stays q kind here stubborn) stubborn
      · intro _ _
        exact removes.absent.mp rfl
  | none =>
      refine ⟨false,s,rfl,iff_of_false Bool.false_ne_true ?_,outside,empties.fewer,empties.stays,?_⟩
      · rw [still]
        exact Option.some_ne_none _
      · intro permitted yielding
        have free := permitted path (List.suffix_refl path) (by rw [directory]; exact Option.some_ne_none _)
        have leaf : s.children path = [] := by
          apply List.eq_nil_iff_forall_not_mem.mpr
          intro name member
          have present := Tree.mem_children.mp member
          exact present (empties.cleared permitted yielding name (Tree.mem_children.mpr (empties.fewer.present present)))
        obtain ⟨u,some⟩ := takeAway_free free leaf
        rw [taken] at some
        cases some

theorem rmWithin_removes (levels : Nat) (t : FileTree Name) (path : Place Name) (positive : 0 < levels)
    (bound : ∀ q, path <:+ q → t.find q ≠ none → q.length < path.length+levels) :
    ∃ ret after, rmWithin denied levels t path = some (ret,after) ∧ Removes denied t path ret after := by
  induction levels generalizing t path with
  | zero => cases positive
  | succ levels ih =>
      unfold rmWithin lstat
      cases found : t.find path with
      | none => exact ⟨true,t,rfl,removes_absent found⟩
      | some kind =>
          rw [Option.map_some]
          dsimp only
          by_cases stubborn : kind.Stubborn
          · have place : follow t path = path := follow_other fun target same => by
              rw [found] at same
              cases same
              rcases stubborn with other | other <;> cases other
            have closed : opendir t path = none := by
              unfold opendir
              rcases stubborn with rfl | rfl
              · simp only [place,found]
              · simp only [place,found]
            rw [if_neg (mode_stubborn stubborn),closed]
            exact ⟨false,t,rfl,removes_kept found fun _ yielding =>
              yielding path kind (List.suffix_refl path) found stubborn⟩
          by_cases directory : kind = .directory
          · subst directory
            have opened : opendir t path = some (.dot :: .dotdot :: (t.children path).map .entry) := by
              have place : follow t path = path := follow_other fun target same => by
                rw [found] at same
                cases same
              unfold opendir
              rw [place,found]
            have each : ∀ name ∈ t.children path, ∀ s, Fewer s t → ∃ ret after,
                rmWithin denied levels s (name :: path) = some (ret,after) ∧
                  Removes denied s (name :: path) ret after := by
              intro name member s fewer
              have deeper := bound (name :: path) (List.suffix_cons name path) (Tree.mem_children.mp member)
              rw [List.length_cons] at deeper
              refine ih s (name :: path) (by omega) fun q suffix present => ?_
              have fits := bound q (below_suffix suffix) (fewer.present present)
              rw [List.length_cons]
              omega
            obtain ⟨ret,left,ran,empties⟩ := readdir_empties found (t.children_nodup path) each true
            obtain ⟨result,after,ended,removes⟩ := rmdir_removes found empties
            rw [if_neg (by simp only [Kind.st_mode,S_IFDIR]; decide),opened]
            refine ⟨result,after,?_,removes⟩
            rw [←ended]
            exact congrArg (Option.map _) ran
          · rw [if_pos (mode_plain directory stubborn)]
            exact ⟨_,_,rfl,Unlink_removes found directory stubborn⟩

end Steps

section Results
variable {Name : Type} [DecidableEq Name]

theorem Rm_removes (denied : Place Name → Bool) (t : FileTree Name) (path : Place Name) :
    ∃ ret after, Rm denied t path = some (ret,after) ∧ Removes denied t path ret after := by
  refine rmWithin_removes (t.depth+1) t path (Nat.succ_pos _) fun q _ present => ?_
  have bound := Tree.length_le_depth present
  omega

theorem done_exactly (denied : Place Name → Bool) (t : FileTree Name) (path : Place Name) :
    Done denied t path ↔ (Permitted denied t path → Yielding t path) := by
  obtain ⟨ret,after,ran,removes⟩ := Rm_removes denied t path
  constructor
  · rintro ⟨_,_,same,truthful⟩ permitted q kind suffix found stubborn
    rw [ran] at same
    cases same
    have gone := truthful.whole permitted q suffix
    rw [removes.stays q kind found stubborn] at gone
    cases gone
  · intro yielding
    refine ⟨ret,after,ran,removes.absent,removes.outside,removes.fewer,?_,?_⟩
    · intro _ _ _ q _ apart
      exact removes.outside q apart
    intro permitted q suffix
    by_contra present
    exact Tree.present_above suffix present (removes.cleared permitted (yielding permitted))

-- A directory with a socket in it.
def listening : FileTree Nat where
  entries := [([],.directory),([0],.directory),([1,0],.socket)]
  unique := by decide
  closed := by
    intro name parent kind member
    simp only [List.mem_cons,Prod.mk.injEq,List.not_mem_nil,or_false,reduceCtorEq,false_and,false_or] at member
    rcases member with ⟨same,_⟩ | ⟨same,_⟩
    · cases same
      exact ⟨.directory,rfl,.head _⟩
    · cases same
      exact ⟨.directory,rfl,.tail _ (.head _)⟩

theorem socket_stays : ¬∀ (denied : Place Nat → Bool) (t : FileTree Nat) (path : Place Nat), Done denied t path := by
  intro always
  obtain ⟨ret,after,ran,truthful⟩ := always (fun _ => false) listening [0]
  obtain ⟨_,_,same,removes⟩ := Rm_removes (fun _ => false) listening [0]
  rw [ran] at same
  cases same
  have gone := truthful.whole (fun _ _ _ => rfl) [1,0] (List.suffix_cons 1 [0])
  have found : listening.find [1,0] = some .socket := rfl
  rw [removes.stays [1,0] .socket found (.inl rfl)] at gone
  cases gone

end Results

end Fishjoy.FSUtil
