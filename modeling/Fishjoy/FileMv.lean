import Fishjoy.FileRm

namespace Fishjoy.FSUtil
open Places

deriving instance DecidableEq for Kind

section Kernel
variable {Name : Type} [DecidableEq Name]

-- `rename` where nothing is at the target: the source must not be above it.
def rename (refused : Bool) (t : FileTree Name) (source : Place Name) : Place Name → Option (FileTree Name)
  | [] => none
  | name :: parent =>
    if refused || (t.find source).isNone then none
    else if may : t.find (name :: parent) = none ∧ ¬source <:+ name :: parent ∧ t.find parent = some .directory then
      some (t.move source name parent may.1 may.2.1 ⟨.directory,rfl,may.2.2⟩)
    else none

-- A link is made whether it leads anywhere or not.
def symlink (refused : Bool) (t : FileTree Name) (source : Place Name) : Place Name → Option (FileTree Name)
  | [] => none
  | name :: parent =>
    if refused then none
    else if may : t.find (name :: parent) = none ∧ t.find parent = some .directory then
      some (t.insert name parent (.symlink source) may.1 ⟨.directory,rfl,may.2⟩)
    else none

end Kernel

section Functions
variable {Name : Type} [DecidableEq Name] (denied : Place Name → Bool) (refused : Bool) (t : FileTree Name)
  (source target : Place Name)

def Mv : Option (Bool × FileTree Name) :=
  (Rm denied t target).map fun (ret,t) =>
    if !ret then (false,t)
    else
      match rename refused t source target with
      | none => (false,t)
      | some t => (true,t)

def Symlink : Option (Bool × FileTree Name) :=
  (Rm denied t target).map fun (ret,t) =>
    if !ret then (false,t)
    else
      match symlink refused t source target with
      | none => (false,t)
      | some t => (true,t)

-- There is a directory to put the target into, and nothing is left in its place.
def Cleared : Prop :=
  (∃ after, Rm denied t target = some (true,after)) ∧ ∃ name parent, target = name :: parent ∧ t.find parent = some .directory

-- What `Mv` does with the tree. A source that is at or below the target is lost.
structure Moved (ret : Bool) (after : FileTree Name) : Prop where
  succeeds : ret = true ↔
    Cleared denied t target ∧ refused = false ∧ t.find source ≠ none ∧ ¬source <:+ target ∧ ¬target <:+ source
  moved : ret = true → ∀ rest, after.find (rest ++ target) = t.find (rest ++ source)
  vacated : ret = true → ∀ q, source <:+ q → after.find q = none
  outside : ∀ q, ¬target <:+ q → (ret = true → ¬source <:+ q) → after.find q = t.find q
  unadded : ret = false → ∀ q, after.find q = t.find q ∨ after.find q = none
  destroyed : target <:+ source → ret = false ∧
    (Permitted denied t target → Yielding t target → after.find source = none)

structure Linked (ret : Bool) (after : FileTree Name) : Prop where
  succeeds : ret = true ↔ Cleared denied t target ∧ refused = false
  linked : ret = true → after.find target = some (.symlink source) ∧
    ∀ q, target <:+ q → q ≠ target → after.find q = none
  outside : ∀ q, ¬target <:+ q → after.find q = t.find q
  unadded : ret = false → ∀ q, after.find q = t.find q ∨ after.find q = none

end Functions

section Steps
variable {Name : Type} [DecidableEq Name] {denied : Place Name → Bool} {refused : Bool} {s t u : FileTree Name}
  {source target : Place Name}

theorem rename_some (renamed : rename refused t source target = some u) : ∃ name parent, target = name :: parent ∧
    refused = false ∧ t.find source ≠ none ∧ ¬source <:+ target ∧ t.find parent = some .directory ∧
    (∀ rest, u.find (rest ++ target) = t.find (rest ++ source)) ∧
    ∀ q, ¬target <:+ q → u.find q = if source <:+ q then none else t.find q := by
  cases target with
  | nil => cases renamed
  | cons name parent =>
      rw [rename] at renamed
      split at renamed
      · cases renamed
      · rename_i enabled
        split at renamed
        · rename_i may
          cases renamed
          rw [Bool.or_eq_true,not_or,Bool.not_eq_true,Option.isNone_iff_eq_none] at enabled
          exact ⟨name,parent,rfl,enabled.1,enabled.2,may.2.1,may.2.2,Tree.find_move_below may.1 may.2.1 _,
            Tree.find_move_outside may.1 may.2.1 _⟩
        · cases renamed

theorem rename_may {name : Name} {parent : Place Name} (free : t.find (name :: parent) = none)
    (present : t.find source ≠ none) (apart : ¬source <:+ name :: parent) (above : t.find parent = some .directory) :
    ∃ u, rename false t source (name :: parent) = some u := by
  have enabled : ¬(false || (t.find source).isNone) = true := by
    rw [Bool.false_or,Option.isNone_iff_eq_none]
    exact present
  rw [rename,if_neg enabled,dif_pos ⟨free,apart,above⟩]
  exact ⟨_,rfl⟩

theorem symlink_some (linked : symlink refused t source target = some u) : ∃ name parent, target = name :: parent ∧
    refused = false ∧ t.find parent = some .directory ∧
    ∀ q, u.find q = if q = target then some (.symlink source) else t.find q := by
  cases target with
  | nil => cases linked
  | cons name parent =>
      rw [symlink] at linked
      split at linked
      · cases linked
      · rename_i enabled
        split at linked
        · rename_i may
          cases linked
          exact ⟨name,parent,rfl,Bool.eq_false_iff.mpr enabled,may.2,Tree.find_insert may.1 _⟩
        · cases linked

theorem symlink_may (source : Place Name) {name : Name} {parent : Place Name} (free : t.find (name :: parent) = none)
    (above : t.find parent = some .directory) : ∃ u, symlink false t source (name :: parent) = some u := by
  rw [symlink,if_neg Bool.false_ne_true,dif_pos ⟨free,above⟩]
  exact ⟨_,rfl⟩

-- Above the target everything is as before when `Rm` is done with it.
theorem parent_kept {ret : Bool} {name : Name} {parent : Place Name} (removes : Removes denied t (name :: parent) ret s) :
    s.find parent = t.find parent := removes.outside parent (child_outside parent name)

theorem cleared_iff {ret : Bool} (ran : Rm denied t target = some (ret,s)) : Cleared denied t target ↔
    ret = true ∧ ∃ name parent, target = name :: parent ∧ t.find parent = some .directory := by
  rw [Cleared,ran]
  refine and_congr_left fun _ => ⟨?_,?_⟩
  · rintro ⟨after,same⟩
    cases same
    rfl
  · rintro rfl
    exact ⟨s,rfl⟩

theorem Mv_moved (removes : Removes denied t target true s) (ran : Rm denied t target = some (true,s))
    (renamed : rename refused s source target = some u) : Moved denied refused t source target true u := by
  have gone := removes.absent.mp rfl
  obtain ⟨name,parent,rfl,enabled,present,apart,above,moved,outside⟩ := rename_some renamed
  have other : ¬name :: parent <:+ source := fun suffix => present (Tree.absent_below gone suffix)
  have kept : ∀ q, ¬name :: parent <:+ q → s.find q = t.find q := removes.outside
  have beyond : ∀ q, source <:+ q → ¬name :: parent <:+ q := by
    intro q suffix below
    rcases List.suffix_or_suffix_of_suffix suffix below with first | second
    · exact apart first
    · exact other second
  refine ⟨iff_of_true rfl ⟨(cleared_iff ran).mpr ⟨rfl,name,parent,rfl,?_⟩,enabled,?_,apart,other⟩,?_,?_,?_,nofun,?_⟩
  · rw [←parent_kept removes]
    exact above
  · rw [←kept source other]
    exact present
  · intro _ rest
    rw [moved,kept _ (beyond _ (List.suffix_append rest source))]
  · intro _ q suffix
    rw [outside q (beyond q suffix),if_pos suffix]
  · intro q away free
    rw [outside q away,if_neg (free rfl),kept q away]
  · intro suffix
    exact absurd suffix other

theorem Mv_unmoved {ret : Bool} (removes : Removes denied t target ret s) (ran : Rm denied t target = some (ret,s))
    (stuck : ret = true → rename refused s source target = none) : Moved denied refused t source target false s := by
  refine ⟨iff_of_false Bool.false_ne_true ?_,nofun,nofun,fun q away _ => removes.outside q away,fun _ => removes.fewer,?_⟩
  · rintro ⟨cleared,rfl,present,apart,other⟩
    obtain ⟨rfl,name,parent,rfl,above⟩ := (cleared_iff ran).mp cleared
    rw [←removes.outside source other] at present
    rw [←parent_kept removes] at above
    obtain ⟨u,may⟩ := rename_may (removes.absent.mp rfl) present apart above
    rw [stuck rfl] at may
    cases may
  · intro suffix
    exact ⟨rfl,fun permitted yielding => Tree.absent_below (removes.cleared permitted yielding) suffix⟩

theorem Symlink_linked (removes : Removes denied t target true s) (ran : Rm denied t target = some (true,s))
    (linked : symlink refused s source target = some u) : Linked denied refused t source target true u := by
  have gone := removes.absent.mp rfl
  obtain ⟨name,parent,rfl,enabled,above,placed⟩ := symlink_some linked
  refine ⟨iff_of_true rfl ⟨(cleared_iff ran).mpr ⟨rfl,name,parent,rfl,?_⟩,enabled⟩,fun _ => ⟨?_,?_⟩,?_,nofun⟩
  · rw [←parent_kept removes]
    exact above
  · rw [placed,if_pos rfl]
  · intro q suffix apart
    rw [placed,if_neg apart]
    exact Tree.absent_below gone suffix
  · intro q away
    have apart : q ≠ name :: parent := by
      rintro rfl
      exact away (List.suffix_refl _)
    rw [placed,if_neg apart,removes.outside q away]

theorem Symlink_unlinked {ret : Bool} (removes : Removes denied t target ret s) (ran : Rm denied t target = some (ret,s))
    (stuck : ret = true → symlink refused s source target = none) : Linked denied refused t source target false s := by
  refine ⟨iff_of_false Bool.false_ne_true ?_,nofun,removes.outside,fun _ => removes.fewer⟩
  rintro ⟨cleared,rfl⟩
  obtain ⟨rfl,name,parent,rfl,above⟩ := (cleared_iff ran).mp cleared
  rw [←parent_kept removes] at above
  obtain ⟨u,may⟩ := symlink_may source (removes.absent.mp rfl) above
  rw [stuck rfl] at may
  cases may

end Steps

theorem mv_symlink_exactly {Name : Type} [DecidableEq Name] (denied : Place Name → Bool) (refused : Bool)
    (t : FileTree Name) (source target : Place Name) :
    (∃ ret after, Mv denied refused t source target = some (ret,after) ∧
      Moved denied refused t source target ret after) ∧
    ∃ ret after, Symlink denied refused t source target = some (ret,after) ∧
      Linked denied refused t source target ret after := by
  obtain ⟨ret,s,ran,removes⟩ := Rm_removes denied t target
  unfold Mv Symlink
  rw [ran]
  cases ret with
  | false => exact ⟨⟨false,s,rfl,Mv_unmoved removes ran nofun⟩,false,s,rfl,Symlink_unlinked removes ran nofun⟩
  | true =>
      constructor
      · cases renamed : rename refused s source target with
        | none => exact ⟨false,s,by simp [renamed],Mv_unmoved removes ran fun _ => renamed⟩
        | some u => exact ⟨true,u,by simp [renamed],Mv_moved removes ran renamed⟩
      · cases linked : symlink refused s source target with
        | none => exact ⟨false,s,by simp [linked],Symlink_unlinked removes ran fun _ => linked⟩
        | some u => exact ⟨true,u,by simp [linked],Symlink_linked removes ran linked⟩

end Fishjoy.FSUtil
