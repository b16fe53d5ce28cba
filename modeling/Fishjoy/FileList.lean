import Fishjoy.FilePath

namespace Fishjoy.FSUtil
open Places EnvMgr

-- What else the kernel goes by: where a relative path starts, which directories
-- it does not open, and of which entries `readdir` tells no type (DT_UNKNOWN).
structure Kernel where
  cwd : Place FileName
  unreadable : Str → Bool
  unknown : Place FileName → Bool

-- The test of `ListAllFile` on the name of a regular file.
def listed (subfix filename : Str) : Bool :=
  if subfix = [] then true
  else if filename.length < subfix.length then false
  else filename.drop (filename.length-subfix.length) = subfix

-- A link is no directory here, whatever it leads to.
def d_type (kernel : Kernel) (t : FileTree FileName) (place : Place FileName) : Option (Kind FileName) :=
  if kernel.unknown place then none else t.find place

def listWithin (kernel : Kernel) (t : FileTree FileName) (subfix : Str) : Nat → Str → Option (List Str)
  | 0,_ => none
  | levels+1,path =>
    match resolve kernel.cwd t path with
    | none => some []
    | some place =>
      match t.find place with
      | some .directory =>
        if kernel.unreadable path then some []
        else
          ((t.children place).mapM fun d_name =>
            match d_type kernel t (d_name :: place) with
            | some .directory => listWithin kernel t subfix levels (path ++ slash :: d_name.val)
            | some .regular => some (if listed subfix d_name.val then [path ++ slash :: d_name.val] else [])
            | _ => some []).map List.flatten
      | _ => some []

def ListAllFile (kernel : Kernel) (t : FileTree FileName) (path subfix : Str) : Option (List Str) :=
  listWithin kernel t subfix (t.depth+1) path

-- A regular file below a directory that can be opened, as can all between, and
-- every entry on the way has a type.
structure Lists (kernel : Kernel) (t : FileTree FileName) (subfix path : Str) (place rest : Place FileName) : Prop where
  file : t.find (rest ++ place) = some .regular
  named : ∃ filename above, rest = filename :: above ∧ subfix <:+ filename.val ∧
    ∀ between, between <:+ above → kernel.unreadable (below path between) = false
  typed : ∀ between, between <:+ rest → between ≠ [] → kernel.unknown (between ++ place) = false

section Steps
variable {kernel : Kernel} {t : FileTree FileName} {subfix path : Str} {place rest : Place FileName} {name : FileName}

theorem listed_iff (subfix filename : Str) : listed subfix filename = true ↔ subfix <:+ filename := by
  unfold listed
  split
  · rename_i all
    rw [all]
    exact iff_of_true rfl (List.nil_suffix)
  · split
    · rename_i shorter
      refine iff_of_false Bool.false_ne_true fun suffix => ?_
      exact absurd suffix.length_le (Nat.not_le_of_lt shorter)
    · rw [decide_eq_true_iff,List.suffix_iff_eq_drop]
      exact eq_comm

-- What the loop over one directory puts together.
structure Listing (kernel : Kernel) (t : FileTree FileName) (subfix path : Str) (place : Place FileName)
    (files : List Str) : Prop where
  nodup : files.Nodup
  exactly : ∀ file, file ∈ files ↔ ∃ rest, file = below path rest ∧ Lists kernel t subfix path place rest

-- What is not at the end of a path is a directory.
theorem directory_above {q : Place FileName} (present : t.find (name :: rest ++ q) ≠ none) :
    t.find q = some .directory := by
  induction rest generalizing name with
  | nil =>
      obtain ⟨kind,rfl,found⟩ := Tree.branch_above present
      exact found
  | cons inner rest ih =>
      obtain ⟨kind,_,found⟩ := Tree.branch_above present
      exact ih fun absent => by cases found.symm.trans absent

theorem Lists.directory (lists : Lists kernel t subfix path place rest) : t.find place = some .directory := by
  obtain ⟨filename,above,rfl,_⟩ := lists.named
  exact directory_above fun absent => by cases lists.file.symm.trans absent

-- The last of the names is that of an entry of the directory itself.
theorem suffix_concat {between rest : Place FileName} (within : between <:+ rest ++ [name]) :
    between = [] ∨ ∃ front, between = front ++ [name] ∧ front <:+ rest := by
  rcases List.suffix_concat_iff.mp within with rfl | ⟨front,rfl,inner⟩
  · exact .inl rfl
  · exact .inr ⟨front,rfl,inner⟩

theorem lists_directory (readable : kernel.unreadable path = false) (known : kernel.unknown (name :: place) = false)
    (found : t.find (name :: place) = some .directory) :
    Lists kernel t subfix (path ++ slash :: name.val) (name :: place) rest ↔
      Lists kernel t subfix path place (rest ++ [name]) := by
  have text (front : Place FileName) : below path (front ++ [name]) = below (path ++ slash :: name.val) front :=
    below_append path [name] front
  constructor
  · rintro ⟨file,⟨filename,above,rfl,suffix,clear⟩,typed⟩
    refine ⟨by rwa [List.append_assoc],⟨filename,above ++ [name],rfl,suffix,fun between within => ?_⟩,
      fun between within nonempty => ?_⟩
    · rcases suffix_concat within with rfl | ⟨front,rfl,inner⟩
      · exact readable
      · rw [text]
        exact clear front inner
    · rcases suffix_concat within with rfl | ⟨front,rfl,inner⟩
      · exact absurd rfl nonempty
      · rw [List.append_assoc]
        cases front with
        | nil => exact known
        | cons head front => exact typed _ inner nofun
  · rintro ⟨file,⟨filename,above,same,suffix,clear⟩,typed⟩
    rw [List.append_assoc] at file
    cases rest with
    | nil =>
        rw [show [] ++ ([name] ++ place) = name :: place from rfl,found] at file
        cases file
    | cons inner rest =>
        obtain ⟨rfl,rfl⟩ := List.cons.inj same
        refine ⟨file,⟨inner,rest,rfl,suffix,fun between within => ?_⟩,fun between within nonempty => ?_⟩
        · rw [←text]
          exact clear _ (List.suffix_concat_iff.mpr (.inr ⟨between,rfl,within⟩))
        · have known := typed (between ++ [name]) (List.suffix_concat_iff.mpr (.inr ⟨between,rfl,within⟩)) (by simp)
          rwa [List.append_assoc] at known

theorem lists_other (subfix : Str) (readable : kernel.unreadable path = false)
    (plain : d_type kernel t (name :: place) ≠ some .directory) (rest : Place FileName) :
    Lists kernel t subfix path place (rest ++ [name]) ↔
      rest = [] ∧ d_type kernel t (name :: place) = some .regular ∧ subfix <:+ name.val := by
  constructor
  · rintro ⟨file,⟨filename,above,same,suffix,_⟩,typed⟩
    have known : kernel.unknown (name :: place) = false :=
      typed [name] (List.suffix_append rest [name]) nofun
    have type : d_type kernel t (name :: place) = t.find (name :: place) := by
      rw [d_type,if_neg (by rw [known]; exact Bool.false_ne_true)]
    cases rest with
    | nil =>
        cases same
        exact ⟨rfl,type.trans file,suffix⟩
    | cons inner rest =>
        rw [List.append_assoc] at file
        exact absurd (type.trans (directory_above fun absent => by cases file.symm.trans absent)) plain
  · rintro ⟨rfl,type,suffix⟩
    obtain ⟨known,file⟩ := Option.ite_none_left_eq_some.mp type
    refine ⟨file,⟨name,[],rfl,suffix,fun between within => ?_⟩,fun between within nonempty => ?_⟩
    · rw [List.suffix_nil.mp within]
      exact readable
    · rcases suffix_concat (show between <:+ [] ++ [name] from within) with rfl | ⟨front,rfl,inner⟩
      · exact absurd rfl nonempty
      · rw [List.suffix_nil.mp inner]
        exact Bool.eq_false_iff.mpr known

-- What one entry of the directory gives.
structure Part (kernel : Kernel) (t : FileTree FileName) (subfix path : Str) (place : Place FileName) (name : FileName)
    (files : List Str) : Prop where
  nodup : files.Nodup
  exactly : ∀ file, file ∈ files ↔
    ∃ rest, file = below path (rest ++ [name]) ∧ Lists kernel t subfix path place (rest ++ [name])

theorem part_other (subfix : Str) (readable : kernel.unreadable path = false)
    (plain : d_type kernel t (name :: place) ≠ some .directory) : Part kernel t subfix path place name
      (match d_type kernel t (name :: place) with
        | some .regular => if listed subfix name.val then [path ++ slash :: name.val] else []
        | _ => []) := by
  have only := lists_other subfix readable plain
  split
  · rename_i regular
    split
    · rename_i fits
      refine ⟨List.nodup_singleton _,fun file => ?_⟩
      rw [List.mem_singleton]
      constructor
      · rintro rfl
        exact ⟨[],rfl,(only []).mpr ⟨rfl,regular,(listed_iff subfix name.val).mp fits⟩⟩
      · rintro ⟨rest,rfl,lists⟩
        rw [((only rest).mp lists).1]
        rfl
    · rename_i unfit
      refine ⟨.nil,fun file => iff_of_false nofun ?_⟩
      rintro ⟨rest,_,lists⟩
      exact unfit ((listed_iff subfix name.val).mpr ((only rest).mp lists).2.2)
  · rename_i other
    refine ⟨.nil,fun file => iff_of_false nofun ?_⟩
    rintro ⟨rest,_,lists⟩
    exact other ((only rest).mp lists).2.1

-- The parts of different names have no file in common.
theorem loop_parts {part : FileName → Option (List Str)} {names : List FileName} (once : names.Nodup)
    (each : ∀ name ∈ names, ∃ files, part name = some files ∧ Part kernel t subfix path place name files) :
    ∃ files, (names.mapM part).map List.flatten = some files ∧ files.Nodup ∧ ∀ file, file ∈ files ↔
      ∃ name ∈ names, ∃ rest, file = below path (rest ++ [name]) ∧
        Lists kernel t subfix path place (rest ++ [name]) := by
  induction names with
  | nil => exact ⟨[],rfl,.nil,fun file => iff_of_false nofun (by rintro ⟨_,member,_⟩; cases member)⟩
  | cons name rest ih =>
      obtain ⟨fresh,once⟩ := List.nodup_cons.mp once
      obtain ⟨here,found,nodup,exactly⟩ := each name (.head _)
      obtain ⟨later,looped,others,members⟩ := ih once fun other member => each other (.tail _ member)
      obtain ⟨parts,ran,rfl⟩ := Option.map_eq_some_iff.mp looped
      refine ⟨here ++ parts.flatten,?_,List.nodup_append.mpr ⟨nodup,others,?_⟩,fun file => ?_⟩
      · rw [List.mapM_cons,found,ran]
        rfl
      · rintro file first _ second rfl
        obtain ⟨front,same,_⟩ := (exactly file).mp first
        obtain ⟨other,member,front',again,_⟩ := (members file).mp second
        have names := List.append_inj_right' (below_injective (same.symm.trans again)) rfl
        exact fresh (List.singleton_inj.mp names ▸ member)
      · rw [List.mem_append,exactly,members]
        constructor
        · rintro (first | ⟨other,member,second⟩)
          · exact ⟨name,.head _,first⟩
          · exact ⟨other,.tail _ member,second⟩
        · rintro ⟨other,member,second⟩
          rcases List.mem_cons.mp member with rfl | member
          · exact .inl second
          · exact .inr ⟨other,member,second⟩

theorem listWithin_lists (subfix : Str) (levels : Nat) (path : Str) (place : Place FileName)
    (led : resolve kernel.cwd t path = some place) (positive : 0 < levels)
    (bound : ∀ q, place <:+ q → t.find q ≠ none → q.length < place.length+levels) :
    ∃ files, listWithin kernel t subfix levels path = some files ∧ Listing kernel t subfix path place files := by
  induction levels generalizing path place with
  | zero => cases positive
  | succ levels ih =>
      rw [listWithin,led]
      dsimp only
      by_cases directory : t.find place = some .directory
      swap
      · refine ⟨[],?_,.nil,fun file => iff_of_false nofun ?_⟩
        · split
          · exact absurd (by assumption) directory
          · rfl
        · rintro ⟨_,_,lists⟩
          exact directory lists.directory
      simp only [directory]
      cases readable : kernel.unreadable path with
      | true =>
          refine ⟨[],rfl,.nil,fun file => iff_of_false nofun ?_⟩
          rintro ⟨_,_,_,⟨filename,above,rfl,_,clear⟩,_⟩
          have opened : kernel.unreadable path = false := clear [] List.nil_suffix
          rw [readable] at opened
          cases opened
      | false =>
          have each : ∀ name ∈ t.children place, ∃ files,
              (match d_type kernel t (name :: place) with
                | some .directory => listWithin kernel t subfix levels (path ++ slash :: name.val)
                | some .regular => some (if listed subfix name.val then [path ++ slash :: name.val] else [])
                | _ => some []) = some files ∧ Part kernel t subfix path place name files := by
            intro name member
            have deeper := bound (name :: place) (List.suffix_cons name place) (Tree.mem_children.mp member)
            rw [List.length_cons] at deeper
            by_cases inner : d_type kernel t (name :: place) = some .directory
            · obtain ⟨known,found⟩ := Option.ite_none_left_eq_some.mp inner
              have led : resolve kernel.cwd t (path ++ slash :: name.val) = some (name :: place) :=
                resolve_child led directory fun target => by rw [found]; exact nofun
              obtain ⟨files,ran,nodup,exactly⟩ := ih (path ++ slash :: name.val) (name :: place) led (by omega)
                fun q suffix present => by
                  have fits := bound q (below_suffix suffix) present
                  rw [List.length_cons]
                  omega
              refine ⟨files,by rw [inner]; exact ran,nodup,fun file => (exactly file).trans ?_⟩
              refine exists_congr fun rest => and_congr ?_ (lists_directory readable (Bool.eq_false_iff.mpr known) found)
              rw [below_append]
              rfl
            · have part := part_other subfix readable inner
              split
              · exact absurd (by assumption) inner
              · rename_i regular
                rw [regular] at part
                exact ⟨_,rfl,part⟩
              · rename_i other
                split at part
                · exact absurd (by assumption) other
                · exact ⟨_,rfl,part⟩
          rw [if_neg Bool.false_ne_true]
          obtain ⟨files,looped,nodup,members⟩ := loop_parts (t.children_nodup place) each
          refine ⟨files,looped,nodup,fun file => (members file).trans ?_⟩
          constructor
          · rintro ⟨name,_,rest,rfl,lists⟩
            exact ⟨rest ++ [name],rfl,lists⟩
          · rintro ⟨rest,rfl,lists⟩
            obtain ⟨filename,above,same,_⟩ := lists.named
            rcases List.eq_nil_or_concat rest with rfl | ⟨front,name,rfl⟩
            · cases same
            · rw [List.concat_eq_append] at lists ⊢
              have file := lists.file
              rw [List.append_assoc] at file
              have present : t.find (name :: place) ≠ none := by
                have under : name :: place <:+ front ++ ([name] ++ place) := ⟨front,rfl⟩
                exact Tree.present_above under (by rw [file]; exact Option.some_ne_none _)
              exact ⟨name,Tree.mem_children.mpr present,front,rfl,lists⟩

theorem listAll (kernel : Kernel) (t : FileTree FileName) (path subfix : Str) :
    ∃ files, ListAllFile kernel t path subfix = some files ∧ files.Nodup ∧ ∀ file, file ∈ files ↔
      ∃ place rest, resolve kernel.cwd t path = some place ∧ file = below path rest ∧
        Lists kernel t subfix path place rest := by
  cases led : resolve kernel.cwd t path with
  | none =>
      refine ⟨[],by rw [ListAllFile,listWithin,led],.nil,fun file => iff_of_false nofun ?_⟩
      rintro ⟨_,_,absurd,_⟩
      cases absurd
  | some place =>
      obtain ⟨files,ran,nodup,exactly⟩ := listWithin_lists subfix (t.depth+1) path place led
        (Nat.succ_pos _) fun q _ present => by
          have bound := Tree.length_le_depth present
          omega
      refine ⟨files,ran,nodup,fun file => (exactly file).trans ?_⟩
      constructor
      · rintro ⟨rest,same,lists⟩
        exact ⟨place,rest,rfl,same,lists⟩
      · rintro ⟨_,rest,there,same,lists⟩
        cases there
        exact ⟨rest,same,lists⟩

-- The text of a listed file leads to it.
theorem Lists.led (led : resolve kernel.cwd t path = some place) (lists : Lists kernel t subfix path place rest) :
    resolve kernel.cwd t (below path rest) = some (rest ++ place) := by
  have file := lists.file
  have inner (name : FileName) (above : Place FileName) (suffix : name :: above <:+ rest) :
      ∃ kind, t.find (name :: above ++ place) = some kind ∧ t.find (above ++ place) = some .directory ∧
        ∀ target, kind ≠ .symlink target := by
    obtain ⟨front,same⟩ := suffix
    have upper : t.find (name :: above ++ place) ≠ none := by
      have under : name :: above ++ place <:+ rest ++ place := ⟨front,by rw [←same,List.append_assoc]⟩
      exact Tree.present_above under (by rw [file]; exact Option.some_ne_none _)
    have directory : t.find (above ++ place) = some .directory := by
      obtain ⟨kind,rfl,found⟩ := Tree.branch_above upper
      exact found
    cases front with
    | nil =>
        rw [List.nil_append] at same
        rw [←same] at file
        exact ⟨_,file,directory,nofun⟩
    | cons head front =>
        rw [←same,List.append_assoc] at file
        have present : t.find (head :: front ++ (name :: above ++ place)) ≠ none := by
          rw [file]
          exact Option.some_ne_none _
        exact ⟨_,directory_above present,directory,nofun⟩
  have all (within : Place FileName) (suffix : within <:+ rest) :
      resolve kernel.cwd t (below path within) = some (within ++ place) := by
    induction within with
    | nil => exact led
    | cons name above ih =>
        obtain ⟨kind,found,directory,plain⟩ := inner name above suffix
        refine resolve_child (ih (below_suffix suffix)) directory fun target same => ?_
        exact plain target (Option.some.inj (found.symm.trans same))
  exact all rest (List.suffix_refl rest)

end Steps

theorem list_all_exactly (kernel : Kernel) (t : FileTree FileName) (path subfix : Str) :
    ∃ files, ListAllFile kernel t path subfix = some files ∧ files.Nodup ∧ ∀ file, file ∈ files ↔
      ∃ place rest, resolve kernel.cwd t path = some place ∧ file = below path rest ∧
        Lists kernel t subfix path place rest := by
  obtain ⟨files,ran,nodup,exactly⟩ := listAll kernel t path subfix
  exact ⟨files,ran,nodup,exactly⟩

end Fishjoy.FSUtil
