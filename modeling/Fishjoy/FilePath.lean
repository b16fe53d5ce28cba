import Fishjoy.Env
import Fishjoy.FileRm

namespace Fishjoy.FSUtil
open Places EnvMgr

-- The name of an entry. A path goes on behind a slash, and "." and ".." are in
-- every directory.
def Named (name : Str) : Prop := name ≠ [] ∧ name ≠ [46] ∧ name ≠ [46,46] ∧ slash ∉ name

instance (name : Str) : Decidable (Named name) := inferInstanceAs (Decidable (_ ∧ _ ∧ _ ∧ _))

abbrev FileName := {name : Str // Named name}

section Kernel
variable (cwd : Place FileName) (t : FileTree FileName)

-- One component of a path, behind a place with the links that may still come.
def component (upto : Nat × Place FileName) (name : Str) : Option (Nat × Place FileName) :=
  match t.find upto.2 with
  | some .directory =>
    if name = [] ∨ name = [46] then some upto
    else if name = [46,46] then some (upto.1,upto.2.tail)
    else if named : Named name then chase t upto.1 (⟨name,named⟩ :: upto.2)
    else none
  | _ => none

-- The place that a path leads to, every link on the way and at its end followed.
def walk (path : Str) : Option (Nat × Place FileName) :=
  if path = [] then none
  else (path.splitOn slash).foldlM (component t) (MAXSYMLINKS,if path.head? = some slash then [] else cwd)

def resolve (path : Str) : Option (Place FileName) := (walk cwd t path).map Prod.snd

end Kernel

-- The text of a path that goes on with the names.
def below (path : Str) (rest : Place FileName) : Str := rest.foldr (fun name above => above ++ slash :: name.val) path

section Steps
variable {cwd place : Place FileName} {t : FileTree FileName} {path : Str} {name : FileName} {rest rest' : Place FileName}

theorem component_plain {links : Nat} (directory : t.find place = some .directory)
    (plain : ∀ target, t.find (name :: place) ≠ some (.symlink target)) :
    component t (links,place) name.val = some (links,name :: place) := by
  obtain ⟨nonempty,dot,dotdot,_⟩ := id name.property
  unfold component
  simp only [directory]
  rw [if_neg (not_or.mpr ⟨nonempty,dot⟩),if_neg dotdot,dif_pos name.property]
  exact chase_other plain links

theorem walk_more (more : Str) (nonempty : path ≠ []) : walk cwd t (path ++ slash :: more) =
    (walk cwd t path).bind fun upto => (more.splitOn slash).foldlM (component t) upto := by
  have head : (path ++ slash :: more).head? = path.head? := List.head?_append_of_ne_nil _ nonempty
  rw [walk,walk,if_neg (by simp),if_neg nonempty,head,List.splitOn_append_cons_self,List.foldlM_append]
  rfl

theorem resolve_child (led : resolve cwd t path = some place) (directory : t.find place = some .directory)
    (plain : ∀ target, t.find (name :: place) ≠ some (.symlink target)) :
    resolve cwd t (path ++ slash :: name.val) = some (name :: place) := by
  obtain ⟨⟨links,_⟩,walked,rfl⟩ := Option.map_eq_some_iff.mp led
  have nonempty : path ≠ [] := by
    rintro rfl
    rw [walk,if_pos rfl] at walked
    cases walked
  rw [resolve,walk_more _ nonempty,walked,List.splitOn_eq_singleton name.property.2.2.2]
  simp only [Option.bind_some,List.foldlM_cons,List.foldlM_nil,component_plain directory plain]
  rfl

theorem below_append (path : Str) (rest front : Place FileName) : below path (front ++ rest) = below (below path rest) front :=
  List.foldr_append ..

-- The names can be read back from the text.
theorem below_injective (same : below path rest = below path rest') : rest = rest' := by
  have longer (name : FileName) (rest : Place FileName) : path ≠ below path (name :: rest) := by
    intro same
    have grown (rest : Place FileName) : path.length ≤ (below path rest).length := by
      induction rest with
      | nil => exact Nat.le_refl _
      | cons name rest ih =>
          rw [below,List.foldr_cons,List.length_append,←below]
          omega
    have lengths := congrArg List.length same
    rw [below,List.foldr_cons,List.length_append,←below,List.length_cons] at lengths
    have bound := grown rest
    omega
  induction rest generalizing rest' with
  | nil =>
      cases rest' with
      | nil => rfl
      | cons name rest' => exact absurd same (longer name rest')
  | cons name rest ih =>
      cases rest' with
      | nil => exact absurd same.symm (longer name rest)
      | cons name' rest' =>
          have same : below path rest ++ slash :: name.val = below path rest' ++ slash :: name'.val := same
          have last (front : Str) (name : FileName) :
              (front ++ slash :: name.val).splitOn slash = front.splitOn slash ++ [name.val] := by
            rw [List.splitOn_append_cons_self,List.splitOn_eq_singleton name.property.2.2.2]
          have split := last (below path rest) name
          rw [same,last] at split
          have names := (List.append_inj_right' split rfl)
          obtain rfl : name' = name := Subtype.ext (List.singleton_inj.mp names)
          rw [ih (List.append_cancel_right same)]

end Steps
end Fishjoy.FSUtil
