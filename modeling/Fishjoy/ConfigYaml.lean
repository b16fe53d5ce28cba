import Fishjoy.Http
import Fishjoy.LogLexicalCast
import Mathlib.Logic.Function.Basic

namespace Fishjoy.Config
variable {Value : Type}

structure ConfigVar (Value : Type) where
  name : List UInt8
  description : List UInt8
  val : Value

-- `GetDatas()`.
abbrev Datas (Value : Type) := List UInt8 → Option (ConfigVar Value)

def valid_name : List UInt8 := text "abcdefghikjlmnopqrstuvwxyz._012345678"

-- Whether there is such a character.
def find_first_not_of (name : List UInt8) : Bool := name.any fun c => !valid_name.contains c

def ConfigVar.new (name : List UInt8) (default_value : Value) (description : List UInt8) : ConfigVar Value :=
  ⟨name.map tolower,description,default_value⟩

-- A value knows its type. The variable is null if the name has another type; the
-- error is `std::invalid_argument`.
def Lookup (type : Value → Nat) (datas : Datas Value) (name : List UInt8) (default_value : Value) (description : List UInt8) :
    Except (List UInt8) (Option (ConfigVar Value) × Datas Value) :=
  match datas name with
  | some it => .ok (if type it.val = type default_value then some it else none,datas)
  | none =>
    if find_first_not_of name then .error name
    else
      let v := ConfigVar.new name default_value description
      .ok (some v,Function.update datas name (some v))

-- The name that a member of a map gets.
def memberName (path key : List UInt8) : List UInt8 := if path = [] then key else path ++ 46 :: key

-- A key is given by its `Scalar()`, which is empty for one that is no scalar.
mutual

def ListAllMember (path : List UInt8) : YamlNode → List (List UInt8 × YamlNode)
  | .map fields =>
    if find_first_not_of path then [] else (path,.map fields) :: listFields path fields
  | node => if find_first_not_of path then [] else [(path,node)]

def listFields (path : List UInt8) : List (List UInt8 × YamlNode) → List (List UInt8 × YamlNode)
  | [] => []
  | (key,node) :: rest => ListAllMember (memberName path key) node ++ listFields path rest

end

-- The calls of `fromString`, each with the name of its variable. `emit` is what
-- the node is as a text.
def LoadFromYaml (emit : YamlNode → List UInt8) (datas : Datas Value) (root : YamlNode) :
    List (List UInt8 × List UInt8) :=
  (ListAllMember [] root).filterMap fun i =>
    let key := i.1.map tolower
    if i.1 = [] then none
    else (datas key).map fun _ =>
      (key,
        match i.2 with
        | .scalar value => value
        | node => emit node)

-- The documented alphabet of a component.
def documented (c : UInt8) : Bool := (48 ≤ c && c ≤ 57) || (97 ≤ c && c ≤ 122) || c = 95

def dotted : List (List UInt8) → List UInt8
  | [] => []
  | first :: rest => first ++ rest.flatMap fun component => 46 :: component

def Named (name : List UInt8) : Prop :=
  ∃ components, components ≠ [] ∧ (∀ c ∈ components, c ≠ [] ∧ c.all documented = true) ∧ dotted components = name

-- The keys lead from the node to the value.
inductive Leads : YamlNode → List (List UInt8) → List UInt8 → Prop where
  | value : Leads (.scalar value) [] value
  | member (key : List UInt8) (node : YamlNode) : (key,node) ∈ fields → Leads node keys value →
    Leads (.map fields) (key :: keys) value

structure Usable (emit : YamlNode → List UInt8) (type : Value → Nat) (name : List UInt8) : Prop where
  registered : ∀ datas default_value description, ∃ v datas',
    Lookup type datas name default_value description = .ok (v,datas') ∧ (datas' name).isSome = true ∧
      (datas name = none → v = some ⟨name,description,default_value⟩ ∧ datas' name = v)
  loaded : ∀ (datas : Datas Value) root keys value, (datas name).isSome = true → Leads root keys value →
    dotted keys = name → (name,value) ∈ LoadFromYaml emit datas root

-- What `Lookup` and `LoadFromYaml` should do for a name.
structure Served (emit : YamlNode → List UInt8) (type : Value → Nat) (name : List UInt8) : Prop where
  usable : Named name → Usable emit type name
  refused : (∃ c ∈ name, documented c = false ∧ c ≠ 46) → ∀ (datas : Datas Value) default_value description,
    datas name = none → Lookup type datas name default_value description = .error name

-- Numbers are compared faster than bytes.
theorem valid_name_numbers (c : UInt8) : valid_name.contains c =
    [97,98,99,100,101,102,103,104,105,107,106,108,109,110,111,112,113,114,115,116,117,118,119,120,121,122,
      46,95,48,49,50,51,52,53,54,55,56].contains c.toNat := by
  have bytes : valid_name.map UInt8.toNat =
      [97,98,99,100,101,102,103,104,105,107,106,108,109,110,111,112,113,114,115,116,117,118,119,120,121,122,
        46,95,48,49,50,51,52,53,54,55,56] := by
    decide +kernel
  rw [←bytes,Bool.eq_iff_iff,List.contains_iff_mem,List.contains_iff_mem,List.mem_map]
  exact ⟨fun member => ⟨c,member,rfl⟩,fun ⟨d,member,same⟩ => UInt8.toNat_inj.mp same ▸ member⟩

theorem valid_iff (c : UInt8) : valid_name.contains c = ((documented c || c = 46) && c ≠ 57) := by
  rw [valid_name_numbers]
  revert c
  exact StringUtil.every_byte (by decide +kernel)

theorem documented_lower (c : UInt8) : documented c = true → tolower c = c ∧ c ≠ 46 := by
  revert c
  exact StringUtil.every_byte (by decide +kernel)

theorem clean_iff {name : List UInt8} : find_first_not_of name = false ↔ ∀ c ∈ name, valid_name.contains c = true := by
  simp [find_first_not_of]

theorem clean_append {front back : List UInt8} (clean : find_first_not_of (front ++ back) = false) :
    find_first_not_of front = false := by
  rw [clean_iff] at clean ⊢
  exact fun c member => clean c (List.mem_append_left _ member)

variable {path key name value : List UInt8} {node root : YamlNode} {fields : List (List UInt8 × YamlNode)}
  {keys components : List (List UInt8)}

theorem mem_listFields (path : List UInt8) (member : (key,node) ∈ fields) {entry : List UInt8 × YamlNode}
    (listed : entry ∈ ListAllMember (memberName path key) node) : entry ∈ listFields path fields := by
  induction fields with
  | nil => cases member
  | cons first rest ih =>
      obtain ⟨firstKey,firstNode⟩ := first
      rw [listFields,List.mem_append]
      rcases List.mem_cons.mp member with here | later
      · cases here
        exact .inl listed
      · exact .inr (ih later)

-- Every step of the way keeps to a name that is taken.
theorem leads_listed (leads : Leads node keys value) (path : List UInt8) (filled : path ≠ [])
    (clean : find_first_not_of (path ++ keys.flatMap fun key => 46 :: key) = false) :
    (path ++ keys.flatMap fun key => 46 :: key,.scalar value) ∈ ListAllMember path node := by
  induction leads generalizing path with
  | value =>
      rw [List.flatMap_nil,List.append_nil] at clean ⊢
      simp [ListAllMember,clean]
  | member key node member leads ih =>
      have here := clean_append clean
      have name : memberName path key = path ++ 46 :: key := if_neg filled
      rw [List.flatMap_cons,←List.append_assoc,←name] at clean ⊢
      rw [ListAllMember,here,if_neg Bool.false_ne_true]
      refine .tail _ (mem_listFields path member (ih _ ?_ clean))
      rw [name]
      exact List.append_ne_nil_of_left_ne_nil filled _

theorem dotted_bytes (all : ∀ c ∈ components, c ≠ [] ∧ c.all documented = true) (b : UInt8) (member : b ∈ dotted components) :
    documented b = true ∨ b = 46 := by
  cases components with
  | nil => cases member
  | cons first rest =>
      have byte (component : List UInt8) (among : component ∈ first :: rest) (b : UInt8) (inside : b ∈ component) :
          documented b = true := List.all_eq_true.mp (all component among).2 b inside
      rcases List.mem_append.mp member with front | back
      · exact .inl (byte first (.head _) b front)
      · obtain ⟨component,among,inside⟩ := List.mem_flatMap.mp back
        rcases List.mem_cons.mp inside with dot | inner
        · exact .inr dot
        · exact .inl (byte component (.tail _ among) b inner)

theorem named_starts (named : Named name) : ∃ c rest, name = c :: rest ∧ c ≠ 46 := by
  obtain ⟨components,some,all,rfl⟩ := named
  cases components with
  | nil => exact absurd rfl some
  | cons first rest =>
      obtain ⟨filled,alphabet⟩ := all first (.head _)
      cases first with
      | nil => exact absurd rfl filled
      | cons c first =>
          exact ⟨c,_,rfl,(documented_lower c (List.all_eq_true.mp alphabet c (.head _))).2⟩

theorem named_clean (named : Named name) (absent : 57 ∉ name) : find_first_not_of name = false := by
  rw [clean_iff]
  intro c member
  obtain ⟨components,_,all,rfl⟩ := named
  have other : c ≠ 57 := fun same => absent (same ▸ member)
  rcases dotted_bytes all c member with inside | dot
  · rw [valid_iff,inside]
    simp [other]
  · rw [valid_iff,dot]
    rfl

theorem named_lower (named : Named name) : name.map tolower = name := by
  obtain ⟨components,_,all,rfl⟩ := named
  have kept : ∀ c ∈ dotted components, tolower c = c := by
    intro c member
    rcases dotted_bytes all c member with inside | dot
    · exact (documented_lower c inside).1
    · rw [dot]
      rfl
  exact (List.map_congr_left kept).trans (List.map_id _)

-- Behind an empty first key comes a dot.
theorem dotted_empty {c : UInt8} {rest : List UInt8} (keys : List (List UInt8)) (noDot : c ≠ 46) :
    dotted ([] :: keys) ≠ c :: rest := by
  intro same
  cases keys with
  | nil => cases same
  | cons next keys => exact noDot (List.cons.inj same).1.symm

theorem named_listed (named : Named name) (absent : 57 ∉ name) (leads : Leads root keys value) (path : dotted keys = name) :
    (name,.scalar value) ∈ ListAllMember [] root := by
  have clean := named_clean named absent
  obtain ⟨c,rest,starts,noDot⟩ := named_starts named
  cases leads with
  | value =>
      rw [starts] at path
      cases path
  | member key node member leads =>
      have filled : key ≠ [] := by
        rintro rfl
        rw [starts] at path
        exact dotted_empty _ noDot path
      have listed := leads_listed leads key filled (by rw [←path] at clean; exact clean)
      rw [←path]
      exact .tail _ (mem_listFields [] member listed)

theorem loaded_call (named : Named name) (emit : YamlNode → List UInt8) (datas : Datas Value)
    (registered : (datas name).isSome = true) (listed : (name,.scalar value) ∈ ListAllMember [] root) :
    (name,value) ∈ LoadFromYaml emit datas root := by
  obtain ⟨c,rest,starts,_⟩ := named_starts named
  obtain ⟨v,found⟩ := Option.isSome_iff_exists.mp registered
  refine List.mem_filterMap.mpr ⟨_,listed,?_⟩
  have filled : name ≠ [] := by simp [starts]
  simp [named_lower named,filled,found]

theorem named_usable (named : Named name) (absent : 57 ∉ name) (emit : YamlNode → List UInt8) (type : Value → Nat) :
    Usable emit type name := by
  refine ⟨?_,?_⟩
  · intro datas default_value description
    unfold Lookup
    cases found : datas name with
    | some it => exact ⟨_,_,rfl,by simp [found],fun free => by cases free⟩
    | none =>
        simp only [named_clean named absent,Bool.false_eq_true,if_false,ConfigVar.new,named_lower named]
        exact ⟨_,_,rfl,by simp,fun _ => ⟨rfl,by simp⟩⟩
  · intro datas root keys value registered leads path
    exact loaded_call named emit datas registered (named_listed named absent leads path)

theorem lookup_refused (type : Value → Nat) {datas : Datas Value} (free : datas name = none)
    (invalid : ∃ c ∈ name, valid_name.contains c = false) (default_value : Value) (description : List UInt8) :
    Lookup type datas name default_value description = .error name := by
  have found : find_first_not_of name = true := by
    obtain ⟨c,member,other⟩ := invalid
    exact List.any_eq_true.mpr ⟨c,member,by rw [other]; rfl⟩
  simp [Lookup,free,found]

theorem names_exactly [Inhabited Value] (emit : YamlNode → List UInt8) (type : Value → Nat) (name : List UInt8) :
    Served emit type name ↔ ¬(Named name ∧ 57 ∈ name) := by
  constructor
  · rintro served ⟨named,nine⟩
    obtain ⟨v,datas,same,_⟩ := (served.usable named).registered (fun _ => none) default []
    rw [lookup_refused type rfl ⟨57,nine,by rw [valid_iff]; rfl⟩] at same
    cases same
  · intro noNine
    refine ⟨?_,?_⟩
    · intro named
      exact named_usable named (fun nine => noNine ⟨named,nine⟩) emit type
    · rintro ⟨c,member,outside,noDot⟩ datas default_value description free
      have invalid : valid_name.contains c = false := by
        rw [valid_iff,outside]
        simp [noDot]
      exact lookup_refused type free ⟨c,member,invalid⟩ default_value description

theorem port_nine_refused : ¬∀ name : List UInt8, Served (fun _ => []) (fun _ : Nat => 0) name := by
  intro always
  have named : Named (text "port9") := ⟨[text "port9"],by decide,by decide,rfl⟩
  obtain ⟨v,datas,same,_⟩ := ((always (text "port9")).usable named).registered (fun _ => none) 0 []
  cases same

end Fishjoy.Config
