import Fishjoy.Foundation.KeyedMap
import Fishjoy.LogLexicalCast
import Mathlib.Data.Finset.Basic
import Mathlib.Data.Finset.Lattice.Lemmas

namespace Fishjoy.Lexical

abbrev Str := List UInt8

-- yaml-cpp, as far as the casts use it: `YAML::Load`, which may throw, a node
-- written to a stream, and what an undefined node is there.
structure Yaml where
  Load : Str → Option YamlNode
  emit : YamlNode → Str
  undefined : Str

-- `LexicalCast<T, std::string>` and `LexicalCast<std::string, T>`; no value is an
-- exception.
structure LexicalCast (T : Type) where
  toString : T → Option Str
  fromString : Str → Option T

-- `node[0]` up to `node[node.size()-1]`.
def elements : YamlNode → List (Option YamlNode)
  | .sequence items => items.map some
  | .map fields => (List.range fields.length).map fun i => fields.lookup (text (ToString.toString i))
  | _ => []

-- `node[key] = value` on the fields a node has.
def setField (fields : List (Str × YamlNode)) (field : Str × YamlNode) : List (Str × YamlNode) :=
  if fields.any fun f => f.1 = field.1 then fields.map fun f => if f.1 = field.1 then field else f else fields ++ [field]

-- A container that is filled element by element: a copy of it read in its own
-- order is the same container.
structure Sequence (C T : Type) where
  items : C → List T
  empty : C
  add : C → T → C
  rebuilt : ∀ v, (items v).foldl add empty = v

structure Mapping (M T : Type) where
  items : M → List (Str × T)
  empty : M
  add : M → Str × T → M
  distinct : ∀ v, ((items v).map Prod.fst).Nodup
  rebuilt : ∀ v, (items v).foldl add empty = v
  kept : ∀ l, (l.map Prod.fst).Nodup → (items (l.foldl add empty)).Perm l

namespace Yaml
variable (y : Yaml) {C M T : Type}

-- `ss << node[i]`.
def print : Option YamlNode → Str
  | some node => y.emit node
  | none => y.undefined

-- `YAML::Load(LexicalCast<T, std::string>()(i))`.
def reload (c : LexicalCast T) (i : T) : Option YamlNode := (c.toString i).bind y.Load

-- The casts of `std::vector`, `std::list`, `std::set` and `std::unordered_set`.
def sequence (k : Sequence C T) (c : LexicalCast T) : LexicalCast C where
  toString v := ((k.items v).mapM (y.reload c)).map fun nodes => y.emit (.ofItems nodes)
  fromString v := (y.Load v).bind fun node =>
    ((elements node).mapM fun i => c.fromString (y.print i)).map fun l => l.foldl k.add k.empty

-- The casts of `std::map` and `std::unordered_map`. A pair of a sequence has no
-- key to ask for its scalar.
def mapping (k : Mapping M T) (c : LexicalCast T) : LexicalCast M where
  toString v := ((k.items v).mapM fun i => (y.reload c i.2).map fun node => (i.1,node)).map fun fields =>
    y.emit (.ofFields (fields.foldl setField []))
  fromString v := (y.Load v).bind fun
    | .map fields => (fields.mapM fun it => (c.fromString (y.emit it.2)).map fun x => (it.1,x)).map fun l =>
      l.foldl k.add k.empty
    | .sequence (_ :: _) => none
    | _ => some k.empty

end Yaml

theorem appended {T : Type} (l front : List T) : l.foldl (fun v i => v ++ [i]) front = front ++ l := by
  induction l generalizing front with
  | nil => exact (List.append_nil front).symm
  | cons i rest ih => exact (ih _).trans (List.append_assoc front [i] rest)

def vector (T : Type) : Sequence (List T) T where
  items v := v
  empty := []
  add v i := v ++ [i]
  rebuilt v := appended v []

def list (T : Type) : Sequence (List T) T := vector T

-- `std::set` with its comparator.
def set {T : Type} (less : T → T → Bool) [WeakOrder less] : Sequence (KeyedMap less Unit) T where
  items v := v.entries.map Prod.fst
  empty := .empty
  add v i := v.insert i ()
  rebuilt v := by
    have whole := KeyedMap.insertAll_entries v v.entries (.refl _)
    rw [List.foldl_map]
    exact whole

-- `std::unordered_set`, which lists its elements in an order of its own.
def unordered_set {T : Type} [DecidableEq T] (order : Finset T → List T) (listed : ∀ v, (order v).toFinset = v) :
    Sequence (Finset T) T where
  items := order
  empty := ∅
  add v i := insert i v
  rebuilt v := by
    have collected : ∀ (l : List T) (front : Finset T), l.foldl (fun v i => insert i v) front = front ∪ l.toFinset := by
      intro l
      induction l with
      | nil => exact fun front => (Finset.union_empty front).symm
      | cons i rest ih =>
          intro front
          rw [List.foldl_cons,ih,List.toFinset_cons,Finset.insert_union,Finset.union_insert]
    rw [collected,listed]
    exact Finset.empty_union v

-- `operator<` of strings.
def stringLess (x y : Str) : Bool := decide (LogDefine.byName x < LogDefine.byName y)

theorem stringLess_iff (x y : Str) : stringLess x y = true ↔ LogDefine.byName x < LogDefine.byName y := decide_eq_true_iff

instance stringLess_order : WeakOrder stringLess := .of_rank LogDefine.byName stringLess_iff

theorem equivalent_apart {x y : Str} (apart : x ≠ y) : KeyedMap.equivalent stringLess x y = false := by
  rw [Bool.eq_false_iff,Ne,KeyedMap.equivalent_rank LogDefine.byName stringLess_iff,LogDefine.byName_inj]
  exact apart

-- The content of `std::map` and `std::unordered_map`, listed in an order that is
-- for the first one that of its keys.
def mapOf (T : Type) (order : KeyedMap stringLess T → List (Str × T)) (listed : ∀ v, (order v).Perm v.entries) :
    Mapping (KeyedMap stringLess T) T where
  items := order
  empty := .empty
  add v i := v.insert i.1 i.2
  distinct v := by
    refine (((listed v).map Prod.fst).nodup_iff).mpr (List.pairwise_map.mpr ?_)
    refine v.entries_apart.imp fun {a b} apart same => ?_
    rw [same,KeyedMap.equivalent_refl] at apart
    cases apart
  rebuilt v := KeyedMap.insertAll_entries v _ (listed v)
  kept l distinct := by
    have apart := (List.pairwise_map.mp distinct).imp fun {a b} apart => equivalent_apart (Ne.symm apart)
    exact (listed _).trans (KeyedMap.insertAll_perm l .empty apart nofun)

def map (T : Type) : Mapping (KeyedMap stringLess T) T := mapOf T KeyedMap.entries fun _ => .refl _

def unordered_map (T : Type) (order : KeyedMap stringLess T → List (Str × T)) (listed : ∀ v, (order v).Perm v.entries) :
    Mapping (KeyedMap stringLess T) T := mapOf T order listed

-- Reading back what was written.
def Returns {T : Type} (c : LexicalCast T) (v : T) : Prop := (c.toString v).bind c.fromString = some v

namespace Yaml
variable (y : Yaml) {C M T : Type}

-- What becomes of an element inside of a container.
def echo (c : LexicalCast T) (i : T) : Option T := (y.reload c i).bind fun node => c.fromString (y.emit node)

def Survives (c : LexicalCast T) (i : T) : Prop := y.echo c i = some i

-- The node of the container is read as it was written.
def SequenceRead (k : Sequence C T) (c : LexicalCast T) (v : C) : Prop :=
  ∀ nodes, (k.items v).mapM (y.reload c) = some nodes → y.Load (y.emit (.ofItems nodes)) = some (.ofItems nodes)

def MappingRead (k : Mapping M T) (c : LexicalCast T) (v : M) : Prop :=
  ∀ fields, ((k.items v).mapM fun i => (y.reload c i.2).map fun node => (i.1,node)) = some fields →
    y.Load (y.emit (.ofFields fields)) = some (.ofFields fields)

-- What yaml-cpp has to read back of a container, and which of its scalars have
-- to survive.
def sequenceRead (k : Sequence C T) (c : LexicalCast T) (read : T → Prop) (v : C) : Prop :=
  y.SequenceRead k c v ∧ ∀ i ∈ k.items v, read i

def mappingRead (k : Mapping M T) (c : LexicalCast T) (read : T → Prop) (v : M) : Prop :=
  y.MappingRead k c v ∧ ∀ i ∈ k.items v, read i.2

def sequenceSurvives (k : Sequence C T) (survives : T → Prop) (v : C) : Prop := ∀ i ∈ k.items v, survives i

def mappingSurvives (k : Mapping M T) (survives : T → Prop) (v : M) : Prop := ∀ i ∈ k.items v, survives i.2

-- The casts of this file, nested in any way. One is `exact` without a set in it,
-- and a container or not.
inductive Nest : {T : Type} → Prop → Bool → LexicalCast T → (T → Prop) → (T → Prop) → Prop
  | scalar {T : Type} (c : LexicalCast T) : Nest True false c (fun _ => True) (y.Survives c)
  | vector {T : Type} {exact : Prop} {container : Bool} {c : LexicalCast T} {read survives : T → Prop}
      (inner : Nest exact container c read survives) : Nest exact true (y.sequence (vector T) c)
        (y.sequenceRead (vector T) c read) (sequenceSurvives (vector T) survives)
  | list {T : Type} {exact : Prop} {container : Bool} {c : LexicalCast T} {read survives : T → Prop}
      (inner : Nest exact container c read survives) : Nest exact true (y.sequence (list T) c)
        (y.sequenceRead (list T) c read) (sequenceSurvives (list T) survives)
  | set {T : Type} {exact : Prop} {container : Bool} {c : LexicalCast T} {read survives : T → Prop}
      (less : T → T → Bool) [WeakOrder less] (inner : Nest exact container c read survives) :
      Nest False true (y.sequence (set less) c)
        (y.sequenceRead (set less) c read) (sequenceSurvives (set less) survives)
  | unordered_set {T : Type} {exact : Prop} {container : Bool} {c : LexicalCast T} {read survives : T → Prop}
      [DecidableEq T] (order : Finset T → List T) (listed : ∀ v, (order v).toFinset = v)
      (inner : Nest exact container c read survives) : Nest False true (y.sequence (unordered_set order listed) c)
        (y.sequenceRead (unordered_set order listed) c read) (sequenceSurvives (unordered_set order listed) survives)
  | map {T : Type} {exact : Prop} {container : Bool} {c : LexicalCast T} {read survives : T → Prop}
      (inner : Nest exact container c read survives) : Nest exact true (y.mapping (map T) c)
        (y.mappingRead (map T) c read) (mappingSurvives (map T) survives)
  | unordered_map {T : Type} {exact : Prop} {container : Bool} {c : LexicalCast T} {read survives : T → Prop}
      (order : KeyedMap stringLess T → List (Str × T)) (listed : ∀ v, (order v).Perm v.entries)
      (inner : Nest exact container c read survives) : Nest exact true (y.mapping (unordered_map T order listed) c)
        (y.mappingRead (unordered_map T order listed) c read) (mappingSurvives (unordered_map T order listed) survives)

section Loops
variable {α β γ δ : Type}

theorem mapM_mapM (f : α → Option β) (g : β → Option γ) (l : List α) :
    (l.mapM f).bind (fun r => r.mapM g) = l.mapM fun i => (f i).bind g := by
  induction l with
  | nil => rfl
  | cons i rest ih =>
      simp only [List.mapM_cons,Option.bind_eq_bind,←ih]
      cases f i with
      | none => rfl
      | some n =>
          cases rest.mapM f with
          | none =>
              simp only [Option.bind_some,Option.bind_none]
              cases g n <;> rfl
          | some r =>
              simp only [Option.bind_some,Option.pure_def,List.mapM_cons,Option.bind_eq_bind]

theorem mapM_same (f : α → Option α) (l : List α) : l.mapM f = some l ↔ ∀ i ∈ l, f i = some i := by
  induction l with
  | nil => exact iff_of_true rfl nofun
  | cons i rest ih =>
      rw [List.mapM_cons,List.forall_mem_cons,←ih]
      cases f i with
      | none => simp
      | some n => cases rest.mapM f <;> simp

-- What a loop keeps of its elements.
theorem mapM_keeps (f : α → Option β) (key : α → γ) (back : β → γ) (keeps : ∀ i n, f i = some n → back n = key i)
    (l : List α) {r : List β} (ran : l.mapM f = some r) : r.map back = l.map key := by
  induction l generalizing r with
  | nil =>
      cases ran
      rfl
  | cons i rest ih =>
      rw [List.mapM_cons] at ran
      obtain ⟨n,here,ran⟩ := Option.bind_eq_some_iff.mp ran
      obtain ⟨ns,later,same⟩ := Option.bind_eq_some_iff.mp ran
      cases same
      rw [List.map_cons,List.map_cons,keeps i n here,ih later]

end Loops

section Containers
variable {y : Yaml} {C M T : Type} {c : LexicalCast T}

theorem elements_ofItems (nodes : List YamlNode) : elements (.ofItems nodes) = nodes.map some := by
  cases nodes <;> rfl

-- With different keys every assignment adds a field.
theorem setField_all (fields : List (Str × YamlNode)) (distinct : (fields.map Prod.fst).Nodup) :
    fields.foldl setField [] = fields := by
  have added : ∀ later front : List (Str × YamlNode), ((front ++ later).map Prod.fst).Nodup →
      later.foldl setField front = front ++ later := by
    intro later
    induction later with
    | nil => exact fun front _ => (List.append_nil front).symm
    | cons field rest ih =>
        intro front nodup
        have fresh : (front.any fun f => f.1 = field.1) = false := by
          rw [List.any_eq_false]
          intro f member same
          rw [List.map_append,List.nodup_append] at nodup
          exact nodup.2.2 f.1 (List.mem_map_of_mem member) field.1 (by simp) (of_decide_eq_true same)
        rw [List.foldl_cons,setField,fresh,if_neg Bool.false_ne_true,ih (front ++ [field]) (by
          rw [List.append_assoc]
          exact nodup),List.append_assoc]
        rfl
  exact added fields [] distinct

theorem sequence_back {k : Sequence C T} {v : C} (read : y.SequenceRead k c v) :
    ((y.sequence k c).toString v).bind (y.sequence k c).fromString =
      ((k.items v).mapM (y.echo c)).map fun l => l.foldl k.add k.empty := by
  have whole := mapM_mapM (y.reload c) (fun node => c.fromString (y.emit node)) (k.items v)
  change _ = Option.map _ ((k.items v).mapM fun i => (y.reload c i).bind _)
  rw [←whole]
  cases loaded : (k.items v).mapM (y.reload c) with
  | none => simp [Yaml.sequence,loaded]
  | some nodes =>
      simp only [Yaml.sequence,loaded,Option.map_some,Option.bind_some,read nodes loaded,elements_ofItems]
      rw [List.mapM_map]
      rfl

theorem mapping_fields {k : Mapping M T} {v : M} {fields : List (Str × YamlNode)}
    (loaded : ((k.items v).mapM fun i => (y.reload c i.2).map fun node => (i.1,node)) = some fields) :
    fields.foldl setField [] = fields := by
  refine setField_all fields ?_
  rw [mapM_keeps _ Prod.fst Prod.fst (fun i n here => ?_) _ loaded]
  · exact k.distinct v
  · obtain ⟨_,_,rfl⟩ := Option.map_eq_some_iff.mp here
    rfl

theorem mapping_back {k : Mapping M T} {v : M} (read : y.MappingRead k c v) :
    ((y.mapping k c).toString v).bind (y.mapping k c).fromString =
      ((k.items v).mapM fun i => (y.echo c i.2).map fun x => (i.1,x)).map fun l => l.foldl k.add k.empty := by
  have whole := mapM_mapM (fun i : Str × T => (y.reload c i.2).map fun node => (i.1,node))
    (fun it => (c.fromString (y.emit it.2)).map fun x => (it.1,x)) (k.items v)
  have same : (fun i : Str × T => ((y.reload c i.2).map fun node => (i.1,node)).bind fun it =>
      (c.fromString (y.emit it.2)).map fun x => (it.1,x)) = fun i => (y.echo c i.2).map fun x => (i.1,x) := by
    funext i
    unfold Yaml.echo
    cases y.reload c i.2 <;> rfl
  rw [←same,←whole]
  cases loaded : (k.items v).mapM fun i => (y.reload c i.2).map fun node => (i.1,node) with
  | none => simp [Yaml.mapping,loaded]
  | some fields =>
      simp only [Yaml.mapping,loaded,Option.map_some,Option.bind_some,mapping_fields loaded,read fields loaded]
      cases fields <;> rfl

-- Where its node is read as it was written, a container is read inside of another
-- as it is alone.
theorem sequence_survives {k : Sequence C T} {v : C} (read : y.SequenceRead k c v) :
    y.Survives (y.sequence k c) v ↔ Returns (y.sequence k c) v := by
  have same : y.echo (y.sequence k c) v = ((y.sequence k c).toString v).bind (y.sequence k c).fromString := by
    unfold Yaml.echo Yaml.reload
    cases loaded : (k.items v).mapM (y.reload c) with
    | none => simp [Yaml.sequence,loaded]
    | some nodes => simp only [Yaml.sequence,loaded,Option.map_some,Option.bind_some,read nodes loaded]
  rw [Yaml.Survives,Returns,same]

theorem mapping_survives {k : Mapping M T} {v : M} (read : y.MappingRead k c v) :
    y.Survives (y.mapping k c) v ↔ Returns (y.mapping k c) v := by
  have same : y.echo (y.mapping k c) v = ((y.mapping k c).toString v).bind (y.mapping k c).fromString := by
    unfold Yaml.echo Yaml.reload
    cases loaded : (k.items v).mapM fun i => (y.reload c i.2).map fun node => (i.1,node) with
    | none => simp [Yaml.mapping,loaded]
    | some fields =>
        simp only [Yaml.mapping,loaded,Option.map_some,Option.bind_some,mapping_fields loaded,read fields loaded]
  rw [Yaml.Survives,Returns,same]

theorem sequence_returns {k : Sequence C T} {v : C} (read : y.SequenceRead k c v) :
    ((∀ i ∈ k.items v, y.Survives c i) → Returns (y.sequence k c) v) ∧
      ((∀ v l, l.foldl k.add k.empty = v → l = k.items v) → Returns (y.sequence k c) v →
        ∀ i ∈ k.items v, y.Survives c i) := by
  rw [Returns,sequence_back read]
  constructor
  · intro survive
    rw [(mapM_same (y.echo c) (k.items v)).mpr survive,Option.map_some,k.rebuilt]
  · intro exact_ returns
    obtain ⟨l,looped,built⟩ := Option.map_eq_some_iff.mp returns
    rw [exact_ v l built] at looped
    exact (mapM_same (y.echo c) (k.items v)).mp looped

-- Lists of pairs that have the same different keys in the same places.
theorem pairs_same {α β : Type} (l r : List (α × β)) (keys : l.map Prod.fst = r.map Prod.fst)
    (distinct : (l.map Prod.fst).Nodup) (same : l.Perm r) : l = r := by
  induction l generalizing r with
  | nil =>
      cases r with
      | nil => rfl
      | cons => cases keys
  | cons a rest ih =>
      cases r with
      | nil => cases keys
      | cons b others =>
          obtain ⟨here,later⟩ := List.cons.inj keys
          obtain ⟨fresh,distinct⟩ := List.nodup_cons.mp distinct
          have equal : a = b := by
            rcases List.mem_cons.mp (same.subset (.head rest)) with equal | other
            · exact equal
            · have again := List.mem_map_of_mem (f := Prod.fst) other
              rw [←later] at again
              exact absurd again fresh
          rw [equal] at same ⊢
          rw [ih others later distinct same.cons_inv]

theorem mapping_returns {k : Mapping M T} {v : M} (read : y.MappingRead k c v) :
    Returns (y.mapping k c) v ↔ ∀ i ∈ k.items v, y.Survives c i.2 := by
  have each : (∀ i ∈ k.items v, y.Survives c i.2) ↔
      ∀ i ∈ k.items v, ((y.echo c i.2).map fun x => (i.1,x)) = some i := by
    refine forall₂_congr fun i _ => ?_
    rw [Yaml.Survives]
    cases y.echo c i.2 with
    | none => exact ⟨nofun,nofun⟩
    | some x =>
        constructor
        · intro same
          cases same
          rfl
        · intro same
          rw [←Option.some.inj same]
  rw [Returns,mapping_back read,each,←mapM_same]
  constructor
  · intro returns
    obtain ⟨l,looped,built⟩ := Option.map_eq_some_iff.mp returns
    have keys := mapM_keeps _ Prod.fst Prod.fst (fun i n here => by
      obtain ⟨_,_,rfl⟩ := Option.map_eq_some_iff.mp here
      rfl) _ looped
    have distinct : (l.map Prod.fst).Nodup := keys ▸ k.distinct v
    have listed := k.kept l distinct
    rw [built] at listed
    rw [looped,pairs_same l (k.items v) keys distinct listed.symm]
  · intro looped
    rw [looped,Option.map_some,k.rebuilt]

-- What the elements give their container.
theorem sequence_inherits {k : Sequence C T} {read survives : T → Prop} {v : C} (readable : y.sequenceRead k c read v)
    (inner : ∀ i ∈ k.items v, read i → survives i → y.Survives c i) (all : sequenceSurvives k survives v) :
    Returns (y.sequence k c) v :=
  (sequence_returns readable.1).1 fun i member => inner i member (readable.2 i member) (all i member)

theorem mapping_inherits {k : Mapping M T} {read survives : T → Prop} {v : M} (readable : y.mappingRead k c read v)
    (inner : ∀ i ∈ k.items v, read i.2 → survives i.2 → y.Survives c i.2) (all : mappingSurvives k survives v) :
    Returns (y.mapping k c) v :=
  (mapping_returns readable.1).mpr fun i member => inner i member (readable.2 i member) (all i member)

theorem vector_demands {read survives : T → Prop} {v : List T} (readable : y.sequenceRead (vector T) c read v)
    (inner : ∀ i ∈ v, read i → y.Survives c i → survives i) (returns : Returns (y.sequence (vector T) c) v) :
    sequenceSurvives (vector T) survives v := by
  have each := (sequence_returns readable.1).2 (fun v l built => (appended l []).symm.trans built) returns
  exact fun i member => inner i member (readable.2 i member) (each i member)

theorem mapping_demands {k : Mapping M T} {read survives : T → Prop} {v : M} (readable : y.mappingRead k c read v)
    (inner : ∀ i ∈ k.items v, read i.2 → y.Survives c i.2 → survives i.2) (returns : Returns (y.mapping k c) v) :
    mappingSurvives k survives v :=
  fun i member => inner i member (readable.2 i member) ((mapping_returns readable.1).mp returns i member)

-- Inside of a container, by induction on the nesting.
theorem nest_survives {exact : Prop} {container : Bool} {read survives : T → Prop}
    (nest : y.Nest exact container c read survives) (v : T) (readable : read v) :
    (survives v → y.Survives c v) ∧ (exact → y.Survives c v → survives v) := by
  induction nest with
  | scalar c => exact ⟨id,fun _ => id⟩
  | vector inner ih =>
      rw [sequence_survives readable.1]
      exact ⟨sequence_inherits readable fun i _ within => (ih i within).1,
        fun sharp => vector_demands readable fun i _ within => (ih i within).2 sharp⟩
  | list inner ih =>
      rw [sequence_survives readable.1]
      exact ⟨sequence_inherits readable fun i _ within => (ih i within).1,
        fun sharp => vector_demands readable fun i _ within => (ih i within).2 sharp⟩
  | set less inner ih =>
      rw [sequence_survives readable.1]
      exact ⟨sequence_inherits readable fun i _ within => (ih i within).1,False.elim⟩
  | unordered_set order listed inner ih =>
      rw [sequence_survives readable.1]
      exact ⟨sequence_inherits readable fun i _ within => (ih i within).1,False.elim⟩
  | map inner ih =>
      rw [mapping_survives readable.1]
      exact ⟨mapping_inherits readable fun i _ within => (ih i.2 within).1,
        fun sharp => mapping_demands readable fun i _ within => (ih i.2 within).2 sharp⟩
  | unordered_map order listed inner ih =>
      rw [mapping_survives readable.1]
      exact ⟨mapping_inherits readable fun i _ within => (ih i.2 within).1,
        fun sharp => mapping_demands readable fun i _ within => (ih i.2 within).2 sharp⟩

-- A container is read alone as inside of another.
theorem container_survives {exact : Prop} {read survives : T → Prop} (nest : y.Nest exact true c read survives) (v : T)
    (readable : read v) : y.Survives c v ↔ Returns c v := by
  cases nest with
  | vector inner => exact sequence_survives readable.1
  | list inner => exact sequence_survives readable.1
  | set less inner => exact sequence_survives readable.1
  | unordered_set order listed inner => exact sequence_survives readable.1
  | map inner => exact mapping_survives readable.1
  | unordered_map order listed inner => exact mapping_survives readable.1

end Containers

end Yaml

theorem nested_returns (y : Yaml) {T : Type} {exact : Prop} {c : LexicalCast T} {read survives : T → Prop}
    (nest : y.Nest exact true c read survives) (v : T) (readable : read v) :
    (survives v → Returns c v) ∧ (exact → Returns c v → survives v) := by
  have both := Yaml.nest_survives nest v readable
  rwa [Yaml.container_survives nest v readable] at both

-- A string goes through `boost::lexical_cast` unchanged.
def stringCast : LexicalCast Str := ⟨some,some⟩

-- What yaml-cpp says of one map with one list of two words.
def hostsNode : YamlNode := .map [(text "a",.sequence [.scalar (text "x"),.scalar (text "1")])]

def hostsYaml : Yaml where
  Load v :=
    if v = text "a:\n  - x\n  - 1" then some hostsNode
    else if v = text "- x\n- 1" then some (.sequence [.scalar (text "x"),.scalar (text "1")])
    else some (.scalar v)
  emit
    | .scalar value => value
    | .sequence _ => text "- x\n- 1"
    | .map _ => text "a:\n  - x\n  - 1"
    | .null => text "~"
  undefined := []

def hosts : KeyedMap stringLess (List Str) := ⟨[(text "a",[text "x",text "1"])],List.pairwise_singleton _ _⟩

theorem nested_returns_hosts : Returns (hostsYaml.mapping (map (List Str)) (hostsYaml.sequence (vector Str) stringCast)) hosts := by
  refine (nested_returns hostsYaml (.map (.vector (.scalar stringCast))) hosts ⟨?_,?_⟩).1 ?_
  · intro fields loaded
    have same : some [(text "a",YamlNode.sequence [.scalar (text "x"),.scalar (text "1")])] = some fields := loaded
    cases same
    rfl
  · intro i member
    cases List.mem_singleton.mp member
    refine ⟨?_,fun _ _ => trivial⟩
    intro nodes loaded
    have same : some [YamlNode.scalar (text "x"),.scalar (text "1")] = some nodes := loaded
    cases same
    rfl
  · intro i member
    cases List.mem_singleton.mp member
    intro word inside
    rcases List.mem_cons.mp inside with rfl | inside
    · rfl
    · cases List.mem_singleton.mp inside
      rfl

end Fishjoy.Lexical
