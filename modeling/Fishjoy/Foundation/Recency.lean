import Mathlib.Data.List.Induction
import Mathlib.Logic.Function.Basic

-- What a history of additions and deletions leaves standing, and two machines
-- that keep it: a table, and a queue in which an addition goes to the end.
namespace Recency

inductive Edit (κ ν : Type) where
  | put (key : κ) (value : ν)
  | drop (key : κ)

def Edit.key {κ ν : Type} : Edit κ ν → κ
  | .put key _ => key
  | .drop key => key

section standing
variable {κ ν ο : Type}

-- Operation `k` put `value` under `key`, and no later one edited this key.
def Standing (edit : ο → Option (Edit κ ν)) (ops : List ο) (k : Nat) (key : κ) (value : ν) : Prop :=
  (∃ op, ops[k]? = some op ∧ edit op = some (.put key value)) ∧
    ∀ j op e, k < j → ops[j]? = some op → edit op = some e → e.key ≠ key

variable {edit : ο → Option (Edit κ ν)} {ops : List ο} {op : ο} {k j : Nat} {key : κ} {v w : ν}

theorem Standing.inside (standing : Standing edit ops k key v) : k < ops.length := by
  obtain ⟨⟨_,found,_⟩,_⟩ := standing
  exact (List.getElem?_eq_some_iff.mp found).1

theorem Standing.unique (first : Standing edit ops k key v) (second : Standing edit ops j key w) : k = j ∧ v = w := by
  obtain ⟨⟨a,foundA,putA⟩,lastA⟩ := first
  obtain ⟨⟨b,foundB,putB⟩,lastB⟩ := second
  rcases Nat.lt_trichotomy k j with before | same | behind
  · exact absurd rfl (lastA j b _ before foundB putB)
  · subst same
    rw [foundA] at foundB
    cases foundB
    rw [putA] at putB
    exact ⟨rfl,(Edit.put.inj (Option.some.inj putB)).2⟩
  · exact absurd rfl (lastB k a _ behind foundA putA)

theorem Standing.same {other : κ} (first : Standing edit ops k key v) (second : Standing edit ops k other w) :
    key = other ∧ v = w := by
  obtain ⟨⟨a,foundA,putA⟩,_⟩ := first
  obtain ⟨⟨b,foundB,putB⟩,_⟩ := second
  rw [foundA] at foundB
  cases foundB
  rw [putA] at putB
  cases putB
  exact ⟨rfl,rfl⟩

theorem not_standing_nil : ¬Standing edit [] k key v := fun standing => absurd standing.inside (Nat.not_lt_zero _)

-- One more operation ends what stands under its key, and may put something there.
theorem standing_snoc : Standing edit (ops ++ [op]) k key v ↔
    (Standing edit ops k key v ∧ ∀ e, edit op = some e → e.key ≠ key) ∨ (k = ops.length ∧ edit op = some (.put key v)) := by
  constructor
  · intro standing
    have inside := standing.inside
    obtain ⟨⟨a,found,put⟩,last⟩ := standing
    rw [List.length_append,List.length_singleton] at inside
    rcases Nat.lt_succ_iff_lt_or_eq.mp inside with before | rfl
    · rw [List.getElem?_append_left before] at found
      refine .inl ⟨⟨⟨a,found,put⟩,fun j b e less at_j => ?_⟩,fun e edits => ?_⟩
      · have within := (List.getElem?_eq_some_iff.mp at_j).1
        exact last j b e less (by rwa [List.getElem?_append_left within])
      · exact last ops.length op e before List.getElem?_concat_length edits
    · rw [List.getElem?_concat_length] at found
      cases found
      exact .inr ⟨rfl,put⟩
  · rintro (⟨standing,other⟩ | ⟨rfl,put⟩)
    · have inside := standing.inside
      obtain ⟨⟨a,found,put⟩,last⟩ := standing
      refine ⟨⟨a,by rwa [List.getElem?_append_left inside],put⟩,fun j b e less at_j edits => ?_⟩
      rcases Nat.lt_or_ge j ops.length with within | beyond
      · rw [List.getElem?_append_left within] at at_j
        exact last j b e less at_j edits
      · have within := (List.getElem?_eq_some_iff.mp at_j).1
        rw [List.length_append,List.length_singleton] at within
        obtain rfl : j = ops.length := by omega
        rw [List.getElem?_concat_length] at at_j
        cases at_j
        exact other e edits
    · refine ⟨⟨op,List.getElem?_concat_length,put⟩,fun j b e less at_j => ?_⟩
      have within := (List.getElem?_eq_some_iff.mp at_j).1
      rw [List.length_append,List.length_singleton] at within
      omega

theorem standing_somewhere : (∃ k, Standing edit (ops ++ [op]) k key v) ↔
    ((∃ k, Standing edit ops k key v) ∧ ∀ e, edit op = some e → e.key ≠ key) ∨ edit op = some (.put key v) := by
  constructor
  · rintro ⟨k,standing⟩
    rcases standing_snoc.mp standing with ⟨old,other⟩ | ⟨_,put⟩
    · exact .inl ⟨⟨k,old⟩,other⟩
    · exact .inr put
  · rintro (⟨⟨k,old⟩,other⟩ | put)
    · exact ⟨k,standing_snoc.mpr (.inl ⟨old,other⟩)⟩
    · exact ⟨ops.length,standing_snoc.mpr (.inr ⟨rfl,put⟩)⟩

-- The table has what stands.
structure Tabled (edit : ο → Option (Edit κ ν)) (ops : List ο) (table : κ → Option ν) : Prop where
  has : ∀ key v, table key = some v ↔ ∃ k, Standing edit ops k key v

theorem Tabled.nil : Tabled edit [] fun _ => none :=
  ⟨fun _ _ => iff_of_false (fun same => by cases same) fun ⟨_,standing⟩ => not_standing_nil standing⟩

-- The entries of a queue with the operations that put them there.
structure Stamped (edit : ο → Option (Edit κ ν)) (ops : List ο) (l : List (Nat × κ × ν)) : Prop where
  ordered : l.Pairwise fun a b => a.1 < b.1
  standing : ∀ k key v, (k,key,v) ∈ l ↔ Standing edit ops k key v

theorem Stamped.distinct {l : List (Nat × κ × ν)} (stamped : Stamped edit ops l) :
    l.Pairwise fun a b => a.2.1 ≠ b.2.1 := by
  refine stamped.ordered.imp_of_mem ?_
  rintro ⟨k,key,v⟩ ⟨j,other,w⟩ here there less same
  change key = other at same
  subst same
  have equal := ((stamped.standing k key v).mp here).unique ((stamped.standing j key w).mp there)
  exact absurd equal.1 (Nat.ne_of_lt less)

-- The queue has what stands, the oldest first.
def Queued (edit : ο → Option (Edit κ ν)) (ops : List ο) (queue : List (κ × ν)) : Prop :=
  ∃ l, queue = l.map Prod.snd ∧ Stamped edit ops l

theorem Queued.nil : Queued edit [] [] :=
  ⟨[],rfl,.nil,fun _ _ _ => iff_of_false List.not_mem_nil not_standing_nil⟩

theorem Queued.nodup {queue : List (κ × ν)} (queued : Queued edit ops queue) : (queue.map Prod.fst).Nodup := by
  obtain ⟨l,rfl,stamped⟩ := queued
  rw [List.map_map]
  exact List.pairwise_map.mpr stamped.distinct

-- The first entry that passes is the oldest standing one that does.
theorem Queued.find {queue : List (κ × ν)} (queued : Queued edit ops queue) {p : κ × ν → Bool}
    (found : queue.find? p = some (key,v)) :
    ∃ k, Standing edit ops k key v ∧ p (key,v) = true ∧
      ∀ j other w, j < k → Standing edit ops j other w → p (other,w) = false := by
  obtain ⟨l,rfl,ordered,standing⟩ := queued
  rw [List.find?_map] at found
  obtain ⟨⟨k,entry⟩,found,same⟩ := Option.map_eq_some_iff.mp found
  change entry = (key,v) at same
  subst same
  obtain ⟨passes,front,back,rfl,skipped⟩ := List.find?_eq_some_iff_append.mp found
  refine ⟨k,(standing k key v).mp (by simp),passes,fun j other w less stands => ?_⟩
  have member := (standing j other w).mpr stands
  rcases List.mem_append.mp member with before | behind
  · simpa using skipped _ before
  · have later := (List.pairwise_append.mp ordered).2.1
    rcases List.mem_cons.mp behind with same | behind
    · cases same
      exact absurd less (Nat.lt_irrefl _)
    · exact absurd less (Nat.not_lt.mpr (Nat.le_of_lt ((List.pairwise_cons.mp later).1 _ behind)))

theorem Queued.find_none {queue : List (κ × ν)} (queued : Queued edit ops queue) {p : κ × ν → Bool}
    (absent : queue.find? p = none) (standing : Standing edit ops k key v) : p (key,v) = false := by
  obtain ⟨l,rfl,stamped⟩ := queued
  have member : (key,v) ∈ l.map Prod.snd := List.mem_map.mpr ⟨_,(stamped.standing k key v).mpr standing,rfl⟩
  simpa using List.find?_eq_none.mp absent _ member

theorem Queued.find_some {queue : List (κ × ν)} (queued : Queued edit ops queue) {p : κ × ν → Bool}
    (standing : Standing edit ops k key v) (passes : p (key,v) = true)
    (earliest : ∀ j other w, j < k → Standing edit ops j other w → p (other,w) = false) :
    queue.find? p = some (key,v) := by
  cases found : queue.find? p with
  | none =>
      have fails := queued.find_none found standing
      rw [passes] at fails
      cases fails
  | some entry =>
      obtain ⟨j,first,holds,before⟩ := queued.find found
      rcases Nat.lt_trichotomy j k with less | same | more
      · have fails := earliest j entry.1 entry.2 less first
        rw [holds] at fails
        cases fails
      · subst same
        obtain ⟨keys,values⟩ := first.same standing
        exact congrArg some (Prod.ext keys values)
      · have fails := before k key v more standing
        rw [passes] at fails
        cases fails

end standing

section machines
variable {κ ν ο : Type} [DecidableEq κ]

def change (table : κ → Option ν) : Option (Edit κ ν) → κ → Option ν
  | none => table
  | some (.put key value) => Function.update table key (some value)
  | some (.drop key) => Function.update table key none

def requeue (queue : List (κ × ν)) : Option (Edit κ ν) → List (κ × ν)
  | none => queue
  | some (.put key value) => queue.eraseP (fun entry => entry.1 = key) ++ [(key,value)]
  | some (.drop key) => queue.eraseP fun entry => entry.1 = key

variable {edit : ο → Option (Edit κ ν)} {ops : List ο} {k : Nat} {key : κ} {v : ν}

theorem Tabled.snoc {table : κ → Option ν} (tabled : Tabled edit ops table) (op : ο) :
    Tabled edit (ops ++ [op]) (change table (edit op)) := by
  refine ⟨fun key v => ?_⟩
  rw [standing_somewhere,←tabled.has]
  rcases edits : edit op with _ | ⟨other,w⟩ | other
  · simp [change]
  · by_cases same : key = other
    · subst same
      simp [change,Edit.key]
    · simp [change,Edit.key,same,Ne.symm same]
  · by_cases same : key = other
    · subst same
      simp [change,Edit.key]
    · simp [change,Edit.key,same,Ne.symm same]

-- One entry goes, since no other has its key.
theorem mem_eraseP_key {l : List (Nat × κ × ν)} (distinct : l.Pairwise fun a b => a.2.1 ≠ b.2.1) {entry : Nat × κ × ν} :
    entry ∈ l.eraseP (fun e => e.2.1 = key) ↔ entry ∈ l ∧ entry.2.1 ≠ key := by
  induction l with
  | nil => simp
  | cons first rest ih =>
      obtain ⟨apart,distinct⟩ := List.pairwise_cons.mp distinct
      by_cases here : first.2.1 = key
      · rw [List.eraseP_cons_of_pos (by simpa using here)]
        constructor
        · exact fun member => ⟨.tail _ member,fun same => apart entry member (here.trans same.symm)⟩
        · rintro ⟨member,other⟩
          rcases List.mem_cons.mp member with rfl | member
          · exact absurd here other
          · exact member
      · rw [List.eraseP_cons_of_neg (by simpa using here),List.mem_cons,List.mem_cons,ih distinct]
        constructor
        · rintro (rfl | ⟨member,other⟩)
          · exact ⟨.inl rfl,here⟩
          · exact ⟨.inr member,other⟩
        · rintro ⟨rfl | member,other⟩
          · exact .inl rfl
          · exact .inr ⟨member,other⟩

def restamp (stamp : Nat) (l : List (Nat × κ × ν)) : Option (Edit κ ν) → List (Nat × κ × ν)
  | none => l
  | some (.put key value) => l.eraseP (fun entry => entry.2.1 = key) ++ [(stamp,key,value)]
  | some (.drop key) => l.eraseP fun entry => entry.2.1 = key

theorem requeue_restamp (stamp : Nat) (l : List (Nat × κ × ν)) (e : Option (Edit κ ν)) :
    requeue (l.map Prod.snd) e = (restamp stamp l e).map Prod.snd := by
  rcases e with _ | ⟨key,v⟩ | key
  · rfl
  · simp only [requeue,restamp,List.eraseP_map,List.map_append]
    rfl
  · simp only [requeue,restamp,List.eraseP_map]
    rfl

theorem Stamped.snoc {l : List (Nat × κ × ν)} (stamped : Stamped edit ops l) (op : ο) :
    Stamped edit (ops ++ [op]) (restamp ops.length l (edit op)) := by
  have distinct := stamped.distinct
  obtain ⟨ordered,standing⟩ := stamped
  have kept (gone : κ) (k : Nat) (key : κ) (v : ν) : (k,key,v) ∈ l.eraseP (fun entry => entry.2.1 = gone) ↔
      Standing edit ops k key v ∧ gone ≠ key := by
    rw [mem_eraseP_key distinct,standing]
    exact and_congr_right fun _ => ne_comm
  rcases edits : edit op with _ | ⟨other,w⟩ | other
  · refine ⟨ordered,fun k key v => ?_⟩
    rw [standing_snoc,edits,restamp,standing]
    simp
  · refine ⟨?_,fun k key v => ?_⟩
    · refine List.pairwise_append.mpr ⟨ordered.eraseP _,List.pairwise_singleton _ _,?_⟩
      rintro ⟨k,key,v⟩ member _ last
      rw [List.mem_singleton.mp last]
      exact ((kept other k key v).mp member).1.inside
    · rw [standing_snoc,edits,restamp,List.mem_append,kept,List.mem_singleton]
      simp [Edit.key,eq_comm]
  · refine ⟨ordered.eraseP _,fun k key v => ?_⟩
    rw [standing_snoc,edits,restamp,kept]
    simp [Edit.key]

theorem Queued.snoc {queue : List (κ × ν)} (queued : Queued edit ops queue) (op : ο) :
    Queued edit (ops ++ [op]) (requeue queue (edit op)) := by
  obtain ⟨l,rfl,stamped⟩ := queued
  exact ⟨_,requeue_restamp ops.length l (edit op),stamped.snoc op⟩

end machines
end Recency
