import Fishjoy.Foundation.Transition
import Mathlib.Algebra.Ring.Nat
import Mathlib.Logic.Function.Basic

namespace Fishjoy.ConfigListeners
open Transition

-- A call of `addListener` under the write lock of its variable: before the counter
-- is read, between reading and writing it, before the callback is stored under the
-- counter, and before the counter is returned.
inductive Phase where
  | idle
  | entered (cb : Nat)
  | loaded (cb : Nat) (value : UInt64)
  | counted (cb : Nat)
  | stored (cb : Nat) (key : UInt64)

-- Callbacks are numbered as they are given; `issued` is what callers hold ids for.
structure Variable where
  m_cbs : UInt64 → Option Nat
  phase : Phase
  issued : List (UInt64 × Nat)

-- The variables of one type share the counter, which is static in `addListener`.
structure State (Var : Type) where
  s_fun_id : UInt64
  made : Nat
  vars : Var → Variable

inductive Call where
  | addListener
  | advance
  | delListener (key : UInt64)
  | clearListener

def Phase.cb : Phase → Option Nat
  | .idle => none
  | .entered cb | .loaded cb _ | .counted cb | .stored cb _ => some cb

def advance (s_fun_id : UInt64) (x : Variable) : Option (UInt64 × Variable) :=
  match x.phase with
  | .idle => none
  | .entered cb => some (s_fun_id,{x with phase := .loaded cb s_fun_id})
  | .loaded cb value => some (value+1,{x with phase := .counted cb})
  | .counted cb =>
    some (s_fun_id,{x with m_cbs := Function.update x.m_cbs s_fun_id (some cb),phase := .stored cb s_fun_id})
  | .stored cb _ => some (s_fun_id,{x with phase := .idle,issued := x.issued ++ [(s_fun_id,cb)]})

-- The counter, the number of callbacks given, and the variable behind a call.
def act (s_fun_id : UInt64) (made : Nat) (x : Variable) : Call → Option (UInt64 × Nat × Variable)
  | .addListener =>
    match x.phase with
    | .idle => some (s_fun_id,made+1,{x with phase := .entered made})
    | _ => none
  | .advance => (advance s_fun_id x).map fun (s_fun_id,x) => (s_fun_id,made,x)
  | .delListener key =>
    match x.phase with
    | .idle => some (s_fun_id,made,{x with
        m_cbs := Function.update x.m_cbs key none
        issued := x.issued.filter fun i => i.1 ≠ key})
    | _ => none
  | .clearListener =>
    match x.phase with
    | .idle => some (s_fun_id,made,{x with m_cbs := fun _ => none,issued := []})
    | _ => none

def next {Var : Type} [DecidableEq Var] (s : State Var) (action : Var × Call) : Option (State Var) :=
  (act s.s_fun_id s.made (s.vars action.1) action.2).map fun (s_fun_id,made,x) =>
    ⟨s_fun_id,made,Function.update s.vars action.1 x⟩

def initial {Var : Type} : State Var := ⟨0,0,fun _ => ⟨fun _ => none,.idle,[]⟩⟩

-- Every id leads to the callback it was returned for, and every callback that is
-- called has an id to delete it by.
structure Variable.Sound (x : Variable) : Prop where
  named : ∀ key cb, (key,cb) ∈ x.issued → x.m_cbs key = some cb
  listed : ∀ key cb, x.m_cbs key = some cb → (key,cb) ∈ x.issued ∨ x.phase = .stored cb key

def Sound {Var : Type} (s : State Var) : Prop := ∀ v, (s.vars v).Sound

-- The counter is a key nothing is stored under, and still the same when it is returned.
def Keeps (s_fun_id : UInt64) (x : Variable) : Call → Prop
  | .advance =>
    match x.phase with
    | .counted _ => x.m_cbs s_fun_id = none
    | .stored _ key => s_fun_id = key
    | _ => True
  | _ => True

def Kept {Var : Type} (s : State Var) (action : Var × Call) : Prop := Keeps s.s_fun_id (s.vars action.1) action.2

-- One call after the other, over all variables of the type, and fewer than the
-- counter has values.
def Apart {Var : Type} (s : State Var) (action : Var × Call) : Prop :=
  match action.2 with
  | .addListener => (∀ u, (s.vars u).phase = .idle) ∧ s.made+1 < 2^64
  | _ => True

structure Variable.Valid (made : Nat) (x : Variable) : Prop where
  fresh : ∀ cb, x.phase.cb = some cb → cb < made ∧ ∀ key, (key,cb) ∉ x.issued
  old : ∀ key cb, (key,cb) ∈ x.issued → cb < made
  kept : ∀ cb key, x.phase = .stored cb key → x.m_cbs key = some cb

-- What the counter says of a variable while calls do not overlap.
def Variable.Counted (s_fun_id : UInt64) (made : Nat) (x : Variable) : Prop :=
  match x.phase with
  | .idle => s_fun_id.toNat ≤ made ∧ ∀ key, x.m_cbs key ≠ none → key.toNat ≤ s_fun_id.toNat
  | .entered _ => s_fun_id.toNat+1 ≤ made ∧ ∀ key, x.m_cbs key ≠ none → key.toNat ≤ s_fun_id.toNat
  | .loaded _ value =>
    value = s_fun_id ∧ s_fun_id.toNat+1 ≤ made ∧ ∀ key, x.m_cbs key ≠ none → key.toNat ≤ s_fun_id.toNat
  | .counted _ => s_fun_id.toNat ≤ made ∧ ∀ key, x.m_cbs key ≠ none → key.toNat < s_fun_id.toNat
  | .stored _ key =>
    key = s_fun_id ∧ s_fun_id.toNat ≤ made ∧ ∀ key, x.m_cbs key ≠ none → key.toNat ≤ s_fun_id.toNat

structure Orderly {Var : Type} (s : State Var) : Prop where
  bound : s.made < 2^64
  single : ∀ u v, (s.vars u).phase ≠ .idle → (s.vars v).phase ≠ .idle → u = v
  counted : ∀ v, (s.vars v).Counted s.s_fun_id s.made

section Steps
variable {s_fun_id s_fun_id' : UInt64} {made made' : Nat} {x y : Variable} {call : Call}

theorem Variable.Valid.more (valid : x.Valid made) (more : made ≤ made') : x.Valid made' :=
  ⟨fun cb held => ⟨Nat.lt_of_lt_of_le (valid.fresh cb held).1 more,(valid.fresh cb held).2⟩,
    fun key cb member => Nat.lt_of_lt_of_le (valid.old key cb member) more,valid.kept⟩

theorem act_valid (valid : x.Valid made) (moved : act s_fun_id made x call = some (s_fun_id',made',y)) :
    y.Valid made' ∧ made ≤ made' := by
  obtain ⟨m_cbs,phase,issued⟩ := x
  obtain ⟨fresh,old,kept⟩ := valid
  cases call with
  | addListener =>
      cases phase <;> cases moved
      refine ⟨⟨fun cb held => ?_,fun key cb member => Nat.lt_succ_of_lt (old key cb member),nofun⟩,Nat.le_succ _⟩
      cases held
      exact ⟨Nat.lt_succ_self _,fun key member => Nat.lt_irrefl _ (old key _ member)⟩
  | advance =>
      cases phase with
      | idle => cases moved
      | entered cb | loaded cb value =>
          cases moved
          exact ⟨⟨fresh,old,nofun⟩,Nat.le_refl _⟩
      | counted cb =>
          cases moved
          refine ⟨⟨fresh,old,fun cb' key same => ?_⟩,Nat.le_refl _⟩
          cases same
          exact Function.update_self _ _ _
      | stored cb key =>
          cases moved
          refine ⟨⟨nofun,fun key' cb' member => ?_,nofun⟩,Nat.le_refl _⟩
          rcases List.mem_append.mp member with before | new
          · exact old key' cb' before
          · cases List.mem_singleton.mp new
            exact (fresh _ rfl).1
  | delListener key =>
      cases phase <;> cases moved
      exact ⟨⟨nofun,fun key' cb member => old key' cb (List.mem_filter.mp member).1,nofun⟩,Nat.le_refl _⟩
  | clearListener =>
      cases phase <;> cases moved
      exact ⟨⟨nofun,nofun,nofun⟩,Nat.le_refl _⟩

theorem act_sound (valid : x.Valid made) (sound : x.Sound)
    (moved : act s_fun_id made x call = some (s_fun_id',made',y)) : y.Sound ↔ Keeps s_fun_id x call := by
  obtain ⟨m_cbs,phase,issued⟩ := x
  obtain ⟨fresh,old,kept⟩ := valid
  obtain ⟨named,listed⟩ := sound
  dsimp only at named listed fresh old kept
  cases call with
  | addListener =>
      cases phase <;> cases moved
      exact iff_of_true ⟨named,fun key cb held => .inl ((listed key cb held).resolve_right nofun)⟩ trivial
  | advance =>
      cases phase with
      | idle => cases moved
      | entered cb | loaded cb value =>
          cases moved
          exact iff_of_true ⟨named,fun key cb held => .inl ((listed key cb held).resolve_right nofun)⟩ trivial
      | counted cb =>
          cases moved
          constructor
          · intro after
            cases taken : m_cbs s_fun_id with
            | none => exact taken
            | some other =>
                have member := (listed s_fun_id other taken).resolve_right nofun
                have same := (Function.update_self s_fun_id (some cb) m_cbs).symm.trans (after.named s_fun_id other member)
                cases same
                exact absurd member ((fresh _ rfl).2 s_fun_id)
          · intro free
            have free : m_cbs s_fun_id = none := free
            refine ⟨fun key cb' member => ?_,fun key cb' held => ?_⟩
            · have before := named key cb' member
              have apart : key ≠ s_fun_id := by
                rintro rfl
                cases free.symm.trans before
              exact (Function.update_of_ne apart _ _).trans before
            · by_cases same : key = s_fun_id
              · subst same
                cases (Function.update_self key (some cb) m_cbs).symm.trans held
                exact .inr rfl
              · have held := (Function.update_of_ne same (some cb) m_cbs).symm.trans held
                exact .inl ((listed key cb' held).resolve_right nofun)
      | stored cb key =>
          cases moved
          have here := kept cb key rfl
          constructor
          · intro after
            have member := (after.listed key cb here).resolve_right nofun
            rcases List.mem_append.mp member with before | new
            · exact absurd before ((fresh cb rfl).2 key)
            · cases List.mem_singleton.mp new
              rfl
          · intro same
            cases (same : s_fun_id = key)
            refine ⟨fun key' cb' member => ?_,fun key' cb' held => .inl (List.mem_append.mpr ?_)⟩
            · rcases List.mem_append.mp member with before | new
              · exact named key' cb' before
              · cases List.mem_singleton.mp new
                exact here
            · rcases listed key' cb' held with member | last
              · exact .inl member
              · cases last
                exact .inr (.head _)
  | delListener key =>
      cases phase <;> cases moved
      refine iff_of_true ⟨fun key' cb member => ?_,fun key' cb held => ?_⟩ trivial
      · obtain ⟨member,apart⟩ := List.mem_filter.mp member
        exact (Function.update_of_ne (of_decide_eq_true apart) _ _).trans (named key' cb member)
      · by_cases same : key' = key
        · subst same
          cases (Function.update_self key' none m_cbs).symm.trans held
        · have held := (Function.update_of_ne same none m_cbs).symm.trans held
          have member := (listed key' cb held).resolve_right nofun
          exact .inl (List.mem_filter.mpr ⟨member,decide_eq_true same⟩)
  | clearListener =>
      cases phase <;> cases moved
      exact iff_of_true ⟨nofun,nofun⟩ trivial

theorem act_none (stuck : act s_fun_id made x call = none) : Keeps s_fun_id x call := by
  cases call with
  | advance =>
      obtain ⟨m_cbs,phase,issued⟩ := x
      cases phase with
      | idle => trivial
      | _ => cases stuck
  | _ => trivial

theorem Variable.Counted.keeps (counted : x.Counted s_fun_id made) (call : Call) : Keeps s_fun_id x call := by
  cases call with
  | advance =>
      obtain ⟨m_cbs,phase,issued⟩ := x
      cases phase with
      | counted cb =>
          apply Classical.byContradiction
          intro taken
          exact absurd (counted.2 s_fun_id taken) (Nat.lt_irrefl _)
      | stored cb key => exact counted.1.symm
      | _ => trivial
  | _ => trivial

theorem Variable.Counted.bounded (counted : x.Counted s_fun_id made) : s_fun_id.toNat ≤ made := by
  obtain ⟨m_cbs,phase,issued⟩ := x
  cases phase with
  | idle | counted cb => exact counted.1
  | entered cb => exact Nat.le_of_succ_le counted.1
  | loaded cb value => exact Nat.le_of_succ_le counted.2.1
  | stored cb key => exact counted.2.1

-- A variable that nobody is adding to does not mind a counter that has moved on.
theorem Variable.Counted.later (idle : x.phase = .idle) (counted : x.Counted s_fun_id made)
    (onward : s_fun_id.toNat ≤ s_fun_id'.toNat) (bounded : s_fun_id'.toNat ≤ made') : x.Counted s_fun_id' made' := by
  obtain ⟨m_cbs,phase,issued⟩ := x
  cases idle
  exact ⟨bounded,fun key held => Nat.le_trans (counted.2 key held) onward⟩

theorem act_counted (bound : made < 2^64) (counted : x.Counted s_fun_id made)
    (moved : act s_fun_id made x call = some (s_fun_id',made',y)) :
    y.Counted s_fun_id' made' ∧ s_fun_id.toNat ≤ s_fun_id'.toNat := by
  obtain ⟨m_cbs,phase,issued⟩ := x
  cases call with
  | addListener =>
      cases phase <;> cases moved
      exact ⟨⟨Nat.succ_le_succ counted.1,counted.2⟩,Nat.le_refl _⟩
  | advance =>
      cases phase with
      | idle => cases moved
      | entered cb =>
          cases moved
          exact ⟨⟨rfl,counted⟩,Nat.le_refl _⟩
      | loaded cb value =>
          cases moved
          obtain ⟨rfl,room,keys⟩ := counted
          have onward : (value+1).toNat = value.toNat+1 := by
            rw [UInt64.toNat_add]
            exact Nat.mod_eq_of_lt (Nat.lt_of_le_of_lt room bound)
          refine ⟨⟨by rw [onward]; exact room,fun key held => ?_⟩,by rw [onward]; exact Nat.le_succ _⟩
          rw [onward]
          exact Nat.lt_succ_of_le (keys key held)
      | counted cb =>
          cases moved
          obtain ⟨room,keys⟩ := counted
          refine ⟨⟨rfl,room,fun key held => ?_⟩,Nat.le_refl _⟩
          by_cases same : key = s_fun_id
          · exact Nat.le_of_eq (congrArg UInt64.toNat same)
          · exact Nat.le_of_lt (keys key fun free => held ((Function.update_of_ne same _ m_cbs).trans free))
      | stored cb key =>
          cases moved
          exact ⟨counted.2,Nat.le_refl _⟩
  | delListener key =>
      cases phase <;> cases moved
      refine ⟨⟨counted.1,fun key' held => ?_⟩,Nat.le_refl _⟩
      by_cases same : key' = key
      · subst same
        exact absurd (Function.update_self key' none m_cbs) held
      · exact counted.2 key' fun free => held ((Function.update_of_ne same none m_cbs).trans free)
  | clearListener =>
      cases phase <;> cases moved
      exact ⟨⟨counted.1,fun key held => absurd rfl held⟩,Nat.le_refl _⟩

-- A call that does not add leaves the counter of an idle variable alone.
theorem act_idle (idle : x.phase = .idle) (moved : act s_fun_id made x call = some (s_fun_id',made',y)) :
    call = .addListener ∨ s_fun_id' = s_fun_id ∧ made' = made ∧ y.phase = .idle := by
  obtain ⟨m_cbs,phase,issued⟩ := x
  cases idle
  cases call with
  | addListener => exact .inl rfl
  | advance => cases moved
  | delListener key | clearListener =>
      cases moved
      exact .inr ⟨rfl,rfl,rfl⟩

theorem act_made (moved : act s_fun_id made x call = some (s_fun_id',made',y)) :
    made' = made ∨ call = .addListener ∧ made' = made+1 := by
  obtain ⟨m_cbs,phase,issued⟩ := x
  cases call with
  | addListener =>
      cases phase <;> cases moved
      exact .inr ⟨rfl,rfl⟩
  | advance =>
      obtain ⟨⟨_,_⟩,_,same⟩ := Option.map_eq_some_iff.mp moved
      cases same
      exact .inl rfl
  | delListener key | clearListener =>
      cases phase <;> cases moved
      exact .inl rfl

end Steps

section Runs
variable {Var : Type} [DecidableEq Var] {s t : State Var} {action : Var × Call}

theorem next_some (moved : next s action = some t) : ∃ x,
    act s.s_fun_id s.made (s.vars action.1) action.2 = some (t.s_fun_id,t.made,x) ∧
    t.vars = Function.update s.vars action.1 x := by
  obtain ⟨⟨s_fun_id,made,x⟩,acted,rfl⟩ := Option.map_eq_some_iff.mp moved
  exact ⟨x,acted,rfl⟩

theorem next_valid (valid : ∀ v, (s.vars v).Valid s.made) (moved : next s action = some t) (v : Var) :
    (t.vars v).Valid t.made := by
  obtain ⟨x,acted,vars⟩ := next_some moved
  obtain ⟨after,more⟩ := act_valid (valid action.1) acted
  rw [vars]
  by_cases same : v = action.1
  · subst same
    rw [Function.update_self]
    exact after
  · rw [Function.update_of_ne same]
    exact (valid v).more more

theorem next_sound (valid : ∀ v, (s.vars v).Valid s.made) (sound : Sound s) (moved : next s action = some t) :
    Sound t ↔ Kept s action := by
  obtain ⟨x,acted,vars⟩ := next_some moved
  have here := act_sound (valid action.1) (sound action.1) acted
  refine Iff.trans ⟨fun all => ?_,fun one v => ?_⟩ here
  · have mine := all action.1
    rwa [vars,Function.update_self] at mine
  · rw [vars]
    by_cases same : v = action.1
    · subst same
      rwa [Function.update_self]
    · rw [Function.update_of_ne same]
      exact sound v

-- While one variable is busy the others are idle.
theorem Orderly.others (orderly : Orderly s) (apart : Apart s action) (moved : next s action = some t) {v : Var}
    (other : v ≠ action.1) : (s.vars v).phase = .idle ∨
      t.s_fun_id = s.s_fun_id ∧ t.made = s.made ∧ (t.vars action.1).phase = .idle := by
  obtain ⟨x,acted,vars⟩ := next_some moved
  by_cases idle : (s.vars action.1).phase = .idle
  · rcases act_idle idle acted with adds | ⟨counter,made,still⟩
    · rw [Apart,adds] at apart
      exact .inl (apart.1 v)
    · rw [vars,Function.update_self]
      exact .inr ⟨counter,made,still⟩
  · apply Or.inl
    apply Classical.byContradiction
    intro busy
    exact other (orderly.single v action.1 busy idle)

theorem next_orderly (orderly : Orderly s) (apart : Apart s action) (moved : next s action = some t) : Orderly t := by
  obtain ⟨x,acted,vars⟩ := next_some moved
  obtain ⟨counted,onward⟩ := act_counted orderly.bound (orderly.counted action.1) acted
  have elsewhere : ∀ v, v ≠ action.1 → t.vars v = s.vars v := by
    intro v other
    rw [vars,Function.update_of_ne other]
  have apartFrom : ∀ v, v ≠ action.1 → (t.vars v).phase ≠ .idle → (t.vars action.1).phase = .idle := by
    intro v other busy
    rw [elsewhere v other] at busy
    rcases orderly.others apart moved other with idle | ⟨_,_,idle⟩
    · exact absurd idle busy
    · exact idle
  refine ⟨?_,fun u v first second => ?_,fun v => ?_⟩
  · rcases act_made acted with same | ⟨adds,more⟩
    · rw [same]
      exact orderly.bound
    · rw [Apart,adds] at apart
      rw [more]
      exact apart.2
  · by_cases mine : u = action.1
    · by_cases yours : v = action.1
      · rw [mine,yours]
      · exact absurd (apartFrom v yours second) (mine ▸ first)
    · by_cases yours : v = action.1
      · exact absurd (apartFrom u mine first) (yours ▸ second)
      · rw [elsewhere u mine] at first
        rw [elsewhere v yours] at second
        exact orderly.single u v first second
  · by_cases mine : v = action.1
    · rw [vars,mine,Function.update_self]
      exact counted
    · rw [elsewhere v mine]
      rcases orderly.others apart moved mine with idle | ⟨counter,made,_⟩
      · exact (orderly.counted v).later idle onward counted.bounded
      · rw [counter,made]
        exact orderly.counted v

end Runs

theorem initial_valid {Var : Type} (v : Var) : ((initial : State Var).vars v).Valid (initial : State Var).made :=
  ⟨nofun,nofun,nofun⟩

theorem initial_sound {Var : Type} : Sound (initial : State Var) := fun _ => ⟨nofun,nofun⟩

theorem initial_orderly {Var : Type} : Orderly (initial : State Var) :=
  ⟨Nat.two_pow_pos 64,fun _ _ busy => absurd rfl busy,fun _ => ⟨Nat.le_refl _,fun _ held => absurd rfl held⟩⟩

-- The lock of a variable does not guard the counter, which other variables move on
-- between its uses.
theorem listeners_exactly {Var : Type} [DecidableEq Var] (actions : List (Var × Call)) :
    (Throughout next Sound initial actions ↔ Along next Kept initial actions) ∧
    (Along next Apart initial actions → Throughout next Sound initial actions) := by
  constructor
  · refine throughout_exactly (P := fun s => Sound s ∧ ∀ v, (s.vars v).Valid s.made) ⟨initial_sound,initial_valid⟩
      (fun _ both => both.1)
      (fun s action t both kept moved => ⟨(next_sound both.2 both.1 moved).mpr kept,next_valid both.2 moved⟩) ?_
    intro s action both after
    cases moved : next s action with
    | some t => exact (next_sound both.2 both.1 moved).mp (after t moved)
    | none => exact act_none (Option.map_eq_none_iff.mp moved)
  · refine throughout_of_along (P := fun s => Sound s ∧ (∀ v, (s.vars v).Valid s.made) ∧ Orderly s)
      ⟨initial_sound,initial_valid,initial_orderly⟩ (fun _ all => all.1) ?_
    rintro s action t ⟨sound,valid,orderly⟩ apart moved
    have kept : Kept s action := (orderly.counted action.1).keeps action.2
    exact ⟨(next_sound valid sound moved).mpr kept,next_valid valid moved,next_orderly orderly apart moved⟩

-- The callback of one variable stands under 1, and its caller is told 2.
example : ∃ s, run next (initial : State Bool) [(false,.addListener),(false,.advance),(false,.advance),(false,.advance),
      (true,.addListener),(true,.advance),(true,.advance),(false,.advance)] = some s ∧
    (s.vars false).issued = [(2,0)] ∧ (s.vars false).m_cbs 1 = some 0 ∧ (s.vars false).m_cbs 2 = none :=
  ⟨_,rfl,rfl,rfl,rfl⟩

end Fishjoy.ConfigListeners
