import Fishjoy.Foundation.Recency
import Mathlib.Data.List.Forall2

namespace Fishjoy.EnvMgr
open Recency

abbrev Str := List UInt8

structure Env where
  m_args : Str → Option Str
  m_helps : List (Str × Str)
  m_program : Str
  m_exe : Str
  m_cwd : Str

def Env.new : Env := ⟨fun _ => none,[],[],[],[]⟩

def dash : UInt8 := 45
def slash : UInt8 := 47

namespace Env

def add (s : Env) (key val : Str) : Env := {s with m_args := Function.update s.m_args key (some val)}

def has (s : Env) (key : Str) : Bool := (s.m_args key).isSome

def del (s : Env) (key : Str) : Env := {s with m_args := Function.update s.m_args key none}

def get (s : Env) (key default_value : Str) : Str := (s.m_args key).getD default_value

def removeHelp (s : Env) (key : Str) : Env := {s with m_helps := s.m_helps.filter fun it => it.1 ≠ key}

def addHelp (s : Env) (key desc : Str) : Env :=
  {s.removeHelp key with m_helps := (s.removeHelp key).m_helps ++ [(key,desc)]}

-- What is done with the key that waits for its value.
def flush (s : Env) : Option Str → Env
  | none => s
  | some now_key => s.add now_key []

-- The loop of `init`. An argument is a C string, and `argv[i][0]` of an empty
-- one is its terminator.
def readArgs (s : Env) : Option Str → List Str → Bool × Env
  | now_key,[] => (true,s.flush now_key)
  | now_key,arg :: rest =>
    if arg.head? = some dash then
      if 1 < arg.length then readArgs (s.flush now_key) (some arg.tail) rest
      else (false,s)
    else
      match now_key with
      | some key => readArgs (s.add key arg) none rest
      | none => (false,s)

-- `path` is what `readlink` found; `substr(0, npos)` is the whole of it.
def init (s : Env) (path program : Str) (argv : List Str) : Bool × Env :=
  let pos := (path.reverse.findIdx? fun c => c = slash).map fun back => path.length-1-back
  let m_cwd := (match pos with | some pos => path.take pos | none => path) ++ [slash]
  readArgs {s with m_exe := path, m_cwd := m_cwd, m_program := program} none argv

def getAbsolutePath (s : Env) (path : Str) : Str :=
  if path = [] then [slash] else if path.head? = some slash then path else s.m_cwd ++ path

end Env

-- An option as it is meant: a key, and the value if one follows it.
structure Setting where
  key : Str
  value : Option Str
  deriving DecidableEq

def Setting.Valid (o : Setting) : Prop := o.key ≠ [] ∧ ∀ v, o.value = some v → v.head? ≠ some dash

def Setting.written (o : Setting) : List Str := (dash :: o.key) :: o.value.toList

def written (options : List Setting) : List Str := options.flatMap Setting.written

def stored (s : Env) (options : List Setting) : Env :=
  options.foldl (fun s o => s.add o.key (o.value.getD [])) s

-- The option that waits for its value, if there is one.
def pending (options : List Setting) : Option Setting := options.getLast?.filter fun o => o.value = none

def settled (options : List Setting) : List Setting := if (pending options).isSome then options.dropLast else options

-- What stops the reading: a dash alone, or a value that no option waits for.
def Rejected (options : List Setting) (bad : Str) : Prop :=
  bad = [dash] ∨ bad.head? ≠ some dash ∧ pending options = none

def WellFormed (options : List Setting) : Prop := ∀ o ∈ options, o.Valid

-- The value that the last option with this key gives it.
def lastValue (options : List Setting) (key : Str) : Option Str :=
  (options.reverse.find? fun o => o.key = key).map fun o => o.value.getD []

structure Reads (s : Env) (argv : List Str) (after : Bool × Env) : Prop where
  accepted : after.1 = true ↔ ∃ options, WellFormed options ∧ argv = written options
  unique : ∀ first second, WellFormed first → WellFormed second → argv = written first → argv = written second →
    first = second
  args : ∀ options, WellFormed options → argv = written options →
    ∀ key, after.2.m_args key = (lastValue options key).or (s.m_args key)
  rejected : after.1 = false ↔
    ∃ options bad rest, WellFormed options ∧ Rejected options bad ∧ argv = written options ++ bad :: rest
  partly : ∀ options bad rest, WellFormed options → Rejected options bad → argv = written options ++ bad :: rest →
    ∀ key, after.2.m_args key = (lastValue (settled options) key).or (s.m_args key)

section Reading
variable {s : Env} {o : Setting} {options : List Setting} {key bad : Str} {rest argv : List Str}

theorem add_args (s : Env) (key val other : Str) :
    (s.add key val).m_args other = if other = key then some val else s.m_args other := Function.update_apply _ _ _ _

theorem readArgs_key (s : Env) (now_key : Option Str) (nonempty : key ≠ []) (rest : List Str) :
    s.readArgs now_key ((dash :: key) :: rest) = (s.flush now_key).readArgs (some key) rest := by
  have long : 1 < (dash :: key).length := Nat.succ_lt_succ (List.length_pos_iff.mpr nonempty)
  rw [Env.readArgs.eq_def]
  dsimp only
  rw [if_pos List.head?_cons,if_pos long,List.tail_cons]

theorem readArgs_value (s : Env) (key : Str) {val : Str} (plain : val.head? ≠ some dash) (rest : List Str) :
    s.readArgs (some key) (val :: rest) = (s.add key val).readArgs none rest := by
  rw [Env.readArgs,if_neg plain]

theorem readArgs_rejected (s : Env) (now_key : Option Str) (rest : List Str)
    (stops : bad = [dash] ∨ bad.head? ≠ some dash ∧ now_key = none) :
    s.readArgs now_key (bad :: rest) = (false,s) := by
  rcases stops with rfl | ⟨plain,rfl⟩
  · rfl
  · rw [Env.readArgs,if_neg plain]

theorem pending_cons_cons (o p : Setting) (options : List Setting) :
    pending (o :: p :: options) = pending (p :: options) := by
  rw [pending,List.getLast?_cons_cons,pending]

theorem settled_cons_cons (o p : Setting) (options : List Setting) :
    settled (o :: p :: options) = o :: settled (p :: options) := by
  unfold settled
  rw [pending_cons_cons]
  split
  · rfl
  · rfl

theorem settled_value (key val : Str) (options : List Setting) :
    settled (⟨key,some val⟩ :: options) = ⟨key,some val⟩ :: settled options := by
  cases options with
  | nil => rfl
  | cons p rest => exact settled_cons_cons _ p rest

theorem pending_value (key val : Str) (options : List Setting) :
    pending (⟨key,some val⟩ :: options) = pending options := by
  cases options with
  | nil => rfl
  | cons p rest => exact pending_cons_cons _ p rest

-- What follows a well formed list of options is read with the key that waits.
theorem readArgs_written (s : Env) (options : List Setting) (valid : WellFormed options) (rest : List Str) :
    s.readArgs none (written options ++ rest) =
      (stored s (settled options)).readArgs ((pending options).map Setting.key) rest := by
  induction options generalizing s with
  | nil => rfl
  | cons o options ih =>
      obtain ⟨nonempty,plain⟩ := valid o (.head _)
      have later := fun p member => valid p (.tail _ member)
      rcases o with ⟨key,_ | val⟩
      · cases options with
        | nil =>
            change s.readArgs none ((dash :: key) :: rest) = _
            rw [readArgs_key s none nonempty]
            rfl
        | cons p options =>
            have waits := ih (s.add key []) later
            rw [pending_cons_cons,settled_cons_cons]
            change s.readArgs none ((dash :: key) :: (written (p :: options) ++ rest)) = _
            rw [readArgs_key s none nonempty]
            refine Eq.trans ?_ waits
            change s.readArgs (some key) ((dash :: p.key) :: (p.value.toList ++ written options ++ rest)) =
              (s.add key []).readArgs none ((dash :: p.key) :: (p.value.toList ++ written options ++ rest))
            rw [readArgs_key _ _ (later p (.head _)).1,readArgs_key _ _ (later p (.head _)).1]
            rfl
      · rw [pending_value,settled_value]
        change s.readArgs none ((dash :: key) :: val :: (written options ++ rest)) = _
        rw [readArgs_key s none nonempty,readArgs_value _ _ (plain val rfl)]
        exact ih (s.add key val) later

theorem stored_settled (s : Env) (options : List Setting) :
    (stored s (settled options)).flush ((pending options).map Setting.key) = stored s options := by
  induction options generalizing s with
  | nil => rfl
  | cons o options ih =>
      rcases o with ⟨key,_ | val⟩
      · cases options with
        | nil => rfl
        | cons p options =>
            rw [pending_cons_cons,settled_cons_cons]
            exact ih (s.add key [])
      · rw [pending_value,settled_value]
        exact ih (s.add key val)

theorem readArgs_accepted (s : Env) (options : List Setting) (valid : WellFormed options) :
    s.readArgs none (written options) = (true,stored s options) := by
  have ran := readArgs_written s options valid []
  rw [List.append_nil] at ran
  rw [ran,Env.readArgs,stored_settled]

theorem readArgs_stopped (s : Env) (options : List Setting) (valid : WellFormed options)
    (rejected : Rejected options bad) (rest : List Str) :
    s.readArgs none (written options ++ bad :: rest) = (false,stored s (settled options)) := by
  rw [readArgs_written s options valid]
  refine readArgs_rejected _ _ rest (rejected.imp_right fun ⟨plain,free⟩ => ⟨plain,?_⟩)
  rw [free]
  rfl

theorem written_append (first second : List Setting) : written (first ++ second) = written first ++ written second :=
  List.flatMap_append

-- Every argument list is a well formed one, or has a first argument that stops it.
theorem args_split (argv : List Str) (options : List Setting) (valid : WellFormed options) :
    ∃ more, WellFormed more ∧ (written options ++ argv = written more ∨
      ∃ bad rest, written options ++ argv = written more ++ bad :: rest ∧ Rejected more bad) := by
  induction argv generalizing options with
  | nil => exact ⟨options,valid,.inl (List.append_nil _)⟩
  | cons arg rest ih =>
      by_cases dashed : arg.head? = some dash
      · obtain ⟨key,rfl⟩ := List.head?_eq_some_iff.mp dashed
        by_cases empty : key = []
        · subst empty
          exact ⟨options,valid,.inr ⟨_,rest,rfl,.inl rfl⟩⟩
        · have extended : WellFormed (options ++ [⟨key,none⟩]) := by
            intro o member
            rcases List.mem_append.mp member with old | new
            · exact valid o old
            · rw [List.mem_singleton.mp new]
              exact ⟨empty,fun v same => by cases same⟩
          have further := ih (options ++ [⟨key,none⟩]) extended
          rw [written_append,List.append_assoc] at further
          exact further
      · cases waits : pending options with
        | none => exact ⟨options,valid,.inr ⟨arg,rest,rfl,.inr ⟨dashed,waits⟩⟩⟩
        | some o =>
            obtain ⟨last,empty⟩ := Option.filter_eq_some_iff.mp waits
            obtain ⟨front,rfl⟩ := List.getLast?_eq_some_iff.mp last
            have none : o.value = none := of_decide_eq_true empty
            have extended : WellFormed (front ++ [⟨o.key,some arg⟩]) := by
              intro p member
              rcases List.mem_append.mp member with old | new
              · exact valid p (List.mem_append_left _ old)
              · rw [List.mem_singleton.mp new]
                refine ⟨(valid o (List.mem_append_right _ (.head _))).1,fun v same => ?_⟩
                cases same
                exact dashed
            have further := ih (front ++ [⟨o.key,some arg⟩]) extended
            have same : written (front ++ [o]) ++ arg :: rest = written (front ++ [⟨o.key,some arg⟩]) ++ rest := by
              rcases o with ⟨key,value⟩
              change value = _ at none
              subst none
              rw [written_append,written_append,List.append_assoc,List.append_assoc]
              rfl
            rw [same]
            exact further

theorem written_injective {first second : List Setting} (validFirst : WellFormed first)
    (validSecond : WellFormed second) (same : written first = written second) : first = second := by
  induction first generalizing second with
  | nil =>
      cases second with
      | nil => rfl
      | cons p ps => cases same
  | cons o os ih =>
      cases second with
      | nil => cases same
      | cons p ps =>
          have tails := fun q member => validFirst q (.tail _ member)
          have others := fun q member => validSecond q (.tail _ member)
          have plain := (validFirst o (.head _)).2
          have plain' := (validSecond p (.head _)).2
          rcases o with ⟨key,_ | val⟩ <;> rcases p with ⟨other,_ | w⟩
          · obtain ⟨keys,later⟩ := List.cons.inj (same : (dash :: key) :: written os = (dash :: other) :: written ps)
            obtain rfl : key = other := (List.cons.inj keys).2
            rw [ih tails others later]
          · obtain ⟨_,later⟩ := List.cons.inj (same : (dash :: key) :: written os = (dash :: other) :: w :: written ps)
            cases os with
            | nil => cases later
            | cons q qs => exact absurd ((List.cons.inj later).1 ▸ List.head?_cons) (plain' w rfl)
          · obtain ⟨_,later⟩ := List.cons.inj (same : (dash :: key) :: val :: written os = (dash :: other) :: written ps)
            cases ps with
            | nil => cases later
            | cons q qs => exact absurd ((List.cons.inj later).1 ▸ List.head?_cons) (plain val rfl)
          · obtain ⟨keys,later⟩ := List.cons.inj
              (same : (dash :: key) :: val :: written os = (dash :: other) :: w :: written ps)
            have both : val = w ∧ written os = written ps := List.cons.inj later
            obtain rfl : key = other := (List.cons.inj keys).2
            rw [ih tails others both.2,both.1]

theorem stored_args (s : Env) (options : List Setting) (key : Str) :
    (stored s options).m_args key = (lastValue options key).or (s.m_args key) := by
  unfold lastValue
  induction options generalizing s with
  | nil => rfl
  | cons o options ih =>
      rw [stored,List.foldl_cons,←stored,ih,add_args,List.reverse_cons,List.find?_append]
      cases options.reverse.find? fun o => o.key = key with
      | some last => rfl
      | none =>
          by_cases same : o.key = key
          · simp [same]
          · simp [same,Ne.symm same]

theorem init_readArgs (s : Env) (path program : Str) (argv : List Str) :
    ∃ named : Env, named.m_args = s.m_args ∧ named.m_helps = s.m_helps ∧
      s.init path program argv = named.readArgs none argv :=
  ⟨{s with m_exe := path, m_cwd := _, m_program := program},rfl,rfl,rfl⟩

end Reading

theorem init_reads (s : Env) (path program : Str) (argv : List Str) : Reads s argv (s.init path program argv) := by
  obtain ⟨named,same,_,ran⟩ := init_readArgs s path program argv
  have whole (options : List Setting) (valid : WellFormed options) (is : argv = written options) :
      s.init path program argv = (true,stored named options) := by
    rw [ran,is,readArgs_accepted named options valid]
  have part (options : List Setting) (bad : Str) (rest : List Str) (valid : WellFormed options)
      (stops : Rejected options bad) (is : argv = written options ++ bad :: rest) :
      s.init path program argv = (false,stored named (settled options)) := by
    rw [ran,is,readArgs_stopped named options valid stops]
  obtain ⟨read,valid,form⟩ := args_split argv [] (fun _ member => absurd member List.not_mem_nil)
  refine ⟨⟨?_,?_⟩,?_,?_,⟨?_,?_⟩,?_⟩
  · intro yes
    rcases form with is | ⟨bad,rest,is,stops⟩
    · exact ⟨read,valid,is⟩
    · rw [part read bad rest valid stops is] at yes
      cases yes
  · rintro ⟨options,valid,is⟩
    rw [whole options valid is]
  · intro first second validFirst validSecond one two
    exact written_injective validFirst validSecond (one.symm.trans two)
  · intro options valid is key
    rw [whole options valid is,stored_args,same]
  · intro no
    rcases form with is | ⟨bad,rest,is,stops⟩
    · rw [whole read valid is] at no
      cases no
    · exact ⟨read,bad,rest,valid,stops,is⟩
  · rintro ⟨options,bad,rest,valid,stops,is⟩
    rw [part options bad rest valid stops is]
  · intro options bad rest valid stops is key
    rw [part options bad rest valid stops is,stored_args,same]

inductive Call where
  | init (path program : Str) (argv : List Str)
  | add (key val : Str)
  | del (key : Str)
  | addHelp (key desc : Str)
  | removeHelp (key : Str)

def apply (s : Env) : Call → Env
  | .init path program argv => (s.init path program argv).2
  | .add key val => s.add key val
  | .del key => s.del key
  | .addHelp key desc => s.addHelp key desc
  | .removeHelp key => s.removeHelp key

def applyAll (calls : List Call) : Env := calls.foldl apply .new

def puts (options : List Setting) : List (Edit Str Str) := options.map fun o => .put o.key (o.value.getD [])

-- What a call means for the variables.
inductive Edits : Call → List (Edit Str Str) → Prop where
  | accepted (path program : Str) (options : List Setting) (valid : WellFormed options) :
      Edits (.init path program (written options)) (puts options)
  | rejected (path program : Str) (options : List Setting) (bad : Str) (rest : List Str) (valid : WellFormed options)
      (stops : Rejected options bad) : Edits (.init path program (written options ++ bad :: rest)) (puts (settled options))
  | add (key val : Str) : Edits (.add key val) [.put key val]
  | del (key : Str) : Edits (.del key) [.drop key]
  | addHelp (key desc : Str) : Edits (.addHelp key desc) []
  | removeHelp (key : Str) : Edits (.removeHelp key) []

def helpEdit : Call → Option (Edit Str Str)
  | .addHelp key desc => some (.put key desc)
  | .removeHelp key => some (.drop key)
  | _ => none

-- `edits` is what the calls of the history said, one entry for each of them.
structure Recorded (calls : List Call) (edits : List (List (Edit Str Str))) (s : Env) : Prop where
  said : List.Forall₂ Edits calls edits
  args : Tabled some edits.flatten s.m_args
  helps : Queued helpEdit calls s.m_helps

section Steps
variable {s : Env} {calls : List Call} {edits : List (List (Edit Str Str))}

theorem tabled_puts {history : List (Edit Str Str)} (options : List Setting) (tabled : Tabled some history s.m_args) :
    Tabled some (history ++ puts options) (stored s options).m_args := by
  induction options generalizing s history with
  | nil =>
      rw [puts,List.map_nil,List.append_nil]
      exact tabled
  | cons o options ih =>
      have further := ih (s := s.add o.key (o.value.getD [])) (tabled.snoc (.put o.key (o.value.getD [])))
      rw [List.append_assoc] at further
      exact further

theorem stored_helps (s : Env) (options : List Setting) : (stored s options).m_helps = s.m_helps := by
  induction options generalizing s with
  | nil => rfl
  | cons o options ih => exact ih (s.add o.key (o.value.getD []))

-- A call of `init` is the additions it makes.
theorem init_edits (s : Env) (path program : Str) (argv : List Str) : ∃ named options,
    Edits (.init path program argv) (puts options) ∧ (s.init path program argv).2 = stored named options ∧
      named.m_args = s.m_args ∧ named.m_helps = s.m_helps := by
  obtain ⟨named,args,helps,ran⟩ := init_readArgs s path program argv
  obtain ⟨read,valid,form⟩ := args_split argv [] (fun _ member => absurd member List.not_mem_nil)
  rcases form with is | ⟨bad,rest,is,stops⟩
  · have is : argv = written read := is
    refine ⟨named,read,?_,?_,args,helps⟩
    · rw [is]
      exact .accepted path program read valid
    · rw [ran,is,readArgs_accepted named read valid]
  · have is : argv = written read ++ bad :: rest := is
    refine ⟨named,settled read,?_,?_,args,helps⟩
    · rw [is]
      exact .rejected path program read bad rest valid stops
    · rw [ran,is,readArgs_stopped named read valid stops]

-- The loop of `removeHelp` goes on after a match, but there is one at most.
theorem filter_eraseP {helps : List (Str × Str)} (nodup : (helps.map Prod.fst).Nodup) (key : Str) :
    helps.filter (fun it => it.1 ≠ key) = helps.eraseP fun it => it.1 = key := by
  induction helps with
  | nil => rfl
  | cons first rest ih =>
      obtain ⟨apart,nodup⟩ := List.nodup_cons.mp nodup
      by_cases here : first.1 = key
      · rw [List.filter_cons_of_neg (by simpa using here),List.eraseP_cons_of_pos (by simpa using here)]
        refine List.filter_eq_self.mpr fun it member => decide_eq_true fun same => apart ?_
        rw [here,←same]
        exact List.mem_map_of_mem member
      · rw [List.filter_cons_of_pos (by simpa using here),List.eraseP_cons_of_neg (by simpa using here),ih nodup]

theorem Recorded.apply (recorded : Recorded calls edits s) (call : Call) :
    ∃ more, Recorded (calls ++ [call]) (edits ++ [more]) (apply s call) := by
  obtain ⟨said,args,helps⟩ := recorded
  have once := helps.nodup
  have extended (more : List (Edit Str Str)) (meant : Edits call more) : List.Forall₂ Edits (calls ++ [call]) (edits ++ [more]) :=
    List.rel_append said (.cons meant .nil)
  have noted (more : List (Edit Str Str)) : (edits ++ [more]).flatten = edits.flatten ++ more := by
    rw [List.flatten_append,List.flatten_singleton]
  have queued := helps.snoc call
  cases call with
  | init path program argv =>
      obtain ⟨named,options,meant,ran,sameArgs,sameHelps⟩ := init_edits s path program argv
      refine ⟨puts options,extended _ meant,?_,?_⟩
      · rw [noted,EnvMgr.apply,ran]
        exact tabled_puts options (by rwa [sameArgs])
      · rw [EnvMgr.apply,ran,stored_helps,sameHelps]
        exact queued
  | add key val =>
      refine ⟨_,extended _ (.add key val),?_,queued⟩
      rw [noted]
      exact args.snoc (.put key val)
  | del key =>
      refine ⟨_,extended _ (.del key),?_,queued⟩
      rw [noted]
      exact args.snoc (.drop key)
  | addHelp key desc =>
      refine ⟨_,extended _ (.addHelp key desc),?_,?_⟩
      · rw [noted,List.append_nil]
        exact args
      · change Queued helpEdit _ (s.m_helps.filter (fun it => it.1 ≠ key) ++ [(key,desc)])
        rw [filter_eraseP once]
        exact queued
  | removeHelp key =>
      refine ⟨_,extended _ (.removeHelp key),?_,?_⟩
      · rw [noted,List.append_nil]
        exact args
      · change Queued helpEdit _ (s.m_helps.filter fun it => it.1 ≠ key)
        rw [filter_eraseP once]
        exact queued

theorem applyAll_recorded (calls : List Call) : ∃ edits, Recorded calls edits (applyAll calls) := by
  induction calls using List.reverseRecOn with
  | nil => exact ⟨[],.nil,.nil,.nil⟩
  | append_singleton calls call ih =>
      obtain ⟨edits,recorded⟩ := ih
      obtain ⟨more,recorded⟩ := recorded.apply call
      refine ⟨edits ++ [more],?_⟩
      unfold applyAll
      rw [List.foldl_append]
      exact recorded

end Steps

theorem known_by_history (calls : List Call) : ∃ edits, List.Forall₂ Edits calls edits ∧
    (∀ key val, (applyAll calls).has key = true ∧ (applyAll calls).get key [] = val ↔
      ∃ k, Standing some edits.flatten k key val) ∧
    (∀ key default_value, (applyAll calls).has key = false → (applyAll calls).get key default_value = default_value) ∧
    ((applyAll calls).m_helps.map Prod.fst).Nodup ∧ Queued helpEdit calls (applyAll calls).m_helps := by
  obtain ⟨edits,said,args,helps⟩ := applyAll_recorded calls
  refine ⟨edits,said,?_,?_,helps.nodup,helps⟩
  · intro key val
    rw [←args.has,Env.has,Env.get]
    cases (applyAll calls).m_args key with
    | none => simp
    | some held => simp
  · intro key default_value missing
    have unset : (applyAll calls).m_args key = none := by simpa [Env.has] using missing
    rw [Env.get,unset,Option.getD_none]

end Fishjoy.EnvMgr
