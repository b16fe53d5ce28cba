import Mathlib.Data.List.Perm.Basic

namespace Fishjoy.ConfigFromString
variable {T : Type}

-- What leaves a conversion or a callback: a `std::exception`, or something else.
inductive Thrown where
  | exception
  | other
  deriving DecidableEq

-- A callback is what it throws for an old and a new value.
abbrev Callback (T : Type) := T → T → Option Thrown

-- `m_cbs` in the order of its keys.
structure ConfigVar (T : Type) where
  m_val : T
  m_cbs : List (Nat × Callback T)

structure Notified (T : Type) where
  key : Nat
  old_value : T
  new_value : T
  deriving DecidableEq

-- The loop over the callbacks ends with the first that throws.
def notify (m_val v : T) : List (Nat × Callback T) → List (Notified T) × Option Thrown
  | [] => ([],none)
  | (key,cb) :: rest =>
    match cb m_val v with
    | some e => ([⟨key,m_val,v⟩],some e)
    | none => (⟨key,m_val,v⟩ :: (notify m_val v rest).1,(notify m_val v rest).2)

-- How a call ends, what it leaves and which callbacks it has called.
structure Done (R T : Type) where
  result : Except Thrown R
  var : ConfigVar T
  log : List (Notified T)

def setValue [DecidableEq T] (s : ConfigVar T) (v : T) : Done Unit T :=
  if v = s.m_val then ⟨.ok (),s,[]⟩
  else
    match notify s.m_val v s.m_cbs with
    | (log,some e) => ⟨.error e,s,log⟩
    | (log,none) => ⟨.ok (),{s with m_val := v},log⟩

def fromString [DecidableEq T] (FromStr : List UInt8 → Except Thrown T) (s : ConfigVar T) (val : List UInt8) : Done Bool T :=
  let set : Done Unit T :=
    match FromStr val with
    | .error e => ⟨.error e,s,[]⟩
    | .ok v => setValue s v
  match set.result with
  | .error .other => ⟨.error .other,set.var,set.log⟩
  | _ => ⟨.ok false,set.var,set.log⟩

-- The value is taken over with its notifications, or nothing happens.
def Stored (FromStr : List UInt8 → Except Thrown T) (s : ConfigVar T) (val : List UInt8) (done : Done Bool T) : Prop :=
  done.result = .ok true ∧ ∃ v, FromStr val = .ok v ∧ done.var.m_val = v ∧
    (v ≠ s.m_val → done.log.Perm (s.m_cbs.map fun cb => ⟨cb.1,s.m_val,v⟩))

def Untouched (s : ConfigVar T) (done : Done Bool T) : Prop :=
  done.result = .ok false ∧ done.var.m_val = s.m_val ∧ ∀ entry ∈ done.log, entry.new_value = done.var.m_val

variable {FromStr : List UInt8 → Except Thrown T} {s : ConfigVar T} {val : List UInt8} {v : T}

theorem notify_new (m_val v : T) (cbs : List (Nat × Callback T)) : ∀ entry ∈ (notify m_val v cbs).1, entry.new_value = v := by
  induction cbs with
  | nil => exact fun entry member => by cases member
  | cons first rest ih =>
      obtain ⟨key,cb⟩ := first
      unfold notify
      cases cb m_val v with
      | some e =>
          intro entry member
          rw [List.mem_singleton.mp member]
      | none =>
          intro entry member
          rcases List.mem_cons.mp member with rfl | later
          · rfl
          · exact ih entry later

-- A callback that throws has been called.
theorem notify_thrown {cbs : List (Nat × Callback T)} (thrown : (notify m_val v cbs).2 = some e) :
    ∃ entry, entry ∈ (notify m_val v cbs).1 := by
  cases cbs with
  | nil => cases thrown
  | cons first rest =>
      obtain ⟨key,cb⟩ := first
      unfold notify
      cases cb m_val v with
      | some e => exact ⟨_,.head _⟩
      | none => exact ⟨_,.head _⟩

theorem not_stored (done : Done Bool T) (result : done.result ≠ .ok true) : ¬Stored FromStr s val done :=
  fun stored => result stored.1

variable [DecidableEq T]

theorem setValue_changed (other : v ≠ s.m_val) :
    (∃ e log, setValue s v = ⟨.error e,s,log⟩ ∧ ∃ entry ∈ log, entry.new_value = v) ∨
      ∃ log, setValue s v = ⟨.ok (),{s with m_val := v},log⟩ := by
  unfold setValue
  rw [if_neg other]
  have told := notify_new s.m_val v s.m_cbs
  cases ran : notify s.m_val v s.m_cbs with
  | mk log thrown =>
      cases thrown with
      | none => exact .inr ⟨log,rfl⟩
      | some e =>
          rw [ran] at told
          obtain ⟨entry,member⟩ := notify_thrown (e := e) (by rw [ran])
          rw [ran] at member
          exact .inl ⟨e,log,rfl,entry,member,told entry member⟩

theorem fromString_ok (parsed : FromStr val = .ok v) : fromString FromStr s val =
    match (setValue s v).result with
    | .error .other => ⟨.error .other,(setValue s v).var,(setValue s v).log⟩
    | _ => ⟨.ok false,(setValue s v).var,(setValue s v).log⟩ := by
  unfold fromString
  rw [parsed]

theorem fromString_false (FromStr : List UInt8 → Except Thrown T) (s : ConfigVar T) (val : List UInt8) :
    (fromString FromStr s val).result ≠ .ok true := by
  unfold fromString
  dsimp only
  split <;> simp

-- A new value is stored without saying so, or some callback has been called with
-- it in vain.
theorem changed_touched (parsed : FromStr val = .ok v) (other : v ≠ s.m_val) : ¬Untouched s (fromString FromStr s val) := by
  rw [fromString_ok parsed]
  rcases setValue_changed other with ⟨e,log,set,entry,member,new⟩ | ⟨log,set⟩
  · rw [set]
    rintro ⟨result,kept,quiet⟩
    cases e with
    | exception => exact other (new.symm.trans (quiet entry member))
    | other => cases result
  · rw [set]
    rintro ⟨_,kept,_⟩
    exact other kept

theorem fromString_exactly (FromStr : List UInt8 → Except Thrown T) (s : ConfigVar T) (val : List UInt8) :
    Stored FromStr s val (fromString FromStr s val) ∨ Untouched s (fromString FromStr s val) ↔
      FromStr val = .error .exception ∨ FromStr val = .ok s.m_val := by
  rw [or_iff_right (not_stored _ (fromString_false FromStr s val))]
  cases parsed : FromStr val with
  | error e =>
      cases e with
      | exception =>
          refine iff_of_true ?_ (.inl rfl)
          unfold fromString
          rw [parsed]
          exact ⟨rfl,rfl,fun entry member => by cases member⟩
      | other =>
          refine iff_of_false ?_ (by simp)
          unfold fromString
          rw [parsed]
          rintro ⟨result,_⟩
          cases result
  | ok v =>
      by_cases same : v = s.m_val
      · subst v
        refine iff_of_true ?_ (.inr rfl)
        rw [fromString_ok parsed,setValue,if_pos rfl]
        exact ⟨rfl,rfl,fun entry member => by cases member⟩
      · refine iff_of_false (changed_touched parsed same) ?_
        rintro (failed | equal)
        · cases failed
        · cases equal
          exact same rfl

-- Any text is read as 1. The new value is stored, and the answer is false.
theorem stored_value_denied : ¬∀ (FromStr : List UInt8 → Except Thrown Nat) (s : ConfigVar Nat) (val : List UInt8),
    Stored FromStr s val (fromString FromStr s val) ∨ Untouched s (fromString FromStr s val) := by
  intro always
  rcases always (fun _ => .ok 1) ⟨0,[]⟩ [] with ⟨result,_⟩ | ⟨_,kept,_⟩
  · cases result
  · cases kept

end Fishjoy.ConfigFromString
