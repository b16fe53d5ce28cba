import Fishjoy.HttpConnectionPool
import Fishjoy.Foundation.Transition
import Fishjoy.Foundation.Crew

namespace Fishjoy.HttpConnectionPool
open Transition Crew

variable {Thread : Type}

-- A connection that may be handed out, one that stays in the pool, and one that
-- a caller has.
def Ready (maxRequest : Nat) (s : Pool Thread) (c : Nat) : Prop :=
  s.lendings c = (s.heap c).request ∧ ((s.heap c).request < maxRequest ∨ (s.heap c).request = 0)

def Kept (maxRequest : Nat) (s : Pool Thread) (c : Nat) : Prop :=
  s.lendings c = (s.heap c).request ∧ (s.heap c).request < maxRequest

theorem Kept.ready {s : Pool Thread} (kept : Kept maxRequest s c) : Ready maxRequest s c :=
  ⟨kept.1,.inl kept.2⟩

def Out (s : Pool Thread) (c : Nat) : Prop := s.lendings c = (s.heap c).request+1

def Fits (maxRequest : Nat) (s : Pool Thread) : Phase → Prop
  | .discarding _ _ (some ptr) | .created ptr | .returning ptr => Ready maxRequest s ptr
  | .releasing ptr => Out s ptr
  | .used ptr => s.lendings ptr = (s.heap ptr).request
  | .pooling ptr => Kept maxRequest s ptr
  | _ => True

structure Valid [Fintype Thread] (maxRequest : Nat) (s : Pool Thread) : Prop where
  owned : ∀ c, s.conns.count c+s.lent.count c+weigh (fun p => p.held.count c) s.phase = (s.alive c).toNat
  total : s.total = (s.conns.length+s.lent.length+weigh Phase.counted s.phase : Nat)
  fresh : ∀ c, s.alive c = true → c < s.made
  unused : ∀ c, s.made ≤ c → s.lendings c = 0
  bounded : ∀ c, s.lendings c ≤ max 1 maxRequest
  pooled : ∀ c ∈ s.conns, Kept maxRequest s c
  out : ∀ c ∈ s.lent, Out s c
  phases : ∀ t, Fits maxRequest s (s.phase t)

variable [Fintype Thread] [DecidableEq Thread] {maxAliveTime maxRequest : Nat} {s s' : Pool Thread} {t : Thread}

omit [DecidableEq Thread] in
theorem start_valid (begins : Start s) : Valid maxRequest s := by
  obtain ⟨conns,total,made,alive,lent,lendings,idle⟩ := begins
  have nobody : ∀ w : Phase → Nat, w .idle = 0 → weigh w s.phase = 0 := by
    intro w none
    apply (weigh_eq_zero w s.phase).mpr
    intro t
    rw [idle t]
    exact none
  refine ⟨?_,?_,?_,fun c _ => lendings c,?_,?_,?_,?_⟩
  · intro c
    rw [conns,lent,alive c,nobody _ rfl]
    rfl
  · rw [total,conns,lent,nobody _ rfl]
    rfl
  · intro c live
    rw [alive c] at live
    cases live
  · intro c
    rw [lendings c]
    exact Nat.zero_le _
  · rw [conns]
    intro c member
    cases member
  · rw [lent]
    intro c member
    cases member
  · intro t
    rw [idle t]
    trivial

omit [DecidableEq Thread] in
theorem Valid.live_of_owned (valid : Valid maxRequest s)
    (owned : 0 < s.conns.count c+s.lent.count c+weigh (fun p => Phase.held p |>.count c) s.phase) :
    s.alive c = true := by
  rw [valid.owned c] at owned
  cases live : s.alive c with
  | true => rfl
  | false =>
      rw [live] at owned
      cases owned

-- A connection in the hands of one call is nowhere else.
theorem Valid.holder (valid : Valid maxRequest s) (holds : c ∈ (s.phase t).held) :
    s.alive c = true ∧ c ∉ s.conns ∧ c ∉ s.lent ∧ (∀ u ≠ t, c ∉ (s.phase u).held) ∧
      (s.phase t).held.count c = 1 := by
  have one := valid.owned c
  have here := List.count_pos_iff.mpr holds
  have part := weigh_le (fun p => Phase.held p |>.count c) s.phase t
  have live : (s.alive c).toNat ≤ 1 := Bool.toNat_le _
  refine ⟨valid.live_of_owned (by omega),?_,?_,?_,by omega⟩
  · intro member
    have some := List.count_pos_iff.mpr member
    omega
  · intro member
    have some := List.count_pos_iff.mpr member
    omega
  · intro u apart member
    have some := List.count_pos_iff.mpr member
    have two := weigh_pair (fun p => Phase.held p |>.count c) s.phase apart
    omega

omit [Fintype Thread] [DecidableEq Thread] in
theorem Fits.congr {p : Phase} (fits : Fits maxRequest s p)
    (same : ∀ c ∈ p.held, s'.lendings c = s.lendings c ∧ (s'.heap c).request = (s.heap c).request) :
    Fits maxRequest s' p := by
  have at_ : ∀ c, p.held = [c] → s'.lendings c = s.lendings c ∧ (s'.heap c).request = (s.heap c).request := by
    intro c only
    exact same c (by rw [only]; exact .head _)
  cases p with
  | discarding left size ptr =>
      cases ptr with
      | none => trivial
      | some ptr =>
          obtain ⟨lendings,request⟩ := same ptr (List.mem_append_right _ (.head _))
          simpa only [Fits,Ready,lendings,request] using fits
  | idle => trivial
  | asking => trivial
  | scanning => trivial
  | connecting => trivial
  | deleting => trivial
  | deleted => trivial
  | _ ptr =>
      obtain ⟨lendings,request⟩ := at_ ptr rfl
      simpa only [Fits,Ready,Kept,Out,lendings,request] using fits

omit [DecidableEq Thread] in
-- The next connection is in nobody's hands.
theorem Valid.unmade (valid : Valid maxRequest s) :
    s.made ∉ s.conns ∧ s.made ∉ s.lent ∧ ∀ u, s.made ∉ (s.phase u).held := by
  have dead : s.alive s.made = false := by
    apply Bool.eq_false_iff.mpr
    intro live
    exact absurd (valid.fresh _ live) (Nat.lt_irrefl _)
  have none := valid.owned s.made
  rw [dead,Bool.toNat_false] at none
  refine ⟨?_,?_,?_⟩
  · apply List.count_eq_zero.mp
    omega
  · apply List.count_eq_zero.mp
    omega
  · intro u
    have part := weigh_le (fun p => Phase.held p |>.count s.made) s.phase u
    apply List.count_eq_zero.mp
    omega

omit [DecidableEq Thread] in
-- Work on one connection leaves what is known of all the others.
theorem Valid.apart (valid : Valid maxRequest s) (s' : Pool Thread) {ptr : Nat} (pooled : ptr ∉ s.conns)
    (lent : ptr ∉ s.lent)
    (same : ∀ c ≠ ptr, s'.lendings c = s.lendings c ∧ (s'.heap c).request = (s.heap c).request) :
    (∀ c ∈ s.conns, Kept maxRequest s' c) ∧ ∀ c ∈ s.lent, Out s' c := by
  refine ⟨?_,?_⟩
  · intro c member
    have other : c ≠ ptr := fun eq => pooled (eq ▸ member)
    obtain ⟨lendings,request⟩ := same c other
    simpa only [Kept,lendings,request] using valid.pooled c member
  · intro c member
    have other : c ≠ ptr := fun eq => lent (eq ▸ member)
    obtain ⟨lendings,request⟩ := same c other
    simpa only [Out,lendings,request] using valid.out c member

-- What a step of one thread has to keep: the places of the connections, the
-- count, and what is known of the connections it touches.
theorem step_valid (valid : Valid maxRequest s) (t : Thread) (p : Phase)
    (phase : s'.phase = Function.update s.phase t p)
    (owned : ∀ c, s'.conns.count c+s'.lent.count c+p.held.count c+(s.alive c).toNat =
      s.conns.count c+s.lent.count c+(s.phase t).held.count c+(s'.alive c).toNat)
    (total : s'.total+(s.conns.length+s.lent.length+(s.phase t).counted : Nat) =
      s.total+(s'.conns.length+s'.lent.length+p.counted : Nat))
    (fresh : ∀ c, s'.alive c = true → c < s'.made) (unused : ∀ c, s'.made ≤ c → s'.lendings c = 0)
    (bounded : ∀ c, s'.lendings c ≤ max 1 maxRequest) (pooled : ∀ c ∈ s'.conns, Kept maxRequest s' c)
    (out : ∀ c ∈ s'.lent, Out s' c) (here : Fits maxRequest s' p)
    (others : ∀ u ≠ t, ∀ c ∈ (s.phase u).held,
      s'.lendings c = s.lendings c ∧ (s'.heap c).request = (s.heap c).request) : Valid maxRequest s' := by
  refine ⟨?_,?_,fresh,unused,bounded,pooled,out,?_⟩
  · intro c
    have before := valid.owned c
    have moved := weigh_update (fun p => Phase.held p |>.count c) s.phase t p
    have change := owned c
    rw [phase]
    omega
  · have before := valid.total
    have moved := weigh_update Phase.counted s.phase t p
    rw [phase]
    omega
  · intro u
    rw [phase]
    by_cases same : u = t
    · rw [same,Function.update_self]
      exact here
    · rw [Function.update_of_ne same]
      exact (valid.phases u).congr (others u same)

-- A step that makes, deletes and uses no connection.
theorem quiet_valid (valid : Valid maxRequest s) (t : Thread) (p : Phase) (conns lent : List Nat) (total : Int)
    (owned : ∀ c, conns.count c+lent.count c+p.held.count c =
      s.conns.count c+s.lent.count c+(s.phase t).held.count c)
    (sum : total+(s.conns.length+s.lent.length+(s.phase t).counted : Nat) =
      s.total+(conns.length+lent.length+p.counted : Nat))
    (pooled : ∀ c ∈ conns, Kept maxRequest s c) (out : ∀ c ∈ lent, Out s c) (here : Fits maxRequest s p) :
    Valid maxRequest ({s with conns := conns,lent := lent,total := total}.goto t p) := by
  have fits : Fits maxRequest ({s with conns := conns,lent := lent,total := total}.goto t p) p :=
    here.congr fun _ _ => ⟨rfl,rfl⟩
  refine step_valid valid t p rfl ?_ sum valid.fresh valid.unused valid.bounded pooled out fits
    fun _ _ _ _ => ⟨rfl,rfl⟩
  intro c
  exact congrArg (·+(s.alive c).toNat) (owned c)

-- A step that moves no connection either.
theorem goto_valid (valid : Valid maxRequest s) (t : Thread) (p : Phase) (held : p.held = (s.phase t).held)
    (counted : p.counted = (s.phase t).counted) (here : Fits maxRequest s p) : Valid maxRequest (s.goto t p) := by
  apply quiet_valid valid t p s.conns s.lent s.total _ _ valid.pooled valid.out here
  · intro c
    rw [held]
  · rw [counted]

theorem getConnection_valid (valid : Valid maxRequest s)
    (moved : next maxAliveTime maxRequest s (.getConnection t) = some s') :
    Valid maxRequest s' := by
  cases phaseEq : s.phase t with
  | idle =>
      simp only [next,phaseEq] at moved
      cases moved
      apply goto_valid valid t (.asking s.clock) _ _ trivial
      · rw [phaseEq]
        rfl
      · rw [phaseEq]
        rfl
  | _ => simp only [next,phaseEq] at moved; cases moved

theorem release_valid (valid : Valid maxRequest s)
    (moved : next maxAliveTime maxRequest s (.release t ptr) = some s') :
    Valid maxRequest s' := by
  cases phaseEq : s.phase t with
  | idle =>
      simp only [next,phaseEq] at moved
      by_cases lent : ptr ∈ s.lent
      · rw [if_pos lent] at moved
        cases moved
        refine quiet_valid valid t _ s.conns (s.lent.erase ptr) s.total ?_ ?_ valid.pooled ?_ (valid.out ptr lent)
        · intro c
          have taken := (List.perm_cons_erase lent).count_eq c
          rw [List.count_cons] at taken
          simp only [phaseEq,Phase.held,List.count_singleton,List.count_nil]
          omega
        · have taken := List.length_erase_of_mem lent
          have some := List.length_pos_of_mem lent
          simp only [phaseEq,Phase.counted]
          omega
        · intro c member
          exact valid.out c (List.mem_of_mem_erase member)
      · rw [if_neg lent] at moved
        cases moved
  | _ => simp only [next,phaseEq] at moved; cases moved

-- The loop over the list: what is taken off it is discarded or handed on.
theorem scanning_valid (valid : Valid maxRequest s) (phaseEq : s.phase t = .scanning now invalid)
    (moved : advance maxAliveTime maxRequest s t answer = some s') : Valid maxRequest s' := by
  simp only [advance,phaseEq] at moved
  cases connsEq : s.conns with
  | nil =>
      rw [connsEq] at moved
      cases moved
      apply goto_valid valid t (.discarding invalid invalid.length none) _ _ trivial
      · simp only [phaseEq,Phase.held,Option.toList_none,List.append_nil]
      · rw [phaseEq]
        rfl
  | cons conn rest =>
      have later : ∀ c ∈ rest, Kept maxRequest s c := by
        intro c member
        apply valid.pooled
        rw [connsEq]
        exact .tail _ member
      have ready : Ready maxRequest s conn := by
        apply Kept.ready
        apply valid.pooled
        rw [connsEq]
        exact .head _
      have discards : Valid maxRequest ({s with conns := rest}.goto t (.scanning now (invalid ++ [conn]))) := by
        apply quiet_valid valid t (.scanning now (invalid ++ [conn])) rest s.lent s.total _ _ later valid.out
          trivial
        · intro c
          simp only [phaseEq,connsEq,Phase.held,List.count_append,List.count_cons,List.count_nil]
          omega
        · simp only [phaseEq,connsEq,Phase.counted,List.length_append,List.length_cons,List.length_nil]
          omega
      rw [connsEq] at moved
      dsimp only at moved
      split at moved
      · cases moved
        exact discards
      · split at moved
        · cases moved
          exact discards
        · cases moved
          apply quiet_valid valid t (.discarding invalid invalid.length (some conn)) rest s.lent s.total _ _
            later valid.out ready
          · intro c
            simp only [phaseEq,connsEq,Phase.held,List.count_append,List.count_cons,Option.toList_some,
              List.count_nil]
            omega
          · simp only [phaseEq,connsEq,Phase.counted,List.length_cons,Option.toList_some,List.length_nil]
            omega

theorem delete_valid (valid : Valid maxRequest s) (ptr : Nat) (p : Phase)
    (holds : ∀ c, (s.phase t).held.count c = p.held.count c+if ptr = c then 1 else 0)
    (counted : (s.phase t).counted = p.counted) (here : Fits maxRequest s p) :
    Valid maxRequest ((s.delete ptr).goto t p) := by
  have member : ptr ∈ (s.phase t).held := by
    apply List.count_pos_iff.mp
    rw [holds ptr,if_pos rfl]
    exact Nat.succ_pos _
  obtain ⟨live,_⟩ := valid.holder member
  have fits : Fits maxRequest ((s.delete ptr).goto t p) p := here.congr fun _ _ => ⟨rfl,rfl⟩
  refine step_valid valid t p rfl ?_ ?_ ?_ valid.unused valid.bounded valid.pooled valid.out fits
    fun _ _ _ _ => ⟨rfl,rfl⟩
  · intro c
    have hands := holds c
    by_cases same : ptr = c
    · subst c
      rw [if_pos rfl] at hands
      simp only [Pool.goto,Pool.delete,Function.update_self,live,Bool.toNat_true,Bool.toNat_false]
      omega
    · rw [if_neg same] at hands
      simp only [Pool.goto,Pool.delete,Function.update_of_ne (Ne.symm same)]
      omega
  · rw [counted]
    rfl
  · intro c lives
    by_cases same : c = ptr
    · simp [Pool.goto,Pool.delete,same] at lives
    · apply valid.fresh
      simpa [Pool.goto,Pool.delete,same] using lives

theorem discarding_valid (valid : Valid maxRequest s) (phaseEq : s.phase t = .discarding left size ptr)
    (moved : advance maxAliveTime maxRequest s t answer = some s') : Valid maxRequest s' := by
  have fits := valid.phases t
  rw [phaseEq] at fits
  cases left with
  | cons i left =>
      have here : Fits maxRequest s (.discarding left size ptr) := by
        cases ptr with
        | none => trivial
        | some ptr => exact fits
      simp only [advance,phaseEq] at moved
      cases moved
      apply delete_valid valid i (.discarding left size ptr) _ _ here
      · intro c
        simp only [phaseEq,Phase.held,List.count_append,List.count_cons,beq_iff_eq]
        omega
      · rw [phaseEq]
        rfl
  | nil =>
      cases ptr with
      | none =>
          simp only [advance,phaseEq] at moved
          cases moved
          apply quiet_valid valid t .connecting s.conns s.lent _ _ _ valid.pooled valid.out trivial
          · intro c
            rw [phaseEq]
            rfl
          · simp only [phaseEq,Phase.counted,Option.toList_none,List.length_nil]
            omega
      | some ptr =>
          simp only [advance,phaseEq] at moved
          cases moved
          apply quiet_valid valid t (.returning ptr) s.conns s.lent _ _ _ valid.pooled valid.out fits
          · intro c
            rw [phaseEq]
            rfl
          · simp only [phaseEq,Phase.counted,Option.toList_some,List.length_singleton]
            omega

theorem connecting_valid (valid : Valid maxRequest s) (phaseEq : s.phase t = .connecting)
    (moved : advance maxAliveTime maxRequest s t answer = some s') : Valid maxRequest s' := by
  simp only [advance,phaseEq] at moved
  cases answer with
  | false =>
      cases moved
      apply goto_valid valid t .idle _ _ trivial
      · rw [phaseEq]
        rfl
      · rw [phaseEq]
        rfl
  | true =>
      cases moved
      obtain ⟨pooled,lent,free⟩ := valid.unmade
      have same : ∀ c ≠ s.made, (s.connect.goto t (.created s.made)).lendings c = s.lendings c ∧
          ((s.connect.goto t (.created s.made)).heap c).request = (s.heap c).request := by
        intro c other
        simp [Pool.goto,Pool.connect,other]
      obtain ⟨kept,out⟩ := valid.apart (s.connect.goto t (.created s.made)) pooled lent same
      refine step_valid valid t (.created s.made) rfl ?_ ?_ ?_ ?_ valid.bounded kept out ?_ ?_
      · intro c
        by_cases new : c = s.made
        · have dead : s.alive c = false := by
            apply Bool.eq_false_iff.mpr
            intro live
            have known := valid.fresh c live
            omega
          simp [Pool.goto,Pool.connect,Phase.held,phaseEq,new,new ▸ dead]
        · simp [Pool.goto,Pool.connect,Phase.held,phaseEq,new,Ne.symm new]
      · rw [phaseEq]
        rfl
      · intro c lives
        by_cases new : c = s.made
        · rw [new]
          exact Nat.lt_succ_self _
        · apply Nat.lt_succ_of_lt
          apply valid.fresh
          simpa [Pool.goto,Pool.connect,new] using lives
      · intro c later
        exact valid.unused c (Nat.le_of_succ_le later)
      · have none := valid.unused s.made (Nat.le_refl _)
        simp [Fits,Ready,Pool.goto,Pool.connect,none]
      · intro u apart c member
        apply same
        intro eq
        exact free u (eq ▸ member)

theorem returning_valid (valid : Valid maxRequest s) (phaseEq : s.phase t = .returning ptr)
    (moved : advance maxAliveTime maxRequest s t answer = some s') : Valid maxRequest s' := by
  have fits := valid.phases t
  rw [phaseEq] at fits
  obtain ⟨used,few⟩ := fits
  have holds : ptr ∈ (s.phase t).held := by rw [phaseEq]; exact .head _
  obtain ⟨live,pooled,lent,free,_⟩ := valid.holder holds
  simp only [advance,phaseEq] at moved
  cases moved
  have same : ∀ c ≠ ptr, Function.update s.lendings ptr (s.lendings ptr+1) c = s.lendings c ∧
      (s.heap c).request = (s.heap c).request := fun c other => ⟨Function.update_of_ne other _ _,rfl⟩
  obtain ⟨kept,out⟩ := valid.apart {s with lendings := Function.update s.lendings ptr (s.lendings ptr+1)}
    pooled lent same
  refine step_valid valid t .idle rfl ?_ ?_ valid.fresh ?_ ?_ kept ?_ trivial ?_
  · intro c
    simp only [Pool.goto,phaseEq,Phase.held,List.count_cons,List.count_nil]
    omega
  · simp only [Pool.goto,phaseEq,Phase.counted,List.length_cons]
    omega
  · intro c later
    have other : c ≠ ptr := by
      have known := valid.fresh ptr live
      dsimp only [Pool.goto] at later
      omega
    exact (same c other).1.trans (valid.unused c later)
  · intro c
    by_cases mine : c = ptr
    · subst c
      simp only [Pool.goto,Function.update_self]
      omega
    · exact (same c mine).1.trans_le (valid.bounded c)
  · intro c member
    rcases List.mem_cons.mp member with mine | others
    · subst c
      simp [Out,Pool.goto,used]
    · exact out c others
  · intro u apart c member
    apply same
    intro eq
    exact free u apart (eq ▸ member)

theorem releasing_valid (valid : Valid maxRequest s) (phaseEq : s.phase t = .releasing ptr)
    (moved : advance maxAliveTime maxRequest s t answer = some s') : Valid maxRequest s' := by
  have used := valid.phases t
  rw [phaseEq] at used
  have holds : ptr ∈ (s.phase t).held := by rw [phaseEq]; exact .head _
  obtain ⟨_,pooled,lent,free,_⟩ := valid.holder holds
  simp only [advance,phaseEq] at moved
  cases moved
  have same : ∀ c ≠ ptr, s.lendings c = s.lendings c ∧
      (Function.update s.heap ptr {s.heap ptr with request := (s.heap ptr).request+1} c).request = (s.heap c).request :=
    fun c other => ⟨rfl,by rw [Function.update_of_ne other]⟩
  obtain ⟨kept,out⟩ := valid.apart
    {s with heap := Function.update s.heap ptr {s.heap ptr with request := (s.heap ptr).request+1}}
    pooled lent same
  refine step_valid valid t (.used ptr) rfl ?_ ?_ valid.fresh valid.unused valid.bounded kept out ?_ ?_
  · intro c
    rw [phaseEq]
    rfl
  · rw [phaseEq]
    rfl
  · have counted : s.lendings ptr = (s.heap ptr).request+1 := used
    simp [Fits,Pool.goto,counted]
  · intro u apart c member
    apply same
    intro eq
    exact free u apart (eq ▸ member)

-- The connection is given up or goes back to the list.
theorem used_valid (valid : Valid maxRequest s) (phaseEq : s.phase t = .used ptr)
    (moved : advance maxAliveTime maxRequest s t answer = some s') : Valid maxRequest s' := by
  have used := valid.phases t
  rw [phaseEq] at used
  simp only [advance,phaseEq] at moved
  split at moved
  · cases moved
    apply goto_valid valid t (.deleting ptr) _ _ trivial
    · rw [phaseEq]
      rfl
    · rw [phaseEq]
      rfl
  next keeps =>
    cases moved
    have few : (s.heap ptr).request < maxRequest := by
      simp only [Bool.or_eq_true,decide_eq_true_eq,not_or] at keeps
      omega
    apply goto_valid valid t (.pooling ptr) _ _ ⟨used,few⟩
    · rw [phaseEq]
      rfl
    · rw [phaseEq]
      rfl

theorem pooling_valid (valid : Valid maxRequest s) (phaseEq : s.phase t = .pooling ptr)
    (moved : advance maxAliveTime maxRequest s t answer = some s') : Valid maxRequest s' := by
  have kept := valid.phases t
  rw [phaseEq] at kept
  simp only [advance,phaseEq] at moved
  split at moved
  · cases moved
    apply quiet_valid valid t .idle (s.conns ++ [ptr]) s.lent s.total _ _ _ valid.out trivial
    · intro c
      simp only [phaseEq,Phase.held,List.count_append,List.count_nil]
      omega
    · simp only [phaseEq,Phase.counted,List.length_append,List.length_singleton]
      omega
    · intro c member
      rcases List.mem_append.mp member with before | mine
      · exact valid.pooled c before
      · rw [List.mem_singleton.mp mine]
        exact kept
  · cases moved

theorem advance_valid (valid : Valid maxRequest s) (moved : advance maxAliveTime maxRequest s t answer = some s') :
    Valid maxRequest s' := by
  cases phaseEq : s.phase t with
  | idle => simp only [advance,phaseEq] at moved; cases moved
  | asking now =>
      simp only [advance,phaseEq] at moved
      split at moved
      · cases moved
        apply goto_valid valid t (.scanning now []) _ _ trivial
        · rw [phaseEq]
          rfl
        · rw [phaseEq]
          rfl
      · cases moved
  | scanning => exact scanning_valid valid phaseEq moved
  | discarding => exact discarding_valid valid phaseEq moved
  | connecting => exact connecting_valid valid phaseEq moved
  | created ptr =>
      have ready := valid.phases t
      rw [phaseEq] at ready
      simp only [advance,phaseEq] at moved
      cases moved
      apply quiet_valid valid t (.returning ptr) s.conns s.lent _ _ _ valid.pooled valid.out ready
      · intro c
        rw [phaseEq]
        rfl
      · simp only [phaseEq,Phase.counted]
        omega
  | returning => exact returning_valid valid phaseEq moved
  | releasing => exact releasing_valid valid phaseEq moved
  | used => exact used_valid valid phaseEq moved
  | deleting ptr =>
      simp only [advance,phaseEq] at moved
      cases moved
      apply delete_valid valid ptr .deleted _ _ trivial
      · intro c
        simp only [phaseEq,Phase.held,List.count_cons,List.count_nil,beq_iff_eq]
      · rw [phaseEq]
        rfl
  | deleted =>
      simp only [advance,phaseEq] at moved
      cases moved
      apply quiet_valid valid t .idle s.conns s.lent _ _ _ valid.pooled valid.out trivial
      · intro c
        rw [phaseEq]
        rfl
      · simp only [phaseEq,Phase.counted]
        omega
  | pooling => exact pooling_valid valid phaseEq moved

theorem next_valid (valid : Valid maxRequest s) (a : Action Thread)
    (moved : next maxAliveTime maxRequest s a = some s') :
    Valid maxRequest s' := by
  cases a with
  | clock now =>
      cases moved
      exact ⟨valid.owned,valid.total,valid.fresh,valid.unused,valid.bounded,valid.pooled,valid.out,
        fun t => (valid.phases t).congr fun _ _ => ⟨rfl,rfl⟩⟩
  | getConnection t => exact getConnection_valid valid moved
  | release t ptr => exact release_valid valid moved
  | advance t answer => exact advance_valid valid moved

theorem reached_valid (path : Reached (next maxAliveTime maxRequest) anyStep Start s) : Valid maxRequest s :=
  path.invariant (fun _ => start_valid) fun _ a _ valid _ moved => next_valid valid a moved

end Fishjoy.HttpConnectionPool
