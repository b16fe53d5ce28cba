import Fishjoy.Foundation.Recency

namespace Fishjoy.ServletDispatch
open Recency

abbrev Uri := List UInt8

variable {Servlet Callback Creator : Type}

-- `other` is a creator whose `get` may make a new servlet for each call.
inductive IServletCreator (Servlet Creator : Type) where
  | HoldServletCreator (m_servlet : Servlet)
  | other (creator : Creator)

def IServletCreator.get (make : Creator → Servlet) : IServletCreator Servlet Creator → Servlet
  | .HoldServletCreator m_servlet => m_servlet
  | .other creator => make creator

structure Dispatch (Servlet Creator : Type) where
  m_datas : Uri → Option (IServletCreator Servlet Creator)
  m_globs : List (Uri × IServletCreator Servlet Creator)
  m_default : Servlet

namespace Dispatch

-- The default is a `NotFoundServlet`.
def new (notFound : Servlet) : Dispatch Servlet Creator := ⟨fun _ => none,[],notFound⟩

def addServlet (s : Dispatch Servlet Creator) (uri : Uri) (slt : Servlet) : Dispatch Servlet Creator :=
  {s with m_datas := Function.update s.m_datas uri (some (.HoldServletCreator slt))}

def addServletCreator (s : Dispatch Servlet Creator) (uri : Uri) (creator : IServletCreator Servlet Creator) :
    Dispatch Servlet Creator :=
  {s with m_datas := Function.update s.m_datas uri (some creator)}

def addGlobServletCreator (s : Dispatch Servlet Creator) (uri : Uri) (creator : IServletCreator Servlet Creator) :
    Dispatch Servlet Creator :=
  {s with m_globs := s.m_globs.eraseP (fun it => it.1 = uri) ++ [(uri,creator)]}

-- The overload for a callback wraps it into a `FunctionServlet`.
def addServletCallback (function : Callback → Servlet) (s : Dispatch Servlet Creator) (uri : Uri) (cb : Callback) :
    Dispatch Servlet Creator :=
  {s with m_datas := Function.update s.m_datas uri (some (.HoldServletCreator (function cb)))}

def addGlobServlet (s : Dispatch Servlet Creator) (uri : Uri) (slt : Servlet) : Dispatch Servlet Creator :=
  {s with m_globs := s.m_globs.eraseP (fun it => it.1 = uri) ++ [(uri,.HoldServletCreator slt)]}

def addGlobServletCallback (function : Callback → Servlet) (s : Dispatch Servlet Creator) (uri : Uri) (cb : Callback) :
    Dispatch Servlet Creator := s.addGlobServlet uri (function cb)

def delServlet (s : Dispatch Servlet Creator) (uri : Uri) : Dispatch Servlet Creator :=
  {s with m_datas := Function.update s.m_datas uri none}

def delGlobServlet (s : Dispatch Servlet Creator) (uri : Uri) : Dispatch Servlet Creator :=
  {s with m_globs := s.m_globs.eraseP fun it => it.1 = uri}

def setDefault (s : Dispatch Servlet Creator) (v : Servlet) : Dispatch Servlet Creator := {s with m_default := v}

-- `fnmatch` returns zero for a match.
def getMatchedServlet (fnmatch : Uri → Uri → Int) (make : Creator → Servlet) (s : Dispatch Servlet Creator) (uri : Uri) :
    Servlet :=
  match s.m_datas uri with
  | some creator => creator.get make
  | none =>
    match s.m_globs.find? fun it => fnmatch it.1 uri = 0 with
    | some it => it.2.get make
    | none => s.m_default

end Dispatch

inductive Call (Servlet Callback Creator : Type) where
  | addServlet (uri : Uri) (slt : Servlet)
  | addServletCallback (uri : Uri) (cb : Callback)
  | addServletCreator (uri : Uri) (creator : IServletCreator Servlet Creator)
  | delServlet (uri : Uri)
  | addGlobServlet (uri : Uri) (slt : Servlet)
  | addGlobServletCallback (uri : Uri) (cb : Callback)
  | addGlobServletCreator (uri : Uri) (creator : IServletCreator Servlet Creator)
  | delGlobServlet (uri : Uri)
  | setDefault (v : Servlet)

def apply (function : Callback → Servlet) (s : Dispatch Servlet Creator) :
    Call Servlet Callback Creator → Dispatch Servlet Creator
  | .addServlet uri slt => s.addServlet uri slt
  | .addServletCallback uri cb => s.addServletCallback function uri cb
  | .addServletCreator uri creator => s.addServletCreator uri creator
  | .delServlet uri => s.delServlet uri
  | .addGlobServlet uri slt => s.addGlobServlet uri slt
  | .addGlobServletCallback uri cb => s.addGlobServletCallback function uri cb
  | .addGlobServletCreator uri creator => s.addGlobServletCreator uri creator
  | .delGlobServlet uri => s.delGlobServlet uri
  | .setDefault v => s.setDefault v

def applyAll (function : Callback → Servlet) (notFound : Servlet) (calls : List (Call Servlet Callback Creator)) :
    Dispatch Servlet Creator := calls.foldl (apply function) (.new notFound)

-- What a call means for one uri, for one pattern, and for the default.
section history
variable (function : Callback → Servlet)

def exactEdit : Call Servlet Callback Creator → Option (Edit Uri (IServletCreator Servlet Creator))
  | .addServlet uri slt => some (.put uri (.HoldServletCreator slt))
  | .addServletCallback uri cb => some (.put uri (.HoldServletCreator (function cb)))
  | .addServletCreator uri creator => some (.put uri creator)
  | .delServlet uri => some (.drop uri)
  | _ => none

def globEdit : Call Servlet Callback Creator → Option (Edit Uri (IServletCreator Servlet Creator))
  | .addGlobServlet uri slt => some (.put uri (.HoldServletCreator slt))
  | .addGlobServletCallback uri cb => some (.put uri (.HoldServletCreator (function cb)))
  | .addGlobServletCreator uri creator => some (.put uri creator)
  | .delGlobServlet uri => some (.drop uri)
  | _ => none

def defaultEdit : Call Servlet Callback Creator → Option (Edit Unit Servlet)
  | .setDefault v => some (.put () v)
  | _ => none

end history

-- The answer for a uri by the history alone.
inductive Answers (function : Callback → Servlet) (notFound : Servlet) (fnmatch : Uri → Uri → Int)
    (make : Creator → Servlet) (calls : List (Call Servlet Callback Creator)) (uri : Uri) : Servlet → Prop where
  | exact (k : Nat) (creator : IServletCreator Servlet Creator) (stands : Standing (exactEdit function) calls k uri creator) :
      Answers function notFound fnmatch make calls uri (creator.get make)
  | glob (k : Nat) (pattern : Uri) (creator : IServletCreator Servlet Creator)
      (inexact : ∀ j other, ¬Standing (exactEdit function) calls j uri other)
      (stands : Standing (globEdit function) calls k pattern creator) (matched : fnmatch pattern uri = 0)
      (earliest : ∀ j pattern other, j < k → Standing (globEdit function) calls j pattern other → fnmatch pattern uri ≠ 0) :
      Answers function notFound fnmatch make calls uri (creator.get make)
  | set (k : Nat) (v : Servlet) (inexact : ∀ j other, ¬Standing (exactEdit function) calls j uri other)
      (unmatched : ∀ j pattern other, Standing (globEdit function) calls j pattern other → fnmatch pattern uri ≠ 0)
      (stands : Standing defaultEdit calls k () v) : Answers function notFound fnmatch make calls uri v
  | initial (inexact : ∀ j other, ¬Standing (exactEdit function) calls j uri other)
      (unmatched : ∀ j pattern other, Standing (globEdit function) calls j pattern other → fnmatch pattern uri ≠ 0)
      (unset : ∀ k v, ¬Standing defaultEdit calls k () v) : Answers function notFound fnmatch make calls uri notFound

structure Recorded (function : Callback → Servlet) (notFound : Servlet) (calls : List (Call Servlet Callback Creator))
    (s : Dispatch Servlet Creator) : Prop where
  datas : Tabled (exactEdit function) calls s.m_datas
  globs : Queued (globEdit function) calls s.m_globs
  default : ∃ table, Tabled defaultEdit calls table ∧ s.m_default = (table ()).getD notFound

section Steps
variable {function : Callback → Servlet} {notFound : Servlet} {fnmatch : Uri → Uri → Int} {make : Creator → Servlet}
  {calls : List (Call Servlet Callback Creator)} {s : Dispatch Servlet Creator} {uri : Uri} {slt : Servlet}

theorem apply_datas (s : Dispatch Servlet Creator) (call : Call Servlet Callback Creator) :
    (apply function s call).m_datas = change s.m_datas (exactEdit function call) := by
  cases call <;> rfl

theorem apply_globs (s : Dispatch Servlet Creator) (call : Call Servlet Callback Creator) :
    (apply function s call).m_globs = requeue s.m_globs (globEdit function call) := by
  cases call <;> rfl

theorem apply_default (s : Dispatch Servlet Creator) (call : Call Servlet Callback Creator) (table : Unit → Option Servlet)
    (same : s.m_default = (table ()).getD notFound) :
    (apply function s call).m_default = (change table (defaultEdit call) ()).getD notFound := by
  cases call with
  | setDefault v => rfl
  | _ => exact same

theorem Recorded.apply (recorded : Recorded function notFound calls s) (call : Call Servlet Callback Creator) :
    Recorded function notFound (calls ++ [call]) (apply function s call) := by
  obtain ⟨datas,globs,table,tabled,same⟩ := recorded
  refine ⟨?_,?_,_,tabled.snoc call,apply_default s call table same⟩
  · rw [apply_datas]
    exact datas.snoc call
  · rw [apply_globs]
    exact globs.snoc call

theorem applyAll_recorded (function : Callback → Servlet) (notFound : Servlet)
    (calls : List (Call Servlet Callback Creator)) : Recorded function notFound calls (applyAll function notFound calls) := by
  induction calls using List.reverseRecOn with
  | nil => exact ⟨.nil,.nil,_,.nil,rfl⟩
  | append_singleton calls call ih =>
      unfold applyAll
      rw [List.foldl_append]
      exact ih.apply call

theorem Recorded.answers (recorded : Recorded function notFound calls s) (fnmatch : Uri → Uri → Int)
    (make : Creator → Servlet) (uri : Uri) :
    Answers function notFound fnmatch make calls uri (s.getMatchedServlet fnmatch make uri) := by
  obtain ⟨datas,globs,table,tabled,same⟩ := recorded
  unfold Dispatch.getMatchedServlet
  cases held : s.m_datas uri with
  | some creator =>
      obtain ⟨k,stands⟩ := (datas.has uri creator).mp held
      exact .exact k creator stands
  | none =>
      have inexact (j : Nat) (other : IServletCreator Servlet Creator) :
          ¬Standing (exactEdit function) calls j uri other := by
        intro stands
        have found := (datas.has uri other).mpr ⟨j,stands⟩
        rw [held] at found
        cases found
      cases first : s.m_globs.find? (fun it => fnmatch it.1 uri = 0) with
      | some it =>
          obtain ⟨k,stands,matched,earliest⟩ := globs.find first
          refine .glob k it.1 it.2 inexact stands (of_decide_eq_true matched) fun j pattern other less standing => ?_
          exact of_decide_eq_false (earliest j pattern other less standing)
      | none =>
          have unmatched (j : Nat) (pattern : Uri) (other : IServletCreator Servlet Creator)
              (standing : Standing (globEdit function) calls j pattern other) : fnmatch pattern uri ≠ 0 :=
            of_decide_eq_false (globs.find_none first standing)
          dsimp only
          rw [same]
          cases set : table () with
          | some v =>
              obtain ⟨k,stands⟩ := (tabled.has () v).mp set
              exact .set k v inexact unmatched stands
          | none =>
              refine .initial inexact unmatched fun k v stands => ?_
              have found := (tabled.has () v).mpr ⟨k,stands⟩
              rw [set] at found
              cases found

theorem Recorded.inexact (recorded : Recorded function notFound calls s)
    (nowhere : ∀ j other, ¬Standing (exactEdit function) calls j uri other) : s.m_datas uri = none := by
  by_contra held
  obtain ⟨creator,held⟩ := Option.ne_none_iff_exists'.mp held
  obtain ⟨k,stands⟩ := (recorded.datas.has uri creator).mp held
  exact nowhere k creator stands

theorem Recorded.unmatched (recorded : Recorded function notFound calls s)
    (nowhere : ∀ j pattern other, Standing (globEdit function) calls j pattern other → fnmatch pattern uri ≠ 0) :
    s.m_globs.find? (fun it => fnmatch it.1 uri = 0) = none := by
  by_contra found
  obtain ⟨it,found⟩ := Option.ne_none_iff_exists'.mp found
  obtain ⟨k,stands,matched,_⟩ := recorded.globs.find found
  exact nowhere k it.1 it.2 stands (of_decide_eq_true matched)

-- The history has one answer.
theorem Recorded.answered (recorded : Recorded function notFound calls s)
    (answers : Answers function notFound fnmatch make calls uri slt) : s.getMatchedServlet fnmatch make uri = slt := by
  unfold Dispatch.getMatchedServlet
  cases answers with
  | exact k creator stands => rw [(recorded.datas.has uri creator).mpr ⟨k,stands⟩]
  | glob k pattern creator inexact stands matched earliest =>
      have found := recorded.globs.find_some (p := fun it => fnmatch it.1 uri = 0) stands (decide_eq_true matched)
        fun j other w less standing => decide_eq_false (earliest j other w less standing)
      rw [recorded.inexact inexact,found]
  | set k v inexact unmatched stands =>
      obtain ⟨table,tabled,same⟩ := recorded.default
      rw [recorded.inexact inexact,recorded.unmatched unmatched,same,(tabled.has () slt).mpr ⟨k,stands⟩]
      rfl
  | initial inexact unmatched unset =>
      obtain ⟨table,tabled,same⟩ := recorded.default
      have nothing : table () = none := by
        by_contra held
        obtain ⟨v,held⟩ := Option.ne_none_iff_exists'.mp held
        obtain ⟨k,stands⟩ := (tabled.has () v).mp held
        exact unset k v stands
      rw [recorded.inexact inexact,recorded.unmatched unmatched,same,nothing]
      rfl

end Steps

theorem matched_by_history (function : Callback → Servlet) (notFound : Servlet) (fnmatch : Uri → Uri → Int)
    (make : Creator → Servlet) (calls : List (Call Servlet Callback Creator)) (uri : Uri) :
    ((applyAll function notFound calls).m_globs.map Prod.fst).Nodup ∧
      ∀ slt, Answers function notFound fnmatch make calls uri slt ↔
        (applyAll function notFound calls).getMatchedServlet fnmatch make uri = slt := by
  have recorded := applyAll_recorded function notFound calls
  have answers := recorded.answers fnmatch make uri
  exact ⟨recorded.globs.nodup,fun slt => ⟨recorded.answered,fun same => same ▸ answers⟩⟩

end Fishjoy.ServletDispatch
