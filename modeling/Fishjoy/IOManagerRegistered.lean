import Mathlib.Algebra.GroupWithZero.Nat
import Fishjoy.IOManagerCalls
import Fishjoy.Foundation.Transition

namespace Fishjoy
open Transition
variable {Sched Fiber Callback : Type} {A : Option Sched → Prop}

-- `A` is what is known of the scheduler of the calling threads.
def EventContext.Sound (A : Option Sched → Prop) (ctx : EventContext Sched Fiber Callback) : Bool → Prop
  | true => A ctx.scheduler ∧ ctx.fiber.isSome ≠ ctx.cb.isSome
  | false => ctx = .empty

namespace FdContext
variable {ctx : FdContext Sched Fiber Callback}

def bits (ctx : FdContext Sched Fiber Callback) : Nat := (ctx.registered .read).toNat+(ctx.registered .write).toNat

structure Sound (A : Option Sched → Prop) (ctx : FdContext Sched Fiber Callback) : Prop where
  masked : ctx.events = Event.mask (ctx.registered .read) (ctx.registered .write)
  contexts : ∀ side, (ctx.context side).Sound A (ctx.registered side)

theorem sound_mask {read write : Bool} (masked : ctx.events = Event.mask read write) (readSound : ctx.read.Sound A read)
    (writeSound : ctx.write.Sound A write) : ctx.Sound A := by
  obtain ⟨onRead,onWrite⟩ := registered_mask masked
  refine ⟨by rw [onRead,onWrite]; exact masked,?_⟩
  intro side
  cases side with
  | read => rw [onRead]; exact readSound
  | write => rw [onWrite]; exact writeSound

theorem fresh_sound (fd : Nat) : (fresh fd : FdContext Sched Fiber Callback).Sound A :=
  sound_mask (show _ = Event.mask false false from rfl) rfl rfl

theorem bits_mask {read write : Bool} (masked : ctx.events = Event.mask read write) :
    ctx.bits = read.toNat+write.toNat := by
  obtain ⟨onRead,onWrite⟩ := registered_mask masked
  rw [bits,onRead,onWrite]

theorem fresh_bits (fd : Nat) : (fresh fd : FdContext Sched Fiber Callback).bits = 0 :=
  bits_mask (show _ = Event.mask false false from rfl)

theorem register_sound (sound : ctx.Sound A) {side : Side} (clear : ctx.registered side = false)
    {entry : EventContext Sched Fiber Callback} (filled : entry.Sound A true) :
    ({ctx with events := ctx.events ||| side.event}.setContext side entry).Sound A ∧
      ({ctx with events := ctx.events ||| side.event}.setContext side entry).bits = ctx.bits+1 := by
  have masked := sound.masked
  cases side with
  | read =>
      have written : ctx.events ||| Side.read.event = Event.mask true (ctx.registered .write) := by
        rw [masked,clear]
        exact Event.mask_set_read _
      refine ⟨sound_mask written filled (sound.contexts .write),?_⟩
      rw [bits_mask written,bits,clear,Bool.toNat_true,Bool.toNat_false]
      omega
  | write =>
      have written : ctx.events ||| Side.write.event = Event.mask (ctx.registered .read) true := by
        rw [masked,clear]
        exact Event.mask_set_write _
      refine ⟨sound_mask written (sound.contexts .read) filled,?_⟩
      rw [bits_mask written,bits,clear,Bool.toNat_true,Bool.toNat_false]

theorem unregister_sound (sound : ctx.Sound A) {side : Side} (set : ctx.registered side = true) :
    ({ctx with events := ctx.events &&& ~~~side.event}.resetEventContext side).Sound A ∧
      ({ctx with events := ctx.events &&& ~~~side.event}.resetEventContext side).bits+1 = ctx.bits := by
  have masked := sound.masked
  cases side with
  | read =>
      have cleared : ctx.events &&& ~~~Side.read.event = Event.mask false (ctx.registered .write) := by
        rw [masked,set]
        exact Event.mask_clear_read _
      refine ⟨sound_mask cleared rfl (sound.contexts .write),?_⟩
      rw [bits_mask cleared,bits,set,Bool.toNat_true,Bool.toNat_false]
      omega
  | write =>
      have cleared : ctx.events &&& ~~~Side.write.event = Event.mask (ctx.registered .read) false := by
        rw [masked,set]
        exact Event.mask_clear_write _
      refine ⟨sound_mask cleared (sound.contexts .read) rfl,?_⟩
      rw [bits_mask cleared,bits,set,Bool.toNat_true,Bool.toNat_false]

end FdContext

namespace IOManager
variable {m t : IOManager Sched Fiber Callback}

structure Sound (A : Option Sched → Prop) (m : IOManager Sched Fiber Callback) : Prop where
  contexts : ∀ ctx ∈ m.fdContexts, ctx.Sound A
  pending : m.pendingEventCount = (m.fdContexts.map FdContext.bits).sum

theorem sum_map_set {α : Type} (f : α → Nat) {l : List α} {i : Nat} {x : α} (found : l[i]? = some x) (y : α) :
    ((l.set i y).map f).sum+f x = (l.map f).sum+f y := by
  induction l generalizing i with
  | nil => cases found
  | cons a rest ih =>
      cases i with
      | zero =>
          cases found
          simp only [List.set_cons_zero,List.map_cons,List.sum_cons]
          omega
      | succ i =>
          have tail := ih (i := i) found
          simp only [List.set_cons_succ,List.map_cons,List.sum_cons]
          omega

theorem resize_sound (sound : Sound A m) {size : Nat} (grows : m.fdContexts.length ≤ size) :
    Sound A (m.contextResize size) := by
  have grown := contextResize_grows grows
  refine ⟨?_,?_⟩
  · intro ctx member
    rw [grown,List.mem_append,List.mem_map] at member
    rcases member with old | ⟨i,_,rfl⟩
    · exact sound.contexts ctx old
    · exact FdContext.fresh_sound i
  · have blank : ((List.range' m.fdContexts.length (size-m.fdContexts.length)).map
        (FdContext.bits ∘ (FdContext.fresh : Nat → FdContext Sched Fiber Callback))).sum = 0 := by
      rw [List.sum_eq_zero_iff_forall_eq_nat]
      intro k member
      obtain ⟨i,_,rfl⟩ := List.mem_map.mp member
      exact FdContext.fresh_bits i
    rw [grown,List.map_append,List.map_map,List.sum_append,blank,Nat.add_zero]
    exact sound.pending

theorem reserve_sound (sound : Sound A m) (fd : Nat) : Sound A (m.reserve fd) := by
  unfold reserve
  split
  · exact sound
  · rename_i beyond
    exact resize_sound sound (by omega)

theorem initial_sound : Sound A (initial : IOManager Sched Fiber Callback) := by
  have nothing : Sound A (⟨[],0,[]⟩ : IOManager Sched Fiber Callback) := by
    refine ⟨?_,rfl⟩
    intro ctx member
    cases member
  exact resize_sound nothing (Nat.zero_le 32)

theorem put_sound (sound : Sound A m) {fd : Nat} {ctx after : FdContext Sched Fiber Callback}
    (found : m.fdContexts[fd]? = some ctx) (afterSound : after.Sound A) {pending : Int}
    (counted : pending+ctx.bits = m.pendingEventCount+after.bits) :
    Sound A {m.put fd after with pendingEventCount := pending} := by
  refine ⟨?_,?_⟩
  · intro other member
    rcases List.mem_or_eq_of_mem_set member with old | rfl
    · exact sound.contexts other old
    · exact afterSound
  · have total := sum_map_set FdContext.bits found after
    have before := sound.pending
    simp only [put]
    omega

theorem entry_sound {caller : Caller Sched Fiber} (known : A caller.scheduler) (callback : Option Callback) :
    (caller.entry callback).Sound A true := by
  cases callback with
  | none => exact ⟨known,by simp [Caller.entry]⟩
  | some cb => exact ⟨known,by simp [Caller.entry]⟩

end IOManager

-- The thread that calls `addEvent` satisfies `A`.
def IOAction.calledIn (A : Option Sched → Prop) : IOAction Sched Fiber Callback → Prop
  | .addEvent _ _ _ caller _ => A caller.scheduler
  | _ => True

namespace IOManager
variable {m t : IOManager Sched Fiber Callback}

theorem moves_sound (sound : Sound A m) {a : IOAction Sched Fiber Callback} (called : a.calledIn A)
    (moves : Moves m a t) : Sound A t := by
  cases moves with
  | refused failed => exact reserve_sound sound _
  | @added fd ctx callback caller side found clear empty =>
      have larger := reserve_sound sound fd
      obtain ⟨after,counted⟩ :=
        FdContext.register_sound (larger.contexts ctx (List.mem_of_getElem? found)) clear (entry_sound called callback)
      exact put_sound larger found after (by omega)
  | kept unmet => exact sound
  | @deleted fd ctx side found set =>
      obtain ⟨after,counted⟩ := FdContext.unregister_sound (sound.contexts ctx (List.mem_of_getElem? found)) set
      exact put_sound sound found after (by omega)
  | cancelEvent | cancelAll | dispatch => exact sound

theorem reached_sound (path : Reached next (fun _ a => a.calledIn A) Start m) : Sound A m := by
  apply path.invariant
  · intro s begins
    rw [begins]
    exact initial_sound
  · exact fun _ _ _ sound called moved => moves_sound sound called (next_moves moved)

-- A registered event has exactly one of a fiber and a callback, and what is
-- known of the scheduler of every thread that calls `addEvent` is true of its
-- scheduler; the counter is the number of registered events.
theorem events_exact (path : Reached next (fun _ a => a.calledIn A) Start m) :
    (∀ (fd : Nat) ctx, m.fdContexts[fd]? = some ctx → ∀ side,
      ctx.events &&& side.event ≠ 0 ↔
        A (ctx.context side).scheduler ∧ (ctx.context side).fiber.isSome ≠ (ctx.context side).cb.isSome) ∧
    m.pendingEventCount = (m.fdContexts.map FdContext.bits).sum ∧ 0 ≤ m.pendingEventCount := by
  have sound := reached_sound path
  refine ⟨?_,sound.pending,?_⟩
  · intro fd ctx found side
    have context := (sound.contexts ctx (List.mem_of_getElem? found)).contexts side
    cases set : ctx.registered side with
    | true =>
        rw [set] at context
        have bit : ctx.events &&& side.event ≠ 0 := by simpa [FdContext.registered] using set
        exact ⟨fun _ => context,fun _ => bit⟩
    | false =>
        rw [set] at context
        have bit : ctx.events &&& side.event = 0 := by simpa [FdContext.registered] using set
        refine ⟨fun other => absurd bit other,?_⟩
        rintro ⟨_,one⟩
        rw [show ctx.context side = .empty from context] at one
        exact absurd rfl one
  · have pending := sound.pending
    omega

-- One read event, added on a thread with or without a scheduler.
def addedSample (scheduler : Option Nat) : IOManager Nat Nat Nat :=
  (next initial (.addEvent 0 Event.read (some 5) ⟨scheduler,0,true⟩ 0)).getD initial

theorem addedSample_reached {allowed : IOManager Nat Nat Nat → IOAction Nat Nat Nat → Prop} (scheduler : Option Nat)
    (permitted : allowed initial (.addEvent 0 Event.read (some 5) ⟨scheduler,0,true⟩ 0)) :
    Reached next allowed Start (addedSample scheduler) := by
  exact .step (.start rfl) permitted rfl

theorem events_without_scheduler : ¬∀ m : IOManager Nat Nat Nat, Reached next anyStep Start m →
    ∀ (fd : Nat) ctx, m.fdContexts[fd]? = some ctx → ∀ side,
      ctx.events &&& side.event ≠ 0 ↔
        (ctx.context side).scheduler.isSome ∧ (ctx.context side).fiber.isSome ≠ (ctx.context side).cb.isSome := by
  intro uniform
  have reached : Reached next anyStep Start (addedSample none) := addedSample_reached none trivial
  have broken := (uniform (addedSample none) reached 0 _ rfl .read).mp (by decide)
  cases broken.1

theorem events_exact_added : (addedSample (some 1)).pendingEventCount = 1 ∧
    ((addedSample (some 1)).fdContexts.map FdContext.bits).sum = 1 := by
  have reached : Reached next (fun _ a => a.calledIn fun s => s.isSome = true) Start (addedSample (some 1)) :=
    addedSample_reached (some 1) rfl
  have counted := (events_exact reached).2.1
  have one : (addedSample (some 1)).pendingEventCount = 1 := rfl
  exact ⟨one,by omega⟩

end IOManager
end Fishjoy
