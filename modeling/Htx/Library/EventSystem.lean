import Mathlib.Logic.Basic
import Mathlib.Order.WellFounded

/-!
# Event systems

A system of interacting parties is given by its initial states and by what one event does
to a state.  The step function is partial: an event that is not enabled has no result.
-/

namespace Htx.Library

structure EventSystem (state event : Type*) where
  Initial : state -> Prop
  step : state -> event -> Option state

namespace EventSystem

variable {state event : Type*}

inductive ReachableUnder (S : EventSystem state event)
    (Guard : state -> event -> Prop) : state -> Prop
  | init {s : state} : S.Initial s -> ReachableUnder S Guard s
  | step {s t : state} {e : event} : ReachableUnder S Guard s -> Guard s e ->
      S.step s e = some t -> ReachableUnder S Guard t

def Reachable (S : EventSystem state event) : state -> Prop :=
  ReachableUnder S fun _ _ => True

variable {S : EventSystem state event} {Guard : state -> event -> Prop} {Inv : state -> Prop}
  {s : state}

theorem ReachableUnder.invariant (hinit : forall s, S.Initial s -> Inv s)
    (hstep : forall s e t, Inv s -> Guard s e -> S.step s e = some t -> Inv t)
    (h : ReachableUnder S Guard s) : Inv s := by
  induction h with
  | init hs => exact hinit _ hs
  | step _ hguard hst ih => exact hstep _ _ _ ih hguard hst

theorem Reachable.invariant (hinit : forall s, S.Initial s -> Inv s)
    (hstep : forall s e t, Inv s -> S.step s e = some t -> Inv t)
    (h : S.Reachable s) : Inv s :=
  ReachableUnder.invariant hinit (fun s e t hs _ hst => hstep s e t hs hst) h

/-!
# Runs
-/

def run (S : EventSystem state event) : state -> List event -> Option state
  | s, [] => some s
  | s, e :: rest =>
    match S.step s e with
    | none => none
    | some t => run S t rest

def Admits (S : EventSystem state event) (Guard : state -> event -> Prop) :
    state -> List event -> Prop
  | _, [] => True
  | s, e :: rest =>
    Guard s e ∧
      match S.step s e with
      | none => True
      | some t => Admits S Guard t rest

instance decidableAdmits (S : EventSystem state event)
    (Guard : state -> event -> Prop) [forall s e, Decidable (Guard s e)] :
    (s : state) -> (events : List event) -> Decidable (S.Admits Guard s events)
  | _, [] => isTrue trivial
  | s, e :: rest =>
    @instDecidableAnd _ _ inferInstance
      (match S.step s e with
      | none => isTrue trivial
      | some t => decidableAdmits S Guard t rest)

theorem ReachableUnder.of_run {s t : state} {events : List event}
    (hs : S.ReachableUnder Guard s) (hadmits : S.Admits Guard s events)
    (hrun : S.run s events = some t) : S.ReachableUnder Guard t := by
  induction events generalizing s with
  | nil =>
    cases hrun
    exact hs
  | cons e rest ih =>
    cases hst : S.step s e with
    | none => simp [EventSystem.run, hst] at hrun
    | some u =>
      simp only [EventSystem.run, hst] at hrun
      simp only [Admits, hst] at hadmits
      exact ih (.step hs hadmits.1 hst) hadmits.2 hrun

theorem admits_true (events : List event) : S.Admits (fun _ _ => True) s events := by
  induction events generalizing s with
  | nil => trivial
  | cons e rest ih =>
    refine ⟨trivial, ?_⟩
    cases S.step s e with
    | none => trivial
    | some t => exact ih

def Along (S : EventSystem state event) (Inv : state -> Prop) : state -> List event -> Prop
  | s, [] => Inv s
  | s, e :: rest =>
    Inv s ∧
      match S.step s e with
      | none => True
      | some t => Along S Inv t rest

theorem Along.head {events : List event} (h : S.Along Inv s events) : Inv s := by
  cases events with
  | nil => exact h
  | cons e rest => exact h.1

theorem Reachable.along (hinv : forall t, S.Reachable t -> Inv t) (hs : S.Reachable s)
    (events : List event) : S.Along Inv s events := by
  induction events generalizing s with
  | nil => exact hinv s hs
  | cons e rest ih =>
    refine ⟨hinv s hs, ?_⟩
    cases hst : S.step s e with
    | none => trivial
    | some t => exact ih (.step hs trivial hst)

theorem along_iff_admits (htotal : forall s e, exists t, S.step s e = some t)
    (hstep : forall s e t, Inv s -> S.step s e = some t -> (Inv t <-> Guard s e))
    (hs : Inv s) (events : List event) :
    S.Along Inv s events <-> S.Admits Guard s events := by
  induction events generalizing s with
  | nil => exact ⟨fun _ => trivial, fun _ => hs⟩
  | cons e rest ih =>
    obtain ⟨t, ht⟩ := htotal s e
    have hkeep := hstep s e t hs ht
    simp only [Along, Admits, ht]
    constructor
    · intro h
      have hguard := hkeep.mp h.2.head
      exact ⟨hguard, (ih h.2.head).mp h.2⟩
    · intro h
      have hinv := hkeep.mpr h.1
      exact ⟨hs, (ih hinv).mpr h.2⟩

theorem ReachableUnder.schedule (hs : S.Initial s)
    (events : List event) (h : (S.run s events).isSome)
    (hadmits : S.Admits Guard s events) :
    S.ReachableUnder Guard ((S.run s events).get h) :=
  ReachableUnder.of_run (.init hs) hadmits (Option.some_get h).symm

theorem Reachable.schedule (hs : S.Initial s) (events : List event) (h : (S.run s events).isSome) :
    S.Reachable ((S.run s events).get h) :=
  ReachableUnder.schedule hs events h (admits_true events)

end EventSystem

/-!
# Waiting in a fixed order
-/

theorem no_closed_waiting_group {party : Type*} (rank : party -> Nat) (bound : Nat)
    (group : Set party)
    (hbound : forall p, p ∈ group -> rank p < bound)
    (hwaits : forall p, p ∈ group -> exists q, q ∈ group ∧ rank p < rank q) :
    ¬ group.Nonempty := by
  rintro ⟨p, hp⟩
  have hnone : forall d p, p ∈ group -> bound - rank p ≠ d := by
    intro d
    induction d using Nat.strong_induction_on with
    | _ d ih =>
      intro p hp hd
      rcases hwaits p hp with ⟨q, hq, hlt⟩
      have hqb := hbound q hq
      exact ih (bound - rank q) (by omega) q hq rfl
  exact hnone _ p hp rfl

end Htx.Library
