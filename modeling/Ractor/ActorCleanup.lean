import Ractor.SupervisionTree
import Ractor.ReachableRuns

/-!
# Actors that come and go under supervision

Any thread may link and unlink actors, advance their status and terminate them, while any number of
actors clean up after themselves. The cleanup of an actor publishes `Stopping`, terminates its
subtree, notifies the supervisor it finds, unlinks from the supervisor it finds then, and publishes
`Stopped`; each of these is a step of its own, and so is every round of the termination loop. The
children of an actor are iterated over in any order. The receiver of a supervision port belongs to
the processing loop of the actor: it is gone when the loop has been left, which for an actor that
was running is before its cleanup.
-/

namespace Ractor
open Option

/-- Where `ActorLifecycleGuard::cleanup` of an actor stands, by what it does next. The event that
the guard was given is carried to the end. -/
inductive Cleanup (Id Event : Type) where
  | armed
  | publishStopping (event : Option Event)
  | terminate (pending : List Id) (event : Option Event)
  | readTarget (event : Event)
  | notify (target : Option Id) (event : Event)
  | readSupervisor (event : Option Event)
  | unlink (supervisor : Id) (event : Option Event)
  | publishStopped (event : Option Event)
  | done (event : Option Event)
  deriving DecidableEq, Repr

structure Supervision (Id Event : Type) where
  forest : Forest Id:=fun _ => {}
  cleanups : Id → Cleanup Id Event:=fun _ => .armed
  /-- Whether the receiver of each supervision port is alive. -/
  receiving : Id → Bool:=fun _ => true
  /-- The exit events that each supervision port has received, with the actor that exits. -/
  ports : Id → List (Id × Event):=fun _ => []

inductive SupervisionStep (Id Event : Type) where
  | link (child supervisor : Id)
  | unlink (child supervisor : Id)
  | setStatus (actor : Id) (status : ActorStatus)
  | kill (actor : Id)
  | visit (actor : Id)
  | dropPorts (actor : Id)
  | begin (actor : Id) (event : Option Event)
  | resume (actor : Id) (order : List Id)

namespace Supervision
variable {Id Event : Type} [DecidableEq Id] (s : Supervision Id Event)

def goto (c : Id) (cleanup : Cleanup Id Event) : Supervision Id Event :=
  {s with cleanups:=Function.update s.cleanups c cleanup}

/-- `send_supervisor_evt`, the result of which is not looked at: without a receiver the event is
lost. -/
def deliver (target c : Id) (event : Event) : Supervision Id Event :=
  { s with
    ports:=Function.update s.ports target
      (if s.receiving target then s.ports target++[(c,event)] else s.ports target) }

/-- The next step in the cleanup of `c`. In a round of the termination loop, `order` is the order
in which the children are visited. -/
def resume (c : Id) (order : List Id) : Option (Supervision Id Event) :=
  match s.cleanups c with
  | .armed => none
  | .publishStopping event =>
    some ({s with forest:=s.forest.setStatus c .stopping}.goto c (.terminate [c] event))
  | .terminate [] none => some (s.goto c (.readSupervisor none))
  | .terminate [] (some event) => some (s.goto c (.readTarget event))
  | .terminate (actor::rest) event =>
    if order.Perm (s.forest.visit actor).1 then
      some ({s with forest:=(s.forest.visit actor).2}.goto c (.terminate (order++rest) event))
    else none
  | .readTarget event => some (s.goto c (.notify (s.forest c).supervisor event))
  | .notify none event => some (s.goto c (.readSupervisor (some event)))
  | .notify (some target) event =>
    some ((s.deliver target c event).goto c (.readSupervisor (some event)))
  | .readSupervisor event =>
    match (s.forest c).supervisor with
    | some supervisor => some (s.goto c (.unlink supervisor event))
    | none => some (s.goto c (.publishStopped event))
  | .unlink supervisor event =>
    some ({s with forest:=s.forest.unlink c supervisor}.goto c (.publishStopped event))
  | .publishStopped event =>
    some ({s with forest:=s.forest.setStatus c .stopped}.goto c (.done event))
  | .done _ => none

/-- `Stopped` is published by the cleanup alone, and the guard of an actor cleans up once. -/
def step : SupervisionStep Id Event → Option (Supervision Id Event)
  | .link child supervisor => some {s with forest:=(s.forest.link child supervisor).2}
  | .unlink child supervisor => some {s with forest:=s.forest.unlink child supervisor}
  | .setStatus actor status =>
    if status ≤ .stopping then some {s with forest:=s.forest.setStatus actor status} else none
  | .kill actor => some {s with forest:=s.forest.kill actor}
  | .visit actor => some {s with forest:=(s.forest.visit actor).2}
  | .dropPorts actor => some {s with receiving:=Function.update s.receiving actor false}
  | .begin actor event =>
    match s.cleanups actor with
    | .armed => some (s.goto actor (.publishStopping event))
    | _ => none
  | .resume actor order => s.resume actor order

def Step (label : SupervisionStep Id Event) (s' : Supervision Id Event) : Prop :=
  s.step label=some s'

def Initial : Prop:=s={}

theorem exists_reachable (labels : List (SupervisionStep Id Event))
    (test : Supervision Id Event→Bool) (h : (execute step {} labels).any test=true) :
    ∃s : Supervision Id Event,Reachable Initial Step s ∧ test s=true :=
  exists_of_execute (fun _ _ _ hs => hs) (fun _ hs => (some.inj hs).symm) labels h

variable {s} {s' : Supervision Id Event}

theorem Step.begin_eq {actor : Id} {event : Option Event} (h : s.Step (.begin actor event) s') :
    s.cleanups actor=.armed ∧ s'=s.goto actor (.publishStopping event) := by
  simp only [Step,step] at h
  split at h
  · next hc => exact ⟨hc,(some.inj h).symm⟩
  · cases h

/-- The steps in the cleanup of `c`. -/
inductive Resumed (s : Supervision Id Event) (c : Id) :
    Cleanup Id Event → Supervision Id Event→Prop where
  | stoppingPublished (event : Option Event) :
      Resumed s c (.publishStopping event)
        ({s with forest:=s.forest.setStatus c .stopping}.goto c (.terminate [c] event))
  | quietlyTerminated : Resumed s c (.terminate [] none) (s.goto c (.readSupervisor none))
  | terminated (event : Event) :
      Resumed s c (.terminate [] (some event)) (s.goto c (.readTarget event))
  | visited (actor : Id) (rest order : List Id) (event : Option Event) :
      Resumed s c (.terminate (actor::rest) event)
        ({s with forest:=(s.forest.visit actor).2}.goto c (.terminate (order++rest) event))
  | targetRead (event : Event) :
      Resumed s c (.readTarget event) (s.goto c (.notify (s.forest c).supervisor event))
  | nobodyNotified (event : Event) :
      Resumed s c (.notify none event) (s.goto c (.readSupervisor (some event)))
  | notified (target : Id) (event : Event) :
      Resumed s c (.notify (some target) event)
        ((s.deliver target c event).goto c (.readSupervisor (some event)))
  | supervisorRead (supervisor : Id) (event : Option Event)
      (h : (s.forest c).supervisor=some supervisor) :
      Resumed s c (.readSupervisor event) (s.goto c (.unlink supervisor event))
  | noSupervisor (event : Option Event) (h : (s.forest c).supervisor=none) :
      Resumed s c (.readSupervisor event) (s.goto c (.publishStopped event))
  | unlinked (supervisor : Id) (event : Option Event) :
      Resumed s c (.unlink supervisor event)
        ({s with forest:=s.forest.unlink c supervisor}.goto c (.publishStopped event))
  | stoppedPublished (event : Option Event) :
      Resumed s c (.publishStopped event)
        ({s with forest:=s.forest.setStatus c .stopped}.goto c (.done event))

theorem resume_resumed {c : Id} {order : List Id} (h : s.resume c order=some s') :
    s.Resumed c (s.cleanups c) s' := by
  unfold resume at h
  split at h
  case h_1 => cases h
  case h_2 event hc => exact some.inj h ▸ hc ▸ .stoppingPublished event
  case h_3 hc => exact some.inj h ▸ hc ▸ .quietlyTerminated
  case h_4 event hc => exact some.inj h ▸ hc ▸ .terminated event
  case h_5 actor rest event hc =>
    obtain ⟨-,hs⟩:=ite_none_right_eq_some.mp h
    exact some.inj hs ▸ hc ▸ .visited actor rest order event
  case h_6 event hc => exact some.inj h ▸ hc ▸ .targetRead event
  case h_7 event hc => exact some.inj h ▸ hc ▸ .nobodyNotified event
  case h_8 target event hc => exact some.inj h ▸ hc ▸ .notified target event
  case h_9 event hc =>
    split at h
    next supervisor hs => exact some.inj h ▸ hc ▸ .supervisorRead supervisor event hs
    next hs => exact some.inj h ▸ hc ▸ .noSupervisor event hs
  case h_10 supervisor event hc => exact some.inj h ▸ hc ▸ .unlinked supervisor event
  case h_11 event hc => exact some.inj h ▸ hc ▸ .stoppedPublished event
  case h_12 => cases h

/-- The cleanups and the ports are touched when a cleanup begins and by the steps of cleanups. -/
theorem Step.elim {label : SupervisionStep Id Event} {motive : Supervision Id Event→Prop}
    (h : s.Step label s')
    (outside : ∀forest receiving,motive {s with forest:=forest,receiving:=receiving})
    (begun : ∀actor event,s.cleanups actor=.armed → motive (s.goto actor (.publishStopping event)))
    (resumed : ∀actor t,s.Resumed actor (s.cleanups actor) t→motive t) : motive s' := by
  cases label with
  | link | unlink | kill | visit =>
    cases h
    exact outside _ s.receiving
  | setStatus =>
    cases (ite_none_right_eq_some.mp h).2
    exact outside _ s.receiving
  | dropPorts =>
    cases h
    exact outside s.forest _
  | begin actor event =>
    obtain ⟨hc,rfl⟩:=h.begin_eq
    exact begun actor event hc
  | resume actor order => exact resumed actor s' (resume_resumed h)

end Supervision
end Ractor
