import GridFlex.Frontend.Effects
import GridFlex.Frontend.Interleaving

/-! The log of the service and the list in the model, when the subscribers of the service may
publish, call the controller and throw before the publication that they are told of returns. -/
namespace GridFlex
open Transition

/-- What one subscriber does with one event. `subscribers` is what the subscribers do with an
event that the statement publishes. -/
inductive Reaction where
  | returns
  | throws
  | publishes (event : GridFlexibilityEvent) (subscribers : List Reaction) (rest : Reaction)
  | calls (op : Operation) (subscribers : List Reaction) (rest : Reaction)

/-- A segment or a `publishEvent`, with what the subscribers do with the event it publishes. -/
inductive PageAction where
  | segment (action : Action) (subscribers : List Reaction)
  | publishEvent (event : GridFlexibilityEvent) (subscribers : List Reaction)

namespace System

def publishEvent (s : System) (event : GridFlexibilityEvent) : System :=
  { s with frontend := s.frontend.publishEvent event }

/-- Does the log get longer from `s` to `s'`? No segment does anything after it publishes. -/
def publishes (s s' : System) : Bool :=
  decide (s.frontend.events.length < s'.frontend.events.length)

variable (ids : ℕ → IdSource)

mutual

/-- One subscriber, with whether it has thrown. -/
def react (s : System) : Reaction → System × Bool
  | .returns => (s, false)
  | .throws => (s, true)
  | .publishes event subscribers rest =>
      react (notify (s.publishEvent event) subscribers) rest
  | .calls op subscribers rest =>
      let s' := s.step ids (.start op)
      react (if s.publishes s' then notify s' subscribers else s') rest

/-- `this.subscribers.forEach`, whose `try` leaves it to the next subscriber to go on. -/
def notify (s : System) : List Reaction → System
  | [] => s
  | subscriber :: rest =>
      match react s subscriber with
      | (s, true) => notify s rest
      | (s, false) => notify s rest

end

def pageStep (s : System) : PageAction → System
  | .segment action subscribers =>
      let s' := s.step ids action
      if s.publishes s' then s'.notify ids subscribers else s'
  | .publishEvent event subscribers => (s.publishEvent event).notify ids subscribers

end System

/-- The model lists the log newest first, and `past` is still at its end. -/
structure EventStream (past : List GridFlexibilityEvent) (f : Frontend) : Prop where
  mirror : f.model.events = f.events.reverse
  kept : past <:+ f.model.events

/-- `RESET_AUCTION` is one of the actions that keep the events. -/
theorem dispatch_events (state : GridFlexibilityState) {action : GridFlexibilityAction}
    (hevent : ∀ event, action ≠ .addEvent event) :
    (state.dispatch action).events = state.events := by
  cases action with
  | addEvent event => exact absurd rfl (hevent event)
  | _ => rfl

variable {ids : ℕ → IdSource} {past : List GridFlexibilityEvent} {f g : Frontend}
  {payloads : List EventPayload} {s : System}

/-- Both copies get the event, each at its own end, before any subscriber runs. -/
theorem EventStream.publishEvent (h : EventStream past f) (event : GridFlexibilityEvent) :
    EventStream past (f.publishEvent event) where
  mirror := by
    show event :: f.model.events = (f.events ++ [event]).reverse
    rw [List.reverse_concat, h.mirror]
  kept := h.kept.trans (List.suffix_cons event _)

theorem Effects.eventStream (he : Effects ids f payloads g) (h : EventStream past f) :
    EventStream past g := by
  induction he with
  | refl => exact h
  | @dispatch _ g _ action hevent ih =>
    have hsame : (g.dispatch action).model.events = g.model.events :=
      dispatch_events g.model hevent
    exact ⟨hsame.trans ih.mirror, hsame ▸ ih.kept⟩
  | @publish _ g _ payload ih =>
    have hcount : EventStream past (Frontend.createEvent ids g payload).1 := ⟨ih.mirror, ih.kept⟩
    exact hcount.publishEvent _
  | count _ ih => exact ⟨ih.mirror, ih.kept⟩

theorem EventStream.step (h : EventStream past s.frontend) (a : Action) :
    EventStream past (s.step ids a).frontend := by
  apply System.step_frontend _ _ h a
  · intro f op h
    obtain ⟨_, he, -⟩ := (@begin_speaks ids f op).effects
    exact he.eventStream h
  · intro f c reply h
    obtain ⟨_, he, -⟩ := (@resume_speaks ids f c reply).effects
    exact he.eventStream h

mutual

theorem EventStream.react {s : System} (h : EventStream past s.frontend) :
    (r : Reaction) → EventStream past (s.react ids r).1.frontend
  | .returns => by simpa [System.react] using h
  | .throws => by simpa [System.react] using h
  | .publishes event subscribers rest => by
    have hpublish : EventStream past (s.publishEvent event).frontend := h.publishEvent event
    rw [System.react]
    exact (hpublish.notify subscribers).react rest
  | .calls op subscribers rest => by
    have hstep : EventStream past (s.step ids (.start op)).frontend := h.step _
    rw [System.react]
    split
    · exact (hstep.notify subscribers).react rest
    · exact hstep.react rest

theorem EventStream.notify {s : System} (h : EventStream past s.frontend) :
    (rs : List Reaction) → EventStream past (s.notify ids rs).frontend
  | [] => by simpa [System.notify] using h
  | r :: rs => by
    have hreact : EventStream past (s.react ids r).1.frontend := h.react r
    rw [System.notify]
    split
    · next hr => exact (hr ▸ hreact).notify rs
    · next hr => exact (hr ▸ hreact).notify rs

end

theorem EventStream.pageStep (h : EventStream past s.frontend) (a : PageAction) :
    EventStream past (s.pageStep ids a).frontend := by
  cases a with
  | segment action subscribers =>
    have hstep : EventStream past (s.step ids action).frontend := h.step action
    unfold System.pageStep
    dsimp only
    split
    · exact hstep.notify subscribers
    · exact hstep
  | publishEvent event subscribers =>
    have hpublish : EventStream past (s.publishEvent event).frontend := h.publishEvent event
    exact hpublish.notify subscribers

/-- At every boundary the model holds the log in reverse, and whatever it held stays in it. -/
theorem model_mirrors_log (ids : ℕ → IdSource) (redispatchEvent : RedispatchEvent)
    (before after : List PageAction) :
    let s := run (System.pageStep ids) (.initial redispatchEvent) before
    let s' := run (System.pageStep ids) s after
    s.frontend.model.events = s.frontend.events.reverse ∧
      s.frontend.model.events <:+ s'.frontend.model.events := by
  intro s s'
  have hs : EventStream [] s.frontend :=
    run_invariant (I := fun s : System => EventStream [] s.frontend) (fun _ a h => h.pageStep a)
      ⟨rfl, List.nil_suffix⟩ before
  have hkeep : EventStream s.frontend.model.events s.frontend := ⟨hs.mirror, List.suffix_rfl⟩
  have hs' : EventStream s.frontend.model.events s'.frontend :=
    run_invariant (I := fun t : System => EventStream s.frontend.model.events t.frontend)
      (fun _ a h => h.pageStep a) hkeep after
  exact ⟨hs.mirror, hs'.kept⟩

end GridFlex
