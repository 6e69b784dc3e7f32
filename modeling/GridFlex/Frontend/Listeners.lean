import GridFlex.Frontend.Service
import GridFlex.Lib.Registry
import GridFlex.Lib.Subscription

/-! The subscribers of `MockGridFlexibilityService` and the listeners of `GridFlexibilityModel`: how
they come and go, and which of them an event or an action reaches. -/
namespace GridFlex
open Registry Subscription Transition

/-- A callback stands for its identity, which is all that the arrays compare. -/
structure SubscribedService (α : Type*) where
  frontend : Frontend
  subscribers : List α

structure ObservedModel (α : Type*) where
  state : GridFlexibilityState
  listeners : List α

/-- What a callback does in the one call that a notification makes of it: it calls handles, and
then returns or throws. -/
structure Conduct (α : Type*) where
  handles : List α
  throws : Bool

section Callbacks

variable {α : Type*} [DecidableEq α]

/-- What a handle does: `indexOf`, and `splice` if there is an index. -/
def spliceOut (entries : List α) (callback : α) : List α :=
  match entries.idxOf? callback with
  | some index => entries.eraseIdx index
  | none => entries

theorem spliceOut_eq_erase (entries : List α) (callback : α) :
    spliceOut entries callback = entries.erase callback := by
  unfold spliceOut
  rw [List.erase_eq_eraseIdx]
  cases entries.idxOf? callback with
  | none => rfl
  | some index => rfl

/-- The entries after the call, as its value or with the exception. -/
def Conduct.run (conduct : Conduct α) (entries : List α) : Except (List α) (List α) :=
  let entries := conduct.handles.foldl spliceOut entries
  if conduct.throws then .error entries else .ok entries

/-- The exception is logged and nothing else. -/
def Conduct.caught (conduct : Conduct α) (entries : List α) : List α :=
  match conduct.run entries with
  | .ok entries => entries
  | .error entries => entries

/-- The `forEach` of either array: the callbacks called, and the array after it. -/
def notifyAll (conduct : α → Conduct α) (entries : List α) : List α × List α :=
  forEach (fun c => (conduct c).caught) entries.length 0 entries

namespace SubscribedService

def subscribeToEvents (service : SubscribedService α) (callback : α) : SubscribedService α :=
  { service with subscribers := service.subscribers ++ [callback] }

/-- The handle that `subscribeToEvents` returns. -/
def unsubscribe (service : SubscribedService α) (callback : α) : SubscribedService α :=
  { service with subscribers := spliceOut service.subscribers callback }

/-- The page has the event before the first subscriber is called. -/
def publishEvent (conduct : α → Conduct α) (service : SubscribedService α)
    (event : GridFlexibilityEvent) : SubscribedService α × List α :=
  let (calls, subscribers) := notifyAll conduct service.subscribers
  (⟨service.frontend.publishEvent event, subscribers⟩, calls)

end SubscribedService

namespace ObservedModel

def subscribe (model : ObservedModel α) (listener : α) : ObservedModel α :=
  { model with listeners := model.listeners ++ [listener] }

/-- The handle that `subscribe` returns. -/
def unsubscribe (model : ObservedModel α) (listener : α) : ObservedModel α :=
  { model with listeners := spliceOut model.listeners listener }

def notifyListeners (conduct : α → Conduct α) (model : ObservedModel α) :
    ObservedModel α × List α :=
  let (calls, listeners) := notifyAll conduct model.listeners
  ({ model with listeners := listeners }, calls)

def dispatch (conduct : α → Conduct α) (model : ObservedModel α)
    (action : GridFlexibilityAction) : ObservedModel α × List α :=
  notifyListeners conduct { model with state := model.state.dispatch action }

end ObservedModel

/-- An exception changes nothing for the callbacks behind it. -/
theorem caught_eq_removeAll (conduct : α → Conduct α) :
    (fun c => (conduct c).caught) = removeAll fun c => (conduct c).handles := by
  have hsplice : (spliceOut : List α → α → List α) = List.erase := by
    funext entries callback
    exact spliceOut_eq_erase entries callback
  funext c entries
  unfold Conduct.caught Conduct.run removeAll
  rw [hsplice]
  split
  · next h => split at h <;> cases h; rfl
  · next h => split at h <;> cases h; rfl

/-- Each of the registered callbacks that is not unsubscribed before its turn is called once, in
the order of registration. -/
structure ReachesEveryone (conduct : α → Conduct α) (registered calls : List α) : Prop where
  inOrder : calls.Sublist registered
  notified : Notified (fun c => (conduct c).handles) registered calls

theorem notifyAll_iff (conduct : α → Conduct α) {registered : List α} (hn : registered.Nodup) :
    ReachesEveryone conduct registered (notifyAll conduct registered).1 ↔
      Orderly (fun c => (conduct c).handles) [] [] registered := by
  unfold notifyAll
  rw [caught_eq_removeAll, ← forEach_notified_iff hn]
  constructor
  · exact fun h => h.notified
  · intro h
    have hsub := forEach_sublist (@removeAll_sublist _ (fun c => (conduct c).handles) _)
      registered.length 0 registered
    exact ⟨by simpa using hsub, h⟩

/-- A notification reaches everyone exactly when no callback that gets its turn unsubscribes
itself, or one still registered in front of it, while others are left behind it. -/
theorem notification_reaches_everyone_iff (conduct : α → Conduct α) (registered : List α)
    (hn : registered.Nodup) :
    (∀ (frontend : Frontend) (event : GridFlexibilityEvent),
      ReachesEveryone conduct registered
          (SubscribedService.publishEvent conduct ⟨frontend, registered⟩ event).2 ↔
        Orderly (fun c => (conduct c).handles) [] [] registered) ∧
    ∀ (state : GridFlexibilityState) (action : GridFlexibilityAction),
      ReachesEveryone conduct registered
          (ObservedModel.dispatch conduct ⟨state, registered⟩ action).2 ↔
        Orderly (fun c => (conduct c).handles) [] [] registered :=
  ⟨fun _ _ => notifyAll_iff conduct hn, fun _ _ => notifyAll_iff conduct hn⟩

/-- The first of two callbacks unsubscribes itself, as one that waits for one event does. -/
def onceConduct (callback : ℕ) : Conduct ℕ := ⟨if callback = 0 then [0] else [], false⟩

def resetEvent : GridFlexibilityEvent := ⟨"evt_1", "1.0.0", .auctionReset "User initiated reset"⟩

theorem onceConduct_reaches_iff :
    (∀ (frontend : Frontend) (event : GridFlexibilityEvent),
      ReachesEveryone onceConduct [0, 1]
          (SubscribedService.publishEvent onceConduct ⟨frontend, [0, 1]⟩ event).2 ↔
        Orderly (fun c => (onceConduct c).handles) [] [] [0, 1]) ∧
    ∀ (state : GridFlexibilityState) (action : GridFlexibilityAction),
      ReachesEveryone onceConduct [0, 1]
          (ObservedModel.dispatch onceConduct ⟨state, [0, 1]⟩ action).2 ↔
        Orderly (fun c => (onceConduct c).handles) [] [] [0, 1] :=
  notification_reaches_everyone_iff onceConduct [0, 1] (by decide)

/-- The second callback moves to the index of the first, and the loop has gone past it. -/
theorem onceConduct_misses :
    let frontend := Frontend.initial mockRedispatchEvent
    ¬ReachesEveryone onceConduct [0, 1]
        (SubscribedService.publishEvent onceConduct ⟨frontend, [0, 1]⟩ resetEvent).2 ∧
      ¬ReachesEveryone onceConduct [0, 1]
        (ObservedModel.dispatch onceConduct ⟨frontend.model, [0, 1]⟩ .resetAuction).2 := by
  intro frontend
  have hcalls : (notifyAll onceConduct [0, 1]).1 = [0] := by decide
  have hmissed : ¬ReachesEveryone onceConduct [0, 1] (notifyAll onceConduct [0, 1]).1 := by
    rw [hcalls]
    intro h
    exact absurd (h.notified 1 (by decide) (by decide)) (by decide)
  exact ⟨hmissed, hmissed⟩

/-- The registrations of either array are accounted for all along exactly when no handle is called
again while another subscription of its callback is left. -/
theorem handles_remove_own_iff (uses : List (Use α)) (frontend : Frontend)
    (state : GridFlexibilityState) :
    ((∀ before after, uses = before ++ after → Accounted SubscribedService.subscribers
        (run (Subscription.step SubscribedService.subscribeToEvents SubscribedService.unsubscribe)
          ⟨⟨frontend, []⟩, []⟩ before)) ↔
      Along (Subscription.step SubscribedService.subscribeToEvents SubscribedService.unsubscribe)
        Fresh ⟨⟨frontend, []⟩, []⟩ uses) ∧
    ((∀ before after, uses = before ++ after → Accounted ObservedModel.listeners
        (run (Subscription.step ObservedModel.subscribe ObservedModel.unsubscribe)
          ⟨⟨state, []⟩, []⟩ before)) ↔
      Along (Subscription.step ObservedModel.subscribe ObservedModel.unsubscribe)
        Fresh ⟨⟨state, []⟩, []⟩ uses) := by
  constructor
  · apply accounted_along_iff
    · exact fun _ _ => rfl
    · exact fun _ _ => spliceOut_eq_erase _ _
    · rfl
  · apply accounted_along_iff
    · exact fun _ _ => rfl
    · exact fun _ _ => spliceOut_eq_erase _ _
    · rfl

/-- One callback subscribed twice, and the first handle called twice: the second subscription is
gone, although its handle has not been called. -/
theorem handleCalledTwice_removes_other :
    let uses : List (Use ℕ) := [.subscribe 0, .subscribe 0, .call 0, .call 0]
    let frontend := Frontend.initial mockRedispatchEvent
    ¬Accounted SubscribedService.subscribers
        (run (Subscription.step SubscribedService.subscribeToEvents SubscribedService.unsubscribe)
          ⟨⟨frontend, []⟩, []⟩ uses) ∧
      ¬Accounted ObservedModel.listeners
        (run (Subscription.step ObservedModel.subscribe ObservedModel.unsubscribe)
          ⟨⟨frontend.model, []⟩, []⟩ uses) := by
  intro uses frontend
  constructor
  · exact fun h => absurd (h 0) (by decide)
  · exact fun h => absurd (h 0) (by decide)

end Callbacks

end GridFlex
