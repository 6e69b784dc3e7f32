import GridFlex.Frontend.Effects
import GridFlex.Frontend.Interleaving

/-! Whatever calls are in flight, the log holds the ids that `generateId` has returned, each in
the place it was made for: the ids of the auctions and bids that are announced, and those of the
events. -/
namespace GridFlex
open Transition

/-- The id of the auction or bid that the service makes for this event. -/
def EventPayload.newId? : EventPayload → Option String
  | .auctionBroadcasted auction _ => some auction.id
  | .bidSubmitted bid _ => some bid.id
  | _ => none

/-- The ids made for an event, in the order in which the service makes them. -/
def GridFlexibilityEvent.ids (event : GridFlexibilityEvent) : List String :=
  event.payload.newId?.toList ++ [event.eventId]

/-- The log has all the ids of the process so far. -/
def Identified (ids : ℕ → IdSource) (f : Frontend) : Prop :=
  f.events.flatMap GridFlexibilityEvent.ids = (generateIds ids f.idCounter 0).1

variable {ids : ℕ → IdSource} {f g : Frontend}

theorem Identified.of_eq (h : Identified ids f) (hevents : g.events = f.events)
    (hcounter : g.idCounter = f.idCounter) : Identified ids g := by
  unfold Identified
  rwa [hevents, hcounter]

theorem Identified.publish (h : Identified ids f) {payload : EventPayload}
    (hnone : payload.newId? = none) : Identified ids (f.publish ids payload) := by
  unfold Identified at h ⊢
  simp only [Frontend.publish, Frontend.createEvent, Frontend.publishEvent, List.flatMap_append,
    List.flatMap_singleton, GridFlexibilityEvent.ids, hnone, Option.toList_none, List.nil_append, h]
  exact (generateIds_concat ids f.idCounter).symm

/-- An auction or a bid takes one id, and the event that announces it the next. -/
theorem Identified.publish_new (h : Identified ids f) {payload : EventPayload}
    (hnew : payload.newId? = some (generateId ids f.idCounter).1) :
    Identified ids (({ f with idCounter := f.idCounter + 1 } : Frontend).publish ids payload) := by
  unfold Identified at h ⊢
  simp only [Frontend.publish, Frontend.createEvent, Frontend.publishEvent, List.flatMap_append,
    List.flatMap_singleton, GridFlexibilityEvent.ids, hnew, Option.toList_some, h]
  rw [← List.append_assoc, ← generateIds_concat, ← generateIds_concat]
  rfl

theorem Identified.serviceBroadcastAuction (h : Identified ids f) (redispatchEventId : String) :
    Identified ids (f.serviceBroadcastAuction ids redispatchEventId).1 :=
  h.publish_new rfl

theorem Identified.serviceSubmitBid (h : Identified ids f) (bid : BidDraft) :
    Identified ids (f.serviceSubmitBid ids bid).1 :=
  h.publish_new rfl

theorem Identified.announceNext (h : Identified ids f) (auctionId : String)
    (valid rest : List Participant) :
    Identified ids (f.announceNext ids auctionId valid rest).1 := by
  cases rest with
  | nil => exact h.of_eq rfl rfl
  | cons p rest => exact h.serviceSubmitBid _

theorem Identified.begin (h : Identified ids f) (op : Operation) :
    Identified ids (f.begin ids op).1 := by
  have hbegin := begin_cases ids f op
  generalize (f.begin ids op).1 = f', (f.begin ids op).2 = next at hbegin ⊢
  cases hbegin with
  | broadcastAuction | noAuction | blankBid | notPlaced | triggerAuction | broadcastAllBids =>
    exact h
  | placeBid => exact h.serviceSubmitBid _
  | resetAuction => exact h.publish rfl
  | nothingValid | updateBidPower | updateBidPrice | updateParticipant | clearNotification =>
    exact h.of_eq rfl rfl

theorem Identified.resume (h : Identified ids f) (c : Suspended) (reply : Reply) :
    Identified ids (f.resume ids c reply).1 := by
  by_cases hreply : c.SettledBy reply
  case neg =>
    rw [resume_unsettled hreply]
    exact h
  cases c with
  | startingCollection redispatchEvent =>
    obtain ⟨tx, rfl⟩ | rfl := hreply
    · have hadded : Identified ids (f.dispatch (.addTransaction tx)) := h.of_eq rfl rfl
      exact hadded.serviceBroadcastAuction redispatchEvent.id
    · exact h.of_eq rfl rfl
  | endingCollection state =>
    obtain ⟨tx, rfl⟩ | rfl := hreply
    · exact h.of_eq rfl rfl
    · exact h.of_eq rfl rfl
  | collectingData state =>
    obtain ⟨prices, quantities, rfl⟩ | rfl := hreply
    · simp only [Frontend.resume]
      cases processAuction state.auctionInput with
      | ok output => exact h.of_eq rfl rfl
      | error message => exact h.of_eq rfl rfl
    · exact h.of_eq rfl rfl
  | resolvingAuction auctionId bidId =>
    obtain rfl := hreply
    obtain ⟨output, -, -, hservice⟩ := f.serviceTriggerAuction_publishes ids auctionId bidId
    simp only [Frontend.resume, hservice]
    exact h.publish rfl
  | submittingData auctionId valid hv p rest =>
    have hreceived : Identified ids (f.receive reply) :=
      h.of_eq (receive_events f reply) (receive_idCounter f reply)
    obtain ⟨rfl, he⟩ | ⟨p', rest', c', rfl, he, -⟩ :=
      resume_submittingData ids f auctionId hv p rest hreply
    · rw [he]
      exact hreceived.announceNext auctionId valid valid
    · rw [he]
      exact hreceived
  | announcingBids auctionId valid rest =>
    obtain rfl := hreply
    exact h.announceNext auctionId valid rest
  | announcingAuction | placingBid | auctionResolved | resetting | delaying =>
    obtain rfl := hreply
    exact h.of_eq rfl rfl

theorem Identified.step {s : System} (h : Identified ids s.frontend) (a : Action) :
    Identified ids (s.step ids a).frontend :=
  System.step_frontend (fun _ op h => h.begin op) (fun _ c reply h => h.resume c reply) h a

theorem initial_identified (redispatchEvent : RedispatchEvent) :
    Identified ids (System.initial redispatchEvent).frontend := rfl

/-- At every boundary of every interleaving. -/
theorem log_identified (redispatchEvent : RedispatchEvent) (as : List Action) :
    Identified ids (run (System.step ids) (.initial redispatchEvent) as).frontend :=
  run_invariant (I := fun s : System => Identified ids s.frontend) (fun _ a h => h.step a)
    (initial_identified redispatchEvent) as

/-- No two calls of `generateId` return the same id, and the ids of the auctions, bids and events
in the log are those that its calls have returned. -/
theorem generated_ids_distinct (ids : ℕ → IdSource) :
    (∀ idCounter calls, (generateIds ids calls idCounter).1.length = calls ∧
      (generateIds ids calls idCounter).1.Nodup) ∧
    ∀ redispatchEvent as,
      let f := (run (System.step ids) (.initial redispatchEvent) as).frontend
      f.events.flatMap GridFlexibilityEvent.ids = (generateIds ids f.idCounter 0).1 ∧
        (f.events.flatMap GridFlexibilityEvent.ids).Nodup := by
  refine ⟨?_, ?_⟩
  · intro idCounter calls
    exact ⟨generateIds_length ids calls idCounter, generateIds_nodup ids calls idCounter⟩
  · intro redispatchEvent as f
    have hlog : Identified ids f := log_identified redispatchEvent as
    refine ⟨hlog, ?_⟩
    rw [hlog]
    exact generateIds_nodup ids _ _

end GridFlex
