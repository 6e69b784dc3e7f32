import GridFlex.Frontend.Steps

/-! A segment of a controller method is a series of dispatches and publications, and every
auction it speaks of is one that the call already holds. -/
namespace GridFlex

namespace EventPayload

/-- The auction that a bid or a result is for. -/
def concerns? : EventPayload → Option String
  | .bidSubmitted bid _ => some bid.auctionId
  | .auctionResolved result _ _ => some result.auctionId
  | _ => none

/-- The auction that is broadcast. -/
def opens? : EventPayload → Option String
  | .auctionBroadcasted auction _ => some auction.id
  | _ => none

end EventPayload

/-- The auction that a suspended call goes on with. -/
def Suspended.auctionId? : Suspended → Option String
  | .startingCollection _ | .resetting => none
  | .announcingAuction auction => some auction.id
  | .endingCollection state | .collectingData state => some state.auction.id
  | .placingBid auctionId | .resolvingAuction auctionId _ | .auctionResolved auctionId
  | .submittingData auctionId _ _ _ _ | .delaying auctionId _ _ _ _
  | .announcingBids auctionId _ _ => some auctionId

/-- From `f` to `g` by dispatches, fresh ids and the publication of `payloads`, in order. -/
inductive Effects (ids : ℕ → IdSource) (f : Frontend) : List EventPayload → Frontend → Prop where
  | refl : Effects ids f [] f
  | dispatch {payloads g} (h : Effects ids f payloads g) (action : GridFlexibilityAction)
      (hevent : ∀ event, action ≠ .addEvent event) : Effects ids f payloads (g.dispatch action)
  | publish {payloads g} (h : Effects ids f payloads g) (payload : EventPayload) :
      Effects ids f (payloads ++ [payload]) (g.publish ids payload)
  | count {payloads g} (h : Effects ids f payloads g) :
      Effects ids f payloads { g with idCounter := g.idCounter + 1 }

namespace Effects

variable {ids : ℕ → IdSource} {f g : Frontend} {payloads : List EventPayload}

theorem trans {h : Frontend} {payloads' : List EventPayload} (h₁ : Effects ids f payloads g)
    (h₂ : Effects ids g payloads' h) : Effects ids f (payloads ++ payloads') h := by
  induction h₂ with
  | refl => simpa using h₁
  | dispatch _ action hevent ih => exact ih.dispatch action hevent
  | publish _ payload ih =>
    rw [← List.append_assoc]
    exact ih.publish payload
  | count _ ih => exact ih.count

/-- What is published is what the log gains. -/
theorem log (h : Effects ids f payloads g) :
    ∃ new, g.events = f.events ++ new ∧ new.map GridFlexibilityEvent.payload = payloads := by
  induction h with
  | refl => exact ⟨[], by simp, rfl⟩
  | dispatch _ _ _ ih => exact ih
  | @publish _ g _ payload ih =>
    obtain ⟨new, hlog, hnew⟩ := ih
    refine ⟨new ++ [(Frontend.createEvent ids g payload).2], ?_,
      by simp [hnew, Frontend.createEvent]⟩
    rw [← List.append_assoc, ← hlog]
    rfl
  | count _ ih => exact ih

end Effects

namespace Frontend

variable (ids : ℕ → IdSource) (f : Frontend)

theorem dispatch_effects (action : GridFlexibilityAction)
    (hevent : ∀ event, action ≠ .addEvent event) : Effects ids f [] (f.dispatch action) :=
  Effects.refl.dispatch action hevent

theorem fail_effects (message : String) : Effects ids f [] (f.fail message) :=
  f.dispatch_effects ids _ (by simp)

theorem receive_effects (reply : Reply) : Effects ids f [] (f.receive reply) := by
  cases reply with
  | transaction tx => exact f.dispatch_effects ids _ (by simp)
  | _ => exact .refl

theorem publish_effects (payload : EventPayload) :
    Effects ids f [payload] (f.publish ids payload) :=
  Effects.refl.publish payload

theorem serviceBroadcastAuction_effects (redispatchEventId : String) :
    ∃ event, Effects ids f
      [.auctionBroadcasted (f.serviceBroadcastAuction ids redispatchEventId).2 event]
      (f.serviceBroadcastAuction ids redispatchEventId).1 :=
  ⟨_, Effects.refl.count.publish _⟩

theorem serviceSubmitBid_effects (bid : BidDraft) :
    ∃ newBid auction, newBid.auctionId = bid.auctionId ∧
      Effects ids f [.bidSubmitted newBid auction] (f.serviceSubmitBid ids bid).1 :=
  ⟨_, _, rfl, Effects.refl.count.publish _⟩

/-- The mock data of `triggerAuction` are never rejected: the service always publishes. -/
theorem serviceTriggerAuction_publishes (auctionId bidId : String) :
    ∃ output, processAuction ⟨serviceGetAuction auctionId, serviceGetRedispatchEvent "redispatch-1",
        getSubmittedBids auctionId, DEFAULT_AUCTION_CONFIG⟩ = .ok output ∧
      output.result.auctionId = auctionId ∧
      (f.serviceTriggerAuction ids auctionId bidId).1 =
        f.publish ids (.auctionResolved output.result (serviceGetAuction auctionId)
          (resolvedBid (getSubmittedBids auctionId) auctionId bidId)) := by
  obtain ⟨output, hout, -, -, hresult⟩ := processAuction_ok (validateInput_ok_iff.mpr
    ⟨List.cons_ne_nil _ _, by norm_num [serviceGetRedispatchEvent]⟩ :
    validateInput ⟨serviceGetAuction auctionId, serviceGetRedispatchEvent "redispatch-1",
      getSubmittedBids auctionId, DEFAULT_AUCTION_CONFIG⟩ = .ok ())
  refine ⟨output, hout, by rw [hresult]; rfl, ?_⟩
  have hservice : standardProcessAuction DEFAULT_AUCTION_CONFIG (serviceGetAuction auctionId)
      (serviceGetRedispatchEvent (serviceGetAuction auctionId).redispatchEventId)
      (getSubmittedBids auctionId) = .ok output.result := by
    show standardProcessAuction _ _ (serviceGetRedispatchEvent "redispatch-1") _ = _
    simp only [standardProcessAuction, hout]
  simp only [serviceTriggerAuction, hservice]

end Frontend

/-- What a segment does, and the auctions it speaks of: `about` is the one that it starts with. -/
structure Speaks (ids : ℕ → IdSource) (f : Frontend) (about : Option String) (f' : Frontend)
    (next : Option Suspended) : Prop where
  effects : ∃ payloads, Effects ids f payloads f' ∧
    (∀ p ∈ payloads, ∀ id ∈ p.concerns?, id ∈ about) ∧
    ∀ c' ∈ next, ∀ id ∈ c'.auctionId?, id ∈ about ∨ ∃ p ∈ payloads, id ∈ p.opens?
  auction : ∀ a ∈ f'.model.auction, a ∈ f.model.auction ∨ a.id ∈ about

variable {ids : ℕ → IdSource}

/-- A segment that publishes nothing and leaves the auction of the model alone. -/
theorem speaks_silent {f f' : Frontend} {about : Option String} {next : Option Suspended}
    (he : Effects ids f [] f') (ha : f'.model.auction = f.model.auction)
    (hnext : ∀ c' ∈ next, ∀ id ∈ c'.auctionId?, id ∈ about) : Speaks ids f about f' next :=
  ⟨⟨[], he, by simp, fun c' hc' id hid => Or.inl (hnext c' hc' id hid)⟩,
    fun _ h => Or.inl (ha ▸ h)⟩

theorem announceNext_speaks {f g : Frontend} (he : Effects ids f [] g)
    (ha : g.model.auction = f.model.auction) (auctionId : String) (valid rest : List Participant) :
    Speaks ids f (some auctionId) (g.announceNext ids auctionId valid rest).1
      (g.announceNext ids auctionId valid rest).2 := by
  cases rest with
  | nil =>
    refine speaks_silent ?_ ha (by simp [Frontend.announceNext])
    exact (he.dispatch _ (by simp)).dispatch _ (by simp)
  | cons p rest =>
    obtain ⟨newBid, auction, hid, hbid⟩ := g.serviceSubmitBid_effects ids (p.draft auctionId)
    refine ⟨⟨_, he.trans hbid, ?_, ?_⟩, fun _ h => Or.inl (ha ▸ h)⟩
    · simp [EventPayload.concerns?, hid, Participant.draft]
    · simp [Frontend.announceNext, Suspended.auctionId?]

theorem begin_speaks (f : Frontend) (op : Operation) :
    Speaks ids f (f.model.auction.map Auction.id) (f.begin ids op).1 (f.begin ids op).2 := by
  have hbegin := begin_cases ids f op
  generalize (f.begin ids op).1 = f', (f.begin ids op).2 = next at hbegin ⊢
  cases hbegin with
  | broadcastAuction => exact speaks_silent .refl rfl (by simp [Suspended.auctionId?])
  | noAuction | blankBid | notPlaced => exact speaks_silent .refl rfl (by simp)
  | placeBid auction hauction =>
    obtain ⟨newBid, auction', hid, hbid⟩ := f.serviceSubmitBid_effects ids
      { f.model.bid with auctionId := auction.id }
    refine ⟨⟨_, hbid, ?_, ?_⟩, fun _ h => Or.inl h⟩
    · simp [EventPayload.concerns?, hid, hauction]
    · simp [Suspended.auctionId?, hauction]
  | triggerAuction now auction hauction =>
    exact speaks_silent .refl rfl (by simp [Suspended.auctionId?, hauction])
  | resetAuction =>
    refine ⟨⟨_, f.publish_effects ids _, ?_, ?_⟩, fun _ h => Or.inl h⟩
    · simp [EventPayload.concerns?]
    · simp [Suspended.auctionId?]
  | broadcastAllBids auction p rest hauction =>
    exact speaks_silent .refl rfl (by simp [Suspended.auctionId?, hauction])
  | nothingValid | updateBidPower | updateBidPrice | updateParticipant | clearNotification =>
    exact speaks_silent (f.dispatch_effects ids _ (by simp)) rfl (by simp)

theorem resume_speaks (f : Frontend) (c : Suspended) (reply : Reply) :
    Speaks ids f c.auctionId? (f.resume ids c reply).1 (f.resume ids c reply).2 := by
  have hfail (message : String) : Speaks ids f c.auctionId? (f.fail message) none :=
    speaks_silent (f.fail_effects ids message) rfl (by simp)
  by_cases hreply : c.SettledBy reply
  case neg =>
    rw [resume_unsettled hreply]
    exact speaks_silent .refl rfl (by simp)
  cases c with
  | startingCollection redispatchEvent =>
    obtain ⟨tx, rfl⟩ | rfl := hreply
    · have htx := f.dispatch_effects ids (.addTransaction tx) (by simp)
      obtain ⟨event, hbroadcast⟩ := Frontend.serviceBroadcastAuction_effects ids
        (f.dispatch (.addTransaction tx)) redispatchEvent.id
      refine ⟨⟨_, htx.trans hbroadcast, ?_, ?_⟩, fun _ h => Or.inl h⟩
      · simp [EventPayload.concerns?]
      · simp [Frontend.resume, Suspended.auctionId?, EventPayload.opens?]
    · exact hfail _
  | announcingAuction auction =>
    obtain rfl := hreply
    refine ⟨⟨[], ?_, by simp, by simp [Frontend.resume]⟩, ?_⟩
    · exact ((((f.dispatch_effects ids _ (by simp)).dispatch _ (by simp)).dispatch _
        (by simp)).dispatch _ (by simp)).dispatch _ (by simp)
    · rintro _ ⟨⟩
      exact Or.inr rfl
  | placingBid auctionId =>
    obtain rfl := hreply
    exact speaks_silent ((f.dispatch_effects ids _ (by simp)).dispatch _ (by simp)) rfl
      (by simp [Frontend.resume])
  | endingCollection state =>
    obtain ⟨tx, rfl⟩ | rfl := hreply
    · exact speaks_silent (f.dispatch_effects ids _ (by simp)) rfl
        (by simp [Frontend.resume, Suspended.auctionId?])
    · exact hfail _
  | collectingData state =>
    obtain ⟨prices, quantities, rfl⟩ | rfl := hreply
    · simp only [Frontend.resume]
      cases processAuction state.auctionInput with
      | ok output =>
        refine ⟨⟨[], ?_, by simp, by simp [Suspended.auctionId?]⟩, ?_⟩
        · exact ((f.dispatch_effects ids _ (by simp)).dispatch _ (by simp)).dispatch _ (by simp)
        · rintro _ ⟨⟩
          exact Or.inr rfl
      | error message => exact hfail _
    · exact hfail _
  | resolvingAuction auctionId bidId =>
    obtain rfl := hreply
    obtain ⟨output, -, hid, hservice⟩ := f.serviceTriggerAuction_publishes ids auctionId bidId
    simp only [Frontend.resume, hservice]
    refine ⟨⟨_, f.publish_effects ids _, ?_, ?_⟩, fun _ h => Or.inl h⟩
    · simp [EventPayload.concerns?, hid, Suspended.auctionId?]
    · simp [Suspended.auctionId?]
  | auctionResolved auctionId =>
    obtain rfl := hreply
    exact speaks_silent .refl rfl (by simp [Frontend.resume])
  | resetting =>
    obtain rfl := hreply
    refine ⟨⟨[], f.dispatch_effects ids _ (by simp), by simp, by simp [Frontend.resume]⟩, ?_⟩
    rintro _ ⟨⟩
  | submittingData auctionId valid hv p rest =>
    obtain ⟨rfl, he⟩ | ⟨p', rest', c', rfl, he, hc'⟩ :=
      resume_submittingData ids f auctionId hv p rest hreply
    · rw [he]
      exact announceNext_speaks (f.receive_effects ids reply) (receive_auction f reply)
        auctionId valid valid
    · rw [he]
      refine speaks_silent (f.receive_effects ids reply) (receive_auction f reply) ?_
      rcases hc' with rfl | rfl
      · simp [Suspended.auctionId?]
      · simp [Suspended.auctionId?]
  | delaying auctionId valid hv p rest =>
    obtain rfl := hreply
    exact speaks_silent .refl rfl (by simp [Frontend.resume, Suspended.auctionId?])
  | announcingBids auctionId valid rest =>
    obtain rfl := hreply
    exact announceNext_speaks .refl rfl auctionId valid rest

end GridFlex
