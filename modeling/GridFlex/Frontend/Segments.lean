import GridFlex.Frontend.Steps

/-! What one segment of a controller method can do to the parts of the page that the
lifecycle of an auction is about. Every invariant over interleavings is read off this list. -/
namespace GridFlex

/-- A bid for auction `id` has been announced. -/
def Frontend.Submitted (f : Frontend) (id : String) : Prop :=
  ∃ e ∈ f.events, ∃ bid auction, e.payload = .bidSubmitted bid auction ∧ bid.auctionId = id

/-- The auction, its result and the flag stay; the log and the counter only grow. -/
structure Quiet (f f' : Frontend) : Prop where
  auction : f'.model.auction = f.model.auction
  auctionResult : f'.model.auctionResult = f.model.auctionResult
  bidPlaced : f'.model.bidPlaced = f.model.bidPlaced
  events : f.events <+: f'.events
  idCounter : f.idCounter ≤ f'.idCounter

theorem Quiet.refl (f : Frontend) : Quiet f f := ⟨rfl, rfl, rfl, List.prefix_refl _, le_rfl⟩

theorem Quiet.trans {f g h : Frontend} (h₁ : Quiet f g) (h₂ : Quiet g h) : Quiet f h :=
  ⟨h₂.auction.trans h₁.auction, h₂.auctionResult.trans h₁.auctionResult,
    h₂.bidPlaced.trans h₁.bidPlaced, h₁.events.trans h₂.events, h₁.idCounter.trans h₂.idCounter⟩

theorem Frontend.Submitted.mono {f f' : Frontend} {id : String} (h : f.Submitted id)
    (he : f.events <+: f'.events) : f'.Submitted id := by
  obtain ⟨e, hm, hb⟩ := h
  exact ⟨e, he.subset hm, hb⟩

namespace Frontend

variable (ids : ℕ → IdSource) (f : Frontend)

theorem fail_quiet (message : String) : Quiet f (f.fail message) :=
  ⟨rfl, rfl, rfl, List.prefix_refl _, le_rfl⟩

theorem addTransaction_quiet (tx : BlockchainTransaction) :
    Quiet f (f.dispatch (.addTransaction tx)) :=
  ⟨rfl, rfl, rfl, List.prefix_refl _, le_rfl⟩

theorem receive_quiet (reply : Reply) : Quiet f (f.receive reply) := by
  cases reply with
  | transaction tx => exact f.addTransaction_quiet tx
  | _ => exact .refl f

theorem publish_quiet (payload : EventPayload) : Quiet f (f.publish ids payload) :=
  ⟨rfl, rfl, rfl, List.prefix_append _ _, Nat.le_succ _⟩

theorem serviceBroadcastAuction_quiet (redispatchEventId : String) :
    Quiet f (f.serviceBroadcastAuction ids redispatchEventId).1 :=
  ⟨rfl, rfl, rfl, List.prefix_append _ _, by
    simp only [serviceBroadcastAuction, publish, createEvent, publishEvent, generateId]; omega⟩

theorem serviceBroadcastAuction_idCounter (redispatchEventId : String) :
    f.idCounter < (f.serviceBroadcastAuction ids redispatchEventId).1.idCounter := by
  simp only [serviceBroadcastAuction, publish, createEvent, publishEvent, generateId]
  omega

theorem serviceSubmitBid_quiet (bid : BidDraft) : Quiet f (f.serviceSubmitBid ids bid).1 :=
  ⟨rfl, rfl, rfl, List.prefix_append _ _, by
    simp only [serviceSubmitBid, publish, createEvent, publishEvent, generateId]; omega⟩

theorem serviceSubmitBid_submitted (bid : BidDraft) :
    (f.serviceSubmitBid ids bid).1.Submitted bid.auctionId :=
  ⟨_, List.mem_append_right _ (List.mem_singleton_self _), _, _, rfl, rfl⟩

theorem serviceTriggerAuction_quiet (auctionId bidId : String) :
    Quiet f (f.serviceTriggerAuction ids auctionId bidId).1 := by
  unfold serviceTriggerAuction
  dsimp only
  split
  · exact publish_quiet ids f _
  · exact .refl f

end Frontend

/-- What a suspended call is doing to the lifecycle. -/
inductive Role where
  | bystander
  | announcer (auction : Auction)
  | trigger (state : Snapshot)
  /-- `announced`: at least one of the call's bids has been published. -/
  | bidder (auctionId : String) (announced : Bool)

def Suspended.role : Suspended → Role
  | .announcingAuction auction => .announcer auction
  | .endingCollection state | .collectingData state => .trigger state
  | .placingBid auctionId | .announcingBids auctionId _ _ => .bidder auctionId true
  | .submittingData auctionId _ _ _ _ | .delaying auctionId _ _ _ _ => .bidder auctionId false
  | _ => .bystander

def Role.announcing : Role → Option Auction
  | .announcer auction => some auction
  | _ => none

def Role.snapshot : Role → Option Snapshot
  | .trigger state => some state
  | _ => none

/-- Does this reply let the call end by setting `bidPlaced`? -/
def Suspended.setsFlag : Suspended → Reply → Bool
  | .placingBid _, .settled | .announcingBids _ _ [], .settled => true
  | _, _ => false

/-- One segment: from a page and the call it belongs to (`none` for a new call) to a page and
where the call stops next; the last index says whether the model's auction was replaced. -/
inductive Segment (ids : ℕ → IdSource) (f : Frontend) (reply : Option Reply) :
    Option Suspended → Frontend → Option Suspended → Bool → Prop where
  | quiet {call next f'} (hq : Quiet f f')
      (hrole : ∀ c' ∈ next, c'.role = .bystander ∨ ∃ c ∈ call, c'.role = c.role) :
      Segment ids f reply call f' next false
  | announce {call f'} (auction : Auction) (hq : Quiet f f') (hlt : f.idCounter < f'.idCounter)
      (hid : auction.id = (generateId ids f.idCounter).1) (hactive : auction.status = .active) :
      Segment ids f reply call f' (some (.announcingAuction auction)) false
  | trigger (state : Snapshot) (hauction : f.model.auction = some state.auction)
      (hplaced : f.model.bidPlaced = true) :
      Segment ids f reply none f (some (.endingCollection state)) false
  | bid {f' c'} (auction : Auction) (announced : Bool) (hq : Quiet f f')
      (hauction : f.model.auction = some auction) (hrole : c'.role = .bidder auction.id announced)
      (hsub : announced = true → f'.Submitted auction.id) :
      Segment ids f reply none f' (some c') false
  | publishBid {c f' c'} (auctionId : String) (announced : Bool) (hq : Quiet f f')
      (hcall : c.role = .bidder auctionId announced) (hrole : c'.role = .bidder auctionId true)
      (hsub : f'.Submitted auctionId) :
      Segment ids f reply (some c) f' (some c') false
  | store (auction : Auction) :
      Segment ids f reply (some (.announcingAuction auction)) (f.storeAuction auction) none true
  | resolve (state : Snapshot) (output : AuctionOutput) (c' : Suspended)
      (hreply : ∃ prices quantities, reply = some (.collected prices quantities))
      (hout : processAuction state.auctionInput = .ok output) (hrole : c'.role = .bystander) :
      Segment ids f reply (some (.collectingData state)) (f.storeResult state.auction output.result)
        (some c') false
  | flag {c f'} (auctionId : String) (hcall : c.role = .bidder auctionId true)
      (hset : ∃ r, reply = some r ∧ c.setsFlag r = true)
      (hauction : f'.model.auction = f.model.auction)
      (hresult : f'.model.auctionResult = f.model.auctionResult)
      (hevents : f'.events = f.events) (hcounter : f'.idCounter = f.idCounter) :
      Segment ids f reply (some c) f' none false
  | reset : Segment ids f reply (some .resetting) (f.dispatch .resetAuction) none true

variable {ids : ℕ → IdSource}

theorem begin_segment (f : Frontend) (op : Operation) :
    Segment ids f none none (f.begin ids op).1 (f.begin ids op).2 false := by
  have hbegin := begin_cases ids f op
  generalize (f.begin ids op).1 = f', (f.begin ids op).2 = next at hbegin ⊢
  cases hbegin with
  | broadcastAuction => exact .quiet (.refl f) (by simp [Suspended.role])
  | noAuction | blankBid | notPlaced => exact .quiet (.refl f) (by simp)
  | placeBid auction hauction =>
    exact .bid auction true (f.serviceSubmitBid_quiet ids _) hauction rfl
      fun _ => f.serviceSubmitBid_submitted ids _
  | triggerAuction now auction hauction hplaced =>
    exact .trigger ⟨auction, _, _, now⟩ hauction hplaced
  | resetAuction => exact .quiet (f.publish_quiet ids _) (by simp [Suspended.role])
  | broadcastAllBids auction p rest hauction =>
    exact .bid auction false (.refl f) hauction rfl (by simp)
  | nothingValid | updateBidPower | updateBidPrice | updateParticipant | clearNotification =>
    exact .quiet ⟨rfl, rfl, rfl, List.prefix_refl _, le_rfl⟩ (by simp)

/-- The step of `broadcastAllBids` that starts or continues the announcements. -/
theorem announceNext_segment {f g : Frontend} (hq : Quiet f g) (hevents : g.events = f.events)
    (hcounter : g.idCounter = f.idCounter) {c : Suspended} {reply : Reply} (auctionId : String)
    (announced : Bool) (hc : c.role = .bidder auctionId announced) (valid rest : List Participant)
    (hrest : announced = false → rest ≠ []) (hset : rest = [] → c.setsFlag reply = true) :
    Segment ids f (some reply) (some c) (g.announceNext ids auctionId valid rest).1
      (g.announceNext ids auctionId valid rest).2 false := by
  cases rest with
  | nil =>
    cases announced with
    | false => exact absurd rfl (hrest rfl)
    | true =>
      exact .flag auctionId hc ⟨reply, rfl, hset rfl⟩ hq.auction hq.auctionResult hevents
        hcounter
  | cons p rest =>
    exact .publishBid auctionId announced (hq.trans (g.serviceSubmitBid_quiet ids _)) hc rfl
      (g.serviceSubmitBid_submitted ids _)

/-- Does settling this await replace the auction of the model by a reset or a new broadcast? -/
def Suspended.replaces : Suspended → Reply → Bool
  | .announcingAuction _, .settled | .resetting, .settled => true
  | _, _ => false

theorem Suspended.SettledBy.of_replaces {c : Suspended} {reply : Reply}
    (h : c.replaces reply = true) : c.SettledBy reply := by
  cases c <;> cases reply <;> first | rfl | cases h

theorem resume_segment (f : Frontend) (c : Suspended) (reply : Reply) :
    Segment ids f (some reply) (some c) (f.resume ids c reply).1 (f.resume ids c reply).2
      (c.replaces reply) := by
  by_cases hreply : c.SettledBy reply
  case neg =>
    rw [resume_unsettled hreply, Bool.eq_false_iff.mpr fun h => hreply (.of_replaces h)]
    exact .quiet (.refl f) fun _ hc =>
      Or.inr ⟨c, rfl, congrArg Suspended.role (Option.some.inj hc).symm⟩
  cases c with
  | startingCollection redispatchEvent =>
    obtain ⟨tx, rfl⟩ | rfl := hreply
    · exact .announce _ ((f.addTransaction_quiet tx).trans
        (Frontend.serviceBroadcastAuction_quiet ids _ _))
        (Frontend.serviceBroadcastAuction_idCounter ids (f.dispatch (.addTransaction tx)) _) rfl rfl
    · exact .quiet (f.fail_quiet _) (by simp [Frontend.resume])
  | announcingAuction auction =>
    obtain rfl := hreply
    exact .store auction
  | placingBid auctionId =>
    obtain rfl := hreply
    exact .flag auctionId rfl ⟨_, rfl, rfl⟩ rfl rfl rfl rfl
  | endingCollection state =>
    obtain ⟨tx, rfl⟩ | rfl := hreply
    · exact .quiet (f.addTransaction_quiet tx) (by simp [Frontend.resume, Suspended.role])
    · exact .quiet (f.fail_quiet _) (by simp [Frontend.resume])
  | collectingData state =>
    obtain ⟨prices, quantities, rfl⟩ | rfl := hreply
    · simp only [Frontend.resume]
      cases hout : processAuction state.auctionInput with
      | ok output => exact .resolve state output _ ⟨_, _, rfl⟩ hout rfl
      | error message => exact .quiet (f.fail_quiet _) (by simp)
    · exact .quiet (f.fail_quiet _) (by simp [Frontend.resume])
  | resolvingAuction auctionId bidId =>
    obtain rfl := hreply
    exact .quiet (f.serviceTriggerAuction_quiet ids _ _)
      (by simp [Frontend.resume, Suspended.role])
  | auctionResolved auctionId =>
    obtain rfl := hreply
    exact .quiet (.refl f) (by simp [Frontend.resume])
  | resetting =>
    obtain rfl := hreply
    exact .reset
  | submittingData auctionId valid hv p rest =>
    obtain ⟨rfl, he⟩ | ⟨p', rest', c', rfl, he, hc'⟩ :=
      resume_submittingData ids f auctionId hv p rest hreply
    · rw [he]
      exact announceNext_segment (f.receive_quiet reply) (receive_events f reply)
        (receive_idCounter f reply) auctionId false rfl valid valid (fun _ => hv)
        fun hnil => absurd hnil hv
    · rw [he]
      refine .quiet (f.receive_quiet reply) ?_
      rintro _ ⟨⟩
      rcases hc' with rfl | rfl
      · exact Or.inr ⟨_, rfl, rfl⟩
      · exact Or.inr ⟨_, rfl, rfl⟩
  | delaying auctionId valid hv p rest =>
    obtain rfl := hreply
    exact .quiet (.refl f) (by simp [Frontend.resume, Suspended.role])
  | announcingBids auctionId valid rest =>
    obtain rfl := hreply
    apply announceNext_segment (.refl f) rfl rfl auctionId true rfl valid rest (by simp)
    rintro rfl
    rfl

namespace Segment

variable {f f' : Frontend} {reply : Option Reply} {call next : Option Suspended}
  {replaced : Bool}

/-- The three ways in which the auction and its result are written, and who writes them. -/
theorem writes (h : Segment ids f reply call f' next replaced) :
    (f'.model.auction = f.model.auction ∧ f'.model.auctionResult = f.model.auctionResult ∧
      replaced = false) ∨
    (∃ auction, call = some (.announcingAuction auction) ∧ f' = f.storeAuction auction ∧
      replaced = true) ∨
    (∃ state output, call = some (.collectingData state) ∧
      (∃ prices quantities, reply = some (.collected prices quantities)) ∧
      processAuction state.auctionInput = .ok output ∧
      f' = f.storeResult state.auction output.result ∧ replaced = false) ∨
    (call = some .resetting ∧ f' = f.dispatch .resetAuction ∧ replaced = true) := by
  cases h with
  | quiet hq _ => exact Or.inl ⟨hq.auction, hq.auctionResult, rfl⟩
  | announce _ hq _ _ _ => exact Or.inl ⟨hq.auction, hq.auctionResult, rfl⟩
  | trigger _ _ _ => exact Or.inl ⟨rfl, rfl, rfl⟩
  | bid _ _ hq _ _ _ => exact Or.inl ⟨hq.auction, hq.auctionResult, rfl⟩
  | publishBid _ _ hq _ _ _ => exact Or.inl ⟨hq.auction, hq.auctionResult, rfl⟩
  | store auction => exact Or.inr (Or.inl ⟨auction, rfl, rfl, rfl⟩)
  | resolve state output _ hreply hout _ =>
    exact Or.inr (Or.inr (Or.inl ⟨state, output, rfl, hreply, hout, rfl, rfl⟩))
  | flag _ _ _ hauction hresult _ _ => exact Or.inl ⟨hauction, hresult, rfl⟩
  | reset => exact Or.inr (Or.inr (Or.inr ⟨rfl, rfl, rfl⟩))

theorem idCounter_le (h : Segment ids f reply call f' next replaced) :
    f.idCounter ≤ f'.idCounter := by
  cases h with
  | quiet hq _ => exact hq.idCounter
  | announce _ hq _ _ _ => exact hq.idCounter
  | trigger _ _ _ => exact le_rfl
  | bid _ _ hq _ _ _ => exact hq.idCounter
  | publishBid _ _ hq _ _ _ => exact hq.idCounter
  | store _ => exact le_rfl
  | resolve _ _ _ _ _ _ => exact le_rfl
  | flag _ _ _ _ _ _ hcounter => exact hcounter.ge
  | reset => exact le_rfl

/-- The log only grows, over a reset too. -/
theorem events_grow (h : Segment ids f reply call f' next replaced) : f.events <+: f'.events := by
  cases h with
  | quiet hq _ => exact hq.events
  | announce _ hq _ _ _ => exact hq.events
  | trigger _ _ _ => exact List.prefix_refl _
  | bid _ _ hq _ _ _ => exact hq.events
  | publishBid _ _ hq _ _ _ => exact hq.events
  | store _ => exact List.prefix_refl _
  | resolve _ _ _ _ _ _ => exact List.prefix_refl _
  | flag _ _ _ _ _ hevents _ => exact hevents ▸ List.prefix_refl _
  | reset => exact List.prefix_refl _

/-- Where the snapshot of a suspended trigger comes from. -/
theorem snapshot (h : Segment ids f reply call f' next replaced) {c' : Suspended}
    (hc' : next = some c') {state : Snapshot} (hs : c'.role.snapshot = some state) :
    (call = none ∧ f.model.auction = some state.auction ∧ f.model.bidPlaced = true) ∨
      ∃ c, call = some c ∧ c.role.snapshot = some state := by
  cases h with
  | quiet hq hrole =>
    rcases hrole c' hc' with he | ⟨c, hc, he⟩
    · simp [he, Role.snapshot] at hs
    · exact Or.inr ⟨c, hc, he ▸ hs⟩
  | announce =>
    cases hc'
    simp [Suspended.role, Role.snapshot] at hs
  | trigger state' hauction hplaced =>
    cases hc'
    cases hs
    exact Or.inl ⟨rfl, hauction, hplaced⟩
  | bid _ _ _ _ hrole =>
    cases hc'
    simp [hrole, Role.snapshot] at hs
  | publishBid _ _ _ _ hrole =>
    cases hc'
    simp [hrole, Role.snapshot] at hs
  | store => cases hc'
  | resolve _ _ _ _ _ hrole =>
    cases hc'
    simp [hrole, Role.snapshot] at hs
  | flag => cases hc'
  | reset => cases hc'

/-- Where the bids of a suspended call go, and whether one of them is out. -/
theorem bidder (h : Segment ids f reply call f' next replaced) {c' : Suspended}
    (hc' : next = some c') {auctionId : String} {announced : Bool}
    (hb : c'.role = .bidder auctionId announced) :
    (call = none ∧ (∃ a, f.model.auction = some a ∧ a.id = auctionId) ∧
      (announced = true → f'.Submitted auctionId)) ∨
    ∃ c before, call = some c ∧ c.role = .bidder auctionId before ∧
      (announced = true → before = true ∨ f'.Submitted auctionId) := by
  cases h with
  | quiet hq hrole =>
    rcases hrole c' hc' with he | ⟨c, hc, he⟩
    · simp [he] at hb
    · exact Or.inr ⟨c, announced, hc, he ▸ hb, Or.inl⟩
  | announce =>
    cases hc'
    simp [Suspended.role] at hb
  | trigger =>
    cases hc'
    simp [Suspended.role] at hb
  | bid auction announced' _ hauction hrole hsub =>
    cases hc'
    obtain ⟨rfl, rfl⟩ : auction.id = auctionId ∧ announced' = announced := by
      simpa [hrole] using hb
    exact Or.inl ⟨rfl, ⟨auction, hauction, rfl⟩, hsub⟩
  | publishBid auctionId' before _ hcall hrole hsub =>
    cases hc'
    obtain ⟨rfl, -⟩ : auctionId' = auctionId ∧ true = announced := by simpa [hrole] using hb
    exact Or.inr ⟨_, before, rfl, hcall, fun _ => Or.inr hsub⟩
  | store => cases hc'
  | resolve _ _ _ _ _ hrole =>
    cases hc'
    simp [hrole] at hb
  | flag => cases hc'
  | reset => cases hc'

/-- A flag that is up was up before, or has just been set by a call with a bid out. -/
theorem placed (h : Segment ids f reply call f' next replaced)
    (hp : f'.model.bidPlaced = true) :
    (f.model.bidPlaced = true ∧ replaced = false) ∨
      ∃ c auctionId r, call = some c ∧ c.role = .bidder auctionId true ∧ reply = some r ∧
        c.setsFlag r = true ∧ f'.model.auction = f.model.auction := by
  cases h with
  | quiet hq _ => exact Or.inl ⟨hq.bidPlaced ▸ hp, rfl⟩
  | announce _ hq _ _ _ => exact Or.inl ⟨hq.bidPlaced ▸ hp, rfl⟩
  | trigger _ _ _ => exact Or.inl ⟨hp, rfl⟩
  | bid _ _ hq _ _ _ => exact Or.inl ⟨hq.bidPlaced ▸ hp, rfl⟩
  | publishBid _ _ hq _ _ _ => exact Or.inl ⟨hq.bidPlaced ▸ hp, rfl⟩
  | store _ => cases hp
  | resolve _ _ _ _ _ _ => exact Or.inl ⟨hp, rfl⟩
  | flag auctionId hcall hset hauction _ _ _ =>
    obtain ⟨r, hr, hset⟩ := hset
    exact Or.inr ⟨_, auctionId, r, rfl, hcall, hr, hset, hauction⟩
  | reset => cases hp

end Segment

end GridFlex
