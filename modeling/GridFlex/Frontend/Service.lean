import GridFlex.Auction.Algorithm
import GridFlex.Frontend.Ids
import GridFlex.Frontend.Model

/-! Embedding of `MockGridFlexibilityService` and of the `StandardAuctionService` behind it,
with the model that its published-event callback feeds. No method of either awaits anything
before its last effect that another call could change, so each is one function. -/
namespace GridFlex

/-- The page: the model, the service's own log (oldest first) and the module-level counter. -/
structure Frontend where
  model : GridFlexibilityState
  events : List GridFlexibilityEvent
  idCounter : ℕ
  deriving DecidableEq, Repr

namespace Frontend

def initial (redispatchEvent : RedispatchEvent) : Frontend := ⟨.initial redispatchEvent, [], 0⟩

def dispatch (f : Frontend) (action : GridFlexibilityAction) : Frontend :=
  { f with model := f.model.dispatch action }

/-- The log is appended to, and then the controller's callback dispatches `ADD_EVENT`. -/
def publishEvent (f : Frontend) (event : GridFlexibilityEvent) : Frontend :=
  { f with events := f.events ++ [event], model := f.model.dispatch (.addEvent event) }

variable (ids : ℕ → IdSource)

def createEvent (f : Frontend) (payload : EventPayload) : Frontend × GridFlexibilityEvent :=
  let (eventId, idCounter) := generateId ids f.idCounter
  ({ f with idCounter := idCounter }, ⟨eventId, "1.0.0", payload⟩)

/-- `createEvent` followed by `publishEvent`. -/
def publish (f : Frontend) (payload : EventPayload) : Frontend :=
  let (f, event) := createEvent ids f payload
  f.publishEvent event

def serviceBroadcastAuction (f : Frontend) (redispatchEventId : String) : Frontend × Auction :=
  let (id, idCounter) := generateId ids f.idCounter
  let auction : Auction := ⟨id, redispatchEventId, 100, 50, .active⟩
  let f := { f with idCounter := idCounter }
  (f.publish ids (.auctionBroadcasted auction ⟨redispatchEventId, 100, 50, .active⟩), auction)

def serviceSubmitBid (f : Frontend) (bid : BidDraft) : Frontend × Bid :=
  let (id, idCounter) := generateId ids f.idCounter
  let newBid : Bid :=
    ⟨id, bid.auctionId, bid.participantId, bid.powerMW, bid.pricePerMW, .submitted⟩
  let f := { f with idCounter := idCounter }
  (f.publish ids (.bidSubmitted newBid ⟨bid.auctionId, "redispatch-1", 100, 50, .active⟩), newBid)

def serviceResetAuction (f : Frontend) : Frontend :=
  f.publish ids (.auctionReset "User initiated reset")

def serviceGetAuction (id : String) : Auction := ⟨id, "redispatch-1", 100, 50, .active⟩

def serviceGetRedispatchEvent (id : String) : RedispatchEvent := ⟨id, 100, 50, .pending⟩

/-- The mock bids, whatever was submitted. -/
def getSubmittedBids (auctionId : String) : List Bid :=
  [⟨"bid-1", auctionId, "participant-1", 50, 10, .submitted⟩,
    ⟨"bid-2", auctionId, "participant-2", 30, 20, .submitted⟩,
    ⟨"bid-3", auctionId, "participant-3", 40, 30, .submitted⟩,
    ⟨"bid-4", auctionId, "participant-4", 20, 80, .submitted⟩]

/-- `StandardAuctionService.processAuction` over the configuration of its algorithm. -/
def standardProcessAuction (config : AuctionConfig) (auction : Auction)
    (redispatchEvent : RedispatchEvent) (bids : List Bid) : Except String AuctionResult :=
  match processAuction ⟨auction, redispatchEvent, bids, config⟩ with
  | .ok output => .ok output.result
  | .error message => .error ("Auction processing failed: " ++ message)

/-- The bid of the `auction.resolved` event: the named one, the first, or a blank. -/
def resolvedBid (allBids : List Bid) (auctionId bidId : String) : Bid :=
  match allBids.find? fun b => b.id = bidId with
  | some bid => bid
  | none => allBids.headD ⟨bidId, auctionId, "participant-1", 0, 0, .submitted⟩

/-- A failure is caught inside: nothing is published and the response carries an error. -/
def serviceTriggerAuction (f : Frontend) (auctionId bidId : String) :
    Frontend × Except String AuctionResult :=
  let auction := serviceGetAuction auctionId
  let allBids := getSubmittedBids auctionId
  let redispatchEvent := serviceGetRedispatchEvent auction.redispatchEventId
  match standardProcessAuction DEFAULT_AUCTION_CONFIG auction redispatchEvent allBids with
  | .ok result =>
      (f.publish ids (.auctionResolved result auction (resolvedBid allBids auctionId bidId)),
        .ok result)
  | .error message => (f, .error message)

end Frontend

end GridFlex
