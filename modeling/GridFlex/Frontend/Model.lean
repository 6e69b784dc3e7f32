import GridFlex.Types

/-! Embedding of `models/grid-flexibility-model.ts`. Listeners only read the state. -/
namespace GridFlex

structure GridFlexibilityState where
  redispatchEvent : RedispatchEvent
  auction : Option Auction
  bid : BidDraft
  auctionResult : Option AuctionResult
  bidPlaced : Bool
  notification : Message
  events : List GridFlexibilityEvent
  transactions : List BlockchainTransaction
  participants : List Participant
  deriving DecidableEq, Repr

inductive GridFlexibilityAction where
  | setAuction (payload : Option Auction)
  | setBid (payload : BidDraft)
  | setAuctionResult (payload : Option AuctionResult)
  | setBidPlaced (payload : Bool)
  | setNotification (payload : Message)
  | addEvent (payload : GridFlexibilityEvent)
  | addTransaction (payload : BlockchainTransaction)
  | updateTransaction (payload : BlockchainTransaction)
  | updateParticipant (id : String) (powerMW pricePerMW : ℚ)
  | resetAuction

def initialBid : BidDraft := ⟨"", "participant-1", 0, 0⟩

def initialParticipants : List Participant :=
  [⟨"participant-1", "Participant 1", 50, 10⟩, ⟨"participant-2", "Participant 2", 30, 20⟩,
    ⟨"participant-3", "Participant 3", 40, 30⟩, ⟨"participant-4", "Participant 4", 20, 80⟩]

/-- The redispatch event that `app/page.tsx` hands to the model. -/
def mockRedispatchEvent : RedispatchEvent := ⟨"redispatch-1", 100, 50, .pending⟩

def mockTransaction : BlockchainTransaction :=
  ⟨"0x", "0x", "0x", "0", "0", "0", "0x", some 1, .confirmed⟩

namespace GridFlexibilityState

/-- The constructor of the model. -/
def initial (redispatchEvent : RedispatchEvent) : GridFlexibilityState where
  redispatchEvent := redispatchEvent
  auction := none
  bid := initialBid
  auctionResult := none
  bidPlaced := false
  notification := []
  events := []
  transactions := []
  participants := initialParticipants

def dispatch (state : GridFlexibilityState) : GridFlexibilityAction → GridFlexibilityState
  | .setAuction payload => { state with auction := payload }
  | .setBid payload => { state with bid := payload }
  | .setAuctionResult payload => { state with auctionResult := payload }
  | .setBidPlaced payload => { state with bidPlaced := payload }
  | .setNotification payload => { state with notification := payload }
  | .addEvent payload => { state with events := payload :: state.events }
  | .addTransaction payload => { state with transactions := payload :: state.transactions }
  | .updateTransaction payload =>
      { state with transactions :=
          state.transactions.map fun tx => if tx.hash = payload.hash then payload else tx }
  | .updateParticipant id powerMW pricePerMW =>
      { state with participants := state.participants.map fun p =>
          if p.id = id then { p with powerMW := powerMW, pricePerMW := pricePerMW } else p }
  | .resetAuction =>
      { state with
        auction := none
        bid := initialBid
        auctionResult := none
        bidPlaced := false
        notification := []
        transactions := []
        participants := initialParticipants }

def isAuctionActive (state : GridFlexibilityState) : Bool :=
  decide (state.auction.map Auction.status = some .active)

def canPlaceBid (state : GridFlexibilityState) : Bool :=
  state.isAuctionActive && decide (state.bid.powerMW > 0) && decide (state.bid.pricePerMW > 0)

def canTriggerAuction (state : GridFlexibilityState) : Bool :=
  state.bidPlaced && state.isAuctionActive

def canBroadcastBids (state : GridFlexibilityState) : Bool :=
  state.isAuctionActive && state.participants.any fun p =>
    decide (p.powerMW > 0) && decide (p.pricePerMW > 0)

end GridFlexibilityState

end GridFlex
