import Mathlib

/-! Records of `types/grid-flexibility.ts`. Every `number` is an exact rational; the
timestamps are left out, since no modelled function reads one. -/
namespace GridFlex

inductive RedispatchStatus where
  | pending | active | completed
  deriving DecidableEq, Repr

structure RedispatchEvent where
  id : String
  powerMW : ℚ
  costPerMW : ℚ
  status : RedispatchStatus
  deriving DecidableEq, Repr

inductive AuctionStatus where
  | active | completed | cancelled
  deriving DecidableEq, Repr

structure Auction where
  id : String
  redispatchEventId : String
  powerMW : ℚ
  costPerMW : ℚ
  status : AuctionStatus
  deriving DecidableEq, Repr

inductive BidState where
  | submitted | accepted | rejected
  deriving DecidableEq, Repr

structure Bid where
  id : String
  auctionId : String
  participantId : String
  powerMW : ℚ
  pricePerMW : ℚ
  status : BidState
  deriving DecidableEq, Repr

/-- `Omit<Bid, 'id' | 'timestamp' | 'status'>`. -/
structure BidDraft where
  auctionId : String
  participantId : String
  powerMW : ℚ
  pricePerMW : ℚ
  deriving DecidableEq, Repr

structure Participant where
  id : String
  name : String
  powerMW : ℚ
  pricePerMW : ℚ
  deriving DecidableEq, Repr

/-- One chunk of a template literal. Interpolated numbers stay unrendered: their
decimal text is the floating-point printer's business, with or without a locale. -/
inductive TextPart where
  | text (s : String)
  | number (q : ℚ)
  | localeNumber (q : ℚ)
  deriving DecidableEq, Repr

abbrev Message := List TextPart

/-- The two values of `ParticipantResolution.status` and of `AuctionResult.bidStatus`. -/
inductive Verdict where
  | accepted | rejected
  deriving DecidableEq, Repr

structure ParticipantResolution where
  participantId : String
  participantName : String
  bidPowerMW : ℚ
  bidPricePerMW : ℚ
  status : Verdict
  acceptedPowerMW : ℚ
  payoutEUR : ℚ
  reason : String
  deriving DecidableEq, Repr

structure AuctionResult where
  auctionId : String
  bidId : String
  acceptedPowerMW : ℚ
  remainingPowerMW : ℚ
  remainingCostPerMW : ℚ
  participantPayoutEUR : ℚ
  bidStatus : Verdict
  reason : Message
  participantResolutions : List ParticipantResolution
  deriving DecidableEq, Repr

inductive TransactionStatus where
  | pending | confirmed | failed
  deriving DecidableEq, Repr

structure BlockchainTransaction where
  hash : String
  fromAddress : String
  toAddress : String
  value : String
  gasUsed : String
  gasPrice : String
  data : String
  blockNumber : Option ℕ
  status : TransactionStatus
  deriving DecidableEq, Repr

/-- The `payload` of each member of the `GridFlexibilityEvent` union; the constructor stands for
the `eventType`. -/
inductive EventPayload where
  | redispatchCreated (redispatchEvent : RedispatchEvent)
  | auctionBroadcasted (auction : Auction) (redispatchEvent : RedispatchEvent)
  | bidSubmitted (bid : Bid) (auction : Auction)
  | auctionTriggered (auctionId bidId : String)
  | auctionResolved (result : AuctionResult) (auction : Auction) (bid : Bid)
  | auctionReset (reason : String)
  deriving DecidableEq, Repr

structure GridFlexibilityEvent where
  eventId : String
  version : String
  payload : EventPayload
  deriving DecidableEq, Repr

end GridFlex
