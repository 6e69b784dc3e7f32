import GridFlex.Auction.Cap
import GridFlex.Auction.Density
import GridFlex.Auction.Figures
import GridFlex.Auction.FollowUp
import GridFlex.Auction.Limits
import GridFlex.Auction.Reasons
import GridFlex.Auction.Reconciliation
import GridFlex.Auction.SubmissionOrder
import GridFlex.Auction.Units
import GridFlex.Contract.Grants
import GridFlex.Contract.Protocol
import GridFlex.Contract.Rounds
import GridFlex.Contract.Tampering
import GridFlex.Frontend.AuctionService
import GridFlex.Frontend.BidPlaced
import GridFlex.Frontend.Causality
import GridFlex.Frontend.EventStream
import GridFlex.Frontend.Identifiers
import GridFlex.Frontend.Listeners
import GridFlex.Frontend.Notices
import GridFlex.Frontend.StaleWrites
import GridFlex.Market.Announcements
import GridFlex.Market.Calldata
import GridFlex.Market.Cards
import GridFlex.Market.Closing
import GridFlex.Market.Edits
import GridFlex.Market.Outsiders
import GridFlex.Market.Phase
import GridFlex.Market.Provenance
import GridFlex.Market.Receipts
import GridFlex.Market.Recovery
import GridFlex.Market.Returns
import GridFlex.Market.Rounds
import GridFlex.Market.Sealed
import GridFlex.Market.Session
import GridFlex.Market.Story
import GridFlex.Market.TriggerFailure
import GridFlex.Auction.LosingBids
