import GridFlex.Auction.Selection
import GridFlex.Lib.Keyed

/-! The settlement is computed twice, as totals over the awarded bids and as one entry per
submitted bid. With distinct bid ids the two agree. -/
namespace GridFlex
open Greedy Keyed

/-- The bids an auction awards, each of them submitted and none of them twice. -/
def awardedBids (input : AuctionInput) : List Bid :=
  (selectWinningBids (sortBids (filterValidBids input.bids input.config) input.config)
    input.redispatchEvent input.config).selectedBids

theorem awardedBids_eq_takes (input : AuctionInput) :
    awardedBids input = takes (admits input.redispatchEvent.powerMW input.config) []
      (sortBids (filterValidBids input.bids input.config) input.config) :=
  (selectWinningBids_eq _ _ _).1

theorem awardedBids_subperm_valid (input : AuctionInput) :
    (awardedBids input).Subperm (filterValidBids input.bids input.config) := by
  rw [awardedBids_eq_takes]
  exact (takes_sublist _ _ _).subperm.trans (sortBids_perm _ _).subperm

theorem awardedBids_subperm (input : AuctionInput) : (awardedBids input).Subperm input.bids :=
  (awardedBids_subperm_valid input).trans List.filter_sublist.subperm

/-- A total over the entries of the winners is the total over the awarded bids. -/
theorem sum_resolved {bids awarded : List Bid} (f : Bid → ℚ) (hn : (bids.map Bid.id).Nodup)
    (hs : awarded.Subperm bids) :
    (bids.map fun bid => if bid.id ∈ awarded.map Bid.id then f bid else 0).sum =
      sumOver f awarded := by
  rw [List.sum_map_ite, sumOver_eq_sum]
  simp only [List.map_const', List.sum_replicate, smul_zero, add_zero]
  exact ((filter_key_mem_perm hn hs).map f).sum_eq

theorem count_resolved {bids awarded : List Bid} (config : AuctionConfig)
    (hn : (bids.map Bid.id).Nodup) (hs : awarded.Subperm bids) :
    ((generateParticipantResolutions bids awarded config).filter
      (fun entry => entry.status = .accepted)).length = awarded.length := by
  rw [← (filter_key_mem_perm hn hs).length_eq, generateParticipantResolutions, List.filter_map,
    List.length_map]
  congr 1
  refine List.filter_congr fun bid _ => ?_
  simp only [Function.comp_apply, resolveParticipant]
  split_ifs <;> simp_all

theorem resolveParticipant_status {ids : List String} {config : AuctionConfig} {bid : Bid} :
    (resolveParticipant ids config bid).status = .accepted ↔ bid.id ∈ ids := by
  simp only [resolveParticipant]
  split_ifs <;> simp_all

/-- What an entry says about the bid it settles. -/
structure Settles (awarded : List Bid) (bid : Bid) (entry : ParticipantResolution) : Prop where
  participantId : entry.participantId = bid.participantId
  powerMW : entry.bidPowerMW = bid.powerMW
  pricePerMW : entry.bidPricePerMW = bid.pricePerMW
  status : entry.status = .accepted ↔ bid ∈ awarded

theorem generateParticipantResolutions_settles {bids awarded : List Bid} (config : AuctionConfig)
    (hn : (bids.map Bid.id).Nodup) (hs : awarded.Subperm bids) :
    List.Forall₂ (Settles awarded) bids (generateParticipantResolutions bids awarded config) := by
  rw [generateParticipantResolutions, List.forall₂_map_right_iff, List.forall₂_same]
  intro bid hb
  exact ⟨rfl, rfl, rfl, resolveParticipant_status.trans (key_mem_iff hn hs hb)⟩

/-- The entries of an outcome, one per submitted bid, say what its totals say. -/
structure SettlementAgrees (bids : List Bid) (output : AuctionOutput) : Prop where
  entries : List.Forall₂ (Settles output.selectedBids) bids output.result.participantResolutions
  acceptedCount : (output.result.participantResolutions.filter
    (fun entry => entry.status = .accepted)).length = output.selectedBids.length
  acceptedPowerMW : (output.result.participantResolutions.map
    ParticipantResolution.acceptedPowerMW).sum = output.result.acceptedPowerMW
  payoutEUR : (output.result.participantResolutions.map
    ParticipantResolution.payoutEUR).sum = output.result.participantPayoutEUR
  bidStatus : output.result.bidStatus = .accepted ↔
    ∃ entry ∈ output.result.participantResolutions, entry.status = .accepted

theorem processAuction_settlement (input : AuctionInput)
    (hvalid : validateInput input = .ok ()) (hn : (input.bids.map Bid.id).Nodup) :
    ∃ output, processAuction input = .ok output ∧ SettlementAgrees input.bids output := by
  obtain ⟨output, hout, hsel, -, hres⟩ := processAuction_ok hvalid
  have hs : output.selectedBids.Subperm input.bids := hsel ▸ awardedBids_subperm input
  have hcount := count_resolved input.config hn hs
  refine ⟨output, hout, ?_⟩
  constructor <;> rw [hres]
  case entries => exact generateParticipantResolutions_settles _ hn hs
  case acceptedCount => exact hcount
  case acceptedPowerMW =>
    simpa [calculateAuctionResult, generateParticipantResolutions, resolveParticipant,
      Function.comp_def] using sum_resolved Bid.powerMW hn hs
  case payoutEUR =>
    simpa [calculateAuctionResult, generateParticipantResolutions, resolveParticipant,
      Function.comp_def] using sum_resolved bidValue hn hs
  case bidStatus =>
    have hex : (∃ entry ∈ generateParticipantResolutions input.bids output.selectedBids
        input.config, entry.status = .accepted) ↔ 0 < output.selectedBids.length := by
      rw [← hcount, List.length_pos_iff_exists_mem]
      simp
    simp only [calculateAuctionResult]
    rw [hex]
    split_ifs <;> simp_all

theorem skippingInput_settlement :
    ∃ output, processAuction skippingInput = .ok output ∧
      SettlementAgrees skippingInput.bids output :=
  processAuction_settlement skippingInput (by decide +kernel) (by decide +kernel)

end GridFlex
