import GridFlex.Auction.Settlement
import GridFlex.Lib.WeightedMean

/-! What an award costs: no bid is paid more than the price limit of the configuration, and no
more power is bought than the event asks for. -/
namespace GridFlex
open Greedy

theorem awardedBids_valid {input : AuctionInput} {bid : Bid} (h : bid ∈ awardedBids input) :
    isValidBid input.config bid = true :=
  (List.mem_filter.mp ((awardedBids_subperm_valid input).subset h)).2

/-- The loop never buys beyond the demand. -/
theorem awardedBids_power_le {input : AuctionInput} (h : 0 < input.redispatchEvent.powerMW) :
    sumOver Bid.powerMW (awardedBids input) ≤ input.redispatchEvent.powerMW := by
  have hle : Knapsack.load Bid.powerMW [] + Knapsack.load Bid.powerMW (awardedBids input) ≤
      input.redispatchEvent.powerMW := by
    rw [awardedBids_eq_takes, admits_eq_fits]
    exact Knapsack.load_takes_le _ h.le
  rw [Knapsack.load_nil, zero_add] at hle
  rw [sumOver_powerMW_eq_load]
  exact hle

/-- Bids of nonnegative power below a price are worth at most that price. -/
theorem sumOver_bidValue_le {bids : List Bid} {price : ℚ}
    (h : ∀ bid ∈ bids, 0 ≤ bid.powerMW ∧ bid.pricePerMW ≤ price) :
    sumOver bidValue bids ≤ price * sumOver Bid.powerMW bids := by
  rw [sumOver_eq_sum, sumOver_eq_sum, mul_comm]
  exact WeightedMean.weighted_le (fun bid hbid => (h bid hbid).1) fun bid hbid => (h bid hbid).2

theorem sumOver_powerMW_nonneg {bids : List Bid} (h : ∀ bid ∈ bids, 0 ≤ bid.powerMW) :
    0 ≤ sumOver Bid.powerMW bids := by
  rw [sumOver_powerMW_eq_load]
  exact Knapsack.load_nonneg _ h

/-- The award in terms of its totals, for a configuration that asks for some power. -/
structure WithinLimits (input : AuctionInput) (result : AuctionResult) : Prop where
  nonneg : 0 ≤ result.acceptedPowerMW
  payout : result.participantPayoutEUR ≤ input.config.priceLimit * result.acceptedPowerMW
  remaining : result.remainingPowerMW = input.redispatchEvent.powerMW - result.acceptedPowerMW

theorem processAuction_withinLimits {input : AuctionInput} {output : AuctionOutput}
    (hmin : 0 ≤ input.config.minBidPowerMW) (hout : processAuction input = .ok output) :
    WithinLimits input output.result := by
  obtain ⟨hvalid, hsel, hresult⟩ := processAuction_inv hout
  have hselected : output.selectedBids = awardedBids input := hsel
  have hbids : ∀ bid ∈ awardedBids input,
      0 ≤ bid.powerMW ∧ bid.pricePerMW ≤ input.config.priceLimit := by
    intro bid hbid
    obtain ⟨hpower, -, hprice⟩ := isValidBid_iff.mp (awardedBids_valid hbid)
    exact ⟨hmin.trans hpower, hprice⟩
  have hle := awardedBids_power_le (validateInput_ok_iff.mp hvalid).2
  simp only [hresult, hselected, calculateAuctionResult]
  refine ⟨sumOver_powerMW_nonneg fun bid hbid => (hbids bid hbid).1, sumOver_bidValue_le hbids, ?_⟩
  exact max_eq_right (sub_nonneg.mpr hle)

end GridFlex
