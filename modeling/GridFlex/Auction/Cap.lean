import GridFlex.Auction.Settlement

/-! The award under different values of `maxAcceptedBids`. The cap only ends the loop's
acceptances, so that a larger one adds winners behind those that there are. -/
namespace GridFlex
open Greedy

/-- The input with another `maxAcceptedBids`. -/
def AuctionInput.withCap (input : AuctionInput) (cap : ℕ) : AuctionInput :=
  { input with config := { input.config with maxAcceptedBids := cap } }

/-- Neither the filter nor the ranking reads the cap. -/
theorem ranked_withCap (input : AuctionInput) (cap : ℕ) :
    sortBids (filterValidBids (input.withCap cap).bids (input.withCap cap).config)
        (input.withCap cap).config =
      sortBids (filterValidBids input.bids input.config) input.config := rfl

theorem awardedBids_withCap (input : AuctionInput) (cap : ℕ) :
    awardedBids (input.withCap cap) =
      takes (capped cap (Knapsack.fits Bid.powerMW (fun _ => True) input.redispatchEvent.powerMW))
        [] (sortBids (filterValidBids input.bids input.config) input.config) := by
  have hcap : (input.withCap cap).config.maxAcceptedBids = cap := rfl
  rw [awardedBids_eq_takes, admits_eq_fits_cap hcap, Knapsack.fits_eq_capped, ranked_withCap]
  rfl

theorem awardedBids_take {k k' : ℕ} (hle : k ≤ k') (input : AuctionInput) :
    awardedBids (input.withCap k) = (awardedBids (input.withCap k')).take k := by
  rw [awardedBids_withCap, awardedBids_withCap]
  exact takes_capped_of_le hle _ _

/-- Under a larger cap the auction awards the same bids first. -/
theorem raising_cap_keeps_awards (input : AuctionInput) (hvalid : validateInput input = .ok ())
    {k k' : ℕ} (hle : k ≤ k') :
    ∃ output output', processAuction (input.withCap k) = .ok output ∧
      processAuction (input.withCap k') = .ok output' ∧
      output.selectedBids <+: output'.selectedBids ∧
      output.selectedBids =
        output'.selectedBids.take (min k output'.selectedBids.length) := by
  have hvalid' (cap : ℕ) : validateInput (input.withCap cap) = .ok () := hvalid
  obtain ⟨output, hout, hsel, -⟩ := processAuction_ok (hvalid' k)
  obtain ⟨output', hout', hsel', -⟩ := processAuction_ok (hvalid' k')
  have htake : output.selectedBids = output'.selectedBids.take k := by
    rw [hsel, hsel']
    exact awardedBids_take hle input
  refine ⟨output, output', hout, hout', ?_, ?_⟩
  · rw [htake]
    exact List.take_prefix k _
  · rw [htake, List.take_eq_take_min]

/-- The bid of 40 comes behind the bid of 60 that alone is awarded under a cap of 1. -/
theorem skippingInput_capped :
    ∃ output output', processAuction (skippingInput.withCap 1) = .ok output ∧
      processAuction (skippingInput.withCap 2) = .ok output' ∧
      output.selectedBids <+: output'.selectedBids ∧
      output.selectedBids =
        output'.selectedBids.take (min 1 output'.selectedBids.length) :=
  raising_cap_keeps_awards skippingInput (by decide +kernel) (by decide)

end GridFlex
