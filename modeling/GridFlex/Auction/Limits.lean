import GridFlex.Auction.BetterOffer

/-! Limits that are relaxed in the order of the ranking. The bids that pass in addition rank
behind all that passed before, so that the loop comes to them last. -/
namespace GridFlex
open Greedy StableSort

/-- `config'` lets more bids pass, and of these only such as its strategy ranks last: dearer ones
by price, smaller ones by power. -/
inductive Relaxes (config config' : AuctionConfig) : Prop where
  | price (hstrategy : config.selectionStrategy = .priceFirst)
      (hstrategy' : config'.selectionStrategy = .priceFirst)
      (hmin : config'.minBidPowerMW = config.minBidPowerMW)
      (hmax : config'.maxBidPowerMW = config.maxBidPowerMW)
      (hlimit : config.priceLimit ≤ config'.priceLimit)
      (hcap : config'.maxAcceptedBids = config.maxAcceptedBids)
  | power (hstrategy : config.selectionStrategy = .powerFirst)
      (hstrategy' : config'.selectionStrategy = .powerFirst)
      (hmin : config'.minBidPowerMW ≤ config.minBidPowerMW)
      (hmax : config'.maxBidPowerMW = config.maxBidPowerMW)
      (hlimit : config'.priceLimit = config.priceLimit)
      (hcap : config'.maxAcceptedBids = config.maxAcceptedBids)

namespace Relaxes

variable {config config' : AuctionConfig}

theorem cap (h : Relaxes config config') : config'.maxAcceptedBids = config.maxAcceptedBids := by
  cases h with
  | price _ _ _ _ _ hcap => exact hcap
  | power _ _ _ _ _ hcap => exact hcap

theorem ranking (h : Relaxes config config') : RanksBefore config' = RanksBefore config := by
  funext a b
  cases h with
  | price hstrategy hstrategy' => simp only [RanksBefore, rankKey, hstrategy, hstrategy']
  | power hstrategy hstrategy' => simp only [RanksBefore, rankKey, hstrategy, hstrategy']

theorem isValidBid (h : Relaxes config config') {bid : Bid}
    (hbid : isValidBid config bid = true) : GridFlex.isValidBid config' bid = true := by
  obtain ⟨hpower, hpower', hprice⟩ := isValidBid_iff.mp hbid
  rw [isValidBid_iff]
  cases h with
  | price _ _ hmin hmax hlimit => exact ⟨hmin ▸ hpower, hmax ▸ hpower', hprice.trans hlimit⟩
  | power _ _ hmin hmax hlimit => exact ⟨hmin.trans hpower, hmax ▸ hpower', hlimit ▸ hprice⟩

/-- A bid that passes only now ranks strictly behind one that passed before. -/
theorem not_ranksBefore (h : Relaxes config config') {bid new : Bid}
    (hbid : GridFlex.isValidBid config bid = true)
    (hnew : GridFlex.isValidBid config' new = true)
    (hold : GridFlex.isValidBid config new = false) : ¬RanksBefore config new bid := by
  obtain ⟨hpower, -, hprice⟩ := isValidBid_iff.mp hbid
  obtain ⟨hpowerNew, hmaxNew, hpriceNew⟩ := isValidBid_iff.mp hnew
  have hout : ¬(config.minBidPowerMW ≤ new.powerMW ∧ new.powerMW ≤ config.maxBidPowerMW ∧
      new.pricePerMW ≤ config.priceLimit) := by
    rw [← isValidBid_iff, hold]
    simp
  unfold RanksBefore rankKey
  cases h with
  | price hstrategy _ hmin hmax =>
    rw [hmin] at hpowerNew
    rw [hmax] at hmaxNew
    have hdear : config.priceLimit < new.pricePerMW := by
      by_contra hle
      exact hout ⟨hpowerNew, hmaxNew, not_lt.mp hle⟩
    simp only [hstrategy, not_le]
    linarith
  | power hstrategy _ hmin hmax hlimit =>
    rw [hmax] at hmaxNew
    rw [hlimit] at hpriceNew
    have hsmall : new.powerMW < config.minBidPowerMW := by
      by_contra hle
      exact hout ⟨not_lt.mp hle, hmaxNew, hpriceNew⟩
    simp only [hstrategy, not_le]
    linarith

/-- The ranking of the bids that pass now begins with the ranking of those that passed before. -/
theorem sortBids (h : Relaxes config config') (bids : List Bid) :
    GridFlex.sortBids (filterValidBids bids config) config <+:
      GridFlex.sortBids (filterValidBids bids config') config' := by
  let ranked := GridFlex.sortBids (filterValidBids bids config') config'
  have hvalid : ∀ bid ∈ ranked, GridFlex.isValidBid config' bid = true := fun bid hbid =>
    (List.mem_filter.mp ((sortBids_perm _ _).subset hbid)).2
  have hold : filterValidBids bids config =
      (filterValidBids bids config').filter (GridFlex.isValidBid config) := by
    unfold filterValidBids
    rw [List.filter_filter]
    apply List.filter_congr
    intro bid _
    cases hbid : GridFlex.isValidBid config bid with
    | true => rw [h.isValidBid hbid, Bool.and_self]
    | false => rw [Bool.false_and]
  have hfront : GridFlex.sortBids (filterValidBids bids config) config =
      ranked.filter (GridFlex.isValidBid config) := by
    rw [hold, sortBids_eq_insertionSort, insertionSort_filter]
    congr 1
    simp only [ranked, sortBids_eq_insertionSort, h.ranking]
  have hsorted : ranked.Pairwise (RanksBefore config) := by
    rw [← h.ranking]
    exact (sortBids_isStableSort _ _).sorted
  have hsplit := filter_append_of_sorted hsorted fun bid hbid new hnew hpass hfail =>
    h.not_ranksBefore hpass (hvalid new hnew) hfail
  rw [hfront]
  exact ⟨_, hsplit.symm⟩

end Relaxes

/-- Raising the price limit under `price_first`, or lowering the smallest power under
`power_first`, adds winners behind those that there are. -/
theorem relaxing_keeps_awards (input : AuctionInput) (config' : AuctionConfig)
    (hvalid : validateInput input = .ok ()) (h : Relaxes input.config config') :
    ∃ output output', processAuction input = .ok output ∧
      processAuction { input with config := config' } = .ok output' ∧
      output.selectedBids <+: output'.selectedBids := by
  have hvalid' : validateInput { input with config := config' } = .ok () := hvalid
  obtain ⟨output, hout, hsel, -⟩ := processAuction_ok hvalid
  obtain ⟨output', hout', hsel', -⟩ := processAuction_ok hvalid'
  refine ⟨output, output', hout, hout', ?_⟩
  have hselected : output.selectedBids = awardedBids input := hsel
  have hselected' : output'.selectedBids = awardedBids { input with config := config' } := hsel'
  have hadmits : admits input.redispatchEvent.powerMW config' =
      admits input.redispatchEvent.powerMW input.config := by
    rw [admits_eq_fits, admits_eq_fits, h.cap]
  obtain ⟨new, hnew⟩ := h.sortBids input.bids
  rw [hselected, hselected', awardedBids_eq_takes, awardedBids_eq_takes]
  simp only [← hnew, hadmits, takes_append]
  exact List.prefix_append _ _

/-- The bid of 20 at 80 is awarded when bids up to 100 may pass. -/
theorem skippingInput_relaxed :
    ∃ output output', processAuction (skippingInput.withDemand 140) = .ok output ∧
      processAuction { skippingInput.withDemand 140 with
        config := { DEFAULT_AUCTION_CONFIG with priceCompetitivenessFactor := 2 } } =
          .ok output' ∧
      output.selectedBids <+: output'.selectedBids :=
  relaxing_keeps_awards (skippingInput.withDemand 140) _ (by decide +kernel)
    (.price rfl rfl rfl rfl (by decide +kernel) rfl)

end GridFlex
