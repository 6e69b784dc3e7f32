import GridFlex.Auction.Packing

/-! A winner that lowers its offer wins again: its bid moves up in the ranking, to a point where
the loop has taken no more than before. -/
namespace GridFlex
open Greedy StableSort

/-- `better` is at least as good as `bid` to the ranking and to every test of the loop. -/
structure BetterOffer (config : AuctionConfig) (better bid : Bid) : Prop where
  ranks : RanksBefore config better bid
  power_le : better.powerMW ≤ bid.powerMW
  min_le : config.minBidPowerMW ≤ better.powerMW
  price_le : better.pricePerMW ≤ bid.pricePerMW

theorem BetterOffer.isValidBid {config : AuctionConfig} {better bid : Bid}
    (h : BetterOffer config better bid) (hbid : isValidBid config bid = true) :
    isValidBid config better = true := by
  obtain ⟨-, hmax, hprice⟩ := isValidBid_iff.mp hbid
  exact isValidBid_iff.mpr ⟨h.min_le, h.power_le.trans hmax, h.price_le.trans hprice⟩

/-- A lower price ranks no later under any strategy. -/
theorem betterOffer_price {config : AuctionConfig} {bid : Bid} {price : ℚ}
    (hmin : 0 ≤ config.minBidPowerMW) (hbid : config.minBidPowerMW ≤ bid.powerMW)
    (h : price < bid.pricePerMW) : BetterOffer config { bid with pricePerMW := price } bid := by
  refine ⟨?_, le_rfl, hbid, h.le⟩
  have hpower : 0 ≤ bid.powerMW := hmin.trans hbid
  unfold RanksBefore rankKey
  cases config.selectionStrategy with
  | priceFirst => exact h.le
  | powerFirst => exact le_rfl
  | balanced =>
    have hscore : (config.costPerMWThreshold - bid.pricePerMW) * bid.powerMW ≤
        (config.costPerMWThreshold - price) * bid.powerMW :=
      mul_le_mul_of_nonneg_right (by linarith) hpower
    exact neg_le_neg hscore

/-- By price alone, a smaller bid that is no dearer ranks no later. -/
theorem betterOffer_priceFirst {config : AuctionConfig} {bid : Bid} {price powerMW : ℚ}
    (hstrategy : config.selectionStrategy = .priceFirst) (hprice : price ≤ bid.pricePerMW)
    (hpower : powerMW ≤ bid.powerMW) (hmin : config.minBidPowerMW ≤ powerMW) :
    BetterOffer config { bid with pricePerMW := price, powerMW := powerMW } bid := by
  refine ⟨?_, hpower, hmin, hprice⟩
  simpa only [RanksBefore, rankKey, hstrategy] using hprice

theorem filterValidBids_split {config : AuctionConfig} {before after : List Bid} {bid : Bid}
    (h : isValidBid config bid = true) :
    filterValidBids (before ++ bid :: after) config =
      filterValidBids before config ++ bid :: filterValidBids after config := by
  unfold filterValidBids
  rw [List.filter_append, List.filter_cons_of_pos h]

/-- The pass that takes an entry once takes a better one that stands further to the front. -/
theorem takes_of_movedUp {config : AuctionConfig} {powerMW : ℚ} {better bid : Bid}
    {ranked ranked' : List Bid} (h : BetterOffer config better bid)
    (hmoved : MovedUp better bid ranked' ranked) (hn : ranked.Nodup)
    (hpos : ∀ b ∈ ranked, 0 < b.powerMW) (hbid : bid ∈ takes (admits powerMW config) [] ranked) :
    better ∈ takes (admits powerMW config) [] ranked' := by
  obtain ⟨front, passed, rest, rfl, rfl⟩ := hmoved
  obtain ⟨-, hrest, hdisjoint⟩ := List.nodup_append.mp hn
  have hfront : bid ∉ front ++ passed := fun hmem => hdisjoint bid hmem bid (by simp) rfl
  have hfits : admits powerMW config (takes (admits powerMW config) [] (front ++ passed)) bid =
      true := by
    simpa using (mem_takes_iff hfront (List.nodup_cons.mp hrest).1).mp hbid
  rw [takes_append, List.nil_append] at hfits
  have hbetter : admits powerMW config (takes (admits powerMW config) [] front) better = true := by
    rw [admits_eq_fits] at hfits ⊢
    apply Knapsack.fits_of_append (room_antitone config) _ h.power_le hfits
    intro b hb
    have hmem : b ∈ passed := (takes_sublist _ _ _).subset hb
    exact (hpos b (by simp [hmem])).le
  rw [takes_append, List.nil_append, takes_cons_pos hbetter]
  simp

theorem awardedBids_better {input : AuctionInput} {before after : List Bid} {better bid : Bid}
    (hbids : input.bids = before ++ bid :: after) (hmin : 0 < input.config.minBidPowerMW)
    (hn : (input.bids.map Bid.id).Nodup) (h : BetterOffer input.config better bid)
    (hbid : bid ∈ awardedBids input) :
    better ∈ awardedBids { input with bids := before ++ better :: after } := by
  have hvalid : isValidBid input.config bid = true := awardedBids_valid hbid
  have hranked : (sortBids (filterValidBids input.bids input.config) input.config).Nodup :=
    (sortBids_perm _ _).nodup_iff.mpr ((hn.of_map _).filter _)
  rw [awardedBids_eq_takes] at hbid ⊢
  refine takes_of_movedUp h ?_ hranked (fun b hb => ranked_power_pos hmin hb) hbid
  rw [hbids, sortBids_eq_insertionSort, sortBids_eq_insertionSort, filterValidBids_split hvalid,
    filterValidBids_split (h.isValidBid hvalid)]
  exact insertionSort_movedUp h.ranks _ _

theorem processAuction_better {input : AuctionInput} {output : AuctionOutput}
    {before after : List Bid} {better bid : Bid}
    (hbids : input.bids = before ++ bid :: after) (hmin : 0 < input.config.minBidPowerMW)
    (hn : (input.bids.map Bid.id).Nodup) (hout : processAuction input = .ok output)
    (h : BetterOffer input.config better bid) (hbid : bid ∈ output.selectedBids) :
    ∃ output', processAuction { input with bids := before ++ better :: after } = .ok output' ∧
      better ∈ output'.selectedBids := by
  obtain ⟨hvalid, hsel, -⟩ := processAuction_inv hout
  have hvalid' : validateInput { input with bids := before ++ better :: after } = .ok () :=
    validateInput_ok_iff.mpr ⟨by simp, (validateInput_ok_iff.mp hvalid).2⟩
  obtain ⟨output', hout', hsel', -⟩ := processAuction_ok hvalid'
  refine ⟨output', hout', ?_⟩
  rw [hsel']
  rw [hsel] at hbid
  exact awardedBids_better hbids hmin hn h hbid

/-- A winner wins again at any lower price, and under `price_first` with any smaller bid that is
no dearer as well. -/
theorem better_offer_never_loses (input : AuctionInput) (output : AuctionOutput)
    (before after : List Bid) (bid : Bid) (hbids : input.bids = before ++ bid :: after)
    (hmin : 0 < input.config.minBidPowerMW) (hn : (input.bids.map Bid.id).Nodup)
    (hout : processAuction input = .ok output) (hbid : bid ∈ output.selectedBids) :
    (∀ price < bid.pricePerMW,
      let better := { bid with pricePerMW := price }
      ∃ output', processAuction { input with bids := before ++ better :: after } = .ok output' ∧
        better ∈ output'.selectedBids) ∧
    (input.config.selectionStrategy = .priceFirst →
      ∀ price ≤ bid.pricePerMW, ∀ powerMW ≤ bid.powerMW, input.config.minBidPowerMW ≤ powerMW →
        let better := { bid with pricePerMW := price, powerMW := powerMW }
        ∃ output', processAuction { input with bids := before ++ better :: after } = .ok output' ∧
          better ∈ output'.selectedBids) := by
  constructor
  · intro price hprice
    have hawarded : bid ∈ awardedBids input := by
      rw [(processAuction_inv hout).2.1] at hbid
      exact hbid
    have hpower := (isValidBid_iff.mp (awardedBids_valid hawarded)).1
    exact processAuction_better hbids hmin hn hout (betterOffer_price hmin.le hpower hprice) hbid
  · intro hstrategy price hprice powerMW hpower hle
    exact processAuction_better hbids hmin hn hout
      (betterOffer_priceFirst hstrategy hprice hpower hle) hbid

theorem skippingInput_better :
    let rest := [sampleBid "2" 60 20, sampleBid "3" 60 10, sampleBid "4" 20 80]
    (∃ output, processAuction { skippingInput with bids := sampleBid "1" 40 25 :: rest } =
        .ok output ∧ sampleBid "1" 40 25 ∈ output.selectedBids) ∧
      ∃ output, processAuction { skippingInput with bids := sampleBid "1" 20 30 :: rest } =
        .ok output ∧ sampleBid "1" 20 30 ∈ output.selectedBids := by
  intro rest
  have hwon : ∃ output, processAuction skippingInput = .ok output ∧
      sampleBid "1" 40 30 ∈ output.selectedBids := by
    obtain ⟨output, hout, hsel, -⟩ :=
      processAuction_ok (show validateInput skippingInput = .ok () by decide +kernel)
    refine ⟨output, hout, ?_⟩
    rw [hsel]
    decide +kernel
  obtain ⟨output, hout, hbid⟩ := hwon
  have hbetter := better_offer_never_loses skippingInput output [] rest (sampleBid "1" 40 30) rfl
    (by decide +kernel) (by decide +kernel) hout hbid
  exact ⟨hbetter.1 25 (by decide +kernel),
    hbetter.2 rfl 30 le_rfl 20 (by decide +kernel) (by decide +kernel)⟩

end GridFlex
