import GridFlex.Auction.Cap
import GridFlex.Auction.Packing
import GridFlex.Lib.Passes

/-! An award in two rounds. The second auction runs over the rejected bids of the first, for the
demand that remains and with the acceptances that are left. -/
namespace GridFlex
open Greedy

/-- The input of the auction that follows `first`, for `cap` acceptances in both together. -/
def AuctionInput.followUp (input : AuctionInput) (first : AuctionOutput) (cap : ℕ) :
    AuctionInput :=
  ({ input with bids := first.rejectedBids }.withDemand first.result.remainingPowerMW).withCap
    (cap - first.selectedBids.length)

/-- The bids an auction rejects in its loop. -/
def unawardedBids (input : AuctionInput) : List Bid :=
  (selectWinningBids (sortBids (filterValidBids input.bids input.config) input.config)
    input.redispatchEvent input.config).rejectedBids

theorem unawardedBids_eq_leaves (input : AuctionInput) :
    unawardedBids input = leaves (admits input.redispatchEvent.powerMW input.config) []
      (sortBids (filterValidBids input.bids input.config) input.config) :=
  (selectWinningBids_eq _ _ _).2

/-- A ranking of valid bids is its own ranking. -/
theorem sortBids_ranked {bids ranked : List Bid} {config : AuctionConfig}
    (h : ranked.Sublist (sortBids (filterValidBids bids config) config)) :
    sortBids (filterValidBids ranked config) config = ranked := by
  have hvalid : filterValidBids ranked config = ranked := by
    apply List.filter_eq_self.mpr
    intro bid hbid
    have hmem := (sortBids_perm _ _).subset (h.subset hbid)
    exact (List.mem_filter.mp hmem).2
  have hsorted : ranked.Pairwise (RanksBefore config) :=
    (sortBids_isStableSort _ _).sorted.sublist h
  rw [hvalid, sortBids_eq_insertionSort, hsorted.insertionSort_eq]

/-- The first auction hands its rejected bids on in the order of its ranking. -/
theorem ranked_followUp {input : AuctionInput} {k : ℕ} {first : AuctionOutput}
    (hfirst : processAuction (input.withCap k) = .ok first) (cap : ℕ) :
    let next := input.followUp first cap
    sortBids (filterValidBids next.bids next.config) next.config = first.rejectedBids := by
  intro next
  obtain ⟨first', hfirst', -, hrej, -⟩ := processAuction_ok (processAuction_inv hfirst).1
  obtain rfl : first' = first := Except.ok.inj (hfirst'.symm.trans hfirst)
  have hsublist : first'.rejectedBids.Sublist
      (sortBids (filterValidBids input.bids next.config) next.config) := by
    rw [hrej]
    show (unawardedBids (input.withCap k)).Sublist _
    rw [unawardedBids_eq_leaves]
    exact leaves_sublist _ _ _
  exact sortBids_ranked hsublist

/-- The two loops together are the loop of one auction. -/
theorem awardedBids_followUp {input : AuctionInput} {k cap : ℕ} (hle : k ≤ cap)
    (hmin : 0 < input.config.minBidPowerMW) {first : AuctionOutput}
    (hfirst : processAuction (input.withCap k) = .ok first) :
    awardedBids (input.withCap cap) =
        first.selectedBids ++ awardedBids (input.followUp first cap) ∧
      unawardedBids (input.withCap cap) = unawardedBids (input.followUp first cap) := by
  let ranked := sortBids (filterValidBids input.bids input.config) input.config
  let demand := input.redispatchEvent.powerMW
  have hranked := ranked_followUp hfirst cap
  have hdemand := remainingPowerMW_eq hfirst
  obtain ⟨hvalid, hsel, -⟩ := processAuction_inv hfirst
  obtain ⟨first', hfirst', -, hrej, -⟩ := processAuction_ok hvalid
  obtain rfl : first' = first := Except.ok.inj (hfirst'.symm.trans hfirst)
  have hfits (cap : ℕ) (powerMW : ℚ) (config : AuctionConfig)
      (hconfig : config.maxAcceptedBids = cap) :
      admits powerMW config = Knapsack.fits Bid.powerMW (· < cap) powerMW :=
    admits_eq_fits_cap hconfig
  have hselected : first'.selectedBids =
      takes (Knapsack.fits Bid.powerMW (· < k) demand) [] ranked := by
    rw [← hfits k demand (input.withCap k).config rfl]
    exact hsel.trans (awardedBids_eq_takes _)
  have hrejected : first'.rejectedBids =
      leaves (Knapsack.fits Bid.powerMW (· < k) demand) [] ranked := by
    rw [← hfits k demand (input.withCap k).config rfl]
    exact hrej.trans (unawardedBids_eq_leaves _)
  have hleft : (input.followUp first' cap).redispatchEvent.powerMW =
      demand - Knapsack.load Bid.powerMW first'.selectedBids := by
    rw [hsel]
    exact hdemand
  obtain ⟨htakes, hleaves⟩ := Knapsack.takes_two_rounds hle
    fun bid (hbid : bid ∈ ranked) => ranked_power_pos hmin hbid
  rw [awardedBids_eq_takes, awardedBids_eq_takes, unawardedBids_eq_leaves, unawardedBids_eq_leaves,
    hranked, hleft, hfits cap _ (input.withCap cap).config rfl,
    hfits (cap - first'.selectedBids.length) _ (input.followUp first' cap).config rfl, hrejected]
  rw [← hselected] at htakes hleaves
  exact ⟨htakes, hleaves⟩

/-- An input that is refused has no bids, or no demand to award them. -/
theorem awardedBids_of_refused {input : AuctionInput} (h : validateInput input ≠ .ok ()) :
    awardedBids input = [] ∧
      unawardedBids input = sortBids (filterValidBids input.bids input.config) input.config := by
  rw [awardedBids_eq_takes, unawardedBids_eq_leaves]
  apply takes_of_full
  intro bid hbid
  have hbids : input.bids ≠ [] := List.ne_nil_of_mem (mem_sortBids_iff.mp hbid).1
  have hdemand : ¬0 < input.redispatchEvent.powerMW := fun hpos =>
    h (validateInput_ok_iff.mpr ⟨hbids, hpos⟩)
  simp [admits, sumOver, hdemand]

theorem processAuction_refused {input : AuctionInput} {message : String}
    (h : processAuction input = .error message) : validateInput input ≠ .ok () := by
  intro hvalid
  obtain ⟨output, hout, -⟩ := processAuction_ok hvalid
  rw [hout] at h
  cases h

end GridFlex
