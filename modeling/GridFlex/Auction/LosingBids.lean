import GridFlex.Auction.Entries

/-! Bids that lose have no influence on the outcome: an auction over fewer of them awards the
same bids to the same totals. -/
namespace GridFlex
open Greedy Keyed

/-- The positions in the submission order of the bids that an auction awards. -/
def awardedPositions (input : AuctionInput) : List ℕ :=
  (awardedEntries input.config input.redispatchEvent.powerMW Prod.fst input.bids.zipIdx).map
    Prod.snd

/-- The sub-list of the bids at the positions in `keep`. -/
def bidsAt (bids : List Bid) (keep : ℕ → Bool) : List Bid :=
  (bids.zipIdx.filter fun entry => keep entry.2).map Prod.fst

/-- Two outcomes award the same bids to the same totals. -/
structure SameAward (output output' : AuctionOutput) : Prop where
  selectedBids : output'.selectedBids = output.selectedBids
  acceptedPowerMW : output'.result.acceptedPowerMW = output.result.acceptedPowerMW
  remainingPowerMW : output'.result.remainingPowerMW = output.result.remainingPowerMW
  participantPayoutEUR : output'.result.participantPayoutEUR = output.result.participantPayoutEUR
  bidId : output'.result.bidId = output.result.bidId

theorem awardedBids_bidsAt {input : AuctionInput} {keep : ℕ → Bool}
    (h : ∀ k ∈ awardedPositions input, keep k = true) :
    awardedBids { input with bids := bidsAt input.bids keep } = awardedBids input := by
  have hkeep : ∀ entry ∈ awardedEntries input.config input.redispatchEvent.powerMW Prod.fst
      input.bids.zipIdx, keep entry.2 = true :=
    fun entry hentry => h _ (List.mem_map_of_mem hentry)
  have hall := awardedEntries_map Prod.fst input (List.zipIdx_map_fst 0 input.bids)
  have hkept : (awardedEntries input.config input.redispatchEvent.powerMW Prod.fst
      (input.bids.zipIdx.filter fun entry => keep entry.2)).map Prod.fst =
      awardedBids { input with bids := bidsAt input.bids keep } :=
    awardedEntries_map Prod.fst { input with bids := bidsAt input.bids keep } rfl
  rw [← hkept, ← hall]
  exact congrArg (List.map Prod.fst) (awardedEntries_filter _ _ _ _ hkeep)

/-- The bids at the awarded positions are the awarded bids. -/
theorem bidsAt_awardedPositions_perm (input : AuctionInput) :
    (bidsAt input.bids fun k => k ∈ awardedPositions input).Perm (awardedBids input) := by
  rw [← awardedEntries_map Prod.fst input (List.zipIdx_map_fst 0 input.bids)]
  apply List.Perm.map
  exact filter_key_mem_perm (List.nodup_zipIdx_map_snd _) (awardedEntries_subperm _ _ _ _)

theorem sameAward_of_bids {input : AuctionInput} (bids : List Bid) {output : AuctionOutput}
    (hout : processAuction input = .ok output) (hbids : bids ≠ [])
    (h : awardedBids { input with bids := bids } = awardedBids input) :
    ∃ output', processAuction { input with bids := bids } = .ok output' ∧
      SameAward output output' := by
  obtain ⟨hvalid, hsel, hresult⟩ := processAuction_inv hout
  have hpos := (validateInput_ok_iff.mp hvalid).2
  obtain ⟨output', hout', hsel', -, hresult'⟩ :=
    processAuction_ok (validateInput_ok_iff.mpr ⟨hbids, hpos⟩ :
      validateInput { input with bids := bids } = .ok ())
  have hsame : output'.selectedBids = output.selectedBids := by
    rw [hsel', hsel]
    exact h
  refine ⟨output', hout', hsame, ?_, ?_, ?_, ?_⟩ <;>
    simp only [hresult, hresult', hsame, calculateAuctionResult]

/-- Without some of the bids that lost, the auction has the same outcome; on the bids that won
alone it awards all of them. -/
theorem losing_bids_have_no_influence (input : AuctionInput)
    (hvalid : validateInput input = .ok ()) :
    ∃ output, processAuction input = .ok output ∧
      (∀ keep : ℕ → Bool, bidsAt input.bids keep ≠ [] →
        (∀ k ∈ awardedPositions input, keep k = true) →
        ∃ output', processAuction { input with bids := bidsAt input.bids keep } = .ok output' ∧
          SameAward output output') ∧
      (output.selectedBids ≠ [] →
        ∃ winners output', winners.Perm output.selectedBids ∧ winners.Sublist input.bids ∧
          processAuction { input with bids := winners } = .ok output' ∧
          SameAward output output') := by
  obtain ⟨output, hout, hsel, -, -⟩ := processAuction_ok hvalid
  refine ⟨output, hout, ?_, ?_⟩
  · intro keep hne hkeep
    exact sameAward_of_bids _ hout hne (awardedBids_bidsAt hkeep)
  · intro hne
    have hperm := bidsAt_awardedPositions_perm input
    have hwinners : (bidsAt input.bids fun k => k ∈ awardedPositions input) ≠ [] := by
      intro hnil
      rw [hnil, List.nil_perm] at hperm
      exact hne (hsel.trans hperm)
    obtain ⟨output', hout', hsame⟩ :=
      sameAward_of_bids _ hout hwinners (awardedBids_bidsAt (by simp))
    refine ⟨_, output', hsel ▸ hperm, ?_, hout', hsame⟩
    have hsub := (List.filter_sublist (l := input.bids.zipIdx)
      (p := fun entry => decide (entry.2 ∈ awardedPositions input))).map Prod.fst
    rwa [List.zipIdx_map_fst] at hsub

theorem skippingInput_losers :
    ∃ output, processAuction skippingInput = .ok output ∧
      (∀ keep : ℕ → Bool, bidsAt skippingInput.bids keep ≠ [] →
        (∀ k ∈ awardedPositions skippingInput, keep k = true) →
        ∃ output', processAuction { skippingInput with bids := bidsAt skippingInput.bids keep } =
            .ok output' ∧ SameAward output output') ∧
      (output.selectedBids ≠ [] →
        ∃ winners output', winners.Perm output.selectedBids ∧
          winners.Sublist skippingInput.bids ∧
          processAuction { skippingInput with bids := winners } = .ok output' ∧
          SameAward output output') :=
  losing_bids_have_no_influence skippingInput (by decide +kernel)

end GridFlex
