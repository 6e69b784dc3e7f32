import GridFlex.Auction.Packing

/-! Where no two valid bids tie, the order of submission decides only where in the result the
entry of a bid stands. -/
namespace GridFlex
open StableSort

section Reordered

variable {α : Type*} (xs : List α) (σ : Equiv.Perm (Fin xs.length))

/-- The entries of `xs`, the one at place `σ i` in place `i`. -/
def reordered : List α := List.ofFn fun i => xs.get (σ i)

theorem reordered_perm : (reordered xs σ).Perm xs := by
  have h := σ.ofFn_comp_perm xs.get
  rwa [List.ofFn_get] at h

theorem map_reordered_getElem? {β : Type*} (f : α → β) (i : Fin xs.length) :
    ((reordered xs σ).map f)[(i : ℕ)]? = (xs.map f)[(σ i : ℕ)]? := by
  unfold reordered
  rw [List.map_ofFn, List.getElem?_ofFn, dif_pos i.isLt, List.getElem?_map,
    List.getElem?_eq_getElem (σ i).isLt]
  rfl

end Reordered

theorem filterValidBids_perm {bids bids' : List Bid} (h : bids'.Perm bids)
    (config : AuctionConfig) : (filterValidBids bids' config).Perm (filterValidBids bids config) :=
  h.filter _

theorem sumOver_perm {bids bids' : List Bid} (h : bids'.Perm bids) (f : Bid → ℚ) :
    sumOver f bids' = sumOver f bids := by
  rw [sumOver_eq_sum, sumOver_eq_sum]
  exact (h.map f).sum_eq

/-- Bids with distinct ranking keys are ranked in one way only. -/
theorem sortBids_eq_of_perm {bids bids' : List Bid} {config : AuctionConfig}
    (h : bids'.Perm bids) (hkeys : (bids.map (rankKey config)).Nodup) :
    sortBids bids' config = sortBids bids config := by
  rw [sortBids_eq_insertionSort, sortBids_eq_insertionSort]
  refine (insertionSort_eq_of_perm h.symm ?_).symm
  intro a ha b hb hab hba
  exact List.inj_on_of_nodup_map hkeys ha hb (le_antisymm hab hba)

theorem calculateMetrics_perm {bids bids' : List Bid} (h : bids'.Perm bids)
    (selectedBids : List Bid) (event : RedispatchEvent) :
    calculateMetrics bids' selectedBids event = calculateMetrics bids selectedBids event := by
  unfold calculateMetrics
  rw [sumOver_perm h, sumOver_perm h, h.length_eq]

/-- Two outcomes over the same bids, submitted in the order `σ` in the second: they differ in the
order of the entries only, which follow their bids. -/
structure SameUpToOrder (bids : List Bid) (σ : Equiv.Perm (Fin bids.length))
    (output output' : AuctionOutput) : Prop where
  selectedBids : output'.selectedBids = output.selectedBids
  rejectedBids : output'.rejectedBids = output.rejectedBids
  algorithmMetrics : output'.algorithmMetrics = output.algorithmMetrics
  result : output'.result = { output.result with
    participantResolutions := output'.result.participantResolutions }
  length : output.result.participantResolutions.length = bids.length
  length' : output'.result.participantResolutions.length = bids.length
  entries : ∀ i : Fin bids.length,
    output'.result.participantResolutions[(i : ℕ)]? =
      output.result.participantResolutions[(σ i : ℕ)]?

/-- Without ties among the valid bids the order of submission does not matter. -/
theorem submission_order_irrelevant (input : AuctionInput)
    (σ : Equiv.Perm (Fin input.bids.length)) (hvalid : validateInput input = .ok ())
    (hkeys : ((filterValidBids input.bids input.config).map (rankKey input.config)).Nodup) :
    ∃ output output', processAuction input = .ok output ∧
      processAuction { input with bids := reordered input.bids σ } = .ok output' ∧
      SameUpToOrder input.bids σ output output' := by
  have hperm := reordered_perm input.bids σ
  have hfilter := filterValidBids_perm hperm input.config
  have hsort := sortBids_eq_of_perm hfilter hkeys
  obtain ⟨hbids, hpower⟩ := validateInput_ok_iff.mp hvalid
  have hbids' : reordered input.bids σ ≠ [] := fun hnil =>
    hbids (List.nil_perm.mp (hnil ▸ hperm))
  have hvalid' : validateInput { input with bids := reordered input.bids σ } = .ok () :=
    validateInput_ok_iff.mpr ⟨hbids', hpower⟩
  simp only [processAuction, hvalid, hvalid', hsort, calculateMetrics_perm hfilter]
  refine ⟨_, _, rfl, rfl, ?_⟩
  constructor
  case selectedBids => rfl
  case rejectedBids => rfl
  case algorithmMetrics => rfl
  case result => rfl
  case length => exact List.length_map _
  case length' => exact (List.length_map _).trans hperm.length_eq
  case entries => exact fun i => map_reordered_getElem? input.bids σ _ i

theorem skippingInput_reversed :
    ∃ output output', processAuction skippingInput = .ok output ∧
      processAuction { skippingInput with bids := reordered skippingInput.bids Fin.revPerm } =
        .ok output' ∧
      SameUpToOrder skippingInput.bids Fin.revPerm output output' :=
  submission_order_irrelevant skippingInput Fin.revPerm (by decide +kernel) (by decide +kernel)

end GridFlex
