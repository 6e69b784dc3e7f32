import GridFlex.Auction.Settlement

/-! The award read off entries that carry a bid each, so that equal bids in different places
stay apart, and so that two auctions over one list of entries can be compared. -/
namespace GridFlex
open Greedy Keyed StableSort

section Entries

variable {τ : Type*} (config : AuctionConfig) (powerMW : ℚ) (bid : τ → Bid)

/-- The valid entries in rank order. -/
def rankedEntries (entries : List τ) : List τ :=
  arraySort (fun a b => bidComparator config (bid a) (bid b))
    (entries.filter fun t => isValidBid config (bid t))

/-- The entries whose bids are awarded, in rank order. -/
def awardedEntries (entries : List τ) : List τ :=
  let ranked := rankedEntries config bid entries
  pick (flags (fun taken t => admits powerMW config (taken.map bid) (bid t)) [] ranked) ranked

theorem rankedEntries_map (entries : List τ) :
    (rankedEntries config bid entries).map bid =
      sortBids (filterValidBids (entries.map bid) config) config := by
  have hfilter : filterValidBids (entries.map bid) config =
      (entries.filter fun t => isValidBid config (bid t)).map bid := List.filter_map
  rw [hfilter]
  exact List.map_insertionSort _ (fun a b => bidComparator config a b ≤ 0) bid _
    fun _ _ _ _ => Iff.rfl

theorem rankedEntries_filter (keep : τ → Bool) (entries : List τ) :
    rankedEntries config bid (entries.filter keep) =
      (rankedEntries config bid entries).filter keep := by
  have hle (a b : τ) : bidComparator config (bid a) (bid b) ≤ 0 ↔
      RanksBefore config (bid a) (bid b) := bidComparator_nonpos_iff config _ _
  have : Std.Total fun a b => bidComparator config (bid a) (bid b) ≤ 0 :=
    ⟨fun a b => by simpa only [hle] using Std.Total.total (r := RanksBefore config) (bid a) (bid b)⟩
  have : IsTrans τ fun a b => bidComparator config (bid a) (bid b) ≤ 0 :=
    ⟨fun a b c => by simpa only [hle] using IsTrans.trans (r := RanksBefore config) _ _ _⟩
  unfold rankedEntries arraySort
  rw [← insertionSort_filter, List.filter_filter, List.filter_filter]
  simp only [Bool.and_comm]

/-- The bids of the awarded entries are the bids that the algorithm awards. -/
theorem awardedEntries_map (input : AuctionInput) {entries : List τ}
    (h : entries.map bid = input.bids) :
    (awardedEntries input.config input.redispatchEvent.powerMW bid entries).map bid =
      awardedBids input := by
  have hranked := rankedEntries_map input.config bid entries
  rw [h] at hranked
  unfold awardedEntries awardedBids
  rw [(selectWinningBids_eq _ _ _).1, ← hranked, pick_map]
  exact congrArg (fun m => (pick m _).map bid) (flags_map _ bid [] _).symm

theorem awardedEntries_subperm (entries : List τ) :
    (awardedEntries config powerMW bid entries).Subperm entries :=
  (pick_sublist _ _).subperm.trans
    ((List.perm_insertionSort _ _).subperm.trans List.filter_sublist.subperm)

/-- Deleting entries that are not awarded changes nothing. -/
theorem awardedEntries_filter (keep : τ → Bool) {entries : List τ}
    (h : ∀ t ∈ awardedEntries config powerMW bid entries, keep t = true) :
    awardedEntries config powerMW bid (entries.filter keep) =
      awardedEntries config powerMW bid entries := by
  unfold awardedEntries
  rw [rankedEntries_filter]
  exact pick_flags_filter _ keep h

end Entries

/-- Two bids of one participant for the same power at the same price. -/
structure Bid.SameTerms (a b : Bid) : Prop where
  participantId : b.participantId = a.participantId
  powerMW : b.powerMW = a.powerMW
  pricePerMW : b.pricePerMW = a.pricePerMW

/-- What a bid offers, on whose behalf. -/
def Bid.terms (b : Bid) : String × ℚ × ℚ := (b.participantId, b.powerMW, b.pricePerMW)

theorem sameTerms_of_map {bids bids' : List Bid}
    (h : bids'.map Bid.terms = bids.map Bid.terms) : List.Forall₂ Bid.SameTerms bids bids' := by
  rw [← List.forall₂_eq_eq_eq, List.forall₂_map_left_iff, List.forall₂_map_right_iff] at h
  apply h.flip.imp
  intro a b hab
  simp only [Bid.terms, Prod.mk.injEq] at hab
  exact ⟨hab.1, hab.2.1, hab.2.2⟩

/-- Two results report the same award and the same settlement. -/
structure SameOutcome (result result' : AuctionResult) : Prop where
  acceptedPowerMW : result'.acceptedPowerMW = result.acceptedPowerMW
  remainingPowerMW : result'.remainingPowerMW = result.remainingPowerMW
  participantPayoutEUR : result'.participantPayoutEUR = result.participantPayoutEUR
  bidStatus : result'.bidStatus = result.bidStatus
  participantResolutions : result'.participantResolutions = result.participantResolutions

/-- Two results report the same winners, with the same entries, to the same totals. -/
structure SameWinners (result result' : AuctionResult) : Prop where
  acceptedPowerMW : result'.acceptedPowerMW = result.acceptedPowerMW
  remainingPowerMW : result'.remainingPowerMW = result.remainingPowerMW
  participantPayoutEUR : result'.participantPayoutEUR = result.participantPayoutEUR
  bidStatus : result'.bidStatus = result.bidStatus
  reason : result'.reason = result.reason
  accepted : result'.participantResolutions.filter (fun r => r.status = .accepted) =
    result.participantResolutions.filter fun r => r.status = .accepted

instance (result result' : AuctionResult) : Decidable (SameWinners result result') :=
  decidable_of_iff (result'.acceptedPowerMW = result.acceptedPowerMW ∧
      result'.remainingPowerMW = result.remainingPowerMW ∧
      result'.participantPayoutEUR = result.participantPayoutEUR ∧
      result'.bidStatus = result.bidStatus ∧ result'.reason = result.reason ∧
      result'.participantResolutions.filter (fun r => r.status = .accepted) =
        result.participantResolutions.filter fun r => r.status = .accepted)
    ⟨fun ⟨h₁, h₂, h₃, h₄, h₅, h₆⟩ => ⟨h₁, h₂, h₃, h₄, h₅, h₆⟩,
      fun ⟨h₁, h₂, h₃, h₄, h₅, h₆⟩ => ⟨h₁, h₂, h₃, h₄, h₅, h₆⟩⟩

/-- The award depends on the terms of the bids only. -/
theorem awardedEntries_congr {τ : Type*} (config : AuctionConfig) (powerMW : ℚ) {f g : τ → Bid}
    (h : ∀ t, (f t).SameTerms (g t)) (entries : List τ) :
    awardedEntries config powerMW g entries = awardedEntries config powerMW f entries := by
  have hpower : (fun t => (g t).powerMW) = fun t => (f t).powerMW := funext fun t => (h t).powerMW
  have hvalid : (fun t => isValidBid config (g t)) = fun t => isValidBid config (f t) := by
    funext t
    simp only [isValidBid, (h t).powerMW, (h t).pricePerMW]
  have hcompare : (fun a b => bidComparator config (g a) (g b)) =
      fun a b => bidComparator config (f a) (f b) := by
    funext a b
    simp only [bidComparator, balancedScore, (h a).powerMW, (h a).pricePerMW, (h b).powerMW,
      (h b).pricePerMW]
  have hadmits : (fun (taken : List τ) t => admits powerMW config (taken.map g) (g t)) =
      fun taken t => admits powerMW config (taken.map f) (f t) := by
    funext taken t
    have hsum : sumOver Bid.powerMW (taken.map g) = sumOver Bid.powerMW (taken.map f) := by
      simp only [sumOver_eq_sum, List.map_map, Function.comp_def, hpower]
    simp only [admits, List.length_map, hsum, (h t).powerMW]
  simp only [awardedEntries, rankedEntries, hvalid, hcompare, hadmits]

/-- Bids that are not valid have no part in the award. -/
theorem awardedBids_filterValidBids (input : AuctionInput) :
    awardedBids { input with bids := filterValidBids input.bids input.config } =
      awardedBids input := by
  simp only [awardedBids, filterValidBids, List.filter_filter, Bool.and_self]

/-- The entries of the winners are those of valid bids. -/
theorem accepted_resolutions {bids awarded : List Bid} (config : AuctionConfig)
    (hn : (bids.map Bid.id).Nodup) (hs : awarded.Subperm (filterValidBids bids config)) :
    (generateParticipantResolutions bids awarded config).filter
        (fun r => r.status = .accepted) =
      ((filterValidBids bids config).filter fun bid => bid.id ∈ awarded.map Bid.id).map
        (resolveParticipant (awarded.map Bid.id) config) := by
  have hsub : awarded.Subperm bids := hs.trans List.filter_sublist.subperm
  unfold generateParticipantResolutions filterValidBids
  rw [List.filter_map, List.filter_filter]
  congr 1
  apply List.filter_congr
  intro bid hb
  have hvalid : bid.id ∈ awarded.map Bid.id → isValidBid config bid = true := fun hid =>
    (List.mem_filter.mp (hs.subset ((key_mem_iff hn hsub hb).mp hid))).2
  rw [Bool.eq_iff_iff]
  simp only [Function.comp_apply, decide_eq_true_eq, resolveParticipant_status, Bool.and_eq_true]
  exact (and_iff_left_of_imp hvalid).symm

section SameTerms

variable {τ : Type*} {f g : τ → Bid} (h : ∀ t, (f t).SameTerms (g t))
include h

theorem sumOver_powerMW_congr (entries : List τ) :
    sumOver Bid.powerMW (entries.map g) = sumOver Bid.powerMW (entries.map f) := by
  simp only [sumOver_eq_sum, List.map_map, Function.comp_def, (h _).powerMW]

theorem sumOver_bidValue_congr (entries : List τ) :
    sumOver bidValue (entries.map g) = sumOver bidValue (entries.map f) := by
  simp only [sumOver_eq_sum, List.map_map, Function.comp_def, bidValue, (h _).powerMW,
    (h _).pricePerMW]

/-- The award of one reading of the entries, at the places of the award of the other. -/
theorem awardedBids_congr (auction : Auction) (event : RedispatchEvent) (config : AuctionConfig)
    (entries : List τ) :
    awardedBids ⟨auction, event, entries.map g, config⟩ =
      (awardedEntries config event.powerMW f entries).map g := by
  rw [← awardedEntries_congr config event.powerMW h entries]
  exact (awardedEntries_map g ⟨auction, event, entries.map g, config⟩ rfl).symm

section Winners

variable {entries awarded : List τ} (hf : ((entries.map f).map Bid.id).Nodup)
  (hg : ((entries.map g).map Bid.id).Nodup) (hs : awarded.Subperm entries)
include hf hg hs

omit h in
/-- With distinct ids on both sides, an id is found among the winners on either side exactly when
its entry is one of them. -/
theorem winner_congr {t : τ} (ht : t ∈ entries) :
    decide ((g t).id ∈ (awarded.map g).map Bid.id) =
      decide ((f t).id ∈ (awarded.map f).map Bid.id) := by
  rw [List.map_map] at hf hg
  have hid : (f t).id ∈ awarded.map (Bid.id ∘ f) ↔ t ∈ awarded := key_mem_iff hf hs ht
  have hid' : (g t).id ∈ awarded.map (Bid.id ∘ g) ↔ t ∈ awarded := key_mem_iff hg hs ht
  rw [List.map_map, List.map_map]
  exact decide_eq_decide.mpr (hid'.trans hid.symm)

theorem resolveParticipant_congr (config : AuctionConfig) {t : τ} (ht : t ∈ entries) :
    resolveParticipant ((awarded.map g).map Bid.id) config (g t) =
      resolveParticipant ((awarded.map f).map Bid.id) config (f t) := by
  simp only [resolveParticipant, winner_congr hf hg hs ht, bidValue, (h t).participantId,
    (h t).powerMW, (h t).pricePerMW]

end Winners

/-- With distinct ids on both sides, bids with the same terms are settled alike. -/
theorem sameOutcome_of_entries {entries : List τ} (hf : ((entries.map f).map Bid.id).Nodup)
    (hg : ((entries.map g).map Bid.id).Nodup) {auction auction' : Auction}
    {event event' : RedispatchEvent} (hevent : event'.powerMW = event.powerMW)
    {config : AuctionConfig} {output output' : AuctionOutput}
    (hout : processAuction ⟨auction, event, entries.map f, config⟩ = .ok output)
    (hout' : processAuction ⟨auction', event', entries.map g, config⟩ = .ok output') :
    SameOutcome output.result output'.result := by
  let awarded := awardedEntries config event.powerMW f entries
  have hsubperm : awarded.Subperm entries := awardedEntries_subperm config event.powerMW f entries
  obtain ⟨-, hsel, hresult⟩ := processAuction_inv hout
  obtain ⟨-, hsel', hresult'⟩ := processAuction_inv hout'
  have hselected : output.selectedBids = awarded.map f := hsel.trans
    (awardedEntries_map f ⟨auction, event, entries.map f, config⟩ rfl).symm
  have hselected' : output'.selectedBids = awarded.map g := by
    have haward := awardedBids_congr h auction' event' config entries
    rw [hevent] at haward
    exact hsel'.trans haward
  have hpower := sumOver_powerMW_congr h awarded
  have hvalue := sumOver_bidValue_congr h awarded
  refine ⟨?_, ?_, ?_, ?_, ?_⟩
  · simp only [hresult, hresult', hselected, hselected', calculateAuctionResult, hpower]
  · simp only [hresult, hresult', hselected, hselected', calculateAuctionResult, hpower, hevent]
  · simp only [hresult, hresult', hselected, hselected', calculateAuctionResult, hvalue]
  · simp only [hresult, hresult', hselected, hselected', calculateAuctionResult, List.length_map]
  · simp only [hresult, hresult', hselected, hselected', calculateAuctionResult,
      generateParticipantResolutions]
    have hentries := List.map_congr_left fun t ht =>
      resolveParticipant_congr h hf hg hsubperm config ht
    simpa only [List.map_map, Function.comp_def] using hentries

/-- With the valid bids of two auctions read off one list of entries. -/
theorem sameWinners_of_entries {entries : List τ} {bids bids' : List Bid} {config : AuctionConfig}
    (hbids : entries.map f = filterValidBids bids config)
    (hbids' : entries.map g = filterValidBids bids' config) (hn : (bids.map Bid.id).Nodup)
    (hn' : (bids'.map Bid.id).Nodup) (auction : Auction) (event : RedispatchEvent) :
    SameWinners
      (calculateAuctionResult auction (awardedBids ⟨auction, event, bids, config⟩) event config
        bids)
      (calculateAuctionResult auction (awardedBids ⟨auction, event, bids', config⟩) event config
        bids') := by
  let awarded := awardedEntries config event.powerMW f entries
  have hsubperm : awarded.Subperm entries := awardedEntries_subperm config event.powerMW f entries
  have haward : awardedBids ⟨auction, event, bids, config⟩ = awarded.map f := by
    rw [← awardedBids_filterValidBids]
    exact (awardedEntries_map f ⟨auction, event, filterValidBids bids config, config⟩ hbids).symm
  have haward' : awardedBids ⟨auction, event, bids', config⟩ = awarded.map g := by
    rw [← awardedBids_filterValidBids, ← awardedBids_congr h auction event config entries, hbids']
  have hf : ((entries.map f).map Bid.id).Nodup :=
    hbids ▸ hn.sublist (List.filter_sublist.map Bid.id)
  have hg : ((entries.map g).map Bid.id).Nodup :=
    hbids' ▸ hn'.sublist (List.filter_sublist.map Bid.id)
  have hpower := sumOver_powerMW_congr h awarded
  have hvalue := sumOver_bidValue_congr h awarded
  refine ⟨?_, ?_, ?_, ?_, ?_, ?_⟩
  · simp only [haward, haward', calculateAuctionResult, hpower]
  · simp only [haward, haward', calculateAuctionResult, hpower]
  · simp only [haward, haward', calculateAuctionResult, hvalue]
  · simp only [haward, haward', calculateAuctionResult, List.length_map]
  · simp only [haward, haward', calculateAuctionResult, List.length_map, hpower]
  · have hwinners : entries.filter (fun t => (g t).id ∈ (awarded.map g).map Bid.id) =
        entries.filter fun t => (f t).id ∈ (awarded.map f).map Bid.id :=
      List.filter_congr fun t ht => winner_congr hf hg hsubperm ht
    have hresolved : ∀ t ∈ entries.filter fun t => (f t).id ∈ (awarded.map f).map Bid.id,
        resolveParticipant ((awarded.map g).map Bid.id) config (g t) =
          resolveParticipant ((awarded.map f).map Bid.id) config (f t) := fun t ht =>
      resolveParticipant_congr h hf hg hsubperm config (List.mem_filter.mp ht).1
    have hsub : (awarded.map f).Subperm (filterValidBids bids config) :=
      haward ▸ awardedBids_subperm_valid ⟨auction, event, bids, config⟩
    have hsub' : (awarded.map g).Subperm (filterValidBids bids' config) :=
      haward' ▸ awardedBids_subperm_valid ⟨auction, event, bids', config⟩
    simp only [calculateAuctionResult, haward, haward']
    rw [accepted_resolutions config hn hsub, accepted_resolutions config hn' hsub', ← hbids,
      ← hbids']
    have hentries := (congrArg (List.map _) hwinners).trans (List.map_congr_left hresolved)
    simpa only [List.filter_map, List.map_map, Function.comp_def] using hentries

end SameTerms

/-- Bids with the same terms in the same places, as one list of entries. -/
theorem exists_entries {bids bids' : List Bid} (h : List.Forall₂ Bid.SameTerms bids bids') :
    ∃ entries : List {p : Bid × Bid // p.1.SameTerms p.2},
      entries.map (·.1.1) = bids ∧ entries.map (·.1.2) = bids' := by
  induction h with
  | nil => exact ⟨[], rfl, rfl⟩
  | cons hab _ ih =>
    obtain ⟨entries, rfl, rfl⟩ := ih
    exact ⟨⟨(_, _), hab⟩ :: entries, rfl, rfl⟩

theorem sameOutcome_of_sameTerms {bids bids' : List Bid} (h : List.Forall₂ Bid.SameTerms bids bids')
    (hn : (bids.map Bid.id).Nodup) (hn' : (bids'.map Bid.id).Nodup) {auction auction' : Auction}
    {event event' : RedispatchEvent} (hevent : event'.powerMW = event.powerMW)
    {config : AuctionConfig} {output output' : AuctionOutput}
    (hout : processAuction ⟨auction, event, bids, config⟩ = .ok output)
    (hout' : processAuction ⟨auction', event', bids', config⟩ = .ok output') :
    SameOutcome output.result output'.result := by
  obtain ⟨entries, rfl, rfl⟩ := exists_entries h
  exact sameOutcome_of_entries (fun p => p.2) hn hn' hevent hout hout'

/-- Auctions whose valid bids have the same terms have the same winners. -/
theorem sameWinners_of_sameTerms {bids bids' : List Bid} {config : AuctionConfig}
    (h : List.Forall₂ Bid.SameTerms (filterValidBids bids config) (filterValidBids bids' config))
    (hn : (bids.map Bid.id).Nodup) (hn' : (bids'.map Bid.id).Nodup) (auction : Auction)
    (event : RedispatchEvent) :
    SameWinners
      (calculateAuctionResult auction (awardedBids ⟨auction, event, bids, config⟩) event config
        bids)
      (calculateAuctionResult auction (awardedBids ⟨auction, event, bids', config⟩) event config
        bids') := by
  obtain ⟨entries, hbids, hbids'⟩ := exists_entries h
  exact sameWinners_of_entries (fun p => p.2) hbids hbids' hn hn' auction event

end GridFlex
