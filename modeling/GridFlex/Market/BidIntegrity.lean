import GridFlex.Auction.Entries
import GridFlex.Market.Phase

/-! `triggerAuction` settles the participants of the page, not the bids that were submitted.
Its result is the award of the bids that a broadcast or a placed bid took up for the auction as
long as what is eligible on the page is what is eligible among them. -/
namespace GridFlex
open Driver Keyed Transition

def Bid.draft (bid : Bid) : BidDraft :=
  ⟨bid.auctionId, bid.participantId, bid.powerMW, bid.pricePerMW⟩

def EventPayload.submission? : EventPayload → Option BidDraft
  | .bidSubmitted bid _ => some bid.draft
  | _ => none

/-- A `bid.submitted` event for exactly this bid is in the log. -/
def Frontend.Logged (f : Frontend) (draft : BidDraft) : Prop :=
  draft ∈ f.events.filterMap fun e => e.payload.submission?

instance (f : Frontend) : DecidablePred f.Logged := fun draft =>
  inferInstanceAs (Decidable (draft ∈ f.events.filterMap fun e => e.payload.submission?))

def Operation.trigger? : Operation → Option (ℕ → ℕ)
  | .triggerAuction now => some now
  | _ => none

/-- The bid that a draft makes, under the id of its participant. -/
def BidDraft.bid (draft : BidDraft) : Bid :=
  ⟨draft.participantId, draft.auctionId, draft.participantId, draft.powerMW, draft.pricePerMW,
    .submitted⟩

/-- The draft passes `filterValidBids` of a trigger. -/
def BidDraft.isEligible (config : AuctionConfig) (draft : BidDraft) : Bool :=
  isValidBid config draft.bid

/-- What was last taken up from the participant for the auction. -/
def lastOffer (past : List BidDraft) (auctionId participantId : String) : Option BidDraft :=
  (past.filter fun draft =>
    draft.auctionId = auctionId ∧ draft.participantId = participantId).getLast?

/-- The input of a trigger with the bids that were taken up, in the order of the page, in the
place of those that it makes up. -/
def Snapshot.offeredInput (state : Snapshot) (past : List BidDraft) : AuctionInput :=
  { state.auctionInput with
    bids := (state.participants.filterMap fun p =>
      lastOffer past state.auction.id p.id).map BidDraft.bid }

/-- What the algorithm makes of the bids that were taken up. -/
def Snapshot.offeredResult (state : Snapshot) (past : List BidDraft) : AuctionResult :=
  let input := state.offeredInput past
  calculateAuctionResult input.auction (awardedBids input) input.redispatchEvent input.config
    input.bids

/-- A participant's offer on the page and the last one that was taken up from it are the same,
unless neither is eligible. -/
def Snapshot.Offered (state : Snapshot) (past : List BidDraft) : Prop :=
  ∀ p ∈ state.participants,
    (some (p.draft state.auction.id)).filter (·.isEligible state.auctionInput.config) =
      (lastOffer past state.auction.id p.id).filter (·.isEligible state.auctionInput.config)

instance (state : Snapshot) (past : List BidDraft) : Decidable (state.Offered past) :=
  inferInstanceAs (Decidable (∀ p ∈ state.participants,
    (some (p.draft state.auction.id)).filter (·.isEligible state.auctionInput.config) =
      (lastOffer past state.auction.id p.id).filter (·.isEligible state.auctionInput.config)))

def order (operation : Operation) : Order := ⟨operation, fun _ => mockTransaction⟩

namespace Market

/-- What an operation takes up for the auction of the model: the valid participants of
`broadcastAllBids`, the entered bid of `placeBid`. -/
def offers (m : Market) (o : Order) : List BidDraft :=
  match o.operation, m.frontend.model.auction with
  | .broadcastAllBids, some auction =>
      (m.frontend.model.participants.filter Participant.isValid).map (·.draft auction.id)
  | .placeBid, some auction =>
      if m.frontend.model.bid.powerMW ≤ 0 ∨ m.frontend.model.bid.pricePerMW ≤ 0 then []
      else [{ m.frontend.model.bid with auctionId := auction.id }]
  | _, _ => []

/-- At a trigger that the page and the contract let through, with a demand, what is eligible on the
page is what was taken up. -/
def OffersStand (hardhat : Hardhat) (s : Market × List BidDraft) (o : Order) : Prop :=
  ∀ now ∈ o.operation.trigger?, ∀ auction ∈ s.1.frontend.model.auction,
    s.1.frontend.model.bidPlaced = true → hardhat.wallet = s.1.chain.collector.owner →
      s.1.chain.collector.collecting = true → 0 < s.1.frontend.model.redispatchEvent.powerMW →
        (s.1.frontend.snapshot auction now).Offered s.2

instance (hardhat : Hardhat) (s : Market × List BidDraft) (o : Order) :
    Decidable (OffersStand hardhat s o) :=
  inferInstanceAs (Decidable (∀ now ∈ o.operation.trigger?,
    ∀ auction ∈ s.1.frontend.model.auction,
      s.1.frontend.model.bidPlaced = true → hardhat.wallet = s.1.chain.collector.owner →
        s.1.chain.collector.collecting = true →
          0 < s.1.frontend.model.redispatchEvent.powerMW →
            (s.1.frontend.snapshot auction now).Offered s.2))

/-- Every participant that a stored result reports as accepted had submitted, for the same
auction, the power and the price that the result reports. -/
def ResultBacked (ids : ℕ → IdSource) (hardhat : Hardhat) (m : Market) (o : Order) : Prop :=
  ∀ _now ∈ o.operation.trigger?,
    (m.outcome ids hardhat o.invocation).awaited.any Suspended.isResolving = true →
    ∀ result ∈ (m.operate ids hardhat o).frontend.model.auctionResult,
      ∀ r ∈ result.participantResolutions, r.status = .accepted →
        m.frontend.Logged ⟨result.auctionId, r.participantId, r.bidPowerMW, r.bidPricePerMW⟩

instance (ids : ℕ → IdSource) (hardhat : Hardhat) (m : Market) (o : Order) :
    Decidable (ResultBacked ids hardhat m o) :=
  inferInstanceAs (Decidable (∀ _now ∈ o.operation.trigger?,
    (m.outcome ids hardhat o.invocation).awaited.any Suspended.isResolving = true →
    ∀ result ∈ (m.operate ids hardhat o).frontend.model.auctionResult,
      ∀ r ∈ result.participantResolutions, r.status = .accepted →
        m.frontend.Logged ⟨result.auctionId, r.participantId, r.bidPowerMW, r.bidPricePerMW⟩))

/-- The stored result has the winners and the totals of the auction over the bids that were taken
up, whatever was edited since. -/
def ResultOffered (ids : ℕ → IdSource) (hardhat : Hardhat) (s : Market × List BidDraft)
    (o : Order) : Prop :=
  ∀ now ∈ o.operation.trigger?,
    (s.1.outcome ids hardhat o.invocation).awaited.any Suspended.isResolving = true →
    ∀ auction ∈ s.1.frontend.model.auction,
      ∀ result ∈ (s.1.operate ids hardhat o).frontend.model.auctionResult,
        SameWinners ((s.1.frontend.snapshot auction now).offeredResult s.2) result

instance (ids : ℕ → IdSource) (hardhat : Hardhat) (s : Market × List BidDraft) (o : Order) :
    Decidable (ResultOffered ids hardhat s o) :=
  inferInstanceAs (Decidable (∀ now ∈ o.operation.trigger?,
    (s.1.outcome ids hardhat o.invocation).awaited.any Suspended.isResolving = true →
    ∀ auction ∈ s.1.frontend.model.auction,
      ∀ result ∈ (s.1.operate ids hardhat o).frontend.model.auctionResult,
        SameWinners ((s.1.frontend.snapshot auction now).offeredResult s.2) result))

end Market

theorem Frontend.Logged.mono {f f' : Frontend} {draft : BidDraft} (h : f.Logged draft)
    (he : f.events <+: f'.events) : f'.Logged draft :=
  (he.sublist.filterMap _).subset h

variable {ids : ℕ → IdSource} {hardhat : Hardhat} {m : Market}

/-- The bids that a suspended call has still to announce. -/
def Suspended.drafts : Suspended → List BidDraft
  | .submittingData auctionId valid _ _ _ | .delaying auctionId valid _ _ _ =>
      valid.map (·.draft auctionId)
  | .announcingBids auctionId _ rest => rest.map (·.draft auctionId)
  | _ => []

/-- From `f` to `g` the log gains a submission for each of `drafts`, in order, and nothing else. -/
def Submits (f g : Frontend) (drafts : List BidDraft) : Prop :=
  ∃ new, g.events = f.events ++ new ∧
    new.map (fun e => e.payload.submission?) = drafts.map some

theorem Submits.of_events {f g : Frontend} (h : g.events = f.events) : Submits f g [] :=
  ⟨[], by rw [h, List.append_nil], rfl⟩

theorem Submits.trans {f g h : Frontend} {drafts drafts' : List BidDraft}
    (h₁ : Submits f g drafts) (h₂ : Submits g h drafts') : Submits f h (drafts ++ drafts') := by
  obtain ⟨new, hg, hnew⟩ := h₁
  obtain ⟨new', hh, hnew'⟩ := h₂
  refine ⟨new ++ new', ?_, ?_⟩
  · rw [hh, hg, List.append_assoc]
  · rw [List.map_append, List.map_append, hnew, hnew']

theorem serviceSubmitBid_submits (f : Frontend) (draft : BidDraft) :
    Submits f (f.serviceSubmitBid ids draft).1 [draft] :=
  ⟨[_], rfl, rfl⟩

/-- A segment announces the first of the bids that its call owes, and leaves the others. -/
def Pays (f f' : Frontend) (next : Option Suspended) (owed : List BidDraft) : Prop :=
  ∃ drafts, Submits f f' drafts ∧ drafts ++ next.elim [] Suspended.drafts = owed

theorem Pays.of_events {f f' : Frontend} {next : Option Suspended} (h : f'.events = f.events) :
    Pays f f' next (next.elim [] Suspended.drafts) :=
  ⟨[], .of_events h, rfl⟩

theorem announceNext_pays {f g : Frontend} (h : g.events = f.events) (auctionId : String)
    (valid rest : List Participant) :
    Pays f (g.announceNext ids auctionId valid rest).1
      (g.announceNext ids auctionId valid rest).2 (rest.map (·.draft auctionId)) := by
  cases rest with
  | nil => exact .of_events h
  | cons p rest =>
    exact ⟨_, (Submits.of_events h).trans (serviceSubmitBid_submits g _), rfl⟩

theorem resume_pays (f : Frontend) {c : Suspended} {auctionId : String} {announced : Bool}
    (hrole : c.role = .bidder auctionId announced) (reply : Reply) :
    Pays f (f.resume ids c reply).1 (f.resume ids c reply).2 c.drafts := by
  by_cases hreply : c.SettledBy reply
  case neg =>
    rw [resume_unsettled hreply]
    exact .of_events rfl
  cases c with
  | placingBid id =>
    obtain rfl := hreply
    exact .of_events rfl
  | submittingData id valid hv p rest =>
    have hevents := receive_events f reply
    obtain ⟨rfl, he⟩ | ⟨p', rest', c', rfl, he, hc'⟩ :=
      resume_submittingData ids f id hv p rest hreply
    · rw [he]
      exact announceNext_pays hevents id valid valid
    · rw [he]
      rcases hc' with rfl | rfl
      · exact .of_events hevents
      · exact .of_events hevents
  | delaying id valid hv p rest =>
    obtain rfl := hreply
    exact .of_events rfl
  | announcingBids id valid rest =>
    obtain rfl := hreply
    exact announceNext_pays rfl id valid rest
  | _ => cases hrole

namespace Market

/-- The log only grows. -/
theorem operate_events (m : Market) (ids : ℕ → IdSource) (hardhat : Hardhat) (o : Order) :
    m.frontend.events <+: (m.operate ids hardhat o).frontend.events := by
  apply outcome_invariant (I := fun f _ => m.frontend.events <+: f.events)
  · exact (begin_segment m.frontend _).events_grow
  · exact fun f g c hf => hf.trans (resume_segment f c _).events_grow

theorem begin_pays (m : Market) {op : Operation} (hop : op.touchesAuction = false) :
    Pays m.frontend (m.frontend.begin ids op).1 (m.frontend.begin ids op).2
      (m.offers (order op)) := by
  have hbegin := begin_cases ids m.frontend op
  generalize (m.frontend.begin ids op).1 = f', (m.frontend.begin ids op).2 = next at hbegin ⊢
  cases hbegin with
  | broadcastAuction | notPlaced | triggerAuction | resetAuction => cases hop
  | noAuction _ _ hauction =>
    have hnothing : m.offers (order op) = [] := by
      simp only [offers, hauction]
      cases op <;> rfl
    rw [hnothing]
    exact .of_events rfl
  | blankBid auction hauction hbid =>
    simp only [offers, order, hauction, hbid, ↓reduceIte]
    exact .of_events rfl
  | placeBid auction hauction hbid =>
    simp only [offers, order, hauction, hbid, ↓reduceIte]
    exact ⟨_, serviceSubmitBid_submits m.frontend _, rfl⟩
  | nothingValid auction hauction hvalid =>
    simp only [offers, order, hauction, hvalid]
    exact .of_events rfl
  | broadcastAllBids auction p rest hauction hvalid =>
    simp only [offers, order, hauction, hvalid]
    exact .of_events rfl
  | updateBidPower | updateBidPrice | updateParticipant | clearNotification =>
    exact .of_events rfl

/-- An operation that bids or edits announces what it takes up, in order, and nothing else. -/
theorem perform_submits (m : Market) (ids : ℕ → IdSource) (hardhat : Hardhat) {i : Invocation}
    (hop : i.operation.touchesAuction = false) :
    Submits m.frontend (m.perform ids hardhat i).frontend (m.offers (order i.operation)) := by
  have hstart : Pays m.frontend (m.frontend.begin ids i.operation).1
      (m.frontend.begin ids i.operation).2 (m.offers (order i.operation)) := m.begin_pays hop
  apply outcome_rule
    (I := fun f _ c => (∃ drafts, Submits m.frontend f drafts ∧
      drafts ++ c.drafts = m.offers (order i.operation)) ∧
      ∃ auctionId announced, c.role = .bidder auctionId announced)
    (Q := fun f _ => Submits m.frontend f (m.offers (order i.operation)))
  · intro c hc
    obtain ⟨drafts, hs, hdrafts⟩ := hstart
    rw [hc] at hdrafts
    exact ⟨⟨drafts, hs, hdrafts⟩, begin_bidder hop hc⟩
  · intro hnone
    obtain ⟨drafts, hs, hdrafts⟩ := hstart
    rw [hnone, Option.elim_none, List.append_nil] at hdrafts
    exact hdrafts ▸ hs
  · rintro f g c c' ⟨⟨drafts, hs, hdrafts⟩, auctionId, announced, hrole⟩ hc'
    obtain ⟨drafts', hs', hdrafts'⟩ := resume_pays f hrole (hardhat.serve i.network g c).2
    rw [hc'] at hdrafts'
    refine ⟨⟨drafts ++ drafts', hs.trans hs', ?_⟩, auctionId, resume_bidder hrole hc'⟩
    rw [List.append_assoc, ← hdrafts, ← hdrafts']
    rfl
  · rintro f g c ⟨⟨drafts, hs, hdrafts⟩, auctionId, announced, hrole⟩ hnone
    obtain ⟨drafts', hs', hdrafts'⟩ := resume_pays f hrole (hardhat.serve i.network g c).2
    rw [hnone, Option.elim_none, List.append_nil] at hdrafts'
    rw [← hdrafts, ← hdrafts']
    exact hs.trans hs'

/-- What an operation takes up is in the log when it has returned. -/
theorem offers_logged (o : Order) {draft : BidDraft} (h : draft ∈ m.offers o) :
    (m.operate ids hardhat o).frontend.Logged draft := by
  have hop : o.operation.touchesAuction = false := by
    by_contra hop
    cases hc : o.operation <;> simp [offers, hc, Operation.touchesAuction] at h hop
  obtain ⟨new, hevents, hnew⟩ : Submits m.frontend (m.operate ids hardhat o).frontend
      (m.offers o) := @perform_submits m ids hardhat o.invocation hop
  have hmem : some draft ∈ new.map fun e => e.payload.submission? :=
    hnew ▸ List.mem_map_of_mem h
  obtain ⟨e, he, hdraft⟩ := List.mem_map.mp hmem
  unfold Frontend.Logged
  rw [hevents]
  exact List.mem_filterMap.mpr ⟨e, List.mem_append_right _ he, hdraft⟩

end Market

/-- The bids that a trigger makes up offer what the participants offer. -/
theorem Snapshot.bids_drafts (state : Snapshot) :
    state.bids.map Bid.draft = state.participants.map (·.draft state.auction.id) := by
  apply List.ext_getElem
  · simp [Snapshot.bids]
  · intro n h₁ h₂
    simp [Snapshot.bids, Bid.draft, Participant.draft]

theorem Snapshot.bids_auctionId {state : Snapshot} {bid : Bid} (h : bid ∈ state.bids) :
    bid.auctionId = state.auction.id := by
  obtain ⟨k, hk, rfl⟩ := List.mem_mapIdx.mp h
  rfl

/-- Participants with ids of one length get distinct bid ids, at whatever clock readings. -/
theorem Snapshot.bids_nodup {state : Snapshot} {k : ℕ}
    (hlen : ∀ p ∈ state.participants, p.id.toList.length = k)
    (hn : (state.participants.map Participant.id).Nodup) : (state.bids.map Bid.id).Nodup := by
  have hids : (state.bids.map Bid.id).map (fun s => (s.toList.drop 4).take k) =
      (state.participants.map Participant.id).map String.toList := by
    apply List.ext_getElem
    · simp [Snapshot.bids]
    · intro n h₁ h₂
      have hlt : n < state.participants.length := by simpa using h₂
      have hp : state.participants[n].id.toList.length = k := hlen _ (List.getElem_mem hlt)
      have htake : ∀ ys, (state.participants[n].id.toList ++ ys).take k =
          state.participants[n].id.toList := by
        intro ys
        rw [← hp]
        exact List.take_left
      simp [Snapshot.bids, String.toList_append, htake]
  apply List.Nodup.of_map
  rw [hids]
  exact hn.map fun _ _ h => String.toList_injective h

theorem Standing.ids_nodup {redispatchEvent : RedispatchEvent} {f : Frontend}
    (h : Standing redispatchEvent f) : (f.model.participants.map Participant.id).Nodup := by
  have hinit : (initialParticipants.map Participant.id).Nodup := by decide
  exact h.participants ▸ hinit

theorem Standing.bids_nodup {redispatchEvent : RedispatchEvent} {f : Frontend}
    (h : Standing redispatchEvent f) (auction : Auction) (now : ℕ → ℕ) :
    ((f.snapshot auction now).bids.map Bid.id).Nodup := by
  apply Snapshot.bids_nodup (k := 13) ?_ h.ids_nodup
  intro p hp
  have hid : p.id ∈ initialParticipants.map Participant.id :=
    h.participants ▸ List.mem_map_of_mem hp
  have hall : ∀ id ∈ initialParticipants.map Participant.id, id.toList.length = 13 := by decide
  exact hall p.id hid

/-- An accepted entry of an outcome is the entry of a bid that passed `filterValidBids`. -/
theorem accepted_valid {input : AuctionInput} {output : AuctionOutput}
    (hout : processAuction input = .ok output) (hn : (input.bids.map Bid.id).Nodup)
    {r : ParticipantResolution} (hr : r ∈ output.result.participantResolutions)
    (hstatus : r.status = .accepted) :
    ∃ bid ∈ filterValidBids input.bids input.config,
      r.participantId = bid.participantId ∧ r.bidPowerMW = bid.powerMW ∧
        r.bidPricePerMW = bid.pricePerMW := by
  obtain ⟨-, hsel, hresult⟩ := processAuction_inv hout
  have hs : output.selectedBids.Subperm (filterValidBids input.bids input.config) :=
    hsel ▸ awardedBids_subperm_valid input
  rw [hresult] at hr
  obtain ⟨bid, hb, rfl⟩ := List.mem_map.mp hr
  have hsub : output.selectedBids.Subperm input.bids := hsel ▸ awardedBids_subperm input
  have hmem : bid ∈ output.selectedBids :=
    (key_mem_iff hn hsub hb).mp (resolveParticipant_status.mp hstatus)
  exact ⟨bid, hs.subset hmem, rfl, rfl, rfl⟩

theorem lastOffer_mem {past : List BidDraft} {auctionId participantId : String}
    {draft : BidDraft} (h : lastOffer past auctionId participantId = some draft) :
    draft ∈ past ∧ draft.participantId = participantId := by
  obtain ⟨hpast, hdraft⟩ := List.mem_filter.mp (List.mem_of_getLast? h)
  simp only [decide_eq_true_eq] at hdraft
  exact ⟨hpast, hdraft.2⟩

namespace Snapshot

variable {state : Snapshot} {past : List BidDraft}

/-- An eligible bid of the trigger was taken up. -/
theorem Offered.mem (h : state.Offered past) {bid : Bid}
    (hbid : bid ∈ filterValidBids state.bids state.auctionInput.config) : bid.draft ∈ past := by
  obtain ⟨hb, hvalid⟩ := List.mem_filter.mp hbid
  have hdraft : bid.draft ∈ state.bids.map Bid.draft := List.mem_map_of_mem hb
  rw [bids_drafts] at hdraft
  obtain ⟨p, hp, hpage⟩ := List.mem_map.mp hdraft
  have hpageOffer : (some (p.draft state.auction.id)).filter
      (·.isEligible state.auctionInput.config) = some bid.draft := by
    rw [hpage]
    exact Option.filter_eq_some_iff.mpr ⟨rfl, hvalid⟩
  rw [h p hp] at hpageOffer
  exact (lastOffer_mem (Option.eq_some_of_filter_eq_some hpageOffer)).1

/-- The eligible bids of the trigger are the eligible bids that were taken up. -/
theorem Offered.drafts (h : state.Offered past) :
    (filterValidBids state.bids state.auctionInput.config).map Bid.draft =
      (filterValidBids (state.offeredInput past).bids state.auctionInput.config).map Bid.draft := by
  have hfilter (bids : List Bid) : (filterValidBids bids state.auctionInput.config).map Bid.draft =
      (bids.map Bid.draft).filter (·.isEligible state.auctionInput.config) := by
    rw [List.filter_map]
    rfl
  have hoffered : (state.offeredInput past).bids.map Bid.draft =
      state.participants.filterMap fun p => lastOffer past state.auction.id p.id := by
    rw [offeredInput, List.map_map]
    exact List.map_id _
  rw [hfilter, hfilter, bids_drafts, hoffered, ← List.filterMap_eq_map', List.filter_filterMap,
    List.filter_filterMap]
  exact List.filterMap_congr h

theorem offeredInput_nodup (hn : (state.participants.map Participant.id).Nodup) :
    ((state.offeredInput past).bids.map Bid.id).Nodup := by
  rw [offeredInput, List.map_map]
  refine hn.sublist ?_
  exact map_filterMap_sublist (fun p draft hdraft => (lastOffer_mem hdraft).2) _

/-- The trigger has the winners of the bids that were taken up. -/
theorem Offered.sameWinners (h : state.Offered past)
    (hn : (state.participants.map Participant.id).Nodup) (hids : (state.bids.map Bid.id).Nodup)
    {output : AuctionOutput} (hout : processAuction state.auctionInput = .ok output) :
    SameWinners (state.offeredResult past) output.result := by
  obtain ⟨-, hsel, hresult⟩ := processAuction_inv hout
  have hterms : List.Forall₂ Bid.SameTerms
      (filterValidBids (state.offeredInput past).bids state.auctionInput.config)
      (filterValidBids state.bids state.auctionInput.config) := by
    apply sameTerms_of_map
    have hdrafts := congrArg (List.map fun draft : BidDraft =>
      (draft.participantId, draft.powerMW, draft.pricePerMW)) h.drafts
    rwa [List.map_map, List.map_map] at hdrafts
  rw [hresult, hsel]
  exact sameWinners_of_sameTerms hterms (offeredInput_nodup hn) hids state.auction
    state.redispatchEvent

end Snapshot

namespace Market

/-- A trigger that gets as far as step 5 stores the outcome of the participants as they stand. -/
theorem trigger_stored (m : Market) {now : ℕ → ℕ} {receipts : ℕ → BlockchainTransaction}
    (hresolving : (m.outcome ids hardhat
      (Order.invocation ⟨.triggerAuction now, receipts⟩)).awaited.any Suspended.isResolving = true)
    {result : AuctionResult} (hresult : result ∈
      (m.operate ids hardhat ⟨.triggerAuction now, receipts⟩).frontend.model.auctionResult) :
    ∃ auction output, m.Guard auction ∧ m.Open hardhat ∧
      processAuction (m.frontend.snapshot auction now).auctionInput = .ok output ∧
        output.result = result := by
  have ht : Triggered ids hardhat m now (fun k => .confirms (receipts k))
      (m.operate ids hardhat ⟨.triggerAuction now, receipts⟩).frontend _ _ := m.triggered now _
  simp only [Order.invocation] at hresolving
  generalize (m.operate ids hardhat ⟨.triggerAuction now, receipts⟩).frontend = f at ht hresult
  generalize (m.outcome ids hardhat _).awaited = awaited at ht hresolving
  generalize (m.outcome ids hardhat _).env.chain = chain at ht
  cases ht with
  | ignored => cases hresolving
  | notEnded => cases hresolving
  | unconfirmed => cases hresolving
  | unread => cases hresolving
  | invalid => cases hresolving
  | resolved auction tx tx' output f hguard hopen hfate hread hout hf =>
    have hstore : f.model.auctionResult = some output.result :=
      (Triggered.resolved_quiet hf).auctionResult
    exact ⟨auction, output, hguard, hopen, hout, Option.some.inj (hstore.symm.trans hresult)⟩

/-- One trigger that finds on the page what was taken up. -/
theorem trigger_backed {redispatchEvent : RedispatchEvent}
    (hs : Standing redispatchEvent m.frontend) {past : List BidDraft}
    (hpast : ∀ draft ∈ past, m.frontend.Logged draft) {o : Order}
    (h : OffersStand hardhat (m, past) o) :
    m.ResultBacked ids hardhat o ∧ ResultOffered ids hardhat (m, past) o := by
  obtain ⟨op, receipts⟩ := o
  cases op with
  | triggerAuction now =>
    have hstored {result : AuctionResult} (hresolving : (m.outcome ids hardhat
        (Order.invocation ⟨.triggerAuction now, receipts⟩)).awaited.any
          Suspended.isResolving = true)
        (hresult : result ∈ (m.operate ids hardhat
          ⟨.triggerAuction now, receipts⟩).frontend.model.auctionResult) :
        ∃ auction output, m.frontend.model.auction = some auction ∧
          (m.frontend.snapshot auction now).Offered past ∧
          processAuction (m.frontend.snapshot auction now).auctionInput = .ok output ∧
            output.result = result := by
      obtain ⟨auction, output, hguard, hopen, hout, hresult⟩ :=
        m.trigger_stored hresolving hresult
      have hpower : 0 < m.frontend.model.redispatchEvent.powerMW :=
        (validateInput_ok_iff.mp (processAuction_inv hout).1).2
      exact ⟨auction, output, hguard.auction, h now rfl auction hguard.auction hguard.bidPlaced
        hopen.owner hopen.collecting hpower, hout, hresult⟩
    constructor
    · rintro _ - hresolving result hresult r hr hstatus
      obtain ⟨auction, output, hauction, hoffered, hout, rfl⟩ := hstored hresolving hresult
      obtain ⟨bid, hb, hid, hpower, hprice⟩ :=
        accepted_valid hout (hs.bids_nodup auction now) hr hstatus
      have hentry : (⟨output.result.auctionId, r.participantId, r.bidPowerMW, r.bidPricePerMW⟩ :
          BidDraft) = bid.draft := by
        have hauction : bid.auctionId = auction.id :=
          Snapshot.bids_auctionId (List.mem_filter.mp hb).1
        rw [(processAuction_inv hout).2.2, hid, hpower, hprice, Bid.draft, hauction]
        rfl
      rw [hentry]
      exact hpast _ (hoffered.mem hb)
    · rintro now' hnow hresolving auction hauction result hresult
      cases hnow
      obtain ⟨auction', output, hauction', hoffered, hout, rfl⟩ := hstored hresolving hresult
      cases hauction.symm.trans hauction'
      exact hoffered.sameWinners hs.ids_nodup (hs.bids_nodup auction now) hout
  | _ =>
    constructor
    · rintro now ⟨⟩
    · rintro now ⟨⟩

end Market

/-- In every sequential run whose triggers find on the page what was taken up for the auction,
every stored result pays submitted bids only, and is the outcome of the bids that were taken up. -/
theorem results_backed (ids : ℕ → IdSource) (hardhat : Hardhat) (deployer : Address)
    (grants : List (Euint32 × Address)) (redispatchEvent : RedispatchEvent) (orders : List Order)
    (h : Along (recorded (Market.operate ids hardhat) Market.offers) (Market.OffersStand hardhat)
      (.initial deployer grants redispatchEvent, []) orders) :
    Along (Market.operate ids hardhat) (Market.ResultBacked ids hardhat)
        (.initial deployer grants redispatchEvent) orders ∧
      Along (recorded (Market.operate ids hardhat) Market.offers)
        (Market.ResultOffered ids hardhat) (.initial deployer grants redispatchEvent, [])
        orders := by
  let I : Market × List BidDraft → Prop := fun s =>
    Standing redispatchEvent s.1.frontend ∧ ∀ draft ∈ s.2, s.1.frontend.Logged draft
  have hstep : ∀ s o, I s → I (recorded (Market.operate ids hardhat) Market.offers s o) := by
    rintro ⟨m, past⟩ o ⟨hs, hpast⟩
    refine ⟨hs.perform o.invocation, ?_⟩
    intro draft hdraft
    rcases List.mem_append.mp hdraft with hdraft | hdraft
    · exact (hpast draft hdraft).mono (m.operate_events ids hardhat o)
    · exact m.offers_logged o hdraft
  have hinitial : I (.initial deployer grants redispatchEvent, []) := ⟨⟨rfl, rfl⟩, by simp⟩
  have hback : Along (recorded (Market.operate ids hardhat) Market.offers)
      (fun s o => s.1.ResultBacked ids hardhat o ∧ Market.ResultOffered ids hardhat s o)
      (.initial deployer grants redispatchEvent, []) orders := by
    intro before o after ho
    have hinv : I (run _ _ before) := run_invariant hstep hinitial before
    exact Market.trigger_backed hinv.1 hinv.2 (h before o after ho)
  refine ⟨?_, hback.mono fun s o h => h.2⟩
  intro before o after ho
  have hrun : (run (recorded (Market.operate ids hardhat) Market.offers)
      (.initial deployer grants redispatchEvent, []) before).1 =
      run (Market.operate ids hardhat) (.initial deployer grants redispatchEvent) before :=
    run_recorded Market.offers _ before
  rw [← hrun]
  exact (hback before o after ho).1

/-- All participants bid, and nobody is edited before the trigger. -/
theorem uneditedRun_backed :
    Along (Market.operate (fun _ => .server) ⟨0, fun _ => true⟩)
        (Market.ResultBacked (fun _ => .server) ⟨0, fun _ => true⟩)
        (.initial 0 [] mockRedispatchEvent)
        [order .broadcastAuction, order .broadcastAllBids, order (.triggerAuction fun _ => 0)] ∧
      Along (recorded (Market.operate (fun _ => .server) ⟨0, fun _ => true⟩) Market.offers)
        (Market.ResultOffered (fun _ => .server) ⟨0, fun _ => true⟩)
        (.initial 0 [] mockRedispatchEvent, [])
        [order .broadcastAuction, order .broadcastAllBids, order (.triggerAuction fun _ => 0)] :=
  results_backed _ _ _ _ _ _ (by decide +kernel)

/-- The first participant is edited after the broadcast, and the 60 MW it never submitted are
accepted. -/
theorem editedRun_not_backed :
    ¬Along (Market.operate (fun _ => .server) ⟨0, fun _ => true⟩)
      (Market.ResultBacked (fun _ => .server) ⟨0, fun _ => true⟩)
      (.initial 0 [] mockRedispatchEvent)
      [order .broadcastAuction, order .broadcastAllBids,
        order (.updateParticipant "participant-1" 60 10), order (.triggerAuction fun _ => 0)] := by
  decide +kernel

/-- A bid that would have won is edited away: all that is paid was submitted, but 70 MW are
accepted in the place of 80. -/
example :
    ¬Along (recorded (Market.operate (fun _ => .server) ⟨0, fun _ => true⟩) Market.offers)
      (Market.ResultOffered (fun _ => .server) ⟨0, fun _ => true⟩)
      (.initial 0 [] mockRedispatchEvent, [])
      [order .broadcastAuction, order .broadcastAllBids,
        order (.updateParticipant "participant-1" 50 45), order (.triggerAuction fun _ => 0)] := by
  decide +kernel

end GridFlex
