import GridFlex.Market.Log

/-! A resolved auction is never resolved again, but the controller goes on taking up bids for
it: its guards ask for an auction, and not for an active one. -/
namespace GridFlex
open Transition

/-- The auction that a result is for. -/
def EventPayload.resolves? (p : EventPayload) : Option String :=
  p.result?.map AuctionResult.auctionId

/-- After the result of an auction comes no bid for it, and no other result. -/
def LogClosed (events : List GridFlexibilityEvent) : Prop :=
  events.Pairwise fun e e' => ∀ id ∈ e.payload.resolves?, id ∉ e'.payload.concerns?

instance : DecidablePred LogClosed := fun events =>
  inferInstanceAs (Decidable (events.Pairwise fun e e' =>
    ∀ id ∈ e.payload.resolves?, id ∉ e'.payload.concerns?))

/-- The log holds a result of auction `id`. -/
def Resolved (events : List GridFlexibilityEvent) (id : String) : Prop :=
  ∃ e ∈ events, id ∈ e.payload.resolves?

/-- No bid is taken up while the page shows a completed auction. -/
def Market.KeepsClosed (m : Market) (o : Order) : Prop :=
  ∀ a ∈ m.frontend.model.auction, a.status = .completed → m.offers o = []

theorem resolved_append {events new : List GridFlexibilityEvent} {id : String} :
    Resolved (events ++ new) id ↔ Resolved events id ∨ Resolved new id := by
  simp only [Resolved, List.mem_append, or_and_right, exists_or]

theorem resolved_singleton {e : GridFlexibilityEvent} {id : String} :
    Resolved [e] id ↔ id ∈ e.payload.resolves? := by
  simp [Resolved]

/-- Events without a result extend a closed log as long as they are not about what is resolved. -/
theorem logClosed_append {events new : List GridFlexibilityEvent} (h : LogClosed events)
    (hnew : LogClosed new) : LogClosed (events ++ new) ↔
      ∀ id, Resolved events id → ∀ e ∈ new, id ∉ e.payload.concerns? := by
  unfold LogClosed
  rw [List.pairwise_append]
  constructor
  · rintro ⟨-, -, hcross⟩ id ⟨e, he, hid⟩ e' he'
    exact hcross e he e' he' id hid
  · intro hcross
    exact ⟨h, hnew, fun e he e' he' id hid => hcross id ⟨e, he, hid⟩ e' he'⟩

theorem logClosed_singleton (e : GridFlexibilityEvent) : LogClosed [e] :=
  List.pairwise_singleton _ e

theorem submission_resolves {p : EventPayload} {draft : BidDraft}
    (h : p.submission? = some draft) : p.resolves? = none := by
  rw [EventPayload.resolves?, (submission_spec h).2.2, Option.map_none]

namespace Submits

variable {f g : Frontend} {drafts : List BidDraft}

theorem resolved_iff (h : Submits f g drafts) {id : String} :
    Resolved g.events id ↔ Resolved f.events id := by
  obtain ⟨new, hevents, hnew, -⟩ := h.new
  rw [hevents, resolved_append]
  apply or_iff_left
  rintro ⟨e, he, hid⟩
  obtain ⟨draft, -, hsub⟩ := hnew e he
  rw [submission_resolves hsub] at hid
  cases hid

/-- Submissions keep a log closed exactly when none of them is for a resolved auction. -/
theorem logClosed_iff (h : Submits f g drafts) (hf : LogClosed f.events) :
    LogClosed g.events ↔ ∀ draft ∈ drafts, ¬Resolved f.events draft.auctionId := by
  obtain ⟨new, hevents, hnew, hall⟩ := h.new
  have hclosed : LogClosed new := by
    apply List.pairwise_of_forall_mem_list
    intro e he e' he' id hid
    obtain ⟨draft, -, hsub⟩ := hnew e he
    rw [submission_resolves hsub] at hid
    cases hid
  rw [hevents, logClosed_append hf hclosed]
  constructor
  · intro hcross draft hdraft hres
    obtain ⟨e, he, hsub⟩ := hall draft hdraft
    exact hcross _ hres e he (submission_spec hsub).1
  · intro hdrafts id hres e he hid
    obtain ⟨draft, hdraft, hsub⟩ := hnew e he
    rw [(submission_spec hsub).1] at hid
    cases hid
    exact hdrafts draft hdraft hres

end Submits

theorem Market.offers_auctionId {m : Market} {o : Order} {draft : BidDraft}
    (h : draft ∈ m.offers o) : ∃ a ∈ m.frontend.model.auction, draft.auctionId = a.id := by
  obtain ⟨op, receipts⟩ := o
  cases ha : m.frontend.model.auction with
  | none => cases op <;> simp [offers, ha] at h
  | some auction =>
    refine ⟨auction, rfl, ?_⟩
    cases op with
    | broadcastAllBids =>
      simp only [offers, ha, List.mem_map] at h
      obtain ⟨p, -, rfl⟩ := h
      rfl
    | placeBid =>
      simp only [offers, ha] at h
      split at h
      · cases h
      · rw [List.mem_singleton.mp h]
    | _ => simp [offers] at h

/-- The auction of the page is completed exactly when its result is in the log, and then the
contract no longer collects. -/
structure Settled (ids : ℕ → IdSource) (m : Market) : Prop where
  auction : ∀ a ∈ m.frontend.model.auction, Issued ids m.frontend.idCounter a.id
  resolved : ∀ id, Resolved m.frontend.events id → Issued ids m.frontend.idCounter id
  status : ∀ a ∈ m.frontend.model.auction,
    a.status = .completed ↔ Resolved m.frontend.events a.id
  shut : ∀ a ∈ m.frontend.model.auction, a.status = .completed →
    m.chain.collector.collecting = false

variable {ids : ℕ → IdSource} {hardhat : Hardhat} {m m' : Market} {o : Order}

theorem initial_settled (deployer : Address) (grants : List (Euint32 × Address))
    (redispatchEvent : RedispatchEvent) :
    Settled ids (.initial deployer grants redispatchEvent) := by
  refine ⟨by rintro _ ⟨⟩, ?_, by rintro _ ⟨⟩, by rintro _ ⟨⟩⟩
  rintro id ⟨e, he, -⟩
  cases he

/-- The same auction and the same results, and a collection that may have been closed. -/
theorem Settled.keep (h : Settled ids m)
    (hauction : m'.frontend.model.auction = m.frontend.model.auction)
    (hcounter : m.frontend.idCounter ≤ m'.frontend.idCounter)
    (hres : ∀ id, Resolved m'.frontend.events id ↔ Resolved m.frontend.events id)
    (hchain : m.chain.collector.collecting = false → m'.chain.collector.collecting = false) :
    Settled ids m' where
  auction a ha := (h.auction a (hauction ▸ ha)).mono hcounter
  resolved id hid := (h.resolved id ((hres id).mp hid)).mono hcounter
  status a ha := by
    rw [hres]
    exact h.status a (hauction ▸ ha)
  shut a ha hs := hchain (h.shut a (hauction ▸ ha) hs)

theorem Settled.operated (h : Settled ids m) (ho : Operated ids hardhat m o.invocation m') :
    Settled ids m' := by
  cases ho with
  | bids hauction hchain hcounter hsubmits =>
    apply h.keep hauction hcounter fun _ => hsubmits.resolved_iff
    rw [hchain]
    exact id
  | refused hoffers hauction hchain hcounter hevents =>
    apply h.keep hauction hcounter.ge fun _ => by rw [hevents]
    intro hshut
    rcases hchain with hchain | hchain | hfate
    · rw [hchain]
      exact hshut
    · rw [hchain]
      rfl
    · cases hfate
  | broadcasts auction tx e hop howner hfate hid hactive hterms hauction hcounter hpayload
      hevents =>
    have hres : ∀ id, Resolved m'.frontend.events id ↔ Resolved m.frontend.events id := by
      intro id
      rw [hevents, resolved_append, resolved_singleton, hpayload]
      simp [EventPayload.resolves?, EventPayload.result?]
    refine ⟨?_, ?_, ?_, ?_⟩
    · intro a ha
      cases hauction.symm.trans ha
      rw [hid]
      exact (generateId_issued ids _).mono hcounter
    · intro id hr
      exact (h.resolved id ((hres id).mp hr)).mono hcounter.le
    · intro a ha
      cases hauction.symm.trans ha
      apply iff_of_false
      · rw [hactive]
        exact AuctionStatus.noConfusion
      · intro hr
        exact generateId_ne (h.resolved auction.id ((hres _).mp hr)) hid.symm
    · intro a ha hs
      cases hauction.symm.trans ha
      rw [hactive] at hs
      cases hs
  | resolves auction e result served bid hoffers hguard hopen hauction hchain hcounter hid hpayload
      hevents =>
    have hres : ∀ id, Resolved m'.frontend.events id ↔
        Resolved m.frontend.events id ∨ id = auction.id := by
      intro id
      rw [hevents, resolved_append, resolved_singleton, hpayload]
      simp [EventPayload.resolves?, EventPayload.result?, hid, eq_comm]
    refine ⟨?_, ?_, ?_, ?_⟩
    · intro a ha
      cases hauction.symm.trans ha
      exact (h.auction auction hguard.auction).mono hcounter
    · intro id hr
      rcases (hres id).mp hr with hr | rfl
      · exact (h.resolved id hr).mono hcounter
      · exact (h.auction auction hguard.auction).mono hcounter
    · intro a ha
      cases hauction.symm.trans ha
      exact iff_of_true rfl ((hres _).mpr (Or.inr rfl))
    · intro a ha hs
      rw [hchain]
      rfl
  | resets e reason hoffers hauction hcounter hpayload hevents =>
    have hnone : ∀ a, a ∉ m'.frontend.model.auction := by simp [hauction]
    refine ⟨fun a ha => absurd ha (hnone a), ?_, fun a ha => absurd ha (hnone a),
      fun a ha => absurd ha (hnone a)⟩
    intro id hr
    rw [hevents, resolved_append, resolved_singleton, hpayload] at hr
    rcases hr with hr | hr
    · exact (h.resolved id hr).mono hcounter
    · cases hr

/-- An event that is about nothing, or about an auction without a result, keeps a log closed. -/
theorem logClosed_concat {events : List GridFlexibilityEvent} (h : LogClosed events)
    {e : GridFlexibilityEvent} (he : ∀ id ∈ e.payload.concerns?, ¬Resolved events id) :
    LogClosed (events ++ [e]) := by
  rw [logClosed_append h (logClosed_singleton e)]
  intro id hres e' he' hid
  rw [List.mem_singleton.mp he'] at hid
  exact he id hid hres

/-- The log of a settled market stays closed exactly when no bid comes after the result. -/
theorem Settled.logClosed_iff (h : Settled ids m) (hlog : LogClosed m.frontend.events)
    (ho : Operated ids hardhat m o.invocation m') :
    LogClosed m'.frontend.events ↔ m.KeepsClosed o := by
  cases ho with
  | bids hauction hchain hcounter hsubmits =>
    rw [hsubmits.logClosed_iff hlog]
    constructor
    · intro hopen a ha hs
      rw [List.eq_nil_iff_forall_not_mem]
      intro draft hdraft
      obtain ⟨a', ha', hid⟩ := m.offers_auctionId hdraft
      cases Option.some.inj (ha.symm.trans ha')
      exact hopen draft hdraft (hid ▸ (h.status a ha).mp hs)
    · intro hkeeps draft hdraft hres
      obtain ⟨a, ha, hid⟩ := m.offers_auctionId hdraft
      have hnil : m.offers (order o.invocation.operation) = [] :=
        hkeeps a ha ((h.status a ha).mpr (hid ▸ hres))
      rw [hnil] at hdraft
      cases hdraft
  | refused hoffers hauction hchain hcounter hevents =>
    rw [hevents]
    exact iff_of_true hlog fun _ _ _ => hoffers
  | broadcasts auction tx e hop howner hfate hid hactive hterms hauction hcounter hpayload
      hevents =>
    rw [hevents]
    refine iff_of_true (logClosed_concat hlog ?_) fun _ _ _ => ?_
    · simp [hpayload, EventPayload.concerns?]
    · have hop' : o.operation = .broadcastAuction := hop
      simp [Market.offers, hop']
  | resolves auction e result served bid hoffers hguard hopen hauction hchain hcounter hid hpayload
      hevents =>
    rw [hevents]
    refine iff_of_true (logClosed_concat hlog ?_) fun _ _ _ => hoffers
    intro id hconcerns hres
    rw [hpayload] at hconcerns
    cases hconcerns
    -- a completed auction would have left the collection closed, and the trigger refused
    have hs : auction.status = .completed := (h.status auction hguard.auction).mpr (hid ▸ hres)
    have hshut : m.chain.collector.collecting = false := h.shut auction hguard.auction hs
    rw [hopen.collecting] at hshut
    cases hshut
  | resets e reason hoffers hauction hcounter hpayload hevents =>
    rw [hevents]
    refine iff_of_true (logClosed_concat hlog ?_) fun _ _ _ => hoffers
    simp [hpayload, EventPayload.concerns?]

/-- The guards that the model offers to the page, and that the controller does not ask for. -/
def Market.Guarded (m : Market) (o : Order) : Prop :=
  match o.operation with
  | .placeBid => m.frontend.model.canPlaceBid = true
  | .broadcastAllBids => m.frontend.model.canBroadcastBids = true
  | _ => True

theorem Market.Guarded.keepsClosed (h : m.Guarded o) : m.KeepsClosed o := by
  intro a ha hs
  have hactive : m.frontend.model.isAuctionActive = false := by
    simp [GridFlexibilityState.isAuctionActive, Option.mem_def.mp ha, hs]
  obtain ⟨op, receipts⟩ := o
  cases op with
  | placeBid =>
    have hcan : m.frontend.model.canPlaceBid = true := h
    simp [GridFlexibilityState.canPlaceBid, hactive] at hcan
  | broadcastAllBids =>
    have hcan : m.frontend.model.canBroadcastBids = true := h
    simp [GridFlexibilityState.canBroadcastBids, hactive] at hcan
  | _ => rfl

/-- Under those guards, no run ever logs a bid or a result after the result of its auction. -/
theorem guarded_log_closed (ids : ℕ → IdSource) (hardhat : Hardhat) (deployer : Address)
    (grants : List (Euint32 × Address)) (redispatchEvent : RedispatchEvent)
    {orders : List Order} (h : Along (Market.operate ids hardhat) Market.Guarded
      (.initial deployer grants redispatchEvent) orders) :
    LogClosed (run (Market.operate ids hardhat) (.initial deployer grants redispatchEvent)
      orders).frontend.events := by
  have hboth := run_invariant_along
    (I := fun m : Market => Settled ids m ∧ LogClosed m.frontend.events)
    (fun m o ⟨hsettled, hlog⟩ hguard =>
      ⟨hsettled.operated (m.operated ids hardhat o),
        (hsettled.logClosed_iff hlog (m.operated ids hardhat o)).mpr hguard.keepsClosed⟩)
    ⟨initial_settled deployer grants redispatchEvent, List.Pairwise.nil⟩ h
  exact hboth.2

/-- In every sequential run, no bid and no result follows the result of an auction if and only
if no operation takes up bids while the page shows a completed auction. -/
theorem log_closed_iff (ids : ℕ → IdSource) (hardhat : Hardhat) (deployer : Address)
    (grants : List (Euint32 × Address)) (redispatchEvent : RedispatchEvent)
    (orders : List Order) :
    let m₀ := Market.initial deployer grants redispatchEvent
    LogClosed (run (Market.operate ids hardhat) m₀ orders).frontend.events ↔
      Along (Market.operate ids hardhat) Market.KeepsClosed m₀ orders := by
  intro m₀
  have hprefixes : (∀ before after, orders = before ++ after →
      LogClosed (run (Market.operate ids hardhat) m₀ before).frontend.events) ↔
      Along (Market.operate ids hardhat) Market.KeepsClosed m₀ orders := by
    apply forall_prefix_iff_along (J := Settled ids)
      (I := fun m : Market => LogClosed m.frontend.events)
    · exact fun m o h => h.operated (m.operated ids hardhat o)
    · exact fun m o h hlog => h.logClosed_iff hlog (m.operated ids hardhat o)
    · exact initial_settled deployer grants redispatchEvent
    · exact List.Pairwise.nil
  rw [← hprefixes]
  constructor
  · rintro hlog before after rfl
    have hgrow : (run (Market.operate ids hardhat) m₀ before).frontend.events <+:
        (run (Market.operate ids hardhat) m₀ (before ++ after)).frontend.events := by
      rw [run_append]
      exact run_invariant
        (I := fun m : Market => (run (Market.operate ids hardhat) m₀ before).frontend.events <+:
          m.frontend.events)
        (fun m o h => h.trans (m.operate_events ids hardhat o)) (List.prefix_refl _) after
    exact List.Pairwise.sublist hgrow.sublist hlog
  · intro hall
    exact hall orders [] (List.append_nil orders).symm

/-- Bids are broadcast again after the result of the auction. -/
theorem lateBids_not_closed :
    ¬LogClosed (run (Market.operate (fun _ => .server) ⟨0, fun _ => true⟩)
      (.initial 0 [] mockRedispatchEvent)
      [order .broadcastAuction, order .broadcastAllBids, order (.triggerAuction fun _ => 0),
        order .broadcastAllBids]).frontend.events := by
  decide +kernel

end GridFlex
