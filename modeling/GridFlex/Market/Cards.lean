import GridFlex.Auction.Savings
import GridFlex.Frontend.Record
import GridFlex.Market.BidIntegrity

/-! Embedding of the result cards of `app/page.tsx`: which resolution a participant is shown, and
that the cards together say what the result says. -/
namespace GridFlex
open Keyed Transition

namespace GridFlexibilityState

/-- `state.auctionResult?.participantResolutions?.find(r => r.participantId === participant.id)`. -/
def resolutionOf (state : GridFlexibilityState) (participant : Participant) :
    Option ParticipantResolution :=
  state.auctionResult.bind fun result =>
    result.participantResolutions.find? fun r => r.participantId = participant.id

/-- A figure of a participant's card; it is there only if the bid is accepted. -/
def shown (state : GridFlexibilityState) (figure : ParticipantResolution → ℚ)
    (participant : Participant) : ℚ :=
  match state.resolutionOf participant with
  | some r => if r.status = .accepted then figure r else 0
  | none => 0

end GridFlexibilityState

/-- What no edit changes of the participants. -/
def people (participants : List Participant) : List (String × String) :=
  participants.map fun p => (p.id, p.name)

/-- The participants whose state a trigger has taken, and the event. -/
structure Snapshot.Of (redispatchEvent : RedispatchEvent) (state : Snapshot) : Prop where
  redispatchEvent : state.redispatchEvent = redispatchEvent
  participants : people state.participants = people initialParticipants

theorem people_ids {participants : List Participant}
    (h : people participants = people initialParticipants) :
    participants.map Participant.id = initialParticipants.map Participant.id := by
  have hfst := congrArg (List.map Prod.fst) h
  simpa [people, Function.comp_def] using hfst

theorem enter_people (d : Desk) (e : Entry)
    (h : people d.participants = people initialParticipants) :
    people (d.enter e).participants = people initialParticipants := by
  cases e with
  | edit id powerMW pricePerMW =>
    rw [← h]
    simp only [Desk.enter, people, List.map_map]
    apply List.map_congr_left
    intro p _
    dsimp only [Function.comp]
    split <;> rfl
  | cleared => rfl
  | _ => exact h

/-- The stored result is that of a trigger over the people of the page. -/
structure Carded (redispatchEvent : RedispatchEvent) (s : System) : Prop where
  event : s.frontend.model.redispatchEvent = redispatchEvent
  participants : people s.frontend.model.participants = people initialParticipants
  snapshots : ∀ c ∈ s.calls, ∀ state, c.suspended.role.snapshot = some state →
    state.Of redispatchEvent
  result : ∀ result ∈ s.frontend.model.auctionResult, ∃ state output,
    Snapshot.Of redispatchEvent state ∧ processAuction state.auctionInput = .ok output ∧
      output.result = result

variable {ids : ℕ → IdSource} {redispatchEvent : RedispatchEvent}

/-- A trigger takes the participants and the event of the model. -/
theorem begin_snapshot {f : Frontend} {op : Operation} {c : Suspended}
    (hc : (f.begin ids op).2 = some c) {state : Snapshot} (hs : c.role.snapshot = some state) :
    state.participants = f.model.participants ∧
      state.redispatchEvent = f.model.redispatchEvent := by
  have hbegin := begin_cases ids f op
  rw [hc] at hbegin
  generalize (f.begin ids op).1 = f' at hbegin
  cases hbegin with
  | triggerAuction =>
    cases hs
    exact ⟨rfl, rfl⟩
  | _ => cases hs

theorem resume_snapshot {f : Frontend} {c c' : Suspended} {reply : Reply}
    (hc' : (f.resume ids c reply).2 = some c') {state : Snapshot}
    (hs : c'.role.snapshot = some state) : c.role.snapshot = some state := by
  have hseg : Segment ids f (some reply) (some c) (f.resume ids c reply).1
      (f.resume ids c reply).2 (c.replaces reply) := resume_segment f c reply
  rcases hseg.snapshot hc' hs with ⟨hnone, -⟩ | ⟨_, ⟨⟩, h⟩
  · cases hnone
  · exact h

/-- A segment that resumes no trigger at its data leaves the result, or clears it. -/
theorem Carded.result_step {f f' : Frontend} {reply : Option Reply} {call next : Option Suspended}
    {replaced : Bool} (hseg : Segment ids f reply call f' next replaced)
    (hcall : ∀ c ∈ call, ∀ state, c.role.snapshot = some state → state.Of redispatchEvent)
    (hresult : ∀ result ∈ f.model.auctionResult, ∃ state output,
      Snapshot.Of redispatchEvent state ∧ processAuction state.auctionInput = .ok output ∧
        output.result = result) :
    ∀ result ∈ f'.model.auctionResult, ∃ state output,
      Snapshot.Of redispatchEvent state ∧ processAuction state.auctionInput = .ok output ∧
        output.result = result := by
  rcases hseg.writes with ⟨-, he, -⟩ | ⟨auction, -, rfl, -⟩ | ⟨state, output, hc, -, hout, rfl, -⟩ |
    ⟨-, rfl, -⟩
  · rw [he]
    exact hresult
  · rintro _ ⟨⟩
  · rintro _ ⟨⟩
    exact ⟨state, output, hcall _ hc state rfl, hout, rfl⟩
  · rintro _ ⟨⟩

theorem Carded.step {s : System} (h : Carded redispatchEvent s) (a : Action) :
    Carded redispatchEvent (s.step ids a) := by
  have hpeople : people (s.step ids a).frontend.desk.participants =
      people initialParticipants := by
    rw [s.step_desk]
    exact run_invariant (I := fun (d : Desk) => people d.participants = people initialParticipants)
      enter_people h.participants _
  have hstanding : Standing redispatchEvent (s.step ids a).frontend :=
    System.step_frontend (fun f op hf => hf.start op) (fun f c reply hf => hf.resume c reply)
      ⟨h.event, people_ids h.participants⟩ a
  refine ⟨hstanding.redispatchEvent, hpeople, ?_, ?_⟩
  · cases a with
    | start op =>
      intro c hc state hs
      rcases List.mem_append.mp hc with hold | hnew
      · exact h.snapshots c hold state hs
      · obtain ⟨next, hnext, rfl⟩ := Option.map_eq_some_iff.mp (Option.mem_toList.mp hnew)
        obtain ⟨hparticipants, hevent⟩ := begin_snapshot hnext hs
        exact ⟨hevent.trans h.event, by rw [hparticipants]; exact h.participants⟩
    | resume i reply =>
      intro c hc state hs
      cases hi : s.calls[i]? with
      | none =>
        simp only [System.step, hi] at hc
        exact h.snapshots c hc state hs
      | some call =>
        simp only [System.step, hi, List.mem_append, or_assoc] at hc
        rcases hc with hold | hnew | hold
        · exact h.snapshots c (List.mem_of_mem_take hold) state hs
        · obtain ⟨next, hnext, rfl⟩ := Option.map_eq_some_iff.mp (Option.mem_toList.mp hnew)
          exact h.snapshots call (List.mem_of_getElem? hi) state (resume_snapshot hnext hs)
        · exact h.snapshots c (List.mem_of_mem_drop hold) state hs
  · cases a with
    | start op =>
      exact Carded.result_step (begin_segment s.frontend op) (by simp) h.result
    | resume i reply =>
      cases hi : s.calls[i]? with
      | none =>
        simp only [System.step, hi]
        exact h.result
      | some call =>
        simp only [System.step, hi]
        refine Carded.result_step (resume_segment s.frontend call.suspended reply) ?_ h.result
        rintro _ ⟨⟩
        exact h.snapshots call (List.mem_of_getElem? hi)

theorem Carded.run (actions : List Action) :
    Carded redispatchEvent (run (System.step ids) (.initial redispatchEvent) actions) := by
  apply run_invariant (I := Carded redispatchEvent)
  · exact fun s a h => h.step a
  · exact ⟨rfl, rfl, fun c hc => absurd hc List.not_mem_nil, by rintro _ ⟨⟩⟩

/-- The cards of a page, one for each participant, and the figures of its result. -/
structure CardsAgree (model : GridFlexibilityState) (result : AuctionResult) : Prop where
  cards : List.Forall₂ (fun p r => model.resolutionOf p = some r ∧ r.participantId = p.id ∧
    r.participantName = p.name) model.participants result.participantResolutions
  acceptedPowerMW : (model.participants.map
    (model.shown ParticipantResolution.acceptedPowerMW)).sum = result.acceptedPowerMW
  payoutEUR : (model.participants.map (model.shown ParticipantResolution.payoutEUR)).sum =
    result.participantPayoutEUR
  demand : result.acceptedPowerMW + result.remainingPowerMW = model.redispatchEvent.powerMW

theorem people_names {participants : List Participant}
    (h : people participants = people initialParticipants) {p : Participant}
    (hp : p ∈ participants) : participantName p.id = p.name := by
  have hwho : (p.id, p.name) ∈ people initialParticipants := h ▸ List.mem_map_of_mem hp
  obtain ⟨q, hq, he⟩ := List.mem_map.mp hwho
  have hall : ∀ q ∈ initialParticipants, participantName q.id = q.name := by decide +kernel
  obtain ⟨hid, hname⟩ := Prod.mk.inj he
  rw [← hid, ← hname]
  exact hall q hq

/-- What a result of a trigger over these people holds for each of them, in order. -/
theorem Snapshot.Of.entries {state : Snapshot} (h : state.Of redispatchEvent)
    {output : AuctionOutput} (hout : processAuction state.auctionInput = .ok output) :
    output.result.participantResolutions.map ParticipantResolution.participantId =
      initialParticipants.map Participant.id := by
  have hbids : state.bids.map Bid.participantId = state.participants.map Participant.id := by
    apply List.ext_getElem
    · simp [Snapshot.bids]
    · simp [Snapshot.bids]
  rw [(processAuction_inv hout).2.2, ← people_ids h.participants, ← hbids]
  simp [calculateAuctionResult, generateParticipantResolutions, Snapshot.auctionInput,
    resolveParticipant]

theorem Snapshot.Of.bids_nodup {state : Snapshot} (h : state.Of redispatchEvent) :
    (state.bids.map Bid.id).Nodup := by
  have hids := people_ids h.participants
  apply Snapshot.bids_nodup (k := 13)
  · intro p hp
    have hid : p.id ∈ initialParticipants.map Participant.id := hids ▸ List.mem_map_of_mem hp
    have hall : ∀ id ∈ initialParticipants.map Participant.id, id.toList.length = 13 := by decide
    exact hall p.id hid
  · have hinit : (initialParticipants.map Participant.id).Nodup := by decide
    exact hids ▸ hinit

/-- A figure of the resolutions that is zero for a rejected bid adds up to the total. -/
theorem sum_entries {input : AuctionInput} {output : AuctionOutput}
    (hout : processAuction input = .ok output) (hn : (input.bids.map Bid.id).Nodup) :
    (output.result.participantResolutions.map ParticipantResolution.acceptedPowerMW).sum =
        output.result.acceptedPowerMW ∧
      (output.result.participantResolutions.map ParticipantResolution.payoutEUR).sum =
        output.result.participantPayoutEUR := by
  obtain ⟨-, hsel, hresult⟩ := processAuction_inv hout
  have hs : output.selectedBids.Subperm input.bids := hsel ▸ awardedBids_subperm input
  rw [hresult]
  constructor
  · simpa [calculateAuctionResult, generateParticipantResolutions, resolveParticipant,
      Function.comp_def] using sum_resolved Bid.powerMW hn hs
  · simpa [calculateAuctionResult, generateParticipantResolutions, resolveParticipant,
      Function.comp_def] using sum_resolved bidValue hn hs

/-- An entry names its participant after the id. -/
theorem entry_name {input : AuctionInput} {output : AuctionOutput}
    (hout : processAuction input = .ok output) {r : ParticipantResolution}
    (hr : r ∈ output.result.participantResolutions) :
    r.participantName = participantName r.participantId := by
  rw [(processAuction_inv hout).2.2] at hr
  obtain ⟨bid, -, rfl⟩ := List.mem_map.mp hr
  rfl

/-- The figures of a rejected bid are zero. -/
theorem rejected_entry {input : AuctionInput} {output : AuctionOutput}
    (hout : processAuction input = .ok output) {r : ParticipantResolution}
    (hr : r ∈ output.result.participantResolutions) (hstatus : r.status ≠ .accepted) :
    r.acceptedPowerMW = 0 ∧ r.payoutEUR = 0 := by
  rw [(processAuction_inv hout).2.2] at hr
  obtain ⟨bid, -, rfl⟩ := List.mem_map.mp hr
  have hout : bid.id ∉ output.selectedBids.map Bid.id := by
    rwa [ne_eq, resolveParticipant_status] at hstatus
  simp [resolveParticipant, hout]

theorem map_eq_of_forall₂ {α β γ : Type*} {f : α → γ} {g : β → γ} {xs : List α} {ys : List β}
    (h : List.Forall₂ (fun x y => f x = g y) xs ys) : xs.map f = ys.map g := by
  rw [← List.forall₂_eq_eq_eq, List.forall₂_map_left_iff, List.forall₂_map_right_iff]
  exact h

theorem Carded.agree {s : System} (h : Carded redispatchEvent s) {result : AuctionResult}
    (hresult : s.frontend.model.auctionResult = some result) :
    CardsAgree s.frontend.model result := by
  obtain ⟨state, output, hstate, hout, rfl⟩ := h.result result hresult
  let model := s.frontend.model
  have hentries := hstate.entries hout
  have hids : output.result.participantResolutions.map ParticipantResolution.participantId =
      model.participants.map Participant.id := hentries.trans (people_ids h.participants).symm
  have hn : (output.result.participantResolutions.map
      ParticipantResolution.participantId).Nodup := by
    rw [hentries]
    decide
  have hcards : List.Forall₂ (fun p r => r ∈ output.result.participantResolutions ∧
      model.resolutionOf p = some r ∧ r.participantId = p.id ∧ r.participantName = p.name)
      model.participants output.result.participantResolutions := by
    have hlen : model.participants.length = output.result.participantResolutions.length := by
      simpa using congrArg List.length hids.symm
    refine List.forall₂_iff_get.mpr ⟨hlen, ?_⟩
    intro i hp hr
    let r := output.result.participantResolutions.get ⟨i, hr⟩
    let p := model.participants.get ⟨i, hp⟩
    have hid : r.participantId = p.id := by
      have hget := congrArg (·[i]?) hids
      simpa [r, p, hp, hr] using hget
    have hmem : r ∈ output.result.participantResolutions := List.get_mem _ _
    refine ⟨hmem, ?_, hid, ?_⟩
    · show s.frontend.model.auctionResult.bind _ = some r
      rw [hresult, Option.bind_some, ← hid]
      exact find?_key hn hmem
    · rw [← people_names h.participants (List.get_mem model.participants ⟨i, hp⟩)]
      show r.participantName = participantName p.id
      rw [← hid]
      exact entry_name hout hmem
  have hshown (figure : ParticipantResolution → ℚ)
      (hzero : ∀ r ∈ output.result.participantResolutions, r.status ≠ .accepted → figure r = 0) :
      model.participants.map (model.shown figure) =
        output.result.participantResolutions.map figure := by
    apply map_eq_of_forall₂
    refine hcards.imp ?_
    rintro p r ⟨hr, hfind, -⟩
    simp only [GridFlexibilityState.shown, hfind]
    split_ifs with hstatus
    · rfl
    · exact (hzero r hr hstatus).symm
  obtain ⟨hpower, hpayout⟩ := sum_entries hout hstate.bids_nodup
  refine ⟨hcards.imp fun p r hpr => hpr.2, ?_, ?_, ?_⟩
  · rw [hshown _ fun r hr hstatus => (rejected_entry hout hr hstatus).1, hpower]
  · rw [hshown _ fun r hr hstatus => (rejected_entry hout hr hstatus).2, hpayout]
  · have hmin : (0 : ℚ) ≤ state.auctionInput.config.minBidPowerMW := zero_le_one
    have hremaining : output.result.remainingPowerMW =
        state.redispatchEvent.powerMW - output.result.acceptedPowerMW :=
      (processAuction_withinLimits hmin hout).remaining
    rw [hremaining, hstate.redispatchEvent, h.event]
    exact add_sub_cancel _ _

/-- Under every interleaving each participant's card shows that participant's own entry of the
stored result, under the participant's name, and the cards add up to the figures that the
operator is shown. -/
theorem cards_agree (ids : ℕ → IdSource) (redispatchEvent : RedispatchEvent)
    (actions : List Action) (result : AuctionResult)
    (hresult : (run (System.step ids) (.initial redispatchEvent)
      actions).frontend.model.auctionResult = some result) :
    CardsAgree (run (System.step ids) (.initial redispatchEvent) actions).frontend.model result :=
  (Carded.run actions).agree hresult

/-- A participant's offer is edited while the trigger waits for the collected data. -/
def editedTrigger : List Action :=
  [.start .broadcastAuction, .resume 0 (.transaction mockTransaction), .resume 0 .settled,
    .start (.updateBidPower 10), .start (.updateBidPrice 5), .start .placeBid, .resume 0 .settled,
    .start (.triggerAuction fun k => k), .resume 0 (.transaction mockTransaction),
    .start (.updateParticipant "participant-2" 70 90), .resume 0 (.collected [] [])]

theorem editedTrigger_cards_agree :
    ∃ result, CardsAgree (run (System.step fun _ => .server) (.initial mockRedispatchEvent)
      editedTrigger).frontend.model result := by
  obtain ⟨result, hresult⟩ : ∃ result, (run (System.step fun _ => .server)
      (.initial mockRedispatchEvent) editedTrigger).frontend.model.auctionResult = some result :=
    Option.isSome_iff_exists.mp (by decide +kernel)
  exact ⟨result, cards_agree _ _ editedTrigger result hresult⟩

end GridFlex
