import GridFlex.Frontend.Interleaving
import GridFlex.Lib.Register

/-! What the page keeps of its inputs: receipts, participant edits and the bid draft are, under
every interleaving, read off what has come in since the last reset. -/
namespace GridFlex
open Register Transition

/-- What the user and the node leave on the page. -/
inductive Entry where
  | receipt (tx : BlockchainTransaction)
  | edit (participantId : String) (powerMW pricePerMW : ℚ)
  | bidPower (powerMW : ℚ)
  | bidPrice (pricePerMW : ℚ)
  | opened (auctionId : String)
  | cleared

/-- The part of the model that no auction writes. -/
structure Desk where
  transactions : List BlockchainTransaction
  participants : List Participant
  bid : BidDraft

def Frontend.desk (f : Frontend) : Desk :=
  ⟨f.model.transactions, f.model.participants, f.model.bid⟩

def Desk.initial : Desk := ⟨[], initialParticipants, initialBid⟩

/-- The participant with another offer. -/
def Participant.revise (p : Participant) (offer : ℚ × ℚ) : Participant :=
  { p with powerMW := offer.1, pricePerMW := offer.2 }

def Desk.enter (d : Desk) : Entry → Desk
  | .receipt tx => { d with transactions := tx :: d.transactions }
  | .edit participantId powerMW pricePerMW =>
      { d with participants := d.participants.map fun p =>
          if p.id = participantId then p.revise (powerMW, pricePerMW) else p }
  | .bidPower powerMW => { d with bid := { d.bid with powerMW := powerMW } }
  | .bidPrice pricePerMW => { d with bid := { d.bid with pricePerMW := pricePerMW } }
  | .opened auctionId => { d with bid := { d.bid with auctionId := auctionId } }
  | .cleared => .initial

def Operation.entries : Operation → List Entry
  | .updateBidPower powerMW => [.bidPower powerMW]
  | .updateBidPrice pricePerMW => [.bidPrice pricePerMW]
  | .updateParticipant participantId powerMW pricePerMW =>
      [.edit participantId powerMW pricePerMW]
  | _ => []

def Suspended.entries : Suspended → Reply → List Entry
  | .startingCollection _, .transaction tx | .endingCollection _, .transaction tx
  | .submittingData _ _ _ _ _, .transaction tx => [.receipt tx]
  | .announcingAuction auction, .settled => [.opened auction.id]
  | .resetting, .settled => [.cleared]
  | _, _ => []

theorem Suspended.entries_unsettled {c : Suspended} {reply : Reply} (h : ¬c.SettledBy reply) :
    c.entries reply = [] := by
  cases c <;> cases reply <;> first | rfl | simp [SettledBy] at h

variable {ids : ℕ → IdSource}

theorem begin_desk (f : Frontend) (op : Operation) :
    (f.begin ids op).1.desk = run Desk.enter f.desk op.entries := by
  have hbegin := begin_cases ids f op
  generalize (f.begin ids op).1 = f', (f.begin ids op).2 = next at hbegin ⊢
  cases hbegin with
  | noAuction op hop => cases op <;> first | rfl | cases hop
  | _ => rfl

theorem receive_desk (f : Frontend) (reply : Reply) (auctionId : String)
    {valid : List Participant} (hv : valid ≠ []) (p : Participant) (rest : List Participant) :
    (f.receive reply).desk = run Desk.enter f.desk
      ((Suspended.submittingData auctionId valid hv p rest).entries reply) := by
  cases reply <;> rfl

theorem announceNext_desk (f : Frontend) (auctionId : String) (valid rest : List Participant) :
    (f.announceNext ids auctionId valid rest).1.desk = f.desk := by
  cases rest <;> rfl

theorem resume_desk (f : Frontend) (c : Suspended) (reply : Reply) :
    (f.resume ids c reply).1.desk = run Desk.enter f.desk (c.entries reply) := by
  by_cases hreply : c.SettledBy reply
  case neg =>
    rw [resume_unsettled hreply, c.entries_unsettled hreply]
    rfl
  cases c with
  | startingCollection | endingCollection =>
    obtain ⟨tx, rfl⟩ | rfl := hreply
    · rfl
    · rfl
  | collectingData state =>
    obtain ⟨prices, quantities, rfl⟩ | rfl := hreply
    · simp only [Frontend.resume]
      cases processAuction state.auctionInput <;> rfl
    · rfl
  | resolvingAuction auctionId bidId =>
    obtain rfl := hreply
    simp only [Frontend.resume, Frontend.serviceTriggerAuction]
    split <;> rfl
  | submittingData auctionId valid hv p rest =>
    obtain ⟨rfl, he⟩ | ⟨p', rest', c', rfl, he, -⟩ :=
      resume_submittingData ids f auctionId hv p rest hreply
    · rw [he, announceNext_desk]
      exact receive_desk f reply auctionId hv p []
    · rw [he]
      exact receive_desk f reply auctionId hv p _
  | announcingBids auctionId valid rest =>
    obtain rfl := hreply
    exact announceNext_desk f auctionId valid rest
  | announcingAuction | placingBid | auctionResolved | resetting | delaying =>
    obtain rfl := hreply
    rfl

/-- What an action brings in. -/
def System.entries (s : System) : Action → List Entry
  | .start op => op.entries
  | .resume i reply =>
      match s.calls[i]? with
      | some call => call.suspended.entries reply
      | none => []

theorem System.step_desk (s : System) (a : Action) :
    (s.step ids a).frontend.desk = run Desk.enter s.frontend.desk (s.entries a) := by
  cases a with
  | start op => exact begin_desk s.frontend op
  | resume i reply =>
    cases hi : s.calls[i]? with
    | none => simp [step, entries, hi]
    | some call =>
      simp only [step, entries, hi]
      exact resume_desk s.frontend call.suspended reply

namespace Entry

def isCleared : Entry → Bool
  | .cleared => true
  | _ => false

def receipt? : Entry → Option BlockchainTransaction
  | .receipt tx => some tx
  | _ => none

def edit? (participantId : String) : Entry → Option (ℚ × ℚ)
  | .edit id powerMW pricePerMW => if participantId = id then some (powerMW, pricePerMW) else none
  | _ => none

def bidPower? : Entry → Option ℚ
  | .bidPower powerMW => some powerMW
  | _ => none

def bidPrice? : Entry → Option ℚ
  | .bidPrice pricePerMW => some pricePerMW
  | _ => none

def opened? : Entry → Option String
  | .opened auctionId => some auctionId
  | _ => none

end Entry

/-- The desk that a log of entries without a reset leaves behind. -/
structure Desk.Reads (d : Desk) (now : List Entry) : Prop where
  transactions : d.transactions = (now.filterMap Entry.receipt?).reverse
  participants : d.participants = initialParticipants.map fun p =>
    ((latest (Entry.edit? p.id) now).map p.revise).getD p
  bid : d.bid = ⟨(latest Entry.opened? now).getD "", "participant-1",
    (latest Entry.bidPower? now).getD 0, (latest Entry.bidPrice? now).getD 0⟩

theorem Desk.reads_initial : Desk.initial.Reads [] := by
  constructor <;> simp [initial, initialBid]

/-- A participant revised twice is as if revised the second time only. -/
theorem Participant.revise_edit (p : Participant) (now : List Entry) (id : String)
    (powerMW pricePerMW : ℚ) :
    (if (((latest (Entry.edit? p.id) now).map p.revise).getD p).id = id then
        (((latest (Entry.edit? p.id) now).map p.revise).getD p).revise (powerMW, pricePerMW)
      else ((latest (Entry.edit? p.id) now).map p.revise).getD p) =
      ((latest (Entry.edit? p.id) (now ++ [.edit id powerMW pricePerMW])).map p.revise).getD p := by
  have hid : (((latest (Entry.edit? p.id) now).map p.revise).getD p).id = p.id := by
    cases latest (Entry.edit? p.id) now <;> rfl
  rw [hid, latest_concat]
  by_cases h : p.id = id
  · simp only [h, if_true, Entry.edit?, Option.some_or, Option.map_some, Option.getD_some]
    cases latest (Entry.edit? id) now <;> rfl
  · simp [h, Entry.edit?]

theorem Desk.Reads.enter {d : Desk} {now : List Entry} (h : d.Reads now) {e : Entry}
    (he : e.isCleared = false) : (d.enter e).Reads (now ++ [e]) := by
  cases e with
  | cleared => cases he
  | edit id powerMW pricePerMW =>
    constructor
    case participants =>
      simp only [Desk.enter, h.participants, List.map_map]
      apply List.map_congr_left
      intro p _
      exact p.revise_edit now id powerMW pricePerMW
    all_goals simp [Desk.enter, h.transactions, h.bid, latest_concat, Entry.receipt?,
      Entry.opened?, Entry.bidPower?, Entry.bidPrice?]
  | _ =>
    constructor <;> simp [Desk.enter, h.transactions, h.participants, h.bid, latest_concat,
      Entry.receipt?, Entry.edit?, Entry.opened?, Entry.bidPower?, Entry.bidPrice?]

/-- Entering a log is reading what it holds since the last reset. -/
theorem run_enter (log : List Entry) :
    (run Desk.enter .initial log).Reads (since Entry.isCleared log) := by
  induction log using List.reverseRecOn with
  | nil => exact Desk.reads_initial
  | append_singleton log e ih =>
    rw [run_concat]
    cases he : e.isCleared with
    | true =>
      rw [since_mark log he]
      cases e with
      | cleared => exact Desk.reads_initial
      | _ => cases he
    | false =>
      rw [since_concat log he]
      exact ih.enter he

theorem run_desk (redispatchEvent : RedispatchEvent) (actions : List Action) :
    (run (System.step ids) (.initial redispatchEvent) actions).frontend.desk.Reads
      (since Entry.isCleared
        (emitted (System.step ids) System.entries (.initial redispatchEvent) actions)) := by
  have hdesk : (run (System.step ids) (.initial redispatchEvent) actions).frontend.desk =
      run Desk.enter .initial
        (emitted (System.step ids) System.entries (.initial redispatchEvent) actions) := by
    apply run_simulation (R := fun (s : System) d => s.frontend.desk = d)
    · rintro s d a rfl
      exact s.step_desk a
    · rfl
  rw [hdesk]
  exact run_enter _

/-- Under every interleaving the page shows the receipts that came in since the last reset, the
newest first, the participants with their last offers, and the draft as it was last edited. -/
theorem page_recorded (ids : ℕ → IdSource) (redispatchEvent : RedispatchEvent)
    (actions : List Action) :
    let s₀ := System.initial redispatchEvent
    let now := since Entry.isCleared (emitted (System.step ids) System.entries s₀ actions)
    let model := (run (System.step ids) s₀ actions).frontend.model
    model.transactions = (now.filterMap Entry.receipt?).reverse ∧
      model.participants = (initialParticipants.map fun p =>
        ((latest (Entry.edit? p.id) now).map p.revise).getD p) ∧
      model.bid = ⟨(latest Entry.opened? now).getD "", "participant-1",
        (latest Entry.bidPower? now).getD 0, (latest Entry.bidPrice? now).getD 0⟩ := by
  intro s₀ now model
  have hreads : (run (System.step ids) s₀ actions).frontend.desk.Reads now :=
    run_desk redispatchEvent actions
  exact ⟨hreads.transactions, hreads.participants, hreads.bid⟩

end GridFlex
