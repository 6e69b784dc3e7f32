import GridFlex.Market.BidIntegrity

/-! What a call of `broadcastAllBids` submits to the chain and what it announces, whatever other
calls do to the page between its awaits. -/
namespace GridFlex
open Driver

/-- One stretch of a call, from an await to the next, as the page before and after it. -/
structure Stretch where
  before : Frontend
  after : Frontend

def Stretch.published (s : Stretch) : List GridFlexibilityEvent :=
  s.after.events.drop s.before.events.length

/-- New transactions are put in front of the old ones. -/
def Stretch.added (s : Stretch) : List BlockchainTransaction :=
  s.after.model.transactions.take
    (s.after.model.transactions.length - s.before.model.transactions.length)

/-- How an await of `broadcastAllBids` settles: `pattern i` is the transaction that `submitData`
returns for the `i`-th valid participant, and `none` if it throws. -/
def answer (pattern : ℕ → Option BlockchainTransaction) : Suspended → Reply
  | .submittingData _ valid _ _ rest =>
      match pattern (valid.length - (rest.length + 1)) with
      | some tx => .transaction tx
      | none => .rejected
  | .startingCollection _ | .endingCollection _ | .collectingData _ => .rejected
  | _ => .settled

section Run

variable (ids : ℕ → IdSource) (pages : ℕ → Frontend)
  (pattern : ℕ → Option BlockchainTransaction)

def resumeStretch (run : List Stretch) (c : Suspended) (found : Frontend × Reply) :
    List Stretch × Option Suspended :=
  let r := found.1.resume ids c found.2
  (run ++ [⟨found.1, r.1⟩], r.2)

def findPage (k : ℕ) (c : Suspended) : ℕ × (Frontend × Reply) :=
  (k + 1, (pages k, answer pattern c))

/-- The stretches of one call: it starts on the page `f`, and `pages k` is the page that it finds
when its `k`-th await settles. -/
def broadcastRun (f : Frontend) : Outcome (List Stretch) ℕ Suspended :=
  let r := f.begin ids .broadcastAllBids
  drive (resumeStretch ids) (findPage pages pattern)
    ((r.2.map fun c => c.awaits + 1).getD 0) [⟨f, r.1⟩] 0 r.2

end Run

/-- The participants whose `submitData` succeeds, each with its transaction. -/
def confirmed (pattern : ℕ → Option BlockchainTransaction) (participants : List Participant) :
    List (Participant × BlockchainTransaction) :=
  participants.zipIdx.filterMap fun entry => (pattern entry.2).map fun tx => (entry.1, tx)

def broadcastNotice (count : ℚ) : Message :=
  [.text "Successfully broadcasted ", .number count, .text " bids"]

/-- The call announces the bids that were submitted, in order, and no other. -/
structure AnnouncesSubmitted (auctionId : String) (submitted : List Participant)
    (run : List Stretch) : Prop where
  published : (run.flatMap Stretch.published).map (fun e => e.payload.submission?) =
    submitted.map fun p => some (p.draft auctionId)
  reported : ∀ last ∈ run.getLast?, ∀ count, last.after.model.notification =
    broadcastNotice count → count = (run.flatMap Stretch.added).length
  placed : ∀ s ∈ run, s.before.model.bidPlaced = false → s.after.model.bidPlaced = true →
    submitted ≠ []

/-- What one stretch announces and adds. -/
structure Does (f g : Frontend) (drafts : List BidDraft) (txs : List BlockchainTransaction) :
    Prop where
  submits : Submits f g drafts
  transactions : g.model.transactions = txs ++ f.model.transactions

/-- What the stretches so far have announced and added. -/
structure Progress (run : List Stretch) (drafts : List BidDraft)
    (txs : List BlockchainTransaction) : Prop where
  published : (run.flatMap Stretch.published).map (fun e => e.payload.submission?) =
    drafts.map some
  added : run.flatMap Stretch.added = txs

theorem Progress.append {run : List Stretch} {drafts drafts' : List BidDraft}
    {txs txs' : List BlockchainTransaction} {f g : Frontend} (h : Progress run drafts txs)
    (hd : Does f g drafts' txs') :
    Progress (run ++ [⟨f, g⟩]) (drafts ++ drafts') (txs ++ txs') := by
  obtain ⟨new, hevents, hnew⟩ := hd.submits
  have hpublished : Stretch.published ⟨f, g⟩ = new := by
    simp only [Stretch.published, hevents, List.drop_left]
  have hadded : Stretch.added ⟨f, g⟩ = txs' := by
    simp [Stretch.added, hd.transactions]
  refine ⟨?_, ?_⟩
  · simp only [List.flatMap_append, List.flatMap_singleton, List.map_append, h.published,
      hpublished, hnew]
  · simp only [List.flatMap_append, List.flatMap_singleton, h.added, hadded]

theorem confirmed_append (pattern : ℕ → Option BlockchainTransaction)
    (participants : List Participant) (p : Participant) :
    (confirmed pattern (participants ++ [p])).map Prod.snd =
      (confirmed pattern participants).map Prod.snd ++ (pattern participants.length).toList := by
  cases h : pattern participants.length with
  | none => simp [confirmed, List.zipIdx_append, h]
  | some tx => simp [confirmed, List.zipIdx_append, h]

theorem confirmed_sublist (pattern : ℕ → Option BlockchainTransaction)
    (participants : List Participant) :
    ((confirmed pattern participants).map Prod.fst).Sublist participants := by
  induction participants using List.reverseRecOn with
  | nil => exact List.Sublist.refl _
  | append_singleton participants p ih =>
    cases h : pattern participants.length with
    | none => simpa [confirmed, List.zipIdx_append, h] using
        ih.trans (List.sublist_append_left participants [p])
    | some tx => simpa [confirmed, List.zipIdx_append, h] using ih.append (List.Sublist.refl [p])

/-- Nobody is left out exactly when every `submitData` succeeds. -/
theorem confirmed_eq_iff (pattern : ℕ → Option BlockchainTransaction)
    (participants : List Participant) :
    (confirmed pattern participants).map Prod.fst = participants ↔
      ∀ i < participants.length, (pattern i).isSome = true := by
  induction participants using List.reverseRecOn with
  | nil => simp [confirmed]
  | append_singleton participants p ih =>
    rw [List.length_append, List.length_singleton, Nat.forall_lt_succ_right, ← ih]
    cases h : pattern participants.length with
    | none =>
      -- one participant fewer is confirmed than there are
      have hshort := (confirmed_sublist pattern participants).length_le
      have hne : (confirmed pattern participants).map Prod.fst ≠ participants ++ [p] := by
        intro heq
        rw [heq, List.length_append, List.length_singleton] at hshort
        omega
      simpa [confirmed, List.zipIdx_append, h] using hne
    | some tx => simp [confirmed, List.zipIdx_append, h]

section Steps

variable {ids : ℕ → IdSource} {pattern : ℕ → Option BlockchainTransaction} {auctionId : String}
  {valid : List Participant} {run : List Stretch}

/-- Where a call with the valid participants `valid` stands at each of its awaits. -/
inductive OnTrack (pattern : ℕ → Option BlockchainTransaction) (auctionId : String)
    (valid : List Participant) (run : List Stretch) : Suspended → Prop where
  | submitting (hv : valid ≠ []) (done : List Participant) (p : Participant)
      (rest : List Participant) (hvalid : valid = done ++ p :: rest)
      (h : Progress run [] ((confirmed pattern done).map Prod.snd)) :
      OnTrack pattern auctionId valid run (.submittingData auctionId valid hv p rest)
  | delaying (hv : valid ≠ []) (done : List Participant) (p : Participant)
      (rest : List Participant) (hvalid : valid = done ++ p :: rest)
      (h : Progress run [] ((confirmed pattern done).map Prod.snd)) :
      OnTrack pattern auctionId valid run (.delaying auctionId valid hv p rest)
  | announcing (done rest : List Participant) (hvalid : valid = done ++ rest)
      (h : Progress run (done.map fun p => p.draft auctionId)
        ((confirmed pattern valid).map Prod.snd)) :
      OnTrack pattern auctionId valid run (.announcingBids auctionId valid rest)

/-- What the call has done when it returns. -/
structure Finished (pattern : ℕ → Option BlockchainTransaction) (auctionId : String)
    (valid : List Participant) (run : List Stretch) : Prop where
  progress : Progress run (valid.map fun p => p.draft auctionId)
    ((confirmed pattern valid).map Prod.snd)
  reported : ∀ last ∈ run.getLast?,
    last.after.model.notification = broadcastNotice valid.length

/-- The await after a stretch is in order, and so is a return. -/
structure StretchOk (pattern : ℕ → Option BlockchainTransaction) (auctionId : String)
    (valid : List Participant) (run : List Stretch) (f : Frontend)
    (r : Frontend × Option Suspended) : Prop where
  onTrack : ∀ c, r.2 = some c → OnTrack pattern auctionId valid (run ++ [⟨f, r.1⟩]) c
  finished : r.2 = none → Finished pattern auctionId valid (run ++ [⟨f, r.1⟩])

theorem does_nothing (f : Frontend) : Does f f [] [] := ⟨.of_events rfl, rfl⟩

theorem announceNext_ok {f g : Frontend} {done rest : List Participant}
    {txs txs' : List BlockchainTransaction} (hvalid : valid = done ++ rest)
    (h : Progress run (done.map fun p => p.draft auctionId) txs) (hd : Does f g [] txs')
    (htxs : txs ++ txs' = (confirmed pattern valid).map Prod.snd) :
    StretchOk pattern auctionId valid run f (g.announceNext ids auctionId valid rest) := by
  cases rest with
  | nil =>
    have hdone : valid = done := by rw [hvalid, List.append_nil]
    have hfinal : Does f (g.finishBids valid) [] txs' := ⟨hd.submits, hd.transactions⟩
    have hprogress := h.append hfinal
    rw [htxs, List.append_nil, ← hdone] at hprogress
    constructor
    case onTrack =>
      intro c hc
      cases hc
    case finished =>
      intro _
      refine ⟨hprogress, ?_⟩
      intro last hlast
      simp only [List.getLast?_concat, Option.mem_def, Option.some.injEq] at hlast
      rw [← hlast]
      rfl
  | cons p rest =>
    have hbid : Does f (g.serviceSubmitBid ids (p.draft auctionId)).1 ([] ++ [p.draft auctionId])
        txs' := ⟨hd.submits.trans (serviceSubmitBid_submits g _), hd.transactions⟩
    have hprogress := h.append hbid
    rw [htxs] at hprogress
    constructor
    case onTrack =>
      intro c hc
      cases hc
      refine .announcing (done ++ [p]) rest (by rw [hvalid, List.append_assoc]; rfl) ?_
      rw [List.map_append]
      exact hprogress
    case finished =>
      intro hnone
      cases hnone

theorem answer_settledBy (pattern : ℕ → Option BlockchainTransaction) (c : Suspended) :
    c.SettledBy (answer pattern c) := by
  cases c with
  | submittingData auctionId valid hv p rest =>
    simp only [answer]
    cases pattern (valid.length - (rest.length + 1)) with
    | none => exact .inr rfl
    | some tx => exact .inl ⟨tx, rfl⟩
  | startingCollection | endingCollection | collectingData => exact .inr rfl
  | _ => rfl

theorem answer_receipts (pattern : ℕ → Option BlockchainTransaction) (auctionId : String)
    {valid : List Participant} (hv : valid ≠ []) (p : Participant) (rest : List Participant) :
    (answer pattern (.submittingData auctionId valid hv p rest)).receipts =
      (pattern (valid.length - (rest.length + 1))).toList := by
  simp only [answer]
  cases pattern (valid.length - (rest.length + 1)) <;> rfl

theorem OnTrack.resume {c : Suspended} (h : OnTrack pattern auctionId valid run c)
    (f : Frontend) :
    StretchOk pattern auctionId valid run f (f.resume ids c (answer pattern c)) := by
  cases h with
  | submitting hv done p rest hvalid h =>
    have hindex : valid.length - (rest.length + 1) = done.length := by
      rw [hvalid, List.length_append, List.length_cons]
      omega
    have hconfirmed := confirmed_append pattern done p
    let reply := answer pattern (.submittingData auctionId valid hv p rest)
    have htxs := receive_transactions f reply
    rw [answer_receipts, hindex] at htxs
    have hd : Does f (f.receive reply) [] (pattern done.length).toList :=
      ⟨.of_events (receive_events f reply), htxs⟩
    obtain ⟨rfl, he⟩ | ⟨p', rest', c, rfl, he, hc⟩ :=
      resume_submittingData ids f auctionId hv p rest
        (answer_settledBy pattern (.submittingData auctionId valid hv p rest))
    · rw [he]
      have hall : valid = [] ++ valid := rfl
      refine announceNext_ok hall h hd ?_
      rw [hvalid, hconfirmed]
    · have hprogress := h.append hd
      rw [← hconfirmed] at hprogress
      have hvalid' : valid = (done ++ [p]) ++ p' :: rest' := by
        rw [hvalid, List.append_assoc]
        rfl
      rw [he]
      constructor
      case onTrack =>
        intro c' hc'
        cases hc'
        rcases hc with rfl | rfl
        · exact .delaying hv (done ++ [p]) p' rest' hvalid' hprogress
        · exact .submitting hv (done ++ [p]) p' rest' hvalid' hprogress
      case finished =>
        intro hnone
        cases hnone
  | delaying hv done p rest hvalid h =>
    have hprogress := h.append (does_nothing f)
    simp only [List.append_nil] at hprogress
    constructor
    case onTrack =>
      intro c hc
      cases hc
      exact .submitting hv done p rest hvalid hprogress
    case finished =>
      intro hnone
      cases hnone
  | announcing done rest hvalid h =>
    exact announceNext_ok hvalid h (does_nothing f) (List.append_nil _)

end Steps

section Returned

variable (ids : ℕ → IdSource) (pages : ℕ → Frontend)
  (pattern : ℕ → Option BlockchainTransaction) (f : Frontend)

theorem broadcastRun_left : (broadcastRun ids pages pattern f).left = none := by
  apply drive_left Suspended.awaits
  · intro run k c c' h
    exact resume_awaits_lt (answer_settledBy pattern c) h
  · intro c hc
    simp [hc]

variable {f}

theorem broadcastRun_finished {auction : Auction} (hauction : f.model.auction = some auction)
    (hvalid : f.model.participants.filter Participant.isValid ≠ []) :
    Finished pattern auction.id (f.model.participants.filter Participant.isValid)
      (broadcastRun ids pages pattern f).state := by
  have hleft := broadcastRun_left ids pages pattern f
  unfold broadcastRun at hleft ⊢
  simp only [Frontend.begin, hauction] at hleft ⊢
  generalize hv : f.model.participants.filter Participant.isValid = valid at *
  cases valid with
  | nil => exact absurd rfl hvalid
  | cons p rest =>
    refine drive_rule (I := fun run _ c => OnTrack pattern auction.id (p :: rest) run c)
      (Q := fun run _ => Finished pattern auction.id (p :: rest) run) ?_ ?_ ?_ ?_ hleft
    · intro run k c c' h hnext
      exact (h.resume (pages k)).onTrack c' hnext
    · intro run k c h hnext
      exact (h.resume (pages k)).finished hnext
    · intro c hc
      cases hc
      have hstart : Progress [⟨f, f⟩] [] ((confirmed pattern []).map Prod.snd) :=
        ⟨by simp [Stretch.published], by simp [Stretch.added, confirmed]⟩
      exact .submitting hvalid [] p rest rfl hstart
    · intro hnone
      cases hnone

/-- Without a valid participant the call only says so. -/
theorem broadcastRun_nothing {auction : Auction} (hauction : f.model.auction = some auction)
    (hvalid : f.model.participants.filter Participant.isValid = []) :
    (broadcastRun ids pages pattern f).state =
      [⟨f, f.dispatch (.setNotification [.text "No valid bids to broadcast"])⟩] := by
  unfold broadcastRun
  simp only [Frontend.begin, hauction, hvalid, drive_none]

end Returned

theorem announcesSubmitted_of_nothing (f : Frontend) (auctionId : String) :
    AnnouncesSubmitted auctionId []
      [⟨f, f.dispatch (.setNotification [.text "No valid bids to broadcast"])⟩] where
  published := by simp [Stretch.published, Frontend.dispatch]
  reported := by
    intro last hlast count hcount
    cases hlast
    have hne : [TextPart.text "No valid bids to broadcast"] ≠ broadcastNotice count := by
      simp [broadcastNotice]
    exact absurd hcount hne
  placed := by
    intro s hs hbefore hafter
    obtain rfl := List.mem_singleton.mp hs
    exact absurd (hbefore.symm.trans hafter) Bool.false_ne_true

theorem Finished.announcesSubmitted_iff {pattern : ℕ → Option BlockchainTransaction}
    {auctionId : String} {valid : List Participant} {run : List Stretch}
    (h : Finished pattern auctionId valid run) (hvalid : valid ≠ []) :
    AnnouncesSubmitted auctionId ((confirmed pattern valid).map Prod.fst) run ↔
      (confirmed pattern valid).map Prod.fst = valid := by
  constructor
  · intro hannounces
    have hpublished := hannounces.published
    rw [h.progress.published] at hpublished
    have hlength := congrArg List.length hpublished
    simp only [List.length_map] at hlength
    exact (confirmed_sublist pattern valid).eq_of_length (by rw [List.length_map, hlength])
  · intro hall
    have hlength : (confirmed pattern valid).length = valid.length := by
      rw [← congrArg List.length hall, List.length_map]
    rw [hall]
    constructor
    case published => rw [h.progress.published, List.map_map]; rfl
    case reported =>
      intro last hlast count hcount
      rw [h.reported last hlast] at hcount
      cases hcount
      rw [h.progress.added, List.length_map, hlength]
    case placed => exact fun _ _ _ _ => hvalid

/-- `broadcastAllBids` announces what it submitted exactly when every `submitData` succeeds. -/
theorem announces_submitted_iff (ids : ℕ → IdSource) (pages : ℕ → Frontend)
    (pattern : ℕ → Option BlockchainTransaction) (f : Frontend) (auction : Auction)
    (hauction : f.model.auction = some auction) :
    let valid := f.model.participants.filter Participant.isValid
    let run := broadcastRun ids pages pattern f
    run.left = none ∧
      (AnnouncesSubmitted auction.id ((confirmed pattern valid).map Prod.fst) run.state ↔
        ∀ i < valid.length, (pattern i).isSome = true) := by
  intro valid run
  refine ⟨broadcastRun_left ids pages pattern f, ?_⟩
  by_cases hvalid : valid = []
  · have hrun : run.state = _ := broadcastRun_nothing ids pages pattern hauction hvalid
    rw [hrun, hvalid]
    exact iff_of_true (announcesSubmitted_of_nothing f auction.id) (by simp)
  · rw [← confirmed_eq_iff]
    exact (broadcastRun_finished ids pages pattern hauction hvalid).announcesSubmitted_iff hvalid

/-- The page after a broadcast, with a price entered that `ethers.toBeHex` throws at. -/
def fractionalPage : Frontend :=
  ((Frontend.initial mockRedispatchEvent).dispatch
    (.setAuction (some ⟨"auction", "redispatch-1", 100, 50, .active⟩))).dispatch
      (.updateParticipant "participant-1" 50 (21 / 2))

def fractionalPattern (i : ℕ) : Option BlockchainTransaction :=
  if i = 0 then none else some mockTransaction

theorem fractionalPage_run :
    let valid := fractionalPage.model.participants.filter Participant.isValid
    let run := broadcastRun (fun _ => .server) (fun _ => fractionalPage) fractionalPattern
      fractionalPage
    run.left = none ∧
      (AnnouncesSubmitted "auction" ((confirmed fractionalPattern valid).map Prod.fst) run.state ↔
        ∀ i < valid.length, (fractionalPattern i).isSome = true) :=
  announces_submitted_iff _ _ _ _ ⟨"auction", "redispatch-1", 100, 50, .active⟩ rfl

/-- Four bids are announced and reported, three are submitted. -/
theorem fractionalPage_overannounces :
    fractionalPage.model.auction.isSome = true ∧
      ¬AnnouncesSubmitted "auction" ((confirmed fractionalPattern
          (fractionalPage.model.participants.filter Participant.isValid)).map Prod.fst)
        (broadcastRun (fun _ => .server) (fun _ => fractionalPage) fractionalPattern
          fractionalPage).state := by
  refine ⟨rfl, ?_⟩
  intro h
  exact absurd h.published (by decide +kernel)

end GridFlex
