import GridFlex.Frontend.Interleaving

/-! The notification line of `app/page.tsx`. What it says still holds when it is read, and its
colour takes most good news for bad. -/
namespace GridFlex
open Transition

/-- The notices that the controller dispatches. -/
inductive Notice where
  | blank
  | broadcastFailed
  | triggerFailed
  | nothingValid
  | bidPlaced
  | bidsBroadcast (count : ℕ)
  | completed (result : AuctionResult)

def Notice.message : Notice → Message
  | .blank => []
  | .broadcastFailed => [.text "Failed to broadcast auction"]
  | .triggerFailed => [.text "Failed to trigger auction"]
  | .nothingValid => [.text "No valid bids to broadcast"]
  | .bidPlaced => [.text "Bid placed successfully!"]
  | .bidsBroadcast count => [.text "Successfully broadcasted ", .number count, .text " bids"]
  | .completed result => completionNotice result

/-- What a notice says about the rest of the page. -/
def Notice.Holds (state : GridFlexibilityState) : Notice → Prop
  | .bidPlaced | .bidsBroadcast _ => state.bidPlaced = true
  | .completed result => state.auctionResult = some result ∧
      ∃ auction, state.auction = some auction ∧ auction.status = .completed ∧
        auction.id = result.auctionId
  | _ => True

def Noticed (state : GridFlexibilityState) : Prop :=
  ∃ notice : Notice, state.notification = notice.message ∧ notice.Holds state

variable {ids : ℕ → IdSource}

/-- What leaves the line alone, and what it speaks of. -/
theorem Noticed.keep {state state' : GridFlexibilityState} (h : Noticed state)
    (hnotification : state'.notification = state.notification)
    (hauction : state'.auction = state.auction)
    (hresult : state'.auctionResult = state.auctionResult)
    (hplaced : state'.bidPlaced = state.bidPlaced) : Noticed state' := by
  obtain ⟨notice, hmessage, hholds⟩ := h
  refine ⟨notice, hnotification.trans hmessage, ?_⟩
  cases notice with
  | bidPlaced | bidsBroadcast => exact hplaced.trans hholds
  | completed result =>
    obtain ⟨hres, auction, hauc, hrest⟩ := hholds
    exact ⟨hresult.trans hres, auction, hauction.trans hauc, hrest⟩
  | _ => trivial

theorem Noticed.begin {f : Frontend} (h : Noticed f.model) (op : Operation) :
    Noticed (f.begin ids op).1.model := by
  have hbegin := begin_cases ids f op
  generalize (f.begin ids op).1 = f', (f.begin ids op).2 = next at hbegin ⊢
  cases hbegin with
  | nothingValid => exact ⟨.nothingValid, rfl, trivial⟩
  | clearNotification => exact ⟨.blank, rfl, trivial⟩
  | _ => exact h.keep rfl rfl rfl rfl

theorem Noticed.announceNext {f : Frontend} (h : Noticed f.model) (auctionId : String)
    (valid rest : List Participant) :
    Noticed (f.announceNext ids auctionId valid rest).1.model := by
  cases rest with
  | nil => exact ⟨.bidsBroadcast valid.length, rfl, rfl⟩
  | cons p rest => exact h.keep rfl rfl rfl rfl

theorem Noticed.receive {f : Frontend} (h : Noticed f.model) (reply : Reply) :
    Noticed (f.receive reply).model := by
  cases reply <;> exact h.keep rfl rfl rfl rfl

theorem Noticed.resume {f : Frontend} (h : Noticed f.model) (c : Suspended) (reply : Reply) :
    Noticed (f.resume ids c reply).1.model := by
  by_cases hreply : c.SettledBy reply
  case neg =>
    rw [resume_unsettled hreply]
    exact h
  cases c with
  | startingCollection =>
    obtain ⟨tx, rfl⟩ | rfl := hreply
    · exact h.keep rfl rfl rfl rfl
    · exact ⟨.broadcastFailed, rfl, trivial⟩
  | endingCollection =>
    obtain ⟨tx, rfl⟩ | rfl := hreply
    · exact h.keep rfl rfl rfl rfl
    · exact ⟨.triggerFailed, rfl, trivial⟩
  | collectingData state =>
    obtain ⟨prices, quantities, rfl⟩ | rfl := hreply
    · simp only [Frontend.resume]
      cases hout : processAuction state.auctionInput with
      | ok output =>
        have hid : output.result.auctionId = state.auction.id := by
          rw [(processAuction_inv hout).2.2]
          rfl
        exact ⟨.completed output.result, rfl, rfl, _, rfl, rfl, hid.symm⟩
      | error message => exact ⟨.triggerFailed, rfl, trivial⟩
    · exact ⟨.triggerFailed, rfl, trivial⟩
  | resolvingAuction auctionId bidId =>
    obtain rfl := hreply
    simp only [Frontend.resume, Frontend.serviceTriggerAuction]
    split
    · exact h.keep rfl rfl rfl rfl
    · exact h
  | submittingData auctionId valid hv p rest =>
    obtain ⟨rfl, he⟩ | ⟨p', rest', c', rfl, he, -⟩ :=
      resume_submittingData ids f auctionId hv p rest hreply
    · rw [he]
      exact (h.receive reply).announceNext auctionId valid valid
    · rw [he]
      exact h.receive reply
  | announcingBids auctionId valid rest =>
    obtain rfl := hreply
    exact h.announceNext auctionId valid rest
  | placingBid =>
    obtain rfl := hreply
    exact ⟨.bidPlaced, rfl, rfl⟩
  | announcingAuction | resetting =>
    obtain rfl := hreply
    exact ⟨.blank, rfl, trivial⟩
  | auctionResolved | delaying =>
    obtain rfl := hreply
    exact h

section Colour

variable (number localeNumber : ℚ → String)

/-- The text of a chunk, for given decimal texts of numbers. -/
def TextPart.render : TextPart → List Char
  | .text s => s.toList
  | .number q => (number q).toList
  | .localeNumber q => (localeNumber q).toList

def Message.render (message : Message) : List Char :=
  message.flatMap (TextPart.render number localeNumber)

/-- `includes`, of a string. -/
def includes (text : List Char) (needle : String) : Bool := decide (needle.toList <:+: text)

/-- The test that makes the line green; otherwise it is yellow. -/
def isGreen (notification : Message) : Bool :=
  includes (notification.render number localeNumber) "won" ||
    includes (notification.render number localeNumber) "successfully"

/-- Numbers are written in digits and signs, and an exponent with an `e`. -/
def Numeric (text : ℚ → String) : Prop := ∀ q, 'f' ∉ (text q).toList ∧ 'w' ∉ (text q).toList

end Colour

theorem not_includes {text : List Char} {needle : String} {c : Char} (hc : c ∈ needle.toList)
    (h : c ∉ text) : includes text needle = false :=
  decide_eq_false fun hwithin => h (hwithin.subset hc)

/-- What stands before the only mark of a text ends the part before it. -/
theorem suffix_before_mark {α : Type*} {mark : α} {before after front back : List α}
    (hfront : mark ∉ front) (hback : mark ∉ back)
    (h : before ++ mark :: after <:+: front ++ mark :: back) : before <:+ front := by
  obtain ⟨s, t, hst⟩ := h
  have hsplit : front ++ mark :: back = (s ++ before) ++ mark :: (after ++ t) := by
    rw [← hst]
    simp
  obtain ⟨hbefore, -, -⟩ := (List.append_cons_inj_of_notMem hfront hback).mp hsplit
  exact ⟨s, hbefore.symm⟩

section

variable {number localeNumber : ℚ → String}

/-- The notice starts with a capital letter, and `includes` minds the case. -/
theorem bidsBroadcast_not_green (hnumber : Numeric number) (count : ℕ) :
    isGreen number localeNumber (Notice.bidsBroadcast count).message = false := by
  obtain ⟨hf, hw⟩ := hnumber count
  have hrender : (Notice.bidsBroadcast count).message.render number localeNumber =
      "Success".toList ++ 'f' :: ("ully broadcasted ".toList ++
        ((number count).toList ++ " bids".toList)) := by
    simp [Message.render, Notice.message, TextPart.render]
  have hwon : includes ((Notice.bidsBroadcast count).message.render number localeNumber) "won" =
      false := by
    apply not_includes (c := 'w') (by decide)
    rw [hrender]
    simp [hw]
  have hsuccess : includes ((Notice.bidsBroadcast count).message.render number localeNumber)
      "successfully" = false := by
    apply decide_eq_false
    rw [hrender]
    intro hwithin
    have hneedle : "successfully".toList = "success".toList ++ 'f' :: "ully".toList := by decide
    have hback : 'f' ∉ "ully broadcasted ".toList ++ ((number count).toList ++ " bids".toList) := by
      simp [hf]
    rw [hneedle] at hwithin
    have hsuffix : "success".toList <:+ "Success".toList :=
      suffix_before_mark (by decide) hback hwithin
    exact absurd hsuffix (by decide)
  rw [isGreen, hwon, hsuccess]
  rfl

theorem completed_not_green (hnumber : Numeric number) (hlocale : Numeric localeNumber)
    (result : AuctionResult) :
    isGreen number localeNumber (Notice.completed result).message = false := by
  have hplain : 'f' ∉ (Notice.completed result).message.render number localeNumber ∧
      'w' ∉ (Notice.completed result).message.render number localeNumber := by
    have haccepted := hnumber result.acceptedPowerMW
    have hpayout := hlocale result.participantPayoutEUR
    simp only [Notice.message, completionNotice]
    split
    · simp [Message.render, TextPart.render, haccepted, hpayout]
    · simp [Message.render, TextPart.render]
  have hwon : includes ((Notice.completed result).message.render number localeNumber) "won" =
      false := not_includes (by decide) hplain.2
  have hsuccess : includes ((Notice.completed result).message.render number localeNumber)
      "successfully" = false := not_includes (by decide) hplain.1
  rw [isGreen, hwon, hsuccess]
  rfl

theorem text_green (s : String) : isGreen number localeNumber [.text s] =
    (includes s.toList "won" || includes s.toList "successfully") := by
  simp [isGreen, Message.render, TextPart.render]

theorem green_iff (hnumber : Numeric number) (hlocale : Numeric localeNumber) (notice : Notice) :
    isGreen number localeNumber notice.message = true ↔ notice = .bidPlaced := by
  cases notice with
  | bidsBroadcast count => simp [bidsBroadcast_not_green hnumber count]
  | completed result => simp [completed_not_green hnumber hlocale result]
  | bidPlaced =>
    have hgreen : isGreen number localeNumber Notice.bidPlaced.message = true := by
      rw [Notice.message, text_green]
      decide
    exact iff_of_true hgreen rfl
  | blank => exact iff_of_false (by simp [isGreen, Message.render, Notice.message, includes]) nofun
  | broadcastFailed | triggerFailed | nothingValid =>
    refine iff_of_false ?_ nofun
    rw [Notice.message, text_green]
    decide

/-- Under every interleaving the line says something that holds of the page, and it is green for a
placed bid and nothing else: neither for bids that were broadcast nor for an auction that paid. -/
theorem notices_current (hnumber : Numeric number) (hlocale : Numeric localeNumber)
    (ids : ℕ → IdSource) (redispatchEvent : RedispatchEvent) (actions : List Action) :
    let page := (run (System.step ids) (.initial redispatchEvent) actions).frontend.model
    ∃ notice : Notice, page.notification = notice.message ∧ notice.Holds page ∧
      (isGreen number localeNumber page.notification = true ↔ notice = .bidPlaced) := by
  intro page
  have hnoticed : Noticed page :=
    run_invariant (I := fun s : System => Noticed s.frontend.model)
      (fun s a h => System.step_frontend (I := fun f => Noticed f.model)
        (fun f op hf => hf.begin op) (fun f c reply hf => hf.resume c reply) h a)
      ⟨.blank, rfl, trivial⟩ actions
  obtain ⟨notice, hmessage, hholds⟩ := hnoticed
  refine ⟨notice, hmessage, hholds, ?_⟩
  rw [hmessage]
  exact green_iff hnumber hlocale notice

end

/-- The text of a natural number. -/
def decimal (q : ℚ) : String := String.ofList (Nat.toDigits 10 q.num.toNat)

theorem decimal_numeric : Numeric decimal := by
  intro q
  have hdigit : ∀ c ∈ (decimal q).toList, c.isDigit = true := by
    intro c hc
    rw [decimal, String.toList_ofList] at hc
    exact Nat.isDigit_of_mem_toDigits (by decide) (by decide) hc
  exact ⟨fun hf => absurd (hdigit 'f' hf) (by decide), fun hw => absurd (hdigit 'w' hw) (by decide)⟩

/-- A placed bid, and a trigger that pays for power. -/
def paidTrigger : List Action :=
  [.start .broadcastAuction, .resume 0 (.transaction mockTransaction), .resume 0 .settled,
    .start (.updateBidPower 10), .start (.updateBidPrice 5), .start .placeBid, .resume 0 .settled,
    .start (.triggerAuction fun k => k), .resume 0 (.transaction mockTransaction),
    .resume 0 (.collected [] [])]

theorem paidTrigger_notices :
    let page := (run (System.step fun _ => .server) (.initial mockRedispatchEvent)
      paidTrigger).frontend.model
    ∃ notice : Notice, page.notification = notice.message ∧ notice.Holds page ∧
      (isGreen decimal decimal page.notification = true ↔ notice = .bidPlaced) :=
  notices_current decimal_numeric decimal_numeric _ _ paidTrigger

end GridFlex
