import GridFlex.Market.Schedule

/-! Edits of the page while a call is in flight. A call is atomic towards them: each of them ends
up as if it had been made before the call or after it. -/
namespace GridFlex
open Transition

/-- The edits of the user's offers: the bid draft and the participants. -/
def Operation.isOffer : Operation → Bool
  | .updateBidPower _ | .updateBidPrice _ | .updateParticipant _ _ _ => true
  | _ => false

/-- The operations that await nothing. -/
def Operation.isEdit : Operation → Bool
  | .clearNotification => true
  | op => op.isOffer

inductive Offer : Operation → Prop where
  | power (powerMW : ℚ) : Offer (.updateBidPower powerMW)
  | price (pricePerMW : ℚ) : Offer (.updateBidPrice pricePerMW)
  | participant (participantId : String) (powerMW pricePerMW : ℚ) :
      Offer (.updateParticipant participantId powerMW pricePerMW)

inductive Edit : Operation → Prop where
  | offer {e : Operation} (he : Offer e) : Edit e
  | clear : Edit .clearNotification

theorem Edit.isEdit {e : Operation} (h : Edit e) : e.isEdit = true := by
  cases h with
  | offer he => cases he <;> rfl
  | clear => rfl

theorem edit_of_isOffer {e : Operation} (h : e.isOffer = true) : Edit e := by
  cases e with
  | updateBidPower powerMW => exact .offer (.power powerMW)
  | updateBidPrice pricePerMW => exact .offer (.price pricePerMW)
  | updateParticipant participantId powerMW pricePerMW =>
    exact .offer (.participant participantId powerMW pricePerMW)
  | _ => cases h

theorem edit_of_isEdit {e : Operation} (h : e.isEdit = true) : Edit e := by
  cases e with
  | clearNotification => exact .clear
  | _ => exact edit_of_isOffer h

/-- Is there a notification to come from the call? `triggerAuction` has two awaits after its. -/
def Suspended.notifies : Suspended → Bool
  | .resolvingAuction _ _ | .auctionResolved _ => false
  | _ => true

/-- The call will write over the edit. -/
inductive Overwrites : Suspended → Operation → Prop where
  | reset (e : Operation) : Overwrites .resetting e
  | notice (c : Suspended) (hc : c.notifies = true) : Overwrites c .clearNotification

/-- The call will not write what the edit writes. -/
inductive Spares : Suspended → Operation → Prop where
  | offer {c : Suspended} {e : Operation} (hc : c ≠ .resetting) (he : Offer e) : Spares c e
  | notice {c : Suspended} (hc : c.notifies = false) : Spares c .clearNotification

theorem overwrites_or_spares (c : Suspended) {e : Operation} (he : Edit e) :
    Overwrites c e ∨ Spares c e := by
  cases he with
  | offer he =>
    by_cases hc : c = .resetting
    · subst hc
      exact Or.inl (.reset e)
    · exact Or.inr (.offer hc he)
  | clear =>
    cases hc : c.notifies with
    | true => exact Or.inl (.notice c hc)
    | false => exact Or.inr (.notice hc)

theorem Spares.edit {c : Suspended} {e : Operation} (h : Spares c e) : Edit e := by
  cases h with
  | offer _ he => exact .offer he
  | notice _ => exact .clear

theorem Spares.not_overwrites {c : Suspended} {e : Operation} (h : Spares c e) :
    ¬Overwrites c e := by
  intro h'
  cases h with
  | offer hc he =>
    cases h' with
    | reset => exact hc rfl
    | notice => cases he
  | notice hc =>
    cases h' with
    | reset => cases hc
    | notice _ hc' => exact absurd (hc.symm.trans hc') (by decide)

/-- A call that spares an edit writes over no offer. -/
theorem Overwrites.isOffer {c : Suspended} {e e' : Operation} (h : Overwrites c e')
    (hspared : Spares c e) : e'.isOffer = false := by
  cases h with
  | reset => exact absurd (.reset e) hspared.not_overwrites
  | notice => rfl

variable {ids : ℕ → IdSource} {hardhat : Hardhat}

def Frontend.edit (ids : ℕ → IdSource) (f : Frontend) (e : Operation) : Frontend :=
  (f.begin ids e).1

theorem begin_edit {e : Operation} (he : Edit e) (f : Frontend) :
    f.begin ids e = (f.edit ids e, none) := by
  cases he with
  | offer he => cases he <;> rfl
  | clear => rfl

theorem announceNext_offer (f : Frontend) {e : Operation} (he : Offer e) (auctionId : String)
    (valid rest : List Participant) :
    (f.edit ids e).announceNext ids auctionId valid rest =
      ((f.announceNext ids auctionId valid rest).1.edit ids e,
        (f.announceNext ids auctionId valid rest).2) := by
  cases rest with
  | nil => cases he <;> rfl
  | cons p rest => cases he <;> rfl

theorem serviceTriggerAuction_edit (f : Frontend) {e : Operation} (he : Edit e)
    (auctionId bidId : String) :
    ((f.edit ids e).serviceTriggerAuction ids auctionId bidId).1 =
      (f.serviceTriggerAuction ids auctionId bidId).1.edit ids e := by
  unfold Frontend.serviceTriggerAuction
  dsimp only
  split
  · cases he with
    | offer he => cases he <;> rfl
    | clear => rfl
  · rfl

/-- An offer that is edited before an await settles could as well be edited after it. -/
theorem resume_offer (f : Frontend) {c : Suspended} (hc : c ≠ .resetting) {e : Operation}
    (he : Offer e) (reply : Reply) :
    (f.edit ids e).resume ids c reply =
      ((f.resume ids c reply).1.edit ids e, (f.resume ids c reply).2) := by
  by_cases hreply : c.SettledBy reply
  case neg => rw [resume_unsettled hreply, resume_unsettled hreply]
  cases c with
  | resetting => exact absurd rfl hc
  | startingCollection | endingCollection =>
    obtain ⟨tx, rfl⟩ | rfl := hreply
    · cases he <;> rfl
    · cases he <;> rfl
  | collectingData state =>
    obtain ⟨prices, quantities, rfl⟩ | rfl := hreply
    · simp only [Frontend.resume]
      cases processAuction state.auctionInput with
      | ok output => cases he <;> rfl
      | error message => cases he <;> rfl
    · cases he <;> rfl
  | resolvingAuction auctionId bidId =>
    obtain rfl := hreply
    exact Prod.ext (serviceTriggerAuction_edit f (.offer he) auctionId bidId) rfl
  | submittingData auctionId valid hv p rest =>
    have hreceive : (f.edit ids e).receive reply = (f.receive reply).edit ids e := by
      cases reply <;> cases he <;> rfl
    cases rest with
    | nil =>
      have hlast (f : Frontend) : f.resume ids (.submittingData auctionId valid hv p []) reply =
          (f.receive reply).announceNext ids auctionId valid valid := by
        obtain ⟨tx, rfl⟩ | rfl := hreply <;> rfl
      rw [hlast, hlast, hreceive]
      exact announceNext_offer _ he auctionId valid valid
    | cons p' rest =>
      obtain ⟨tx, rfl⟩ | rfl := hreply
      · exact Prod.ext hreceive rfl
      · rfl
  | announcingBids auctionId valid rest =>
    obtain rfl := hreply
    exact announceNext_offer f he auctionId valid rest
  | announcingAuction | placingBid | auctionResolved | delaying =>
    obtain rfl := hreply
    cases he <;> rfl

/-- What the call leaves alone as it goes on could as well be edited after it has. -/
theorem resume_spared (f : Frontend) {c : Suspended} {e : Operation} (h : Spares c e)
    (reply : Reply) :
    (f.edit ids e).resume ids c reply =
      ((f.resume ids c reply).1.edit ids e, (f.resume ids c reply).2) := by
  cases h with
  | offer hc he => exact resume_offer f hc he reply
  | notice hc =>
    by_cases hreply : c.SettledBy reply
    case neg => rw [resume_unsettled hreply, resume_unsettled hreply]
    cases c with
    | resolvingAuction auctionId bidId =>
      obtain rfl := hreply
      exact Prod.ext (serviceTriggerAuction_edit f .clear auctionId bidId) rfl
    | auctionResolved auctionId =>
      obtain rfl := hreply
      rfl
    | _ => cases hc

/-- A call that will write over an edit would have done so before it went on, and does not read
what is edited. -/
theorem resume_overwritten (f : Frontend) {c c' : Suspended} {e : Operation} (h : Overwrites c' e)
    {reply : Reply} (hnext : (f.resume ids c reply).2 = some c') :
    Overwrites c e ∧
      (f.edit ids e).resume ids c reply = ((f.resume ids c reply).1.edit ids e, some c') := by
  by_cases hreply : c.SettledBy reply
  case neg =>
    rw [resume_unsettled hreply] at hnext ⊢
    rw [resume_unsettled hreply]
    obtain rfl : c = c' := Option.some.inj hnext
    exact ⟨h, rfl⟩
  cases c with
  | startingCollection | endingCollection =>
    obtain ⟨tx, rfl⟩ | rfl := hreply
    · cases hnext
      cases h
      exact ⟨.notice _ rfl, rfl⟩
    · cases hnext
  | collectingData state =>
    obtain ⟨prices, quantities, rfl⟩ | rfl := hreply
    · simp only [Frontend.resume] at hnext
      cases hout : processAuction state.auctionInput with
      | ok output =>
        rw [hout] at hnext
        cases hnext
        cases h with
        | notice _ hc => cases hc
      | error message =>
        rw [hout] at hnext
        cases hnext
    · cases hnext
  | resolvingAuction auctionId bidId =>
    obtain rfl := hreply
    cases hnext
    cases h with
    | notice _ hc => cases hc
  | submittingData auctionId valid hv p rest =>
    cases rest with
    | nil =>
      cases valid with
      | nil => exact absurd rfl hv
      | cons p' valid =>
        obtain ⟨tx, rfl⟩ | rfl := hreply
        · cases hnext
          cases h
          exact ⟨.notice _ rfl, rfl⟩
        · cases hnext
          cases h
          exact ⟨.notice _ rfl, rfl⟩
    | cons p' rest =>
      obtain ⟨tx, rfl⟩ | rfl := hreply
      · cases hnext
        cases h
        exact ⟨.notice _ rfl, rfl⟩
      · cases hnext
        cases h
        exact ⟨.notice _ rfl, rfl⟩
  | delaying =>
    obtain rfl := hreply
    cases hnext
    cases h
    exact ⟨.notice _ rfl, rfl⟩
  | announcingBids auctionId valid rest =>
    obtain rfl := hreply
    cases rest with
    | nil => cases hnext
    | cons p rest =>
      cases hnext
      cases h
      exact ⟨.notice _ rfl, rfl⟩
  | announcingAuction | placingBid | auctionResolved | resetting =>
    obtain rfl := hreply
    cases hnext

theorem Spares.resume {f : Frontend} {c c' : Suspended} {e : Operation} (h : Spares c e)
    {reply : Reply} (hnext : (f.resume ids c reply).2 = some c') : Spares c' e :=
  (overwrites_or_spares c' h.edit).resolve_left fun h' =>
    h.not_overwrites (resume_overwritten f h' hnext).1

/-- A call does not read at its start what it will write over. -/
theorem begin_overwritten (f : Frontend) {c : Suspended} {e : Operation} (he : Edit e)
    (h : Overwrites c e) {op : Operation} (hnext : (f.begin ids op).2 = some c) :
    (f.edit ids e).begin ids op = ((f.begin ids op).1.edit ids e, some c) := by
  have hbegin := begin_cases ids f op
  generalize hf : (f.begin ids op).1 = f' at hbegin ⊢
  rw [hnext] at hbegin
  cases hbegin with
  | broadcastAuction =>
    cases h
    rfl
  | placeBid auction hauction hbid =>
    cases h
    have hsame : (f.edit ids .clearNotification).model.auction = some auction := hauction
    unfold Frontend.begin
    rw [hsame]
    exact if_neg hbid
  | triggerAuction now auction hauction hplaced =>
    cases h
    have hsame : (f.edit ids .clearNotification).model.auction = some auction := hauction
    unfold Frontend.begin
    rw [hsame]
    exact if_pos hplaced
  | resetAuction =>
    cases he with
    | offer he => cases he <;> rfl
    | clear => rfl
  | broadcastAllBids auction p rest hauction hvalid =>
    cases h
    have hsame : (f.edit ids .clearNotification).model.auction = some auction := hauction
    have hsame' : (f.edit ids .clearNotification).model.participants.filter Participant.isValid =
        p :: rest := hvalid
    unfold Frontend.begin
    simp only [hsame]
    split
    · next hnil => cases hsame'.symm.trans hnil
    · next p' rest' hcons =>
      cases hsame'.symm.trans hcons
      rfl

/-- Edits before a call goes on that it will still write over. -/
theorem resume_overwritten_run {early : List Operation} {f : Frontend} {c c' : Suspended}
    (h : ∀ e ∈ early, Overwrites c' e) {reply : Reply}
    (hnext : (f.resume ids c reply).2 = some c') :
    (∀ e ∈ early, Overwrites c e) ∧
      (run (Frontend.edit ids) f early).resume ids c reply =
        (run (Frontend.edit ids) (f.resume ids c reply).1 early, some c') := by
  induction early generalizing f with
  | nil => exact ⟨by simp, Prod.ext rfl hnext⟩
  | cons e early ih =>
    obtain ⟨hhead, htail⟩ := List.forall_mem_cons.mp h
    obtain ⟨hc, hresume⟩ := resume_overwritten f hhead hnext
    have hnext' : ((f.edit ids e).resume ids c reply).2 = some c' := by rw [hresume]
    obtain ⟨hrest, hrun⟩ := ih htail hnext'
    rw [hresume] at hrun
    exact ⟨List.forall_mem_cons.mpr ⟨hc, hrest⟩, hrun⟩

theorem begin_overwritten_run {early : List Operation} {f : Frontend} {c : Suspended}
    (hedit : ∀ e ∈ early, Edit e) (h : ∀ e ∈ early, Overwrites c e) {op : Operation}
    (hnext : (f.begin ids op).2 = some c) :
    (run (Frontend.edit ids) f early).begin ids op =
      (run (Frontend.edit ids) (f.begin ids op).1 early, some c) := by
  induction early generalizing f with
  | nil => exact Prod.ext rfl hnext
  | cons e early ih =>
    obtain ⟨hehead, hetail⟩ := List.forall_mem_cons.mp hedit
    obtain ⟨hhead, htail⟩ := List.forall_mem_cons.mp h
    have hbegin := begin_overwritten f hehead hhead hnext
    have hrun := ih hetail htail (f := f.edit ids e) (by rw [hbegin])
    rw [hbegin] at hrun
    exact hrun

/-- An edit that the call spares and one that it will write over have nothing to do with each
other. -/
theorem edit_edit (f : Frontend) {c : Suspended} {e e' : Operation} (h : Spares c e)
    (h' : Overwrites c e') : (f.edit ids e).edit ids e' = (f.edit ids e').edit ids e := by
  cases h' with
  | reset => exact absurd (.reset e) h.not_overwrites
  | notice _ hc =>
    cases h with
    | offer _ he => cases he <;> rfl
    | notice => rfl

theorem run_edit_edit {early : List Operation} {f : Frontend} {c : Suspended} {e : Operation}
    (h : Spares c e) (hearly : ∀ e ∈ early, Overwrites c e) :
    run (Frontend.edit ids) (f.edit ids e) early =
      (run (Frontend.edit ids) f early).edit ids e := by
  induction early generalizing f with
  | nil => rfl
  | cons e' early ih =>
    obtain ⟨hhead, htail⟩ := List.forall_mem_cons.mp hearly
    rw [run_cons, run_cons, edit_edit f h hhead]
    exact ih htail

/-- A call that spares an edit returns as it would have without, and the edit comes after it. -/
theorem Returns.spared {f f' : Frontend} {chain chain' : ChainState} {next : Option Suspended}
    {e : Operation} (h : Returns ids hardhat (f.edit ids e) chain next f' chain')
    (hspared : ∀ c ∈ next, Spares c e) :
    ∃ f'', Returns ids hardhat f chain next f'' chain' ∧ f' = f''.edit ids e := by
  generalize hf : f.edit ids e = g at h
  induction h generalizing f with
  | done g chain => exact ⟨f, .done f chain, hf.symm⟩
  | await g chain c fate f' chain' _ ih =>
    subst hf
    let reply := (hardhat.settle fate chain c).2
    have hc : Spares c e := hspared c rfl
    have hresume : (f.edit ids e).resume ids c reply =
        ((f.resume ids c reply).1.edit ids e, (f.resume ids c reply).2) := resume_spared f hc reply
    rw [hresume] at ih
    obtain ⟨f'', hreturns, hf'⟩ := ih (fun c' hc' => hc.resume hc') rfl
    exact ⟨f'', .await f chain c fate f'' chain' hreturns, hf'⟩

/-- Is the request one for an edit? -/
def Request.isEdit {Env : Type} : Request Env → Bool
  | .start op => op.isEdit
  | .external _ => false

def Request.isOffer {Env : Type} : Request Env → Bool
  | .start op => op.isOffer
  | .external _ => false

/-- What an action asks for, and whether a call is in flight when it does. -/
def Network.asks {Env : Type} (n : Network) (a : NetworkAction Env) : List (Request Env × Bool) :=
  (a.request?.map fun request => (request, decide (n.calls ≠ []))).toList

/-- The requests with some of the edits that were made while a call was in flight moved to the
front of that call, past the other edits made in it; `early` are those taken out of `asked` for the
call in front of it. -/
inductive Moved {Env : Type} :
    List Operation → List (Request Env × Bool) → List (Request Env) → Prop where
  | done : Moved [] [] []
  | external (tx : Tx Env) {asked : List (Request Env × Bool)} {served : List (Request Env)}
      (h : Moved [] asked served) : Moved [] ((.external tx, false) :: asked) (.external tx :: served)
  | start (op : Operation) {early : List Operation} {asked : List (Request Env × Bool)}
      {served : List (Request Env)} (hop : op.isEdit = true → early = [])
      (h : Moved early asked served) :
      Moved [] ((.start op, false) :: asked) (early.map .start ++ .start op :: served)
  | before (e : Operation) (he : e.isEdit = true) {early : List Operation}
      {asked : List (Request Env × Bool)} {served : List (Request Env)}
      (h : Moved early asked served) : Moved (e :: early) ((.start e, true) :: asked) served
  | after (e : Operation) (he : e.isEdit = true) {early : List Operation}
      {asked : List (Request Env × Bool)} {served : List (Request Env)}
      (h : Moved early asked served) :
      Moved early ((.start e, true) :: asked) (.start e :: served)

/-- The same requests, where edits have changed places with the call that they were made in at
most, and no two edits of offers with each other. -/
structure Rearranged {Env : Type} (asked : List (Request Env × Bool))
    (served : List (Request Env)) : Prop where
  moved : Moved [] asked served
  offers : served.filter Request.isOffer = (asked.map Prod.fst).filter Request.isOffer

/-- While a call is in flight, nothing but edits is asked for. -/
def Network.AloneButEdits {Env : Type} (n : Network) (a : NetworkAction Env) : Prop :=
  ∀ request ∈ a.request?, request.isEdit = true ∨ n.calls = []

section Lists

variable {α : Type*} {p : α → Bool} {x : α} {early xs : List α}

/-- Taking an entry to the front changes nothing for a filter that drops it or all it passes. -/
theorem filter_middle (h : p x = false ∨ ∀ y ∈ early, p y = false) :
    (early ++ x :: xs).filter p = (x :: (early ++ xs)).filter p := by
  rcases h with hx | hearly
  · simp [List.filter_append, hx]
  · have hnil : early.filter p = [] := List.filter_eq_nil_iff.mpr (by simpa using hearly)
    simp [List.filter_append, List.filter_cons, hnil]

end Lists

theorem Finishes.spared {f : Frontend} {chain : ChainState} {w : Waiting} {m : Market}
    {e : Operation} (h : Finishes ids hardhat (f.edit ids e) chain (some w) m)
    (hspared : Spares w.suspended e) :
    ∃ m' : Market, Finishes ids hardhat f chain (some w) m' ∧
      m = ⟨m'.frontend.edit ids e, m'.chain⟩ := by
  obtain ⟨c, _ | reply⟩ := w
  · have hreturns : Returns ids hardhat (f.edit ids e) chain (some c) m.frontend m.chain := h
    obtain ⟨f'', hf'', hm⟩ := hreturns.spared fun c' hc' => Option.some.inj hc' ▸ hspared
    exact ⟨⟨f'', m.chain⟩, hf'', by rw [← hm]⟩
  · have hreturns : Returns ids hardhat ((f.edit ids e).resume ids c reply).1 chain
        ((f.edit ids e).resume ids c reply).2 m.frontend m.chain := h
    rw [resume_spared f hspared reply] at hreturns
    obtain ⟨f'', hf'', hm⟩ := hreturns.spared fun c' hc' => hspared.resume hc'
    exact ⟨⟨f'', m.chain⟩, hf'', by rw [← hm]⟩

section Schedules

variable {Env : Type} (self : Address)
  (fromExternal : Env → ExternalEuint32 → Bytes → Except String Euint32)

/-- An edit performed on its own. -/
def MarketAction.edit (e : Operation) : MarketAction Env := .perform ⟨e, fun _ => .drops⟩

theorem Market.step_edit (m : Market) {e : Operation} (he : Edit e) :
    m.step ids hardhat self fromExternal (.edit e) = ⟨m.frontend.edit ids e, m.chain⟩ := by
  simp only [MarketAction.edit, Market.step, Market.perform, Market.outcome, begin_edit he]
  rfl

theorem Market.run_edits (m : Market) {early : List Operation} (h : ∀ e ∈ early, Edit e) :
    run (Market.step ids hardhat self fromExternal) m (early.map .edit) =
      ⟨run (Frontend.edit ids) m.frontend early, m.chain⟩ := by
  induction early generalizing m with
  | nil => rfl
  | cons e early ih =>
    obtain ⟨he, hearly⟩ := List.forall_mem_cons.mp h
    rw [List.map_cons, run_cons, m.step_edit self fromExternal he, ih _ hearly]
    rfl

theorem map_request_edit (early : List Operation) (actions : List (MarketAction Env)) :
    (early.map MarketAction.edit ++ actions).map MarketAction.request =
      early.map Request.start ++ actions.map MarketAction.request := by
  rw [List.map_append, List.map_map]
  rfl

/-- What is asked for from a state on can be served one call after another, with some edits moved
before the call in flight that will write over them. -/
def Serializes (ids : ℕ → IdSource) (hardhat : Hardhat) (f : Frontend) (chain : ChainState)
    (call : Option Waiting) (m' : Market) (asked : List (Request Env × Bool)) : Prop :=
  ∃ early m actions, (∀ e ∈ early, Edit e) ∧
    (∀ e ∈ early, ∃ w ∈ call, Overwrites w.suspended e) ∧
    Finishes ids hardhat (run (Frontend.edit ids) f early) chain call m ∧
    run (Market.step ids hardhat self fromExternal) m actions = m' ∧
    Moved early asked (actions.map MarketAction.request) ∧
    (early.map Request.start ++ actions.map MarketAction.request).filter Request.isOffer =
      (asked.map Prod.fst).filter Request.isOffer

theorem early_nil {early : List Operation}
    (h : ∀ e ∈ early, ∃ w ∈ (none : Option Waiting), Overwrites w.suspended e) : early = [] := by
  cases early with
  | nil => rfl
  | cons e early =>
    obtain ⟨w, hw, -⟩ := h e List.mem_cons_self
    cases hw

namespace Serializes

variable {self fromExternal} {f : Frontend} {chain : ChainState} {m' : Market}
  {asked : List (Request Env × Bool)}

theorem done (m : Market) :
    Serializes self fromExternal ids hardhat m.frontend m.chain none m [] :=
  ⟨[], m, [], by simp, by simp, rfl, rfl, .done, rfl⟩

theorem external (tx : Tx Env)
    (h : Serializes self fromExternal ids hardhat f (attempt self fromExternal chain tx) none m'
      asked) :
    Serializes self fromExternal ids hardhat f chain none m' ((.external tx, false) :: asked) := by
  obtain ⟨early, m, actions, hedit, hearly, hfinish, hrun, hmoved, hoffers⟩ := h
  obtain rfl := early_nil hearly
  obtain rfl : m = ⟨f, attempt self fromExternal chain tx⟩ := hfinish
  exact ⟨[], ⟨f, chain⟩, .external tx :: actions, by simp, by simp, rfl, hrun, hmoved.external tx,
    hoffers⟩

theorem begun (op : Operation)
    (h : Serializes self fromExternal ids hardhat (f.begin ids op).1 chain
      ((f.begin ids op).2.map (⟨·, none⟩)) m' asked) :
    Serializes self fromExternal ids hardhat f chain none m' ((.start op, false) :: asked) := by
  obtain ⟨early, m, actions, hedit, hearly, hfinish, hrun, hmoved, hoffers⟩ := h
  have hbegin : (run (Frontend.edit ids) f early).begin ids op =
      (run (Frontend.edit ids) (f.begin ids op).1 early, (f.begin ids op).2) := by
    cases hnext : (f.begin ids op).2 with
    | none =>
      rw [hnext] at hearly
      rw [early_nil hearly]
      exact Prod.ext rfl hnext
    | some c =>
      rw [hnext] at hearly
      exact begin_overwritten_run hedit (fun e he => by simpa using hearly e he) hnext
  have hop : op.isEdit = true → early = [] := by
    intro hop
    rw [begin_edit (edit_of_isEdit hop)] at hearly
    exact early_nil hearly
  have hoffer : (Request.start op : Request Env).isOffer = false ∨
      ∀ r ∈ early.map (Request.start : Operation → Request Env), r.isOffer = false := by
    cases hoffer : op.isOffer with
    | false => exact Or.inl hoffer
    | true =>
      rw [hop (edit_of_isOffer hoffer).isEdit]
      exact Or.inr (by simp)
  have hreturns := returns_of_finishes hfinish
  let m₀ : Market := ⟨run (Frontend.edit ids) f early, chain⟩
  obtain ⟨network, hperform⟩ : ∃ network, m₀.perform ids hardhat ⟨op, network⟩ = m := by
    apply Market.perform_of_returns
    rw [hbegin]
    exact hreturns
  refine ⟨[], ⟨f, chain⟩, early.map .edit ++ .perform ⟨op, network⟩ :: actions, by simp, by simp,
    rfl, ?_, ?_, ?_⟩
  · rw [run_append, Market.run_edits _ _ _ hedit, run_cons, ← hrun, ← hperform]
    rfl
  · rw [map_request_edit]
    exact .start op hop hmoved
  · rw [map_request_edit]
    show (early.map Request.start ++ Request.start op :: actions.map MarketAction.request).filter
      Request.isOffer = _
    rw [filter_middle hoffer, List.map_cons, List.filter_cons, List.filter_cons, hoffers]

/-- An edit while a call is in flight goes before the call if that will write over it, and after
it otherwise. -/
theorem edited {e : Operation} (he : Edit e) {w : Waiting}
    (h : Serializes self fromExternal ids hardhat (f.edit ids e) chain (some w) m' asked) :
    Serializes self fromExternal ids hardhat f chain (some w) m' ((.start e, true) :: asked) := by
  obtain ⟨early, m, actions, hedit, hearly, hfinish, hrun, hmoved, hoffers⟩ := h
  rcases overwrites_or_spares w.suspended he with hover | hspared
  · refine ⟨e :: early, m, actions, List.forall_mem_cons.mpr ⟨he, hedit⟩,
      List.forall_mem_cons.mpr ⟨⟨w, rfl, hover⟩, hearly⟩, hfinish, hrun,
      .before e he.isEdit hmoved, ?_⟩
    rw [List.map_cons, List.cons_append, List.map_cons, List.filter_cons, List.filter_cons, hoffers]
  · have hover : ∀ e ∈ early, Overwrites w.suspended e := fun e he => by simpa using hearly e he
    rw [run_edit_edit hspared hover] at hfinish
    obtain ⟨m₁, hfinish₁, rfl⟩ := hfinish.spared hspared
    refine ⟨early, m₁, .edit e :: actions, hedit, hearly, hfinish₁, ?_, .after e he.isEdit hmoved,
      ?_⟩
    · rw [run_cons, m₁.step_edit self fromExternal he]
      exact hrun
    · have hnone : ∀ r ∈ early.map (Request.start : Operation → Request Env),
          r.isOffer = false := by
        intro r hr
        obtain ⟨e', he', rfl⟩ := List.mem_map.mp hr
        exact (hover e' he').isOffer hspared
      show (early.map Request.start ++ Request.start e :: actions.map MarketAction.request).filter
        Request.isOffer = _
      rw [filter_middle (Or.inr hnone), List.map_cons, List.filter_cons, List.filter_cons, hoffers]

theorem served {c : Suspended} (fate : Fate)
    (h : Serializes self fromExternal ids hardhat f (hardhat.settle fate chain c).1
      (some ⟨c, some (hardhat.settle fate chain c).2⟩) m' asked) :
    Serializes self fromExternal ids hardhat f chain (some ⟨c, none⟩) m' asked := by
  obtain ⟨early, m, actions, hedit, hearly, hfinish, hrest⟩ := h
  refine ⟨early, m, actions, hedit, ?_, .await _ chain c fate _ _ hfinish, hrest⟩
  intro e he
  exact ⟨_, rfl, by simpa using hearly e he⟩

theorem delivered {c : Suspended} {reply : Reply}
    (h : Serializes self fromExternal ids hardhat (f.resume ids c reply).1 chain
      ((f.resume ids c reply).2.map (⟨·, none⟩)) m' asked) :
    Serializes self fromExternal ids hardhat f chain (some ⟨c, some reply⟩) m' asked := by
  obtain ⟨early, m, actions, hedit, hearly, hfinish, hrest⟩ := h
  have hreturns := returns_of_finishes hfinish
  obtain ⟨hover, hresume⟩ : (∀ e ∈ early, Overwrites c e) ∧
      (run (Frontend.edit ids) f early).resume ids c reply =
        (run (Frontend.edit ids) (f.resume ids c reply).1 early, (f.resume ids c reply).2) := by
    cases hnext : (f.resume ids c reply).2 with
    | none =>
      rw [hnext] at hearly
      rw [early_nil hearly]
      exact ⟨by simp, Prod.ext rfl hnext⟩
    | some c' =>
      rw [hnext] at hearly
      exact resume_overwritten_run (fun e he => by simpa using hearly e he) hnext
  refine ⟨early, m, actions, hedit, fun e he => ⟨_, rfl, hover e he⟩, ?_, hrest⟩
  show Returns ids hardhat _ chain _ m.frontend m.chain
  rw [hresume]
  exact hreturns

end Serializes

theorem schedule_serializes {schedule : List (NetworkAction Env)} {f : Frontend}
    {chain : ChainState} {call : Option Waiting} {m' : Market}
    (halone : Along (Network.step ids hardhat self fromExternal) Network.AloneButEdits
      ⟨f, call.toList, chain⟩ schedule)
    (hend : run (Network.step ids hardhat self fromExternal) ⟨f, call.toList, chain⟩ schedule =
      m'.network) :
    Serializes self fromExternal ids hardhat f chain call m'
      (emitted (Network.step ids hardhat self fromExternal) Network.asks ⟨f, call.toList, chain⟩
        schedule) := by
  induction schedule generalizing f chain call with
  | nil =>
    obtain ⟨rfl, hcall, rfl⟩ : f = m'.frontend ∧ call.toList = [] ∧ chain = m'.chain := by
      simpa [Market.network] using hend
    obtain rfl := Option.toList_eq_nil_iff.mp hcall
    exact .done m'
  | cons a schedule ih =>
    obtain ⟨ha, halone⟩ := along_cons.mp halone
    rw [run_cons] at hend
    cases call with
    | none =>
      cases a with
      | start op =>
        exact .begun op (@ih (f.begin ids op).1 chain ((f.begin ids op).2.map (⟨·, none⟩)) halone
          hend)
      | external tx =>
        exact .external tx (@ih f (attempt self fromExternal chain tx) none halone hend)
      | serve i fate env => exact @ih f chain none halone hend
      | deliver i => exact @ih f chain none halone hend
    | some w =>
      cases a with
      | start op =>
        have he : Edit op := edit_of_isEdit ((ha _ rfl).resolve_right (by simp))
        have hstep : Network.step ids hardhat self fromExternal ⟨f, [w], chain⟩ (.start op) =
            ⟨f.edit ids op, [w], chain⟩ := by
          simp [Network.step, begin_edit he]
        have hcall : (some w).toList = [w] := rfl
        rw [hcall] at halone hend ⊢
        rw [emitted]
        rw [hstep] at halone hend ⊢
        exact .edited he (@ih (f.edit ids op) chain (some w) halone hend)
      | external tx =>
        have hidle := ha _ rfl
        simp [Request.isEdit] at hidle
      | serve i fate env =>
        obtain ⟨c, pending⟩ := w
        cases i with
        | succ i => exact @ih f chain (some ⟨c, pending⟩) halone hend
        | zero =>
          cases pending with
          | some reply => exact @ih f chain (some ⟨c, some reply⟩) halone hend
          | none =>
            exact .served fate (@ih f (hardhat.settle fate chain c).1
              (some ⟨c, some (hardhat.settle fate chain c).2⟩) halone hend)
      | deliver i =>
        obtain ⟨c, pending⟩ := w
        cases i with
        | succ i => exact @ih f chain (some ⟨c, pending⟩) halone hend
        | zero =>
          cases pending with
          | none => exact @ih f chain (some ⟨c, none⟩) halone hend
          | some reply =>
            rw [step_deliver_only] at halone hend
            rw [emitted, step_deliver_only]
            exact .delivered (ih halone hend)

/-- A run in which only edits are made while a call is in flight ends on the page and the contract
of a sequential history, with every edit before or after the call that it was made in. -/
theorem edits_serialize {m m' : Market} {schedule : List (NetworkAction Env)}
    (halone : Along (Network.step ids hardhat self fromExternal) Network.AloneButEdits m.network
      schedule)
    (hend : run (Network.step ids hardhat self fromExternal) m.network schedule = m'.network) :
    ∃ actions : List (MarketAction Env),
      Rearranged (emitted (Network.step ids hardhat self fromExternal) Network.asks m.network
        schedule) (actions.map MarketAction.request) ∧
      run (Market.step ids hardhat self fromExternal) m actions = m' := by
  have h : Serializes self fromExternal ids hardhat m.frontend m.chain none m'
      (emitted (Network.step ids hardhat self fromExternal) Network.asks m.network schedule) :=
    schedule_serializes self fromExternal halone hend
  obtain ⟨early, m₁, actions, -, hearly, hfinish, hrun, hmoved, hoffers⟩ := h
  obtain rfl := early_nil hearly
  obtain rfl : m₁ = m := hfinish
  exact ⟨actions, ⟨hmoved, hoffers⟩, hrun⟩

end Schedules

/-- A draft is edited and the notification dismissed while the broadcast waits for its receipt, and
a participant while the auction is announced. -/
def editedBroadcast : List (NetworkAction Unit) :=
  [.start .broadcastAuction, .start (.updateBidPower 10), .serve 0 (.confirms mockTransaction) (),
    .start .clearNotification, .deliver 0, .start (.updateParticipant "participant-2" 70 90),
    .serve 0 .drops (), .deliver 0]

theorem editedBroadcast_serializes :
    let m := Market.initial 0 [] mockRedispatchEvent
    let step := Network.step (fun _ => .server) ⟨0, fun _ => true⟩ 1 fun (_ : Unit) handle _ =>
      .ok handle
    let n := run step m.network editedBroadcast
    ∃ actions : List (MarketAction Unit),
      Rearranged (emitted step Network.asks m.network editedBroadcast)
        (actions.map MarketAction.request) ∧
      run (Market.step (fun _ => .server) ⟨0, fun _ => true⟩ 1 fun (_ : Unit) handle _ =>
        .ok handle) m actions = ⟨n.frontend, n.chain⟩ := by
  intro m step n
  apply edits_serialize
  · refine along_cons.mpr ⟨?_, along_cons.mpr ⟨?_, along_cons.mpr ⟨?_, along_cons.mpr ⟨?_,
      along_cons.mpr ⟨?_, along_cons.mpr ⟨?_, along_cons.mpr ⟨?_, along_cons.mpr ⟨?_,
        along_nil _ _⟩⟩⟩⟩⟩⟩⟩⟩
    · exact fun _ _ => Or.inr rfl
    all_goals rintro request ⟨⟩ <;> exact Or.inl rfl
  · rfl

end GridFlex
