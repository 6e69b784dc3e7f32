import GridFlex.Market.Network

/-! The connection that `services/hardhat-service.ts` keeps: a wallet and a contract from the
first method that needs them on, and a wallet for every participant that has submitted. -/
namespace GridFlex
open Transition

/-- `new ethers.Wallet(privateKey, provider)`. -/
structure Wallet where
  privateKey : String
  address : Address

/-- What the service uses of ethers: the address of a key, and the numbers that `toBeHex` does not
throw at. -/
structure Accounts where
  addressOf : String → Address
  encodes : ℚ → Bool

def Accounts.newWallet (accounts : Accounts) (privateKey : String) : Wallet :=
  ⟨privateKey, accounts.addressOf privateKey⟩

def privateKeys : List String :=
  ["0xac0974bec39a17e36ba4a6b4d238ff944bacb478cbed5efcae784d7bf4f2ff80",
    "0x59c6995e998f97a5a0044966f0945389dc9e86dae88c7a8412f4603b6b78690d",
    "0x5de4111afa1a4b94908f83103eb1f1706367c2e68ca870fc3fb9a804cdab365a",
    "0x7c852118294e51e653712a81e05800f419141751be58f605c371e15141b007a6",
    "0x47e179ec197488593b187f80a00eb0da91f1b9d0b13f8733639f19c30a34926a"]

def getHardhatPrivateKey (accountIndex : ℕ) : Except String String :=
  match privateKeys[accountIndex]? with
  | some privateKey => .ok privateKey
  | none => .error ("Account index " ++ toString accountIndex ++ " not available")

/-- The wallet that `getParticipantWallet` makes for a participant it has none for. -/
def Accounts.participantWallet (accounts : Accounts) (participantId : String) :
    Except String Wallet :=
  match participantAccountMap participantId with
  | none => .error ("Unknown participant ID: " ++ participantId)
  | some accountIndex =>
      match getHardhatPrivateKey accountIndex with
      | .error message => .error message
      | .ok privateKey => .ok (accounts.newWallet privateKey)

/-- The fields of the service that change. -/
structure Session where
  wallet : Option Wallet
  /-- The wallet that the contract is connected with. -/
  fheDataCollectorContract : Option Wallet
  participantWallets : List (String × Wallet)

namespace Session

def initial : Session := ⟨none, none, []⟩

variable (accounts : Accounts)

def setupFHEDataCollectorContract (s : Session) : Session :=
  match s.wallet with
  | some wallet => { s with fheDataCollectorContract := some wallet }
  | none => s

def connectWallet (s : Session) : Session × Except String Unit :=
  match getHardhatPrivateKey 0 with
  | .ok privateKey =>
      ({ s with wallet := some (accounts.newWallet privateKey) }.setupFHEDataCollectorContract,
        .ok ())
  | .error _ =>
      (s, .error "Failed to connect to Hardhat network. Make sure Hardhat node is running.")

/-- The first lines of `startCollection`, `endCollection` and `getCollectedData`. -/
def connect (s : Session) : Session × Except String Wallet :=
  let (s, connected) : Session × Except String Unit :=
    match s.wallet with
    | some _ => (s, .ok ())
    | none => s.connectWallet accounts
  match connected, s.fheDataCollectorContract with
  | .error message, _ => (s, .error message)
  | .ok _, none => (s, .error "FHEDataCollector contract not available")
  | .ok _, some wallet => (s, .ok wallet)

def getParticipantWallet (s : Session) (participantId : String) :
    Session × Except String Wallet :=
  match s.participantWallets.lookup participantId with
  | some wallet => (s, .ok wallet)
  | none =>
      match accounts.participantWallet participantId with
      | .error message => (s, .error message)
      | .ok wallet =>
          ({ s with participantWallets := (participantId, wallet) :: s.participantWallets },
            .ok wallet)

/-- A method that connects and then calls the contract with the wallet it is connected with. -/
def calling (s : Session) (chain : ChainState) (call : Hardhat → Gateway → Gateway × Reply) :
    Session × ChainState × Reply :=
  match s.connect accounts with
  | (s, .error _) => (s, chain, .rejected)
  | (s, .ok wallet) =>
      let (g, reply) := call ⟨wallet.address, accounts.encodes⟩ ⟨chain, 0⟩
      (s, g.chain, reply)

def startCollection (s : Session) (fate : Fate) (chain : ChainState) :
    Session × ChainState × Reply :=
  s.calling accounts chain fun hardhat g => hardhat.startCollection fate g

def endCollection (s : Session) (fate : Fate) (chain : ChainState) :
    Session × ChainState × Reply :=
  s.calling accounts chain fun hardhat g => hardhat.endCollection fate g

def getCollectedData (s : Session) (fate : Fate) (chain : ChainState) :
    Session × ChainState × Reply :=
  s.calling accounts chain fun hardhat g => hardhat.getCollectedData fate g

/-- The one method that does not connect. -/
def submitData (s : Session) (fate : Fate) (chain : ChainState) (price quantity : ℚ)
    (participantId : String) : Session × ChainState × Reply :=
  match s.fheDataCollectorContract with
  | none => (s, chain, .rejected)
  | some wallet =>
      match s.getParticipantWallet accounts participantId with
      | (s, .error _) => (s, chain, .rejected)
      | (s, .ok _) =>
          let hardhat : Hardhat := ⟨wallet.address, accounts.encodes⟩
          let (g, reply) := hardhat.submitData fate ⟨chain, 0⟩ price quantity participantId
          (s, g.chain, reply)

def settle (s : Session) (fate : Fate) (chain : ChainState) :
    Suspended → Session × ChainState × Reply
  | .startingCollection _ => s.startCollection accounts fate chain
  | .endingCollection _ => s.endCollection accounts fate chain
  | .collectingData _ => s.getCollectedData accounts fate chain
  | .submittingData _ _ _ p _ => s.submitData accounts fate chain p.pricePerMW p.powerMW p.id
  | _ => (s, chain, .settled)

end Session

namespace Accounts

variable (accounts : Accounts)

/-- Account 0, the grid operator. -/
def operator : Wallet :=
  accounts.newWallet "0xac0974bec39a17e36ba4a6b4d238ff944bacb478cbed5efcae784d7bf4f2ff80"

/-- The service once it is connected. -/
def connected : Hardhat := ⟨accounts.operator.address, accounts.encodes⟩

theorem participantWallet_ok {participantId : String} {wallet : Wallet}
    (h : accounts.participantWallet participantId = .ok wallet) :
    ∃ accountIndex, 0 < accountIndex ∧ privateKeys[accountIndex]? = some wallet.privateKey ∧
      participantId = "participant-" ++ toString accountIndex := by
  unfold participantWallet at h
  split at h
  · cases h
  · next accountIndex hindex =>
    refine ⟨accountIndex, ?_⟩
    unfold participantAccountMap at hindex
    split at hindex <;> cases hindex <;> cases h <;> exact ⟨by decide, rfl, rfl⟩

/-- No two participants share an account, and none has the operator's. -/
theorem participantWallet_separate {participantId : String} {wallet : Wallet}
    (h : accounts.participantWallet participantId = .ok wallet) :
    wallet.privateKey ≠ accounts.operator.privateKey ∧ ∀ participantId' wallet',
      accounts.participantWallet participantId' = .ok wallet' →
        wallet'.privateKey = wallet.privateKey → participantId' = participantId := by
  have hkeys : privateKeys.Nodup := by decide
  obtain ⟨accountIndex, hpos, hkey, rfl⟩ := accounts.participantWallet_ok h
  have hlt : accountIndex < privateKeys.length := (List.getElem?_eq_some_iff.mp hkey).1
  have hindex (k : ℕ) (hk : privateKeys[k]? = some wallet.privateKey) : accountIndex = k :=
    (List.getElem?_inj hlt hkeys).mp (hkey.trans hk.symm)
  constructor
  · intro hoperator
    have hzero := hindex 0 (congrArg some hoperator.symm)
    omega
  · intro participantId' wallet' h' hsame
    obtain ⟨accountIndex', -, hkey', rfl⟩ := accounts.participantWallet_ok h'
    rw [hindex accountIndex' (by rw [hkey', hsame])]

theorem participantWallet_error {participantId message : String}
    (h : accounts.participantWallet participantId = .error message) :
    participantAccountMap participantId = none := by
  unfold participantWallet at h
  split at h
  · assumption
  · next accountIndex hindex =>
    -- there is a key for each of the four accounts
    have hkey : ∃ privateKey, getHardhatPrivateKey accountIndex = .ok privateKey := by
      unfold participantAccountMap at hindex
      split at hindex <;> cases hindex <;> exact ⟨_, rfl⟩
    obtain ⟨privateKey, hkey⟩ := hkey
    rw [hkey] at h
    cases h

end Accounts

/-- The wallets that a session holds are the ones it would make. -/
structure Session.Sound (accounts : Accounts) (s : Session) : Prop where
  wallet : ∀ wallet ∈ s.wallet, wallet = accounts.operator
  contract : s.fheDataCollectorContract = s.wallet
  participants : ∀ participantId, ∀ wallet ∈ s.participantWallets.lookup participantId,
    accounts.participantWallet participantId = .ok wallet

namespace Session.Sound

variable {accounts : Accounts} {s : Session}

theorem initial : Session.initial.Sound accounts := ⟨by simp [Session.initial], rfl, by
  simp [Session.initial]⟩

theorem connect (h : s.Sound accounts) :
    (s.connect accounts).2 = .ok accounts.operator ∧ (s.connect accounts).1.Sound accounts ∧
      (s.connect accounts).1.wallet = some accounts.operator := by
  obtain ⟨wallet, contract, participants⟩ := s
  cases wallet with
  | none =>
    exact ⟨rfl, ⟨by simp [Session.connect, Session.connectWallet, getHardhatPrivateKey,
      privateKeys, setupFHEDataCollectorContract, Accounts.operator], rfl, h.participants⟩, rfl⟩
  | some wallet =>
    obtain rfl := h.wallet wallet rfl
    have hcontract : contract = some accounts.operator := h.contract
    subst hcontract
    exact ⟨rfl, h, rfl⟩

/-- A participant gets the same wallet with and without a hit in the map. -/
theorem getParticipantWallet (h : s.Sound accounts) (participantId : String) :
    (s.getParticipantWallet accounts participantId).2 =
        accounts.participantWallet participantId ∧
      (s.getParticipantWallet accounts participantId).1.Sound accounts ∧
      (s.getParticipantWallet accounts participantId).1.wallet = s.wallet := by
  unfold Session.getParticipantWallet
  cases hlookup : s.participantWallets.lookup participantId with
  | some wallet => exact ⟨(h.participants participantId wallet hlookup).symm, h, rfl⟩
  | none =>
    cases hwallet : accounts.participantWallet participantId with
    | error message => exact ⟨rfl, h, rfl⟩
    | ok wallet =>
      refine ⟨rfl, ⟨h.wallet, h.contract, ?_⟩, rfl⟩
      intro id wallet' hmem
      by_cases hid : id = participantId
      · subst hid
        obtain rfl : wallet = wallet' := by simpa [List.lookup] using hmem
        exact hwallet
      · have hbeq : (id == participantId) = false := by simpa using hid
        simp only [List.lookup, hbeq] at hmem
        exact h.participants id wallet' hmem

/-- A settled await: the connected service's answer, and a session that is connected by it if the
await is one of a method that connects. -/
theorem settle (h : s.Sound accounts) (fate : Fate) (chain : ChainState) {c : Suspended}
    (hwallet : s.wallet = none → c.role = .bystander) :
    (s.settle accounts fate chain c).2 = accounts.connected.settle fate chain c ∧
      (s.settle accounts fate chain c).1.Sound accounts ∧
      ((s.settle accounts fate chain c).1.wallet = none →
        s.wallet = none ∧ ∀ redispatchEvent, c ≠ .startingCollection redispatchEvent) := by
  have hcalling (call : Hardhat → Gateway → Gateway × Reply) :
      (s.calling accounts chain call).2 =
          ((call accounts.connected ⟨chain, 0⟩).1.chain, (call accounts.connected ⟨chain, 0⟩).2) ∧
        (s.calling accounts chain call).1.Sound accounts ∧
        (s.calling accounts chain call).1.wallet = some accounts.operator := by
    obtain ⟨hok, hsound, hconnected⟩ := h.connect
    unfold Session.calling
    generalize s.connect accounts = connection at hok hsound hconnected ⊢
    obtain ⟨s', result⟩ := connection
    obtain rfl : result = .ok accounts.operator := hok
    exact ⟨rfl, hsound, hconnected⟩
  cases c with
  | startingCollection redispatchEvent =>
    obtain ⟨hreply, hsound, hconnected⟩ := hcalling fun hardhat g => hardhat.startCollection fate g
    exact ⟨hreply, hsound, fun hnone => absurd (hconnected.symm.trans hnone) (by simp)⟩
  | endingCollection state =>
    obtain ⟨hreply, hsound, hconnected⟩ := hcalling fun hardhat g => hardhat.endCollection fate g
    exact ⟨hreply, hsound, fun hnone => absurd (hconnected.symm.trans hnone) (by simp)⟩
  | collectingData state =>
    obtain ⟨hreply, hsound, hconnected⟩ := hcalling fun hardhat g => hardhat.getCollectedData fate g
    exact ⟨hreply, hsound, fun hnone => absurd (hconnected.symm.trans hnone) (by simp)⟩
  | submittingData auctionId valid hv p rest =>
    cases hw : s.wallet with
    | none => exact absurd (hwallet hw) (by simp [Suspended.role])
    | some wallet =>
      obtain rfl := h.wallet wallet hw
      obtain ⟨hparticipant, hsound, hsame⟩ := h.getParticipantWallet p.id
      have hcontract : s.fheDataCollectorContract = some accounts.operator := h.contract.trans hw
      simp only [Session.settle, Session.submitData, hcontract]
      generalize s.getParticipantWallet accounts p.id = made at hparticipant hsound hsame ⊢
      obtain ⟨s', result⟩ := made
      subst hparticipant
      have hnone : s'.wallet = none → s.wallet = none ∧
          ∀ e, Suspended.submittingData auctionId valid hv p rest ≠ .startingCollection e :=
        fun hnone => ⟨hsame.symm.trans hnone, by simp⟩
      rw [hw] at hnone
      cases hmade : accounts.participantWallet p.id with
      | error message =>
        have hunknown := accounts.participantWallet_error hmade
        exact ⟨by simp [Hardhat.settle, Hardhat.serve, Hardhat.submitData, hunknown], hsound, hnone⟩
      | ok wallet => exact ⟨rfl, hsound, hnone⟩
  | _ => exact ⟨rfl, h, fun hnone => ⟨hnone, by simp⟩⟩

end Session.Sound

/-- The network with the connection that its service keeps. -/
structure LazyNetwork where
  network : Network
  session : Session

/-- Nothing has come of the page's calls yet: no auction, and of the calls in flight none that
acts on one. -/
structure Network.Unannounced (n : Network) : Prop where
  auction : n.frontend.model.auction = none
  calls : ∀ w ∈ n.calls, w.suspended.role = .bystander ∧
    ∀ redispatchEvent, w.suspended = .startingCollection redispatchEvent → w.reply = none

theorem begin_unannounced (ids : ℕ → IdSource) {f : Frontend} (h : f.model.auction = none)
    (op : Operation) :
    (f.begin ids op).1.model.auction = none ∧
      ∀ c ∈ (f.begin ids op).2, c.role = .bystander := by
  have hbegin := begin_cases ids f op
  generalize (f.begin ids op).1 = f', (f.begin ids op).2 = next at hbegin ⊢
  cases hbegin with
  | broadcastAuction => exact ⟨h, by simp [Suspended.role]⟩
  | resetAuction => exact ⟨h, by simp [Suspended.role]⟩
  | noAuction | notPlaced | updateBidPower | updateBidPrice | updateParticipant
  | clearNotification => exact ⟨h, by simp⟩
  | blankBid auction hauction | placeBid auction hauction | triggerAuction _ auction hauction
  | nothingValid auction hauction | broadcastAllBids auction _ _ hauction =>
    exact absurd (h.symm.trans hauction) (by simp)

theorem resume_unannounced (ids : ℕ → IdSource) {f : Frontend} (h : f.model.auction = none)
    {c : Suspended} (hrole : c.role = .bystander)
    (hstart : ∀ redispatchEvent, c ≠ .startingCollection redispatchEvent) (reply : Reply) :
    (f.resume ids c reply).1.model.auction = none ∧
      ∀ c' ∈ (f.resume ids c reply).2, c'.role = .bystander := by
  by_cases hreply : c.SettledBy reply
  case neg =>
    rw [resume_unsettled hreply]
    exact ⟨h, by simpa using hrole⟩
  cases c with
  | startingCollection redispatchEvent => exact absurd rfl (hstart redispatchEvent)
  | resolvingAuction auctionId bidId =>
    obtain rfl := hreply
    exact ⟨(f.serviceTriggerAuction_quiet ids auctionId bidId).auction.trans h,
      by simp [Frontend.resume, Suspended.role]⟩
  | auctionResolved auctionId =>
    obtain rfl := hreply
    exact ⟨h, by simp [Frontend.resume]⟩
  | resetting =>
    obtain rfl := hreply
    exact ⟨rfl, by simp [Frontend.resume]⟩
  | _ => simp [Suspended.role] at hrole

section Steps

variable {Env : Type} (ids : ℕ → IdSource) (accounts : Accounts) (self : Address)
  (fromExternal : Env → ExternalEuint32 → Bytes → Except String Euint32)

namespace LazyNetwork

def initial (deployer : Address) (grants : List (Euint32 × Address))
    (redispatchEvent : RedispatchEvent) : LazyNetwork :=
  ⟨.initial deployer grants redispatchEvent, .initial⟩

/-- Only the settling of an await uses the service. -/
def step (n : LazyNetwork) : NetworkAction Env → LazyNetwork
  | .serve i fate _ =>
      match n.network.calls[i]? with
      | some ⟨c, none⟩ =>
          let (session, chain, reply) := n.session.settle accounts fate n.network.chain c
          let calls := n.network.calls.set i ⟨c, some reply⟩
          ⟨{ n.network with chain := chain, calls := calls }, session⟩
      | _ => n
  | a => { n with network := n.network.step ids accounts.connected self fromExternal a }

end LazyNetwork

variable {ids accounts self fromExternal} in
/-- Only the settling of `startCollection` announces anything. -/
theorem Network.Unannounced.step {hardhat : Hardhat} {n : Network} (h : n.Unannounced)
    {a : NetworkAction Env} (ha : ∀ i fate env, a ≠ .serve i fate env) :
    (n.step ids hardhat self fromExternal a).Unannounced := by
  have hstep := n.step_cases ids hardhat self fromExternal a
  generalize n.step ids hardhat self fromExternal a = n', n.sent hardhat a = txs,
    n.resumed a = as at hstep ⊢
  cases hstep with
  | idle | external => exact ⟨h.auction, h.calls⟩
  | started op =>
    obtain ⟨hauction, hnext⟩ := begin_unannounced ids h.auction op
    refine ⟨hauction, ?_⟩
    intro w hw
    rcases List.mem_append.mp hw with hw | hw
    · exact h.calls w hw
    · obtain ⟨c, hc, rfl⟩ := Option.map_eq_some_iff.mp (Option.mem_toList.mp hw)
      exact ⟨hnext c hc, fun _ _ => rfl⟩
  | served before c after fate env hcalls => exact absurd rfl (ha _ fate env)
  | delivered before c reply after hcalls =>
    have hcall : (⟨c, some reply⟩ : Waiting) ∈ n.calls := by simp [hcalls]
    obtain ⟨hrole, hstart⟩ := h.calls _ hcall
    obtain ⟨hauction, hnext⟩ := resume_unannounced ids h.auction hrole
      (fun e he => by simpa using hstart e he) reply
    refine ⟨hauction, ?_⟩
    intro w hw
    simp only [List.mem_append, Option.mem_toList] at hw
    obtain (hw | hw) | hw := hw
    · exact h.calls w (by simp [hcalls, hw])
    · obtain ⟨c', hc', rfl⟩ := Option.map_eq_some_iff.mp hw
      exact ⟨hnext c' hc', fun _ _ => rfl⟩
    · exact h.calls w (by simp [hcalls, hw])

/-- The two networks agree, and the session is connected when anything has come of a call. -/
structure LazyNetwork.Refines (n : LazyNetwork) (n' : Network) : Prop where
  network : n.network = n'
  sound : n.session.Sound accounts
  unannounced : n.session.wallet = none → n'.Unannounced

variable {ids accounts self fromExternal} in
theorem LazyNetwork.Refines.step {n : LazyNetwork} {n' : Network} (h : n.Refines accounts n')
    (a : NetworkAction Env) :
    (n.step ids accounts self fromExternal a).Refines accounts
      (n'.step ids accounts.connected self fromExternal a) := by
  obtain ⟨network, session⟩ := n
  obtain ⟨rfl, hsound, hunannounced⟩ := h
  cases a with
  | start op => exact ⟨rfl, hsound, fun hnone => (hunannounced hnone).step (by simp)⟩
  | deliver i => exact ⟨rfl, hsound, fun hnone => (hunannounced hnone).step (by simp)⟩
  | external tx => exact ⟨rfl, hsound, fun hnone => (hunannounced hnone).step (by simp)⟩
  | serve i fate env =>
    simp only [LazyNetwork.step, Network.step]
    cases hi : network.calls[i]? with
    | none => exact ⟨rfl, hsound, hunannounced⟩
    | some w =>
      obtain ⟨c, pending⟩ := w
      cases pending with
      | some reply => exact ⟨rfl, hsound, hunannounced⟩
      | none =>
        have hmem : (⟨c, none⟩ : Waiting) ∈ network.calls := List.mem_of_getElem? hi
        obtain ⟨hreply, hsound', hnone⟩ := hsound.settle fate network.chain
          fun hwallet => ((hunannounced hwallet).calls _ hmem).1
        refine ⟨by simp only [hreply], hsound', ?_⟩
        intro hwallet
        obtain ⟨hwallet', hstart⟩ := hnone hwallet
        have h := hunannounced hwallet'
        refine ⟨h.auction, ?_⟩
        intro w hw
        rcases List.mem_or_eq_of_mem_set hw with hw | rfl
        · exact h.calls w hw
        · exact ⟨(h.calls _ hmem).1, fun e he => absurd he (hstart e)⟩

/-- In every run of controller calls, node faults and calls of others, the service that connects
itself serves the page as the connected one does, and a participant gets a wallet of its own. -/
theorem lazy_connection_exact (deployer : Address) (grants : List (Euint32 × Address))
    (redispatchEvent : RedispatchEvent) (actions : List (NetworkAction Env)) :
    let n := run (LazyNetwork.step ids accounts self fromExternal)
      (.initial deployer grants redispatchEvent) actions
    n.network = run (Network.step ids accounts.connected self fromExternal)
        (.initial deployer grants redispatchEvent) actions ∧
      ∀ participantId wallet,
        (n.session.getParticipantWallet accounts participantId).2 = .ok wallet →
          wallet.privateKey ≠ accounts.operator.privateKey ∧ ∀ participantId' wallet',
            (n.session.getParticipantWallet accounts participantId').2 = .ok wallet' →
              wallet'.privateKey = wallet.privateKey → participantId' = participantId := by
  intro n
  have hinitial : (LazyNetwork.initial deployer grants redispatchEvent).Refines accounts
      (.initial deployer grants redispatchEvent) := by
    refine ⟨rfl, .initial, fun _ => ⟨rfl, ?_⟩⟩
    intro w hw
    simp [Network.initial] at hw
  have h : n.Refines accounts (run (Network.step ids accounts.connected self fromExternal)
      (.initial deployer grants redispatchEvent) actions) := by
    apply run_lockstep (R := fun (n : LazyNetwork) n' => n.Refines accounts n')
    · exact fun n n' a h => h.step a
    · exact hinitial
  have hmade (participantId : String) := (h.sound.getParticipantWallet participantId).1
  refine ⟨h.network, ?_⟩
  intro participantId wallet hwallet
  simp only [hmade] at hwallet ⊢
  exact accounts.participantWallet_separate hwallet

end Steps

end GridFlex
