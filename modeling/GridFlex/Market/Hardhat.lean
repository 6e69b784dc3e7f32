import GridFlex.Contract.DataCollector
import GridFlex.Frontend.Segments

/-! Embedding of `services/hardhat-service.ts`: how the awaits of a controller call are served
by a node that runs `FHEDataCollector`. -/
namespace GridFlex

/-- What becomes of a call to the node that the contract itself would let through. -/
inductive Fate where
  | confirms (receipt : BlockchainTransaction)
  /-- The transaction is mined, but waiting for its receipt fails. -/
  | losesReceipt
  /-- The call never reaches the chain. -/
  | drops

/-- The account of `connectWallet`, and the numbers that `ethers.toBeHex` does not throw at. -/
structure Hardhat where
  wallet : Address
  encodes : ℚ → Bool

/-- The chain, and how many calls of the current operation it has been asked. -/
structure Gateway where
  chain : ChainState
  served : ℕ

def participantAccountMap : String → Option ℕ
  | "participant-1" => some 1
  | "participant-2" => some 2
  | "participant-3" => some 3
  | "participant-4" => some 4
  | _ => none

namespace Hardhat

/-- A transaction of the wallet: `estimateGas` rejects what would revert, before anything is
sent. -/
def transact (fate : Fate) (g : Gateway) (attempted : Except String FHEDataCollector) :
    Gateway × Reply :=
  match attempted, fate with
  | .ok collector, .confirms receipt =>
      (⟨{ g.chain with collector := collector }, g.served + 1⟩, .transaction receipt)
  | .ok collector, .losesReceipt =>
      (⟨{ g.chain with collector := collector }, g.served + 1⟩, .rejected)
  | .ok _, .drops | .error _, _ => (⟨g.chain, g.served + 1⟩, .rejected)

variable (hardhat : Hardhat)

def startCollection (fate : Fate) (g : Gateway) : Gateway × Reply :=
  transact fate g (g.chain.collector.startCollection hardhat.wallet)

def endCollection (fate : Fate) (g : Gateway) : Gateway × Reply :=
  transact fate g (g.chain.collector.endCollection hardhat.wallet)

/-- The only call to the contract is the view `collecting()`; the transaction is made up. -/
def submitData (fate : Fate) (g : Gateway) (price quantity : ℚ) (participantId : String) :
    Gateway × Reply :=
  match participantAccountMap participantId, fate with
  | some _, .confirms receipt =>
      if g.chain.collector.collecting && hardhat.encodes price && hardhat.encodes quantity then
        (⟨g.chain, g.served + 1⟩, .transaction receipt)
      else (⟨g.chain, g.served + 1⟩, .rejected)
  | _, _ => (⟨g.chain, g.served + 1⟩, .rejected)

def getCollectedData (fate : Fate) (g : Gateway) : Gateway × Reply :=
  match g.chain.collector.getCollectedData hardhat.wallet, fate with
  | .ok (prices, quantities), .confirms _ =>
      (⟨g.chain, g.served + 1⟩,
        .collected (prices.map BitVec.toNat) (quantities.map BitVec.toNat))
  | _, _ => (⟨g.chain, g.served + 1⟩, .rejected)

/-- The settling of an await; `network k` is the fate of the `k`-th call to the node. -/
def serve (network : ℕ → Fate) (g : Gateway) : Suspended → Gateway × Reply
  | .startingCollection _ => hardhat.startCollection (network g.served) g
  | .endingCollection _ => hardhat.endCollection (network g.served) g
  | .collectingData _ => hardhat.getCollectedData (network g.served) g
  | .submittingData _ _ _ p _ =>
      hardhat.submitData (network g.served) g p.pricePerMW p.powerMW p.id
  | _ => (g, .settled)

theorem transact_reply (fate : Fate) (g : Gateway) (attempted : Except String FHEDataCollector) :
    (∃ tx, (transact fate g attempted).2 = .transaction tx) ∨
      (transact fate g attempted).2 = .rejected := by
  unfold transact
  split
  · exact Or.inl ⟨_, rfl⟩
  · exact Or.inr rfl
  · exact Or.inr rfl
  · exact Or.inr rfl

theorem transact_chain (fate : Fate) (g : Gateway) (attempted : Except String FHEDataCollector) :
    (transact fate g attempted).1.chain = g.chain ∨
      ∃ collector, attempted = .ok collector ∧
        (transact fate g attempted).1.chain = { g.chain with collector := collector } := by
  unfold transact
  split
  · exact Or.inr ⟨_, rfl, rfl⟩
  · exact Or.inr ⟨_, rfl, rfl⟩
  · exact Or.inl rfl
  · exact Or.inl rfl

theorem submitData_spec (fate : Fate) (g : Gateway) (price quantity : ℚ) (participantId : String) :
    (hardhat.submitData fate g price quantity participantId).1.chain = g.chain ∧
      ((∃ tx, (hardhat.submitData fate g price quantity participantId).2 = .transaction tx) ∨
        (hardhat.submitData fate g price quantity participantId).2 = .rejected) := by
  unfold submitData
  split
  · split
    · exact ⟨rfl, Or.inl ⟨_, rfl⟩⟩
    · exact ⟨rfl, Or.inr rfl⟩
  · exact ⟨rfl, Or.inr rfl⟩

theorem getCollectedData_spec (fate : Fate) (g : Gateway) :
    (hardhat.getCollectedData fate g).1.chain = g.chain ∧
      ((∃ prices quantities, (hardhat.getCollectedData fate g).2 = .collected prices quantities) ∨
        (hardhat.getCollectedData fate g).2 = .rejected) := by
  unfold getCollectedData
  split
  · exact ⟨rfl, Or.inl ⟨_, _, rfl⟩⟩
  · exact ⟨rfl, Or.inr rfl⟩

theorem serve_settledBy (network : ℕ → Fate) (g : Gateway) (c : Suspended) :
    c.SettledBy (hardhat.serve network g c).2 := by
  cases c with
  | startingCollection => exact transact_reply _ g _
  | endingCollection => exact transact_reply _ g _
  | collectingData => exact (hardhat.getCollectedData_spec _ g).2
  | submittingData => exact (hardhat.submitData_spec _ g _ _ _).2
  | _ => rfl

end Hardhat

end GridFlex
