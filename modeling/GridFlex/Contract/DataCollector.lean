import GridFlex.Lib.Checked

/-! Embedding of `contracts/FHEDataCollector.sol`. `FHE.fromExternal` reads the sender, the
block and the coprocessor's own state, so it is a parameter over an environment; a call that
reverts leaves the chain as it was. -/
namespace GridFlex
open Checked

abbrev Address := BitVec 160

/-- A ciphertext handle. -/
abbrev Euint32 := BitVec 256
abbrev ExternalEuint32 := BitVec 256
abbrev Bytes := List (BitVec 8)

structure FHEDataCollector where
  owner : Address
  bidprice : List Euint32
  bidquantity : List Euint32
  identity : List Address
  resolution : List Bool
  collecting : Bool
  deriving DecidableEq, Repr

/-- The contract's storage next to the persistent grants it has made in the access-control list. -/
structure ChainState where
  collector : FHEDataCollector
  grants : List (Euint32 × Address)
  deriving DecidableEq, Repr

inductive ContractCall where
  | startCollection
  | submitData (price : ExternalEuint32) (priceProof : Bytes) (quantity : ExternalEuint32)
      (quantityProof : Bytes)
  | endCollection
  | broadcast (resolution : List Bool)
  deriving DecidableEq, Repr

/-- A call, its `msg.sender` and what else of the chain the FHE library reads. -/
structure Tx (Env : Type) where
  sender : Address
  env : Env
  call : ContractCall

namespace FHEDataCollector

/-- The constructor. -/
def deploy (sender : Address) : FHEDataCollector := ⟨sender, [], [], [], [], false⟩

def onlyOwner (c : FHEDataCollector) (sender : Address) : Except String Unit :=
  if sender = c.owner then .ok () else .error "Only owner can call"

def isCollecting (c : FHEDataCollector) : Except String Unit :=
  if c.collecting then .ok () else .error "Data collection is not active"

def isNotCollecting (c : FHEDataCollector) : Except String Unit :=
  if c.collecting then .error "Cannot perform this action while collecting" else .ok ()

@[simp] theorem onlyOwner_ok {c : FHEDataCollector} {sender : Address} {u : Unit} :
    c.onlyOwner sender = .ok u ↔ sender = c.owner := by
  unfold onlyOwner
  split_ifs with h <;> simp [h]

@[simp] theorem isCollecting_ok {c : FHEDataCollector} {u : Unit} :
    c.isCollecting = .ok u ↔ c.collecting = true := by
  unfold isCollecting
  split_ifs with h <;> simp [h]

@[simp] theorem isNotCollecting_ok {c : FHEDataCollector} {u : Unit} :
    c.isNotCollecting = .ok u ↔ c.collecting = false := by
  unfold isNotCollecting
  split_ifs with h <;> simp [h]

def startCollection (c : FHEDataCollector) (sender : Address) : Except String FHEDataCollector := do
  c.onlyOwner sender
  return { c with bidprice := [], bidquantity := [], resolution := [], identity := [],
                  collecting := true }

theorem startCollection_ok {c c' : FHEDataCollector} {sender : Address} :
    c.startCollection sender = .ok c' ↔ sender = c.owner ∧
      c' = { c with bidprice := [], bidquantity := [], resolution := [], identity := [],
                    collecting := true } := by
  simp only [startCollection, bind_ok, onlyOwner_ok, pure_ok, exists_const]

/-- The storage writes of `submitData`, after both inputs have been verified. -/
def push (c : FHEDataCollector) (sender : Address) (price quantity : Euint32) :
    FHEDataCollector :=
  { c with bidprice := c.bidprice ++ [price], bidquantity := c.bidquantity ++ [quantity],
           identity := c.identity ++ [sender] }

def endCollection (c : FHEDataCollector) (sender : Address) : Except String FHEDataCollector := do
  c.onlyOwner sender
  c.isCollecting
  return { c with collecting := false }

theorem endCollection_ok {c c' : FHEDataCollector} {sender : Address} :
    c.endCollection sender = .ok c' ↔
      sender = c.owner ∧ c.collecting = true ∧ c' = { c with collecting := false } := by
  simp only [endCollection, bind_ok, onlyOwner_ok, isCollecting_ok, pure_ok, exists_const]

def broadcast (c : FHEDataCollector) (sender : Address) (resolution : List Bool) :
    Except String FHEDataCollector := do
  c.onlyOwner sender
  c.isNotCollecting
  if resolution.length = c.bidprice.length then return { c with resolution := resolution }
  else throw "Broadcast length must match collected data"

theorem broadcast_ok {c c' : FHEDataCollector} {sender : Address} {r : List Bool} :
    c.broadcast sender r = .ok c' ↔ sender = c.owner ∧ c.collecting = false ∧
      r.length = c.bidprice.length ∧ c' = { c with resolution := r } := by
  simp only [broadcast, bind_ok, onlyOwner_ok, isNotCollecting_ok, exists_const]
  split_ifs with h
  · simp only [pure_ok, h, true_and]
  · simp only [h, false_and, and_false]

def getCollectedData (c : FHEDataCollector) (sender : Address) :
    Except String (List Euint32 × List Euint32) := do
  c.onlyOwner sender
  return (c.bidprice, c.bidquantity)

def getBroadcastData (c : FHEDataCollector) : List Bool := c.resolution

end FHEDataCollector

section Calls

variable {Env : Type} (self : Address)
  (fromExternal : Env → ExternalEuint32 → Bytes → Except String Euint32)

/-- `FHE.allowThis` and `FHE.allow(_, owner)` for one handle each. -/
def ChainState.allow (c : ChainState) (handle : Euint32) (account : Address) : ChainState :=
  { c with grants := c.grants ++ [(handle, account)] }

def submitData (c : ChainState) (sender : Address) (env : Env) (_price : ExternalEuint32)
    (priceProof : Bytes) (_quantity : ExternalEuint32) (quantityProof : Bytes) :
    Except String ChainState := do
  c.collector.isCollecting
  let price ← fromExternal env _price priceProof
  let quantity ← fromExternal env _quantity quantityProof
  let c := ((c.allow price self).allow quantity self).allow price c.collector.owner
  let c := c.allow quantity c.collector.owner
  return { c with collector := c.collector.push sender price quantity }

variable {self fromExternal} in
theorem submitData_ok {c c' : ChainState} {sender : Address} {env : Env}
    {_price _quantity : ExternalEuint32} {priceProof quantityProof : Bytes} :
    submitData self fromExternal c sender env _price priceProof _quantity quantityProof = .ok c' ↔
      c.collector.collecting = true ∧
      ∃ price, fromExternal env _price priceProof = .ok price ∧
      ∃ quantity, fromExternal env _quantity quantityProof = .ok quantity ∧
        c' = { collector := c.collector.push sender price quantity
               grants := c.grants ++ [(price, self), (quantity, self), (price, c.collector.owner),
                 (quantity, c.collector.owner)] } := by
  simp only [submitData, bind_ok, FHEDataCollector.isCollecting_ok, exists_const,
    pure_ok, ChainState.allow, List.append_assoc, List.cons_append, List.nil_append]

def execute (c : ChainState) (tx : Tx Env) : Except String ChainState :=
  match tx.call with
  | .startCollection =>
      (c.collector.startCollection tx.sender).map fun s => { c with collector := s }
  | .submitData price priceProof quantity quantityProof =>
      submitData self fromExternal c tx.sender tx.env price priceProof quantity quantityProof
  | .endCollection => (c.collector.endCollection tx.sender).map fun s => { c with collector := s }
  | .broadcast resolution =>
      (c.collector.broadcast tx.sender resolution).map fun s => { c with collector := s }

/-- One transaction of a history; a revert changes nothing. -/
def attempt (c : ChainState) (tx : Tx Env) : ChainState :=
  match execute self fromExternal c tx with
  | .ok c' => c'
  | .error _ => c

/-- A call that went through, with the handles a submission resolved to. -/
inductive Accepted where
  | startCollection
  | submitData (sender : Address) (price quantity : Euint32)
  | endCollection
  | broadcast (resolution : List Bool)
  deriving DecidableEq, Repr

/-- The record a transaction leaves in the history, empty if it reverts. -/
def accepted (c : ChainState) (tx : Tx Env) : List Accepted :=
  match execute self fromExternal c tx with
  | .error _ => []
  | .ok _ =>
    match tx.call with
    | .startCollection => [.startCollection]
    | .submitData price priceProof quantity quantityProof =>
      match fromExternal tx.env price priceProof, fromExternal tx.env quantity quantityProof with
      | .ok price, .ok quantity => [.submitData tx.sender price quantity]
      | _, _ => []
    | .endCollection => [.endCollection]
    | .broadcast resolution => [.broadcast resolution]

/-- Everything a transaction can do: revert, or one of four updates under its guards. -/
inductive Effect (c : ChainState) (tx : Tx Env) : ChainState → List Accepted → Prop where
  | reverted : Effect c tx c []
  | started (hcall : tx.call = .startCollection) (howner : tx.sender = c.collector.owner) :
      Effect c tx
        { c with collector :=
          { c.collector with bidprice := [], bidquantity := [], resolution := [], identity := [],
                             collecting := true } }
        [.startCollection]
  | submitted (price quantity : Euint32) (hopen : c.collector.collecting = true) :
      Effect c tx
        { collector := c.collector.push tx.sender price quantity
          grants := c.grants ++ [(price, self), (quantity, self), (price, c.collector.owner),
            (quantity, c.collector.owner)] }
        [.submitData tx.sender price quantity]
  | ended (hcall : tx.call = .endCollection) (howner : tx.sender = c.collector.owner)
      (hopen : c.collector.collecting = true) :
      Effect c tx { c with collector := { c.collector with collecting := false } }
        [.endCollection]
  | resolved (resolution : List Bool) (hcall : tx.call = .broadcast resolution)
      (howner : tx.sender = c.collector.owner) (hclosed : c.collector.collecting = false)
      (hlen : resolution.length = c.collector.bidprice.length) :
      Effect c tx { c with collector := { c.collector with resolution := resolution } }
        [.broadcast resolution]

theorem execute_ok {c c' : ChainState} {tx : Tx Env}
    (h : execute self fromExternal c tx = .ok c') :
    Effect self c tx c' (accepted self fromExternal c tx) := by
  unfold accepted
  rw [h]
  unfold execute at h
  cases hcall : tx.call with
  | startCollection =>
    simp only [hcall] at h ⊢
    obtain ⟨s, hs, rfl⟩ := map_ok.mp h
    obtain ⟨howner, rfl⟩ := FHEDataCollector.startCollection_ok.mp hs
    exact .started hcall howner
  | submitData price priceProof quantity quantityProof =>
    simp only [hcall] at h ⊢
    obtain ⟨hopen, p, hp, q, hq, rfl⟩ := submitData_ok.mp h
    simp only [hp, hq]
    exact .submitted p q hopen
  | endCollection =>
    simp only [hcall] at h ⊢
    obtain ⟨s, hs, rfl⟩ := map_ok.mp h
    obtain ⟨howner, hopen, rfl⟩ := FHEDataCollector.endCollection_ok.mp hs
    exact .ended hcall howner hopen
  | broadcast resolution =>
    simp only [hcall] at h ⊢
    obtain ⟨s, hs, rfl⟩ := map_ok.mp h
    obtain ⟨howner, hclosed, hlen, rfl⟩ := FHEDataCollector.broadcast_ok.mp hs
    exact .resolved resolution hcall howner hclosed hlen

theorem attempt_effect (c : ChainState) (tx : Tx Env) :
    Effect self c tx (attempt self fromExternal c tx) (accepted self fromExternal c tx) := by
  unfold attempt
  cases h : execute self fromExternal c tx with
  | ok c' => exact execute_ok self fromExternal h
  | error e =>
    simp only [accepted, h]
    exact .reverted

end Calls

end GridFlex
