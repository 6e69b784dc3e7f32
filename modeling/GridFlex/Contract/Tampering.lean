import GridFlex.Contract.Resolution

/-! What the owner can still do to the bids of an open round and to an announced outcome.
`startCollection` carries no phase guard, and `broadcast` may be repeated. -/
namespace GridFlex
open Checked Transition Accepted

/-- Bids recorded in a round stay recorded while it lasts. -/
def BidsKept (c c' : FHEDataCollector) : Prop :=
  c.collecting = true → c'.collecting = true →
    c.bidprice <+: c'.bidprice ∧ c.bidquantity <+: c'.bidquantity ∧ c.identity <+: c'.identity

instance : DecidableRel BidsKept := fun c c' =>
  inferInstanceAs (Decidable (c.collecting = true → c'.collecting = true →
    c.bidprice <+: c'.bidprice ∧ c.bidquantity <+: c'.bidquantity ∧ c.identity <+: c'.identity))

/-- The owner starts the round again after bids have been recorded in it. -/
structure RestartsRound {Env : Type} (c : FHEDataCollector) (tx : Tx Env) : Prop where
  call : tx.call = .startCollection
  sender : tx.sender = c.owner
  collecting : c.collecting = true
  recorded : c.bidprice ≠ []

/-- The array of a `broadcast` call that its guards on sender and length let through. -/
def Tx.republishes? {Env : Type} (tx : Tx Env) (c : FHEDataCollector) : Option (List Bool) :=
  match tx.call with
  | .broadcast resolution =>
      if tx.sender = c.owner ∧ resolution.length = c.bidprice.length then some resolution else none
  | _ => none

theorem republishes_eq_some {Env : Type} {tx : Tx Env} {c : FHEDataCollector} {r : List Bool} :
    tx.republishes? c = some r ↔
      tx.call = .broadcast r ∧ tx.sender = c.owner ∧ r.length = c.bidprice.length := by
  unfold Tx.republishes?
  cases hcall : tx.call with
  | broadcast resolution =>
    simp only [Option.ite_none_right_eq_some, Option.some.injEq, ContractCall.broadcast.injEq]
    constructor
    · rintro ⟨h, rfl⟩
      exact ⟨rfl, h⟩
    · rintro ⟨rfl, h⟩
      exact ⟨h, rfl⟩
  | _ => simp

section Runs

variable {Env : Type} (self : Address)
  (fromExternal : Env → ExternalEuint32 → Bytes → Except String Euint32)

theorem attempt_startCollection {c : ChainState} {tx : Tx Env} (hcall : tx.call = .startCollection)
    (hsender : tx.sender = c.collector.owner) :
    attempt self fromExternal c tx = { c with collector :=
      { c.collector with bidprice := [], bidquantity := [], resolution := [], identity := [],
                         collecting := true } } := by
  have hstart := FHEDataCollector.startCollection_ok.mpr ⟨hsender, rfl⟩
  simp only [attempt, execute, hcall, hstart, Except.map]

/-- One call in one reachable state. -/
theorem bidsKept_iff {c : ChainState} (hfresh : c.collector.Fresh) (tx : Tx Env) :
    BidsKept c.collector (attempt self fromExternal c tx).collector ↔
      ¬RestartsRound c.collector tx := by
  constructor
  · intro hkept h
    rw [attempt_startCollection self fromExternal h.call h.sender] at hkept
    obtain ⟨hprice, -, -⟩ := hkept h.collecting rfl
    exact h.recorded (List.prefix_nil.mp hprice)
  · intro hnot hopen hopen'
    have he := attempt_effect self fromExternal c tx
    generalize attempt self fromExternal c tx = c' at he hopen'
    generalize accepted self fromExternal c tx = new at he
    cases he with
    | reverted => exact ⟨List.prefix_refl _, List.prefix_refl _, List.prefix_refl _⟩
    | started hcall howner =>
      have hprice : c.collector.bidprice = [] := by
        by_contra hne
        exact hnot ⟨hcall, howner, hopen, hne⟩
      have hquantity : c.collector.bidquantity = [] :=
        List.length_eq_zero_iff.mp (by rw [hfresh.quantity_length, hprice, List.length_nil])
      have hidentity : c.collector.identity = [] :=
        List.length_eq_zero_iff.mp (by rw [hfresh.identity_length, hprice, List.length_nil])
      simp [hprice, hquantity, hidentity]
    | submitted price quantity =>
      exact ⟨List.prefix_append _ _, List.prefix_append _ _, List.prefix_append _ _⟩
    | ended => cases hopen'
    | resolved resolution hcall howner hclosed => simp [hopen] at hclosed

/-- In every reachable state and for every call by anybody, recorded bids are kept unless it is
the owner who starts the round again. -/
theorem recorded_bids_kept_iff (deployer : Address) (grants : List (Euint32 × Address))
    (txs : List (Tx Env)) (tx : Tx Env) :
    let c := chainRun self fromExternal (deployed deployer grants) txs
    BidsKept c.collector (attempt self fromExternal c tx).collector ↔
      ¬RestartsRound c.collector tx :=
  bidsKept_iff self fromExternal (chainRun_fresh self fromExternal deployer grants txs) tx

/-- The owner's second `startCollection` of a round discards the bid that a stranger recorded. -/
theorem restartedRound_discards :
    let fromExternal := fun (_ : Unit) handle (_ : Bytes) => (.ok handle : Except String Euint32)
    let c := chainRun 9 fromExternal (deployed 1 [])
      [⟨1, (), .startCollection⟩, ⟨2, (), .submitData 3 [] 4 []⟩]
    ¬BidsKept c.collector (attempt 9 fromExternal c ⟨1, (), .startCollection⟩).collector := by
  decide +kernel

/-- From `c` on, an announced outcome stays what it was until a new round is started. -/
def OutcomeFinal (c : ChainState) (more : List (Tx Env)) : Prop :=
  c.collector.resolution ≠ [] → .startCollection ∉ history self fromExternal c more →
    (chainRun self fromExternal c more).collector.getBroadcastData = c.collector.getBroadcastData

/-- The last array that the owner broadcasts in `more`, if any, is the announced one. -/
def StandsBy (c : FHEDataCollector) (more : List (Tx Env)) : Prop :=
  ∀ r ∈ (more.filterMap fun tx => tx.republishes? c).getLast?, r = c.resolution

/-- `c'` is still in the round of `c`, closed, with `outcome` announced. -/
structure RoundClosed (c c' : FHEDataCollector) (outcome : List Bool) : Prop where
  owner : c'.owner = c.owner
  bidprice : c'.bidprice = c.bidprice
  collecting : c'.collecting = false
  resolution : c'.resolution = outcome

theorem attempt_broadcast {c : ChainState} {tx : Tx Env} {r : List Bool}
    (hcall : tx.call = .broadcast r) (hsender : tx.sender = c.collector.owner)
    (hclosed : c.collector.collecting = false) (hlen : r.length = c.collector.bidprice.length) :
    attempt self fromExternal c tx =
      { c with collector := { c.collector with resolution := r } } := by
  have hbroadcast := FHEDataCollector.broadcast_ok.mpr ⟨hsender, hclosed, hlen, rfl⟩
  simp only [attempt, execute, hcall, hbroadcast, Except.map]

/-- In a closed round the owner's broadcasts of the right length go through, and nothing else
has an effect short of a new round. -/
theorem RoundClosed.step {c : FHEDataCollector} {c' : ChainState} {outcome : List Bool}
    (h : RoundClosed c c'.collector outcome) {tx : Tx Env}
    (hround : .startCollection ∉ accepted self fromExternal c' tx) :
    RoundClosed c (attempt self fromExternal c' tx).collector
      ((tx.republishes? c).getD outcome) := by
  cases hr : tx.republishes? c with
  | some r =>
    obtain ⟨hcall, hsender, hlen⟩ := republishes_eq_some.mp hr
    rw [attempt_broadcast self fromExternal hcall (hsender.trans h.owner.symm) h.collecting
      (by rw [hlen, h.bidprice])]
    exact ⟨h.owner, h.bidprice, h.collecting, rfl⟩
  | none =>
    have he := attempt_effect self fromExternal c' tx
    generalize attempt self fromExternal c' tx = c'' at he
    generalize accepted self fromExternal c' tx = new at he hround
    cases he with
    | reverted => exact h
    | started => simp at hround
    | submitted price quantity hopen => simp [h.collecting] at hopen
    | ended hcall howner hopen => simp [h.collecting] at hopen
    | resolved resolution hcall howner hclosed hlen =>
      have hsome : tx.republishes? c = some resolution :=
        republishes_eq_some.mpr ⟨hcall, howner.trans h.owner, by rw [hlen, h.bidprice]⟩
      simp [hr] at hsome

theorem chainRun_closed {c : ChainState} (hclosed : c.collector.collecting = false)
    (more : List (Tx Env)) (hround : .startCollection ∉ history self fromExternal c more) :
    RoundClosed c.collector (chainRun self fromExternal c more).collector
      ((more.filterMap fun tx => tx.republishes? c.collector).getLast?.getD
        c.collector.resolution) := by
  induction more using List.reverseRecOn with
  | nil => exact ⟨rfl, rfl, hclosed, rfl⟩
  | append_singleton more tx ih =>
    rw [history, emitted_concat, List.mem_append, not_or] at hround
    have hstep := (ih hround.1).step self fromExternal hround.2
    rw [chainRun, run_concat]
    convert hstep using 1
    cases hr : tx.republishes? c.collector <;> simp [hr]

/-- From every reachable state on, the announced outcome is final for its round if and only if
the owner stands by it. -/
theorem announced_outcome_final_iff (deployer : Address) (grants : List (Euint32 × Address))
    (txs more : List (Tx Env)) :
    let c := chainRun self fromExternal (deployed deployer grants) txs
    OutcomeFinal self fromExternal c more ↔
      (c.collector.resolution ≠ [] → .startCollection ∉ history self fromExternal c more →
        StandsBy c.collector more) := by
  intro c
  refine forall_congr' fun hne => forall_congr' fun hround => ?_
  have hfresh : c.collector.Fresh := chainRun_fresh self fromExternal deployer grants txs
  have hclosed : c.collector.collecting = false := by
    by_contra hopen
    exact hne (hfresh.open_empty (by simpa using hopen))
  have hc := chainRun_closed self fromExternal hclosed more hround
  unfold FHEDataCollector.getBroadcastData StandsBy
  rw [hc.resolution]
  cases (more.filterMap fun tx => tx.republishes? c.collector).getLast? with
  | none => simp
  | some r => simp

/-- The owner broadcasts the opposite outcome over the same bids. -/
theorem rewrittenOutcome_not_final :
    ¬OutcomeFinal 9 (fun (_ : Unit) handle _ => .ok handle)
      (chainRun 9 (fun _ handle _ => .ok handle) (deployed 1 [])
        [⟨1, (), .startCollection⟩, ⟨2, (), .submitData 3 [] 4 []⟩, ⟨1, (), .endCollection⟩,
          ⟨1, (), .broadcast [true]⟩])
      [⟨1, (), .broadcast [false]⟩] := by
  intro h
  exact absurd (h (by decide +kernel) (by decide +kernel)) (by decide +kernel)

end Runs

end GridFlex
