import GridFlex.Contract.DataCollector
import GridFlex.Lib.Transition

/-! The storage of `FHEDataCollector` is a function of the calls that went through: the
abstract reading of a history, and that every run of transactions agrees with it. -/
namespace GridFlex
open Transition

namespace Accepted

def isPhase : Accepted → Bool
  | .startCollection | .endCollection => true
  | _ => false

/-- The last start or end of a collection. -/
def lastPhase (past : List Accepted) : Option Accepted := (past.filter isPhase).getLast?

/-- The calls since the last start of a collection. -/
def currentRound (past : List Accepted) : List Accepted :=
  (past.reverse.takeWhile (· ≠ .startCollection)).reverse

def submission? : Accepted → Option (Address × Euint32 × Euint32)
  | .submitData sender price quantity => some (sender, price, quantity)
  | _ => none

def broadcast? : Accepted → Option (List Bool)
  | .broadcast resolution => some resolution
  | _ => none

/-- Sender, price handle and quantity handle of every submission of the current round. -/
def submissions (past : List Accepted) : List (Address × Euint32 × Euint32) :=
  (currentRound past).filterMap submission?

/-- The last resolution broadcast in the current round, empty before the first. -/
def announced (past : List Accepted) : List Bool :=
  ((currentRound past).filterMap broadcast?).getLast?.getD []

theorem lastPhase_concat (past : List Accepted) (a : Accepted) :
    lastPhase (past ++ [a]) = if a.isPhase then some a else lastPhase past := by
  unfold lastPhase
  cases h : a.isPhase <;> simp [List.filter_append, h]

theorem currentRound_start (past : List Accepted) :
    currentRound (past ++ [.startCollection]) = [] := by
  simp [currentRound]

theorem currentRound_concat (past : List Accepted) {a : Accepted} (h : a ≠ .startCollection) :
    currentRound (past ++ [a]) = currentRound past ++ [a] := by
  simp [currentRound, h]

theorem submissions_concat (past : List Accepted) {a : Accepted} (h : a ≠ .startCollection) :
    submissions (past ++ [a]) = submissions past ++ a.submission?.toList := by
  rw [submissions, submissions, currentRound_concat past h, List.filterMap_append]
  cases a <;> rfl

theorem announced_concat (past : List Accepted) {a : Accepted} (h : a ≠ .startCollection) :
    announced (past ++ [a]) = a.broadcast?.getD (announced past) := by
  rw [announced, announced, currentRound_concat past h, List.filterMap_append]
  cases a <;> simp [broadcast?]

end Accepted
open Accepted

/-- The storage says what the history says. -/
structure MatchesHistory (deployer : Address) (c : FHEDataCollector) (past : List Accepted) :
    Prop where
  owner : c.owner = deployer
  collecting : c.collecting = true ↔ lastPhase past = some .startCollection
  identity : c.identity = (submissions past).map Prod.fst
  bidprice : c.bidprice = (submissions past).map fun s => s.2.1
  bidquantity : c.bidquantity = (submissions past).map fun s => s.2.2
  resolution : c.resolution = announced past

section Runs

variable {Env : Type} (self : Address)
  (fromExternal : Env → ExternalEuint32 → Bytes → Except String Euint32)

def deployed (deployer : Address) (grants : List (Euint32 × Address)) : ChainState :=
  ⟨FHEDataCollector.deploy deployer, grants⟩

abbrev chainRun (c : ChainState) (txs : List (Tx Env)) : ChainState :=
  run (attempt self fromExternal) c txs

abbrev history (c : ChainState) (txs : List (Tx Env)) : List Accepted :=
  emitted (attempt self fromExternal) (accepted self fromExternal) c txs

variable {self} in
/-- One transaction extends the storage and the history in step. -/
theorem Effect.matchesHistory {deployer : Address} {c c' : ChainState} {tx : Tx Env}
    {past new : List Accepted} (he : Effect self c tx c' new)
    (h : MatchesHistory deployer c.collector past) :
    MatchesHistory deployer c'.collector (past ++ new) := by
  cases he with
  | reverted => simpa using h
  | started hcall howner =>
    constructor
    case owner => exact h.owner
    case collecting => simp [lastPhase_concat, isPhase]
    all_goals simp [submissions, announced, currentRound_start]
  | submitted price quantity hopen =>
    constructor
    case owner => exact h.owner
    case collecting =>
      simpa [FHEDataCollector.push, lastPhase_concat, isPhase] using h.collecting
    all_goals
      simp [FHEDataCollector.push, submissions_concat, announced_concat, submission?, broadcast?,
        h.identity, h.bidprice, h.bidquantity, h.resolution]
  | ended hcall howner hopen =>
    constructor
    case owner => exact h.owner
    case collecting => simp [lastPhase_concat, isPhase]
    all_goals
      simp [submissions_concat, announced_concat, submission?, broadcast?,
        h.identity, h.bidprice, h.bidquantity, h.resolution]
  | resolved resolution hcall howner hclosed hlen =>
    constructor
    case owner => exact h.owner
    case collecting => simpa [lastPhase_concat, isPhase] using h.collecting
    all_goals
      simp [submissions_concat, announced_concat, submission?, broadcast?,
        h.identity, h.bidprice, h.bidquantity]

theorem chainRun_matchesHistory (deployer : Address) (grants : List (Euint32 × Address))
    (txs : List (Tx Env)) :
    MatchesHistory deployer (chainRun self fromExternal (deployed deployer grants) txs).collector
      (history self fromExternal (deployed deployer grants) txs) := by
  apply run_history (J := fun (c : ChainState) past => MatchesHistory deployer c.collector past)
  · intro c past tx h
    exact (attempt_effect self fromExternal c tx).matchesHistory h
  · constructor <;> simp [deployed, FHEDataCollector.deploy, lastPhase, submissions, announced,
      currentRound]

/-- What calls by strangers leave of the storage: they can only append bids. -/
structure Extends (c c' : FHEDataCollector) : Prop where
  owner : c'.owner = c.owner
  collecting : c'.collecting = c.collecting
  resolution : c'.resolution = c.resolution
  identity : c.identity <+: c'.identity
  bidprice : c.bidprice <+: c'.bidprice
  bidquantity : c.bidquantity <+: c'.bidquantity

theorem Extends.refl (c : FHEDataCollector) : Extends c c :=
  ⟨rfl, rfl, rfl, List.prefix_refl _, List.prefix_refl _, List.prefix_refl _⟩

theorem Extends.trans {a b c : FHEDataCollector} (h : Extends a b) (h' : Extends b c) :
    Extends a c :=
  ⟨h'.owner.trans h.owner, h'.collecting.trans h.collecting, h'.resolution.trans h.resolution,
    h.identity.trans h'.identity, h.bidprice.trans h'.bidprice, h.bidquantity.trans h'.bidquantity⟩

variable {self} in
theorem Effect.extends {c c' : ChainState} {tx : Tx Env} {new : List Accepted}
    (he : Effect self c tx c' new) (hs : tx.sender ≠ c.collector.owner) :
    Extends c.collector c'.collector := by
  cases he with
  | reverted => exact .refl _
  | submitted price quantity hopen =>
    exact ⟨rfl, rfl, rfl, List.prefix_append _ _, List.prefix_append _ _, List.prefix_append _ _⟩
  | started _ howner => exact absurd howner hs
  | ended _ howner => exact absurd howner hs
  | resolved _ _ howner => exact absurd howner hs

theorem chainRun_extends (c : ChainState) (txs : List (Tx Env))
    (hs : ∀ tx ∈ txs, tx.sender ≠ c.collector.owner) :
    Extends c.collector (chainRun self fromExternal c txs).collector := by
  induction txs using List.reverseRecOn with
  | nil => exact .refl _
  | append_singleton txs tx ih =>
    have hbefore := ih fun t ht => hs t (List.mem_append_left _ ht)
    have hsender : tx.sender ≠ (chainRun self fromExternal c txs).collector.owner := by
      rw [hbefore.owner]
      exact hs tx (by simp)
    rw [chainRun, run_concat]
    exact hbefore.trans ((attempt_effect self fromExternal _ tx).extends hsender)

/-- In every reached state the storage is what the calls that went through make it, and
from there no run of calls by others than the deployer changes anything but by appending bids. -/
theorem storage_determined (deployer : Address) (grants : List (Euint32 × Address))
    (txs : List (Tx Env)) :
    let c := chainRun self fromExternal (deployed deployer grants) txs
    MatchesHistory deployer c.collector
        (history self fromExternal (deployed deployer grants) txs) ∧
      ∀ more : List (Tx Env), (∀ tx ∈ more, tx.sender ≠ deployer) →
        Extends c.collector
          (chainRun self fromExternal (deployed deployer grants) (txs ++ more)).collector := by
  intro c
  have hm := chainRun_matchesHistory self fromExternal deployer grants txs
  refine ⟨hm, fun more hmore => ?_⟩
  rw [chainRun, run_append]
  apply chainRun_extends
  rw [hm.owner]
  exact hmore

end Runs

end GridFlex
