import GridFlex.Frontend.Lifecycle
import GridFlex.Market.Sequential

/-! A sequential run is an interleaving with one call in flight at a time, so what holds under
every interleaving holds of it. -/
namespace GridFlex
open Driver Transition

variable {ids : ℕ → IdSource} {hardhat : Hardhat}

/-- A call driven to its end is a list of actions that resume it. -/
theorem drive_interleaving {network : ℕ → Fate} {fuel : ℕ} {f : Frontend} {g : Gateway}
    {next : Option Suspended} (startedAt replacements : ℕ)
    (hleft : (drive (Frontend.resume ids) (hardhat.serve network) fuel f g next).left = none) :
    ∃ actions replacements', run (System.step ids)
        ⟨f, (next.map (⟨·, startedAt⟩)).toList, replacements⟩ actions =
      ⟨(drive (Frontend.resume ids) (hardhat.serve network) fuel f g next).state, [],
        replacements'⟩ := by
  induction fuel generalizing f g next replacements with
  | zero =>
    cases next with
    | none => exact ⟨[], replacements, rfl⟩
    | some c => cases hleft
  | succ fuel ih =>
    cases next with
    | none => exact ⟨[], replacements, rfl⟩
    | some c =>
      rw [drive_succ] at hleft ⊢
      obtain ⟨actions, replacements', hrun⟩ :=
        ih (replacements + if c.replaces (hardhat.serve network g c).2 then 1 else 0) hleft
      refine ⟨.resume 0 (hardhat.serve network g c).2 :: actions, replacements', ?_⟩
      rw [← hrun, run_cons]
      simp [System.step]

namespace Market

theorem perform_interleaving (m : Market) (ids : ℕ → IdSource) (hardhat : Hardhat)
    (i : Invocation) (replacements : ℕ) :
    ∃ actions replacements', run (System.step ids) ⟨m.frontend, [], replacements⟩ actions =
      ⟨(m.perform ids hardhat i).frontend, [], replacements'⟩ := by
  have hleft : (drive (Frontend.resume ids) (hardhat.serve i.network)
      (((m.frontend.begin ids i.operation).2.map fun c => c.awaits + 1).getD 0)
      (m.frontend.begin ids i.operation).1 ⟨m.chain, 0⟩
      (m.frontend.begin ids i.operation).2).left = none := outcome_left
  obtain ⟨actions, replacements', hrun⟩ := drive_interleaving replacements replacements hleft
  exact ⟨.start i.operation :: actions, replacements', hrun⟩

/-- Whatever the node does, a page reached by one call after another is reached by an
interleaving. -/
theorem run_interleaving (ids : ℕ → IdSource) (hardhat : Hardhat) (m : Market) (k : ℕ)
    (is : List Invocation) :
    ∃ actions replacements, run (System.step ids) ⟨m.frontend, [], k⟩ actions =
      ⟨(run (perform ids hardhat) m is).frontend, [], replacements⟩ := by
  induction is generalizing m k with
  | nil => exact ⟨[], k, rfl⟩
  | cons i is ih =>
    obtain ⟨first, k', hfirst⟩ := m.perform_interleaving ids hardhat i k
    obtain ⟨rest, replacements, hrest⟩ := ih (m.perform ids hardhat i) k'
    refine ⟨first ++ rest, replacements, ?_⟩
    rw [run_append, hfirst]
    exact hrest

/-- The result and the status of the auction agree after every sequential run. -/
theorem run_coherent (ids : ℕ → IdSource) (hardhat : Hardhat) (deployer : Address)
    (grants : List (Euint32 × Address)) (redispatchEvent : RedispatchEvent)
    (is : List Invocation) :
    Coherent (run (perform ids hardhat)
      (.initial deployer grants redispatchEvent) is).frontend.model := by
  obtain ⟨actions, replacements, hrun⟩ :=
    run_interleaving ids hardhat (.initial deployer grants redispatchEvent) 0 is
  have hl : Lifecycle ids (run (System.step ids) (.initial redispatchEvent) actions) :=
    run_lifecycle redispatchEvent actions
  have hc := hl.coherent
  rwa [show System.initial redispatchEvent =
    ⟨(initial deployer grants redispatchEvent).frontend, [], 0⟩ from rfl, hrun] at hc

end Market

end GridFlex
