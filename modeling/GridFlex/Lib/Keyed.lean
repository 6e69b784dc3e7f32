import Mathlib

/-! Entries that are told apart by a key, and some of them chosen by their keys. -/
namespace Keyed

variable {α κ : Type*} {key : α → κ} {xs chosen : List α}

/-- Looking chosen entries up by key finds exactly the chosen entries. -/
theorem key_mem_iff (hn : (xs.map key).Nodup) (hs : chosen.Subperm xs) {x : α} (hx : x ∈ xs) :
    key x ∈ chosen.map key ↔ x ∈ chosen := by
  constructor
  · intro h
    obtain ⟨other, ho, he⟩ := List.mem_map.mp h
    rwa [← List.inj_on_of_nodup_map hn (hs.subset ho) hx he]
  · exact List.mem_map_of_mem

/-- Searching for the key of an entry finds the entry. -/
theorem find?_key [DecidableEq κ] (hn : (xs.map key).Nodup) {x : α} (hx : x ∈ xs) :
    xs.find? (fun y => key y = key x) = some x := by
  induction xs with
  | nil => cases hx
  | cons y ys ih =>
    obtain ⟨hy, hys⟩ := List.nodup_cons.mp hn
    rcases List.mem_cons.mp hx with rfl | hmem
    · simp
    · have hne : key y ≠ key x := by
        intro he
        exact hy (he ▸ List.mem_map_of_mem hmem)
      rw [List.find?_cons_of_neg (by simpa using hne)]
      exact ih hys hmem

theorem filter_key_mem_perm [DecidableEq κ] (hn : (xs.map key).Nodup) (hs : chosen.Subperm xs) :
    (xs.filter fun x => key x ∈ chosen.map key).Perm chosen := by
  have hxs : xs.Nodup := hn.of_map _
  have hchosen : chosen.Nodup := by
    obtain ⟨copy, hp, hsub⟩ := hs
    exact hp.nodup_iff.mp (hxs.sublist hsub)
  rw [List.perm_ext_iff_of_nodup (hxs.filter _) hchosen]
  intro x
  simp only [List.mem_filter, decide_eq_true_eq]
  constructor
  · rintro ⟨hx, hkey⟩
    exact (key_mem_iff hn hs hx).mp hkey
  · intro hx
    exact ⟨hs.subset hx, List.mem_map_of_mem hx⟩

/-- Values found for some keys have these keys, in their order. -/
theorem map_filterMap_sublist {β : Type*} {find : β → Option α} {key' : β → κ}
    (h : ∀ y x, find y = some x → key x = key' y) (ys : List β) :
    ((ys.filterMap find).map key).Sublist (ys.map key') := by
  induction ys with
  | nil => exact List.Sublist.refl _
  | cons y ys ih =>
    cases hy : find y with
    | none => simpa [hy] using ih.cons (key' y)
    | some x => simpa [hy, h y x hy] using ih

end Keyed
