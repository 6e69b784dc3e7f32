import Mathlib

/-! `generateId` of `services/grid-flexibility-service.ts`. The counter can be read back from
every id, so no id is issued twice. -/
namespace GridFlex

/-- What one call finds: no `window`, or a clock and the base-36 suffix of `Math.random()`. -/
inductive IdSource where
  | server
  | client (now : ℕ) (random : String)
  deriving DecidableEq, Repr

def formatId : IdSource → ℕ → String
  | .server, idCounter => "evt_ssr_" ++ toString idCounter
  | .client now random, idCounter =>
      "evt_" ++ toString now ++ "_" ++ toString idCounter ++ "_" ++ random

/-- `ids n` is what the call that raises the counter to `n` finds. -/
def generateId (ids : ℕ → IdSource) (idCounter : ℕ) : String × ℕ :=
  (formatId (ids (idCounter + 1)) (idCounter + 1), idCounter + 1)

/-- The field up to the first separator is determined. -/
theorem append_sep_inj {α : Type*} {sep : α} {xs ys xs' ys' : List α} (hx : sep ∉ xs)
    (hx' : sep ∉ xs') (h : xs ++ sep :: ys = xs' ++ sep :: ys') : xs = xs' ∧ ys = ys' := by
  induction xs generalizing xs' with
  | nil =>
    cases xs' with
    | nil => exact ⟨rfl, (List.cons.inj h).2⟩
    | cons x xs' => exact absurd (List.cons.inj h).1 fun he => hx' (by simp [he])
  | cons x xs ih =>
    cases xs' with
    | nil => exact absurd (List.cons.inj h).1 fun he => hx (by simp [he])
    | cons y xs' =>
      obtain ⟨rfl, ht⟩ := List.cons.inj h
      obtain ⟨rfl, rfl⟩ := ih (fun hm => hx (List.mem_cons_of_mem x hm))
        (fun hm => hx' (List.mem_cons_of_mem x hm)) ht
      exact ⟨rfl, rfl⟩

theorem toDigits_injective {m n : ℕ} (h : Nat.toDigits 10 m = Nat.toDigits 10 n) : m = n := by
  rw [← Nat.ofDigitChars_ten_toDigits (n := m), h, Nat.ofDigitChars_ten_toDigits]

theorem toDigits_ne_ssr (n : ℕ) : Nat.toDigits 10 n ≠ ['s', 's', 'r'] := by
  intro h
  have hd := Nat.isDigit_of_mem_toDigits (c := 's') (by decide) (by decide)
    (h ▸ List.mem_cons_self : 's' ∈ Nat.toDigits 10 n)
  exact absurd hd (by decide)

theorem formatId_server_toList (n : ℕ) :
    (formatId .server n).toList =
      ['e', 'v', 't', '_'] ++ (['s', 's', 'r'] ++ '_' :: Nat.toDigits 10 n) := by
  simp [formatId, String.toList_append]

theorem formatId_client_toList (now n : ℕ) (random : String) :
    (formatId (.client now random) n).toList =
      ['e', 'v', 't', '_'] ++
        (Nat.toDigits 10 now ++ '_' :: (Nat.toDigits 10 n ++ '_' :: random.toList)) := by
  simp [formatId, String.toList_append]

theorem formatId_ne_client (n n' now : ℕ) (random : String) :
    formatId .server n ≠ formatId (.client now random) n' := by
  intro h
  have hl := congrArg String.toList h
  rw [formatId_server_toList, formatId_client_toList] at hl
  have hs := append_sep_inj (by decide) Nat.underscore_not_in_toDigits (List.append_cancel_left hl)
  exact toDigits_ne_ssr now hs.1.symm

/-- Ids made at different counts differ, whatever the branches, clocks and suffixes. -/
theorem formatId_injective {src src' : IdSource} {n n' : ℕ}
    (h : formatId src n = formatId src' n') : n = n' := by
  have hl := congrArg String.toList h
  cases src with
  | server =>
    cases src' with
    | server =>
      rw [formatId_server_toList, formatId_server_toList] at hl
      exact toDigits_injective (by simpa using hl)
    | client now random => exact absurd h (formatId_ne_client n n' now random)
  | client now random =>
    cases src' with
    | server => exact absurd h.symm (formatId_ne_client n' n now random)
    | client now' random' =>
      rw [formatId_client_toList, formatId_client_toList] at hl
      have hnow := append_sep_inj Nat.underscore_not_in_toDigits Nat.underscore_not_in_toDigits
        (List.append_cancel_left hl)
      have hn := append_sep_inj Nat.underscore_not_in_toDigits Nat.underscore_not_in_toDigits
        hnow.2
      exact toDigits_injective hn.1

/-- The ids that `calls` calls in a row return, and the counter after them. -/
def generateIds (ids : ℕ → IdSource) : ℕ → ℕ → List String × ℕ
  | 0, idCounter => ([], idCounter)
  | calls + 1, idCounter =>
      let (id, idCounter) := generateId ids idCounter
      let (rest, idCounter) := generateIds ids calls idCounter
      (id :: rest, idCounter)

theorem generateIds_eq_map (ids : ℕ → IdSource) (calls idCounter : ℕ) :
    (generateIds ids calls idCounter).1 =
      (List.range' (idCounter + 1) calls).map fun n => formatId (ids n) n := by
  induction calls generalizing idCounter with
  | zero => rfl
  | succ calls ih =>
    rw [List.range'_succ, List.map_cons, ← ih (idCounter + 1)]
    rfl

theorem generateIds_length (ids : ℕ → IdSource) (calls idCounter : ℕ) :
    (generateIds ids calls idCounter).1.length = calls := by
  rw [generateIds_eq_map, List.length_map, List.length_range']

theorem generateIds_nodup (ids : ℕ → IdSource) (calls idCounter : ℕ) :
    (generateIds ids calls idCounter).1.Nodup := by
  rw [generateIds_eq_map]
  apply List.Nodup.map
  · intro m n h
    exact formatId_injective h
  · exact List.nodup_range'

/-- The last of the ids from the start of the process. -/
theorem generateIds_concat (ids : ℕ → IdSource) (calls : ℕ) :
    (generateIds ids (calls + 1) 0).1 =
      (generateIds ids calls 0).1 ++ [(generateId ids calls).1] := by
  rw [generateIds_eq_map, generateIds_eq_map, List.range'_1_concat, List.map_append,
    List.map_singleton, Nat.zero_add, Nat.add_comm 1 calls]
  rfl

/-- `id` carries a count the counter has already passed. -/
def Issued (ids : ℕ → IdSource) (idCounter : ℕ) (id : String) : Prop :=
  ∃ n, n ≤ idCounter ∧ id = formatId (ids n) n

theorem Issued.mono {ids : ℕ → IdSource} {m n : ℕ} {id : String} (h : Issued ids m id)
    (hmn : m ≤ n) : Issued ids n id := by
  obtain ⟨k, hk, he⟩ := h
  exact ⟨k, hk.trans hmn, he⟩

theorem generateId_issued (ids : ℕ → IdSource) (idCounter : ℕ) :
    Issued ids (idCounter + 1) (generateId ids idCounter).1 :=
  ⟨idCounter + 1, le_rfl, rfl⟩

theorem generateId_ne {ids : ℕ → IdSource} {idCounter : ℕ} {id : String}
    (h : Issued ids idCounter id) : (generateId ids idCounter).1 ≠ id := by
  obtain ⟨n, hn, rfl⟩ := h
  intro he
  have := formatId_injective he
  omega

end GridFlex
