import Mathlib.Algebra.BigOperators.Group.Finset.Basic

/-!
# Machines that split by key

A machine keeps one value for each key and a count, and each event concerns some keys.
It splits by key when an event changes the value of a key by looking at that value alone,
and the count grows by what each of the concerned keys adds (`Splits`).

Such a machine may be run one key after the other, on the events of each key alone:
the values are those of the single runs (`Splits.run_value`), the count is their sum
(`Splits.run_count`), and events that do not concern a key may be left out of its run
(`runAt_filter`).
-/

namespace LedgerFS.Library

variable {σ ε κ ν : Type}

/-- The run of one key: its value and what was counted for it. -/
def runAt (stepAt : ν → ε → ν × Nat) (v : ν) (events : List ε) : ν × Nat :=
  events.foldl (fun s e => ((stepAt s.1 e).1, s.2 + (stepAt s.1 e).2)) (v, 0)

theorem runAt_concat (stepAt : ν → ε → ν × Nat) (v : ν) (events : List ε) (e : ε) :
    runAt stepAt v (events ++ [e]) =
      ((stepAt (runAt stepAt v events).1 e).1,
        (runAt stepAt v events).2 + (stepAt (runAt stepAt v events).1 e).2) := by
  rw [runAt, List.foldl_append]
  rfl

/-- Events that change nothing and count nothing may be left out. -/
theorem runAt_filter {stepAt : ν → ε → ν × Nat} {concerned : ε → Bool}
    (hIdle : ∀ v e, concerned e = false → stepAt v e = (v, 0)) (v : ν) (events : List ε) :
    runAt stepAt v (events.filter concerned) = runAt stepAt v events := by
  induction events using List.reverseRecOn with
  | nil => rfl
  | append_singleton events e ih =>
      rw [List.filter_append, runAt_concat]
      cases he : concerned e with
      | true => rw [List.filter_singleton, he, cond_true, runAt_concat, ih]
      | false =>
          rw [List.filter_singleton, he, cond_false, List.append_nil, ih,
            hIdle _ e he, Nat.add_zero]

/-- Each event works on each key for itself. -/
structure Splits (step : σ → ε → σ) (value : σ → κ → ν) (count : σ → Nat)
    (keys : ε → Finset κ) (stepAt : κ → ν → ε → ν × Nat) : Prop where
  atKey : ∀ s e k, value (step s e) k = (stepAt k (value s k) e).1
  counts : ∀ s e, count (step s e) = count s + ∑ k ∈ keys e, (stepAt k (value s k) e).2
  idle : ∀ k v e, k ∉ keys e → stepAt k v e = (v, 0)

namespace Splits

variable {step : σ → ε → σ} {value : σ → κ → ν} {count : σ → Nat} {keys : ε → Finset κ}
  {stepAt : κ → ν → ε → ν × Nat}

/-- **Run**: the value of a key is that of its own run. -/
theorem run_value (h : Splits step value count keys stepAt) (s : σ) (events : List ε) (k : κ) :
    value (events.foldl step s) k = (runAt (stepAt k) (value s k) events).1 := by
  induction events using List.reverseRecOn with
  | nil => rfl
  | append_singleton events e ih =>
      rw [List.foldl_append, runAt_concat, ← ih]
      exact h.atKey (events.foldl step s) e k

/-- A step may count over more keys than the event concerns. -/
theorem count_of_subset (h : Splits step value count keys stepAt) (s : σ) (e : ε)
    {K : Finset κ} (hK : keys e ⊆ K) :
    count (step s e) = count s + ∑ k ∈ K, (stepAt k (value s k) e).2 := by
  rw [h.counts, Finset.sum_subset hK]
  intro k _ hk
  rw [h.idle k _ e hk]

/-- **Run**: the count is the sum over the keys. -/
theorem run_count (h : Splits step value count keys stepAt) (s : σ) (events : List ε)
    {K : Finset κ} (hK : ∀ e ∈ events, keys e ⊆ K) :
    count (events.foldl step s) =
      count s + ∑ k ∈ K, (runAt (stepAt k) (value s k) events).2 := by
  induction events using List.reverseRecOn with
  | nil =>
      have hNone : ∑ k ∈ K, (runAt (stepAt k) (value s k) []).2 = 0 :=
        Finset.sum_eq_zero fun _ _ => rfl
      rw [hNone, Nat.add_zero]
      rfl
  | append_singleton events e ih =>
      have hBefore := ih fun f hf => hK f (List.mem_append_left _ hf)
      have hHere := h.count_of_subset (events.foldl step s) e
        (hK e (List.mem_append_right _ List.mem_cons_self))
      rw [List.foldl_append]
      show count (step (events.foldl step s) e) = _
      rw [hHere, hBefore, Nat.add_assoc, ← Finset.sum_add_distrib]
      simp only [runAt_concat, h.run_value]

end Splits

end LedgerFS.Library
