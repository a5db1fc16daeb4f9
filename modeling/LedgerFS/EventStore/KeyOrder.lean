import LedgerFS.EventStore.Serialization

/-!
# Key order and time order

The scans of the store rely on record keys being ordered like the events they
belong to, by timestamp and then by event id.  The key spells the timestamp as
an unsigned 64-bit nanosecond count, so this holds exactly as far as those
counts are ordered like the instants.  They are not in three places:

* before 1970 the count is negative, and as a `u64` it lies above every later
  one;
* where there is no `i64` count the key falls back to that of 1970-01-01;
* inside a leap second the count of non-leap nanoseconds runs ahead of the
  second that follows.

`SortsBefore` says when an earlier and a later instant escape all three, and
`keyOrder_iff` that this is exactly when keys and prefixes of the two instants
are ordered like the instants.
-/

namespace LedgerFS.EventStore

open LedgerFS.Core
open LedgerFS.Library.ByteOrder

/-- Earlier in time, or at the same time with the smaller event id. -/
def Before (e₁ e₂ : EventEnvelope) : Prop :=
  e₁.timestamp < e₂.timestamp ∨
    e₁.timestamp = e₂.timestamp ∧
      compare e₁.eventId.uuid.bytes e₂.eventId.uuid.bytes = .lt

instance (e₁ e₂ : EventEnvelope) : Decidable (Before e₁ e₂) :=
  inferInstanceAs (Decidable (_ ∨ _))

/-! ## Comparing keys -/

theorem compare_generateEventKey (e₁ e₂ : EventEnvelope) :
    compare (generateEventKey e₁) (generateEventKey e₂) =
      (compare (timestampNanos e₁.timestamp) (timestampNanos e₂.timestamp)).then
        (compare e₁.eventId.uuid.bytes e₂.eventId.uuid.bytes) := by
  rw [generateEventKey, generateEventKey, compare_append _ _ _ _ (by simp),
    compare_toBE 8 _ _ (timestampNanos_lt _) (timestampNanos_lt _)]

theorem generateEventKey_lt_iff (e₁ e₂ : EventEnvelope) :
    compare (generateEventKey e₁) (generateEventKey e₂) = .lt ↔
      timestampNanos e₁.timestamp < timestampNanos e₂.timestamp ∨
        timestampNanos e₁.timestamp = timestampNanos e₂.timestamp ∧
          compare e₁.eventId.uuid.bytes e₂.eventId.uuid.bytes = .lt := by
  rw [compare_generateEventKey, Ordering.then_eq_lt, Nat.compare_eq_lt,
    Nat.compare_eq_eq]

theorem timeKeyPrefix_le_iff (t : DateTime) (e : EventEnvelope) :
    (compare (generateTimeKeyPrefix t) (generateEventKey e)).isLE ↔
      timestampNanos t ≤ timestampNanos e.timestamp := by
  have hSplit := compare_append (generateTimeKeyPrefix t)
    (toBE 8 (timestampNanos e.timestamp)) [] e.eventId.uuid.bytes
    (by simp [generateTimeKeyPrefix])
  rw [List.append_nil] at hSplit
  rw [generateEventKey, hSplit, generateTimeKeyPrefix,
    compare_toBE 8 _ _ (timestampNanos_lt _) (timestampNanos_lt _)]
  have hNil : compare [] e.eventId.uuid.bytes = .lt := by
    cases hId : e.eventId.uuid.bytes with
    | nil =>
        have hSize := e.eventId.uuid.size
        rw [hId] at hSize
        cases hSize
    | cons b bs => rfl
  rw [hNil]
  rcases Nat.lt_trichotomy (timestampNanos t) (timestampNanos e.timestamp)
    with hlt | heq | hgt
  · simp [Nat.compare_eq_lt.mpr hlt, Nat.le_of_lt hlt]
  · simp [heq]
  · simp [Nat.compare_eq_gt.mpr hgt, Nat.not_le.mpr hgt]

/-! ## Comparing counts -/

theorem timestampNanos_of_none {t : DateTime} (h : t.timestampNanosOpt = none) :
    timestampNanos t = 0 := by
  simp [timestampNanos, h]

/-- As a `u64` a negative count lies in the upper half. -/
theorem timestampNanos_of_some {t : DateTime} {n : Int}
    (h : t.timestampNanosOpt = some n) :
    (timestampNanos t : Int) = if 0 ≤ n then n else n + 2 ^ 64 := by
  obtain ⟨-, hLow, hHigh⟩ := DateTime.timestampNanosOpt_eq_some h
  simp only [timestampNanos, h, Option.getD_some]
  split <;> omega

/-- From 1970 on the count is the number itself. -/
theorem timestampNanos_of_nonneg {t : DateTime} (h : 0 ≤ t.secs) :
    (timestampNanos t : Int) = t.nanosOrZero := by
  unfold DateTime.nanosOrZero
  split
  · rename_i hFit
    have hCount := timestampNanos_of_some (DateTime.timestampNanosOpt_of_nonneg h hFit)
    split at hCount <;> omega
  · rename_i hLarge
    have hNone := DateTime.timestampNanosOpt_of_large (t := t) (by omega)
    rw [timestampNanos_of_none hNone]
    rfl

/-! ## Keys of what is read back -/

/-- The envelope that is read back has the key under which this one is stored. -/
def KeepsKey (e : EventEnvelope) : Prop := generateEventKey e.readBack = generateEventKey e

instance (e : EventEnvelope) : Decidable (KeepsKey e) :=
  inferInstanceAs (Decidable (generateEventKey e.readBack = generateEventKey e))

theorem keepsKey_of_count {e : EventEnvelope}
    (h : e.timestamp.readBack.timestampNanosOpt = e.timestamp.timestampNanosOpt) : KeepsKey e := by
  have hNanos : timestampNanos e.readBack.timestamp = timestampNanos e.timestamp := by
    show timestampNanos e.timestamp.readBack = timestampNanos e.timestamp
    rw [timestampNanos, timestampNanos, h]
  rw [KeepsKey, generateEventKey, generateEventKey, hNanos]
  rfl

theorem keepsKey_of_nonneg {e : EventEnvelope} (h : 0 ≤ e.timestamp.secs) : KeepsKey e :=
  keepsKey_of_count (DateTime.timestampNanosOpt_readBack h)

theorem keepsKey_of_unambiguous {e : EventEnvelope} (h : e.Unambiguous) : KeepsKey e :=
  congrArg generateEventKey (EventEnvelope.readBack_of_unambiguous h)

/-- **All envelopes keep their key** but those stamped inside a leap second of 1677-09-21 whose
count overflows on the way. -/
theorem keepsKey_iff (e : EventEnvelope) : KeepsKey e ↔
    ¬ (e.timestamp.secs = -9223372038 ∧ 1145224192 ≤ e.timestamp.frac) := by
  rw [← DateTime.timestampNanosOpt_readBack_iff]
  refine ⟨fun h => ?_, keepsKey_of_count⟩
  have hSame : compare (generateEventKey e.readBack) (generateEventKey e) = .eq := by
    rw [h]
    exact Std.ReflCmp.compare_self
  rw [compare_generateEventKey, Ordering.then_eq_eq, Nat.compare_eq_eq] at hSame
  have hNanos : timestampNanos e.timestamp.readBack = timestampNanos e.timestamp := hSame.1
  by_contra hOther
  have hException := hOther
  rw [DateTime.timestampNanosOpt_readBack_iff, not_not] at hException
  -- the reading has no count, and what is read back has one
  have hNone : e.timestamp.timestampNanosOpt = none := by
    apply Option.eq_none_iff_forall_ne_some.mpr
    intro n hn
    obtain ⟨hWhole, -⟩ := (e.timestamp.timestampNanosOpt_eq_some_iff n).mp hn
    unfold InI64 at hWhole
    omega
  rw [hNone] at hOther
  obtain ⟨n, hSome⟩ := Option.ne_none_iff_exists'.mp hOther
  have hCount := (DateTime.timestampNanosOpt_eq_some hSome).1
  rw [e.timestamp.count_readBack] at hCount
  have hBack := timestampNanos_of_some hSome
  rw [hNanos, timestampNanos_of_none hNone] at hBack
  have hLt := e.timestamp.frac_lt
  split at hBack <;> omega

/-- The later instant has a count; an earlier one without a count does not
collide with it, and an earlier one with a count lies on the same side of 1970
and has the smaller count of non-leap nanoseconds. -/
def SortsBefore (earlier later : DateTime) : Prop :=
  match later.timestampNanosOpt with
  | none => False
  | some n =>
      match earlier.timestampNanosOpt with
      | none => n ≠ 0
      | some m => (0 ≤ m ↔ 0 ≤ n) ∧ m < n

instance (earlier later : DateTime) : Decidable (SortsBefore earlier later) := by
  unfold SortsBefore
  split
  · infer_instance
  · split <;> infer_instance

theorem timestampNanos_lt_iff {a b : DateTime} (hab : a < b) :
    timestampNanos a < timestampNanos b ↔ SortsBefore a b := by
  unfold SortsBefore
  cases hb : b.timestampNanosOpt with
  | none => simp [timestampNanos_of_none hb]
  | some n =>
      have hbNanos := timestampNanos_of_some hb
      obtain ⟨hn, hnLow, hnHigh⟩ := DateTime.timestampNanosOpt_eq_some hb
      cases ha : a.timestampNanosOpt with
      | none =>
          rw [timestampNanos_of_none ha]
          dsimp only
          split at hbNanos <;> omega
      | some m =>
          have haNanos := timestampNanos_of_some ha
          obtain ⟨hm, hmLow, hmHigh⟩ := DateTime.timestampNanosOpt_eq_some ha
          have haFrac := a.frac_lt
          -- an instant from 1970 on is never followed by one before 1970
          have hSide : 0 ≤ m → 0 ≤ n := by
            rcases (DateTime.lt_iff a b).mp hab with hSecs | ⟨hSecs, hFrac⟩ <;> omega
          dsimp only
          split at haNanos <;> split at hbNanos <;> omega

/-! ## Keys against instants -/

/-- Envelopes stamped with the two instants have keys ordered like `(timestamp,
event id)`, and a scan seeked at the first admits the second exactly when it is
not earlier. -/
def KeyOrderIsTimeOrder (t₁ t₂ : DateTime) : Prop :=
  (∀ e₁ e₂ : EventEnvelope, e₁.timestamp = t₁ → e₂.timestamp = t₂ →
    (compare (generateEventKey e₁) (generateEventKey e₂) = .lt ↔ Before e₁ e₂)) ∧
  ∀ e : EventEnvelope, e.timestamp = t₂ →
    ((compare (generateTimeKeyPrefix t₁) (generateEventKey e)).isLE ↔ t₁ ≤ t₂)

/-- Ordered like the instants means that the counts compare like them. -/
theorem keyOrderIsTimeOrder_iff_nanos (t₁ t₂ : DateTime) :
    KeyOrderIsTimeOrder t₁ t₂ ↔
      (t₁ < t₂ → timestampNanos t₁ < timestampNanos t₂) ∧
        (t₂ < t₁ → timestampNanos t₂ < timestampNanos t₁) := by
  constructor
  · rintro ⟨hKeys, hPrefix⟩
    let account : AccountId := ⟨Uuid.fromU128 0⟩
    let first := createTestEnvelope account ⟨Uuid.fromU128 0⟩ t₁
    let second := createTestEnvelope account ⟨Uuid.fromU128 0⟩ t₂
    have hSame := hKeys first second rfl rfl
    have hSeek := hPrefix second rfl
    rw [generateEventKey_lt_iff] at hSame
    rw [timeKeyPrefix_le_iff] at hSeek
    have hId : ¬ compare first.eventId.uuid.bytes second.eventId.uuid.bytes = .lt := by
      show ¬ compare (Uuid.fromU128 0).bytes (Uuid.fromU128 0).bytes = .lt
      decide
    constructor
    · intro hlt
      rcases hSame.mpr (Or.inl hlt) with hNanos | ⟨-, hLess⟩
      · exact hNanos
      · exact absurd hLess hId
    · intro hgt
      by_contra hNot
      exact not_le_of_gt hgt (hSeek.mp (Nat.le_of_not_lt hNot))
  · rintro ⟨hlt, hgt⟩
    rcases lt_trichotomy t₁ t₂ with h | rfl | h
    · have hNanos := hlt h
      constructor
      · rintro e₁ e₂ rfl rfl
        rw [generateEventKey_lt_iff]
        exact ⟨fun _ => Or.inl h, fun _ => Or.inl hNanos⟩
      · rintro e rfl
        rw [timeKeyPrefix_le_iff]
        exact ⟨fun _ => le_of_lt h, fun _ => Nat.le_of_lt hNanos⟩
    · constructor
      · rintro e₁ e₂ h₁ h₂
        rw [generateEventKey_lt_iff, Before, h₁, h₂]
        simp
      · rintro e rfl
        rw [timeKeyPrefix_le_iff]
        simp
    · have hNanos := hgt h
      constructor
      · rintro e₁ e₂ rfl rfl
        rw [generateEventKey_lt_iff, Before]
        have hNotLt : ¬ e₁.timestamp < e₂.timestamp := not_lt_of_gt h
        have hNe : e₁.timestamp ≠ e₂.timestamp := ne_of_gt h
        simp only [hNotLt, hNe, false_and, or_false, iff_false]
        omega
      · rintro e rfl
        rw [timeKeyPrefix_le_iff]
        have hNotLe : ¬ t₁ ≤ e.timestamp := not_le_of_gt h
        simp only [hNotLe, iff_false]
        omega

/-- **When key order is time order**: exactly for two instants of which the
earlier sorts before the later. -/
theorem keyOrder_iff (t₁ t₂ : DateTime) :
    KeyOrderIsTimeOrder t₁ t₂ ↔
      (t₁ < t₂ → SortsBefore t₁ t₂) ∧ (t₂ < t₁ → SortsBefore t₂ t₁) := by
  rw [keyOrderIsTimeOrder_iff_nanos]
  constructor
  · rintro ⟨hlt, hgt⟩
    exact ⟨fun h => (timestampNanos_lt_iff h).mp (hlt h),
      fun h => (timestampNanos_lt_iff h).mp (hgt h)⟩
  · rintro ⟨hlt, hgt⟩
    exact ⟨fun h => (timestampNanos_lt_iff h).mpr (hlt h),
      fun h => (timestampNanos_lt_iff h).mpr (hgt h)⟩

/-- The envelope stamped one second before 1970 comes first in time and last
in key order. -/
theorem keyOrder_before1970 :
    ¬ ((∀ e₁ e₂ : EventEnvelope,
        compare (generateEventKey e₁) (generateEventKey e₂) = .lt ↔ Before e₁ e₂) ∧
      ∀ (t : DateTime) (e : EventEnvelope),
        (compare (generateTimeKeyPrefix t) (generateEventKey e)).isLE ↔
          t ≤ e.timestamp) := by
  rintro ⟨hKeys, -⟩
  have hAlways := hKeys
    (createTestEnvelope ⟨Uuid.fromU128 0⟩ ⟨Uuid.fromU128 1⟩
      ⟨-1, 0, by decide, by decide, by decide⟩)
    (createTestEnvelope ⟨Uuid.fromU128 0⟩ ⟨Uuid.fromU128 2⟩ DateTime.epoch)
  rw [generateEventKey_lt_iff] at hAlways
  revert hAlways
  decide

end LedgerFS.EventStore
