import CrossShim.Lib.Int64
import CrossShim.Sync.Time

/-!
# The deadline on the steady clock

The timed waits do not wait for the absolute time itself: `prepare_rwlock_deadline` adds the time that is left on the
clock of the call to what the steady clock shows, in signed 64-bit nanoseconds.  The absolute time is cut to the range
first; the sum is not.
-/

namespace CrossShim.Sync

open Lib Int64

/-- `prepare_rwlock_deadline` with the deadline it computes; `steady` is what the steady clock shows at the end. -/
def steadyDeadline (abstime : Option Timespec) (clockid : ClockId) (now : Now) (steady : ℤ) : Except Errno (Option ℤ) :=
  match abstime with
  | none => .ok none
  | some ts =>
    if ¬ clockid.Valid then .error .EINVAL
    else
      match ts.toNs with
      | none => .error .EINVAL
      | some abstimeNs =>
        match now with
        | .error e => .error e
        | .ok nowNs =>
          if abstimeNs ≤ nowNs then .error .ETIMEDOUT else .ok (some (wrap (steady + wrap (abstimeNs - nowNs))))

/-- The deadline can be computed: neither the absolute time nor the sum leaves the range; or the time does, and the two
clocks show the same, so that the cut time is the deadline. -/
def DeadlineFits (ts : Timespec) (nowNs steady : ℤ) : Prop :=
  (ts.exactNs < 2 ^ 63 ∧ steady + (ts.exactNs - nowNs) < 2 ^ 63) ∨
    (2 ^ 63 ≤ ts.exactNs ∧ steady = nowNs ∧ nowNs < 2 ^ 63 - 1)

instance (ts : Timespec) (nowNs steady : ℤ) : Decidable (DeadlineFits ts nowNs steady) :=
  inferInstanceAs (Decidable (_ ∨ _))

section Deadline

variable {ts : Timespec} {clockid : ClockId} {nowNs steady : ℤ}

lemma ns_cases (hnow : InRange nowNs) (hlater : nowNs < ts.exactNs) :
    (ts.exactNs < 2 ^ 63 ∧ ts.ns = ts.exactNs) ∨ (2 ^ 63 ≤ ts.exactNs ∧ ts.ns = 2 ^ 63 - 1) := by
  have hns : ts.ns = max (-2 ^ 63) (min (2 ^ 63 - 1) ts.exactNs) := rfl
  have hlow := hnow.1
  rcases lt_or_ge ts.exactNs (2 ^ 63) with hle | hgt
  · left
    refine ⟨hle, ?_⟩
    rw [hns, min_eq_right (by omega), max_eq_right (by omega)]
  · right
    refine ⟨hgt, ?_⟩
    rw [hns, min_eq_left (by omega), max_eq_right (by decide)]

lemma steadyDeadline_eq (hclock : clockid.Valid) (hts : ts.Valid) :
    steadyDeadline (some ts) clockid (.ok nowNs) steady =
      if ts.ns ≤ nowNs then .error .ETIMEDOUT else .ok (some (wrap (steady + (ts.ns - nowNs)))) := by
  unfold steadyDeadline Timespec.toNs
  dsimp only
  rw [if_neg (not_not.2 hclock), if_pos hts]
  dsimp only
  rw [wrap_add_wrap]

lemma wrap_deadline_cases (hnow : InRange nowNs) (hsteady : InRange steady) (ha : ts.ns < 2 ^ 63)
    (hlt : nowNs < ts.ns) :
    (steady + (ts.ns - nowNs) < 2 ^ 63 ∧ wrap (steady + (ts.ns - nowNs)) = steady + (ts.ns - nowNs)) ∨
      (2 ^ 63 ≤ steady + (ts.ns - nowNs) ∧ wrap (steady + (ts.ns - nowNs)) = steady + (ts.ns - nowNs) - 2 ^ 64) := by
  obtain ⟨hn, hn'⟩ := hnow
  obtain ⟨hs, hs'⟩ := hsteady
  rcases lt_or_ge (steady + (ts.ns - nowNs)) (2 ^ 63) with hle | hgt
  · exact .inl ⟨hle, wrap_eq ⟨by omega, hle⟩⟩
  · exact .inr ⟨hgt, wrap_of_lt hgt (by omega)⟩

end Deadline

/-- **For an absolute time to come, the deadline is not before the time on the steady clock at which it is reached, cut
to the range, exactly if it can be computed (`DeadlineFits`).  The wait times out at once exactly if the sum with the
cut time leaves the range.** -/
theorem steadyDeadline_ge_iff {ts : Timespec} {clockid : ClockId} {nowNs steady : ℤ} (hclock : clockid.Valid)
    (hts : ts.Valid) (hnow : InRange nowNs) (hsteady : InRange steady) (hlater : nowNs < ts.exactNs) :
    ((∃ d, steadyDeadline (some ts) clockid (.ok nowNs) steady = .ok (some d) ∧ InRange d ∧
        min (2 ^ 63 - 1) (steady + (ts.exactNs - nowNs)) ≤ d) ↔ DeadlineFits ts nowNs steady) ∧
      ∀ d, steadyDeadline (some ts) clockid (.ok nowNs) steady = .ok (some d) →
        (d ≤ steady ↔ 2 ^ 63 ≤ steady + (ts.ns - nowNs)) := by
  rw [steadyDeadline_eq hclock hts]
  have hn := hnow.1
  have hn' := hnow.2
  have hs := hsteady.1
  have hs' := hsteady.2
  by_cases hexpired : ts.ns ≤ nowNs
  · -- Both the absolute time and the clock are at the end of the range.
    rw [if_pos hexpired]
    refine ⟨iff_of_false (fun h => ?_) ?_, nofun⟩
    · obtain ⟨d, hd, -⟩ := h
      cases hd
    · unfold DeadlineFits
      obtain ⟨-, hns⟩ | ⟨-, hns⟩ := ns_cases hnow hlater
      · omega
      · omega
  · rw [if_neg hexpired]
    push Not at hexpired
    have ha : ts.ns < 2 ^ 63 := by
      obtain ⟨hle, hns⟩ | ⟨-, hns⟩ := ns_cases hnow hlater
      · omega
      · omega
    have hd := wrap_deadline_cases hnow hsteady ha hexpired
    constructor
    · have hex : (∃ d, (Except.ok (some (wrap (steady + (ts.ns - nowNs)))) : Except Errno (Option ℤ)) = .ok (some d) ∧
          InRange d ∧ min (2 ^ 63 - 1) (steady + (ts.exactNs - nowNs)) ≤ d) ↔
          min (2 ^ 63 - 1) (steady + (ts.exactNs - nowNs)) ≤ wrap (steady + (ts.ns - nowNs)) := by
        constructor
        · rintro ⟨d, hd, -, hle⟩
          cases hd
          exact hle
        · exact fun hle => ⟨_, rfl, inRange_wrap _, hle⟩
      rw [hex]
      unfold DeadlineFits
      obtain ⟨hle, hns⟩ | ⟨hgt, hns⟩ := ns_cases hnow hlater
      · rw [hns] at hd ⊢
        obtain ⟨hfits, hd⟩ | ⟨hover, hd⟩ := hd
        · omega
        · omega
      · rw [hns] at hd ⊢
        obtain ⟨hfits, hd⟩ | ⟨hover, hd⟩ := hd
        · omega
        · omega
    · intro d hd'
      cases hd'
      obtain ⟨hfits, hd⟩ | ⟨hover, hd⟩ := hd
      · omega
      · omega

/-- Ten seconds after the start of the clock, one second after it. -/
theorem steadyDeadline_ge_ten :
    DeadlineFits ⟨10, 0⟩ 1000000000 1000000001 ∧
      ∃ d, steadyDeadline (some ⟨10, 0⟩) .monotonic (.ok 1000000000) 1000000001 = .ok (some d) ∧ InRange d ∧
        min (2 ^ 63 - 1) (1000000001 + ((⟨10, 0⟩ : Timespec).exactNs - 1000000000)) ≤ d :=
  ⟨by decide, (steadyDeadline_ge_iff (.inr rfl) (by decide) (by decide) (by decide) (by decide)).1.2 (by decide)⟩

/-- An absolute time at the end of `time_t`, and a steady clock that has gone on for a nanosecond: the deadline is the
smallest time there is. -/
theorem steadyDeadline_wraps :
    let ts : Timespec := ⟨2 ^ 63 - 1, 0⟩
    ts.Valid ∧ 1000000000 < ts.exactNs ∧ ∃ d, steadyDeadline (some ts) .monotonic (.ok 1000000000) 1000000001 =
      .ok (some d) ∧ d < min (2 ^ 63 - 1) (1000000001 + (ts.exactNs - 1000000000)) :=
  ⟨by decide, by decide, -2 ^ 63, by decide⟩

end CrossShim.Sync
