import Mathlib
import Overlay.Proofs.Poll.Run

/-!
# Retry delays

In unbounded integers a retry delay is on a curve that doubles with each attempt and ends at the
bound (`doubledDelay`). Two steps of the 64-bit computation stop at the largest number, which the
bound hides, so the delay without jitter is on that curve exactly (`cappedDelay_eq`), and a draw
adds less than a tenth (`retryDelay_follows_doubling`). The sum of the two does not stop at the
largest number. A range of delays spans those of all draws, and there is none when the sum passes
that number for one of them (`describes_retryDelay?`). Which settings keep it from passing it is
said exactly (`retryDelay_fits_iff`), and there are settings that do not (`retryDelay_overflows`).
-/

namespace Overlay.Poll

/-- The delay before an attempt's retry, without jitter and with no largest number. -/
def doubledDelay (attempt base bound : Nat) : Nat := min (base * 2 ^ (attempt - 1)) bound

section
variable {attempt later base bound : Nat}

theorem doublings_of_lt {n : Nat} (h : n < 64) : doublings n = 2 ^ n := if_pos h

theorem doublings_of_le {n : Nat} (h : 64 ≤ n) : doublings n = maxMillis :=
  if_neg (Nat.not_lt.mpr h)

theorem le_mul_of_base {factor : Nat} (hbase : 1 ≤ base) (h : bound ≤ factor) :
    bound ≤ base * factor :=
  h.trans (Nat.le_mul_of_pos_left factor hbase)

theorem doubledDelay_eq_bound (hbase : 1 ≤ base) (hbound : bound < 2 ^ 64) (h : 65 ≤ attempt) :
    doubledDelay attempt base bound = bound := by
  have hpower : bound ≤ 2 ^ (attempt - 1) :=
    hbound.le.trans (Nat.pow_le_pow_right (by decide) (by omega))
  exact Nat.min_eq_right (le_mul_of_base hbase hpower)

theorem doubledDelay_mono (h : attempt ≤ later) :
    doubledDelay attempt base bound ≤ doubledDelay later base bound := by
  have hpower : 2 ^ (attempt - 1) ≤ 2 ^ (later - 1) :=
    Nat.pow_le_pow_right (by decide) (Nat.sub_le_sub_right h 1)
  exact min_le_min_right bound (Nat.mul_le_mul_left base hpower)

/-- Stopping at the largest number on the way changes nothing. -/
theorem cappedDelay_eq (hattempt : 1 ≤ attempt) (hbound : bound < 2 ^ 64) :
    cappedDelay attempt base bound = doubledDelay attempt base bound := by
  have hmax : bound ≤ maxMillis := Nat.le_of_lt_succ hbound
  rw [cappedDelay, if_neg (by omega), doubledDelay, min_assoc, min_eq_right hmax]
  rcases Nat.lt_or_ge (attempt - 1) 64 with hfew | hmany
  · rw [doublings_of_lt hfew]
  · -- the power stops at the largest number; so does the product, but for a base of zero
    rw [doublings_of_le hmany]
    rcases Nat.eq_zero_or_pos base with rfl | hbase
    · rw [Nat.zero_mul, Nat.zero_mul]
    · have hpower : bound ≤ 2 ^ (attempt - 1) :=
        hbound.le.trans (Nat.pow_le_pow_right (by decide) hmany)
      rw [min_eq_right (le_mul_of_base hbase hmax), min_eq_right (le_mul_of_base hbase hpower)]

theorem cappedDelay_le (attempt base bound : Nat) : cappedDelay attempt base bound ≤ bound := by
  unfold cappedDelay
  split
  · exact Nat.zero_le bound
  · exact min_le_right _ _

theorem jitter_lt (delay draw : Nat) : jitter delay draw < max 1 (delay / 10) := by
  unfold jitter
  split
  · exact lt_max_of_lt_left Nat.one_pos
  · exact lt_max_of_lt_right (Nat.mod_lt draw (by omega))

theorem jitter_zero (delay : Nat) : jitter delay 0 = 0 := by
  rw [jitter, Nat.zero_mod, ite_self]

theorem jitter_lastDraw (delay : Nat) : jitter delay (lastDraw delay) = lastDraw delay := by
  unfold jitter lastDraw
  split
  · omega
  · exact Nat.mod_eq_of_lt (by omega)

theorem jitter_le_lastDraw (delay draw : Nat) : jitter delay draw ≤ lastDraw delay := by
  have hjitter := jitter_lt delay draw
  unfold lastDraw
  omega

theorem retryDelay?_of_grows (hgrows : base < bound) (draw : Nat) :
    retryDelay? attempt base bound draw =
      if cappedDelay attempt base bound + jitter (cappedDelay attempt base bound) draw < 2 ^ 64 then
        some (cappedDelay attempt base bound + jitter (cappedDelay attempt base bound) draw)
      else none := by
  rw [retryDelay?, if_neg (Nat.not_le.mpr hgrows), growingDelay?]
  simp only [Nat.lt_succ_iff.symm]
  rfl

theorem retryDelay?_of_fits (hgrows : base < bound)
    (hfits : cappedDelay attempt base bound + cappedDelay attempt base bound / 10 ≤ 2 ^ 64)
    (draw : Nat) : retryDelay? attempt base bound draw =
      some (cappedDelay attempt base bound + jitter (cappedDelay attempt base bound) draw) := by
  have hjitter := jitter_lt (cappedDelay attempt base bound) draw
  have hcapped : cappedDelay attempt base bound < 2 ^ 64 := by
    unfold cappedDelay
    split
    · decide
    · exact (min_le_left _ _).trans_lt (Nat.lt_succ_of_le (min_le_right _ maxMillis))
  rw [retryDelay?_of_grows hgrows, if_pos (by omega)]

/-- With a bound above the base the delays are on the doubling curve, up to a jitter of less than
a tenth, as long as the 64 bits hold both. Without jitter the curve is the delay, for every
attempt; it never falls, and is at the bound from attempt 65 on. -/
theorem retryDelay_follows_doubling (hattempt : 1 ≤ attempt) (hgrows : base < bound)
    (hbound : bound < 2 ^ 64) :
    cappedDelay attempt base bound = doubledDelay attempt base bound ∧
      retryDelay? attempt base bound 0 = some (doubledDelay attempt base bound) ∧
      (doubledDelay attempt base bound + doubledDelay attempt base bound / 10 < 2 ^ 64 →
        ∀ draw, ∃ delay, retryDelay? attempt base bound draw = some delay ∧
          doubledDelay attempt base bound ≤ delay ∧
          delay - doubledDelay attempt base bound <
            max 1 (doubledDelay attempt base bound / 10) ∧
          delay ≤ bound + bound / 10) ∧
      (∀ later, attempt ≤ later →
        doubledDelay attempt base bound ≤ doubledDelay later base bound) ∧
      (1 ≤ base → 65 ≤ attempt → doubledDelay attempt base bound = bound) := by
  have hcurve : cappedDelay attempt base bound = doubledDelay attempt base bound :=
    cappedDelay_eq hattempt hbound
  have hle : doubledDelay attempt base bound ≤ bound := min_le_right _ _
  refine ⟨hcurve, ?_, fun hfits draw => ?_, fun _ => doubledDelay_mono,
    fun hbase => doubledDelay_eq_bound hbase hbound⟩
  · rw [retryDelay?_of_grows hgrows, jitter_zero, hcurve, Nat.add_zero,
      if_pos (hle.trans_lt hbound)]
  · have hjitter := jitter_lt (doubledDelay attempt base bound) draw
    have hdelay := retryDelay?_of_fits hgrows (hcurve ▸ hfits.le) draw
    rw [hcurve] at hdelay
    have htenth : doubledDelay attempt base bound / 10 ≤ bound / 10 := Nat.div_le_div_right hle
    refine ⟨_, hdelay, Nat.le_add_right _ _, ?_, ?_⟩
    · rwa [Nat.add_sub_cancel_left]
    · omega

end

/-- The power and the product both pass the largest number. -/
theorem retryDelay_follows_doubling_late :
    cappedDelay 70 3 10000000000000000000 = 10000000000000000000 ∧
      ∃ delay, retryDelay? 70 3 10000000000000000000 123456789 = some delay ∧
        10000000000000000000 ≤ delay ∧ delay ≤ 11000000000000000000 := by
  obtain ⟨hcapped, -, hfits, -, hbound⟩ := retryDelay_follows_doubling
    (show 1 ≤ 70 by decide) (show 3 < 10000000000000000000 by decide) (by decide)
  have hcurve : doubledDelay 70 3 10000000000000000000 = 10000000000000000000 :=
    hbound (by decide) (by decide)
  rw [hcurve] at hcapped hfits
  obtain ⟨delay, hdelay, hleast, -, hmost⟩ := hfits (by decide) 123456789
  exact ⟨hcapped, delay, hdelay, hleast, hmost⟩

-- ---------------------------------------------------------------------------
-- Ranges of delays
-- ---------------------------------------------------------------------------

/-- Every draw gives a delay, and these are the smallest and the largest of them. -/
structure Spans (delay? : Nat → Option Nat) (least most : Nat) : Prop where
  within : ∀ draw, ∃ delay, delay? draw = some delay ∧ least ≤ delay ∧ delay ≤ most
  least : ∃ draw, delay? draw = some least
  most : ∃ draw, delay? draw = some most

/-- What a range, or that there is none, says of the delays that draws give. -/
def Describes (delay? : Nat → Option Nat) : Option (Nat × Nat) → Prop
  | some (least, most) => Spans delay? least most
  | none => ∃ draw, delay? draw = none

section
variable {delay? : Nat → Option Nat} {attempt base bound least most other more : Nat}

theorem Spans.bounds (h : Spans delay? least most) (hother : Spans delay? other more) :
    least ≤ other ∧ more ≤ most := by
  obtain ⟨first, hfirst⟩ := hother.least
  obtain ⟨last, hlast⟩ := hother.most
  obtain ⟨_, hdelay, hleast, -⟩ := h.within first
  obtain ⟨_, hdelay', -, hmost⟩ := h.within last
  obtain rfl := Option.some.inj (hfirst.symm.trans hdelay)
  obtain rfl := Option.some.inj (hlast.symm.trans hdelay')
  exact ⟨hleast, hmost⟩

theorem Spans.ne_none (h : Spans delay? least most) (draw : Nat) : delay? draw ≠ none := by
  obtain ⟨delay, hdelay, -⟩ := h.within draw
  exact hdelay ▸ Option.some_ne_none delay

/-- Only one range describes the delays. -/
theorem Describes.unique {range range' : Option (Nat × Nat)} (h : Describes delay? range)
    (h' : Describes delay? range') : range = range' := by
  match range, range', h, h' with
  | none, none, _, _ => rfl
  | none, some _, ⟨draw, hnone⟩, h' => exact absurd hnone (h'.ne_none draw)
  | some _, none, h, ⟨draw, hnone⟩ => exact absurd hnone (h.ne_none draw)
  | some _, some _, h, h' =>
    have hle := h.bounds h'
    have hge := h'.bounds h
    exact congrArg some (Prod.ext (Nat.le_antisymm hle.1 hge.1) (Nat.le_antisymm hge.2 hle.2))

/-- The first and the last draw decide, where the last one leaves no other without a delay. -/
theorem describes_of_last {delay? : Nat → Nat → Nat → Nat → Option Nat}
    (hspans : ∀ last,
      delay? attempt base bound (lastDraw (cappedDelay attempt base bound)) = some last →
        ∃ first, delay? attempt base bound 0 = some first ∧
          Spans (delay? attempt base bound) first last) :
    Describes (delay? attempt base bound) (delayRange? delay? attempt base bound) := by
  cases hlast : delay? attempt base bound (lastDraw (cappedDelay attempt base bound)) with
  | none =>
    have hrange : delayRange? delay? attempt base bound = none := by
      simp [delayRange?, hlast]
    rw [hrange]
    exact ⟨_, hlast⟩
  | some last =>
    obtain ⟨first, hfirst, hspans⟩ := hspans last hlast
    have hrange : delayRange? delay? attempt base bound = some (first, last) := by
      simp [delayRange?, hfirst, hlast]
    rw [hrange]
    exact hspans

theorem growingDelay?_eq_some_iff {draw delay : Nat} :
    growingDelay? attempt base bound draw = some delay ↔
      cappedDelay attempt base bound + jitter (cappedDelay attempt base bound) draw ≤ maxMillis ∧
        cappedDelay attempt base bound + jitter (cappedDelay attempt base bound) draw = delay :=
  Option.ite_none_right_eq_some.trans (and_congr_right fun _ => Option.some_inj)

/-- The jitter grows up to the last draw, so the sum fits for all draws if it does for that. -/
theorem spans_growingDelay? {last : Nat}
    (hlast : growingDelay? attempt base bound (lastDraw (cappedDelay attempt base bound)) =
      some last) :
    growingDelay? attempt base bound 0 = some (cappedDelay attempt base bound) ∧
      Spans (growingDelay? attempt base bound) (cappedDelay attempt base bound) last := by
  obtain ⟨hfits, hsum⟩ := growingDelay?_eq_some_iff.mp hlast
  rw [jitter_lastDraw] at hfits hsum
  have hfirst : growingDelay? attempt base bound 0 = some (cappedDelay attempt base bound) := by
    refine growingDelay?_eq_some_iff.mpr ⟨?_, by rw [jitter_zero, Nat.add_zero]⟩
    rw [jitter_zero]
    omega
  refine ⟨hfirst, fun draw => ?_, ⟨0, hfirst⟩, ⟨_, hlast⟩⟩
  have hjitter := jitter_le_lastDraw (cappedDelay attempt base bound) draw
  exact ⟨_, growingDelay?_eq_some_iff.mpr ⟨by omega, rfl⟩, by omega, by omega⟩

/-- The range of the growing delays is that of the delays all draws give, and there is none only
where the sum of delay and jitter is too large for a draw. -/
theorem describes_growingDelay? (attempt base bound : Nat) :
    Describes (growingDelay? attempt base bound) (delayRange? growingDelay? attempt base bound) :=
  describes_of_last fun _ hlast => ⟨_, spans_growingDelay? hlast⟩

theorem describes_retryDelay? (attempt base bound : Nat) :
    Describes (retryDelay? attempt base bound) (delayRange? retryDelay? attempt base bound) := by
  refine describes_of_last fun last hlast => ?_
  rcases Nat.lt_or_ge base bound with hgrows | hfixed
  · have hdelay : retryDelay? attempt base bound = growingDelay? attempt base bound :=
      funext fun draw => if_neg (Nat.not_le.mpr hgrows)
    rw [hdelay] at hlast ⊢
    exact ⟨_, spans_growingDelay? hlast⟩
  · have hdelay (draw : Nat) : retryDelay? attempt base bound draw = some base := if_pos hfixed
    obtain rfl := Option.some.inj ((hdelay _).symm.trans hlast)
    exact ⟨base, hdelay 0, fun draw => ⟨base, hdelay draw, le_rfl, le_rfl⟩, ⟨0, hdelay 0⟩,
      ⟨0, hdelay 0⟩⟩

end

-- ---------------------------------------------------------------------------
-- Delays that fit
-- ---------------------------------------------------------------------------

/-- Whatever the draw, there is a delay, of 64 bits and at least as long as without jitter. -/
def Fits (attempt base bound : Nat) : Prop :=
  ∀ draw, ∃ delay, retryDelay? attempt base bound draw = some delay ∧
    cappedDelay attempt base bound ≤ delay ∧ delay < 2 ^ 64

section
variable {attempt base bound : Nat}

theorem fits_of_fixed (hfixed : bound ≤ base) (hbase : base < 2 ^ 64) :
    Fits attempt base bound := by
  intro draw
  exact ⟨base, if_pos hfixed, (cappedDelay_le attempt base bound).trans hfixed, hbase⟩

/-- Of a growing delay the largest draw decides. -/
theorem fits_iff_of_grows (hgrows : base < bound) (hbound : bound < 2 ^ 64) :
    Fits attempt base bound ↔
      cappedDelay attempt base bound + cappedDelay attempt base bound / 10 ≤ 2 ^ 64 := by
  have hcapped : cappedDelay attempt base bound < 2 ^ 64 :=
    (cappedDelay_le attempt base bound).trans_lt hbound
  constructor
  · intro hfits
    obtain ⟨delay, hdelay, -, hless⟩ := hfits (lastDraw (cappedDelay attempt base bound))
    rw [retryDelay?_of_grows hgrows, jitter_lastDraw, lastDraw] at hdelay
    split at hdelay
    · omega
    · exact nomatch hdelay
  · intro hle draw
    have hjitter := jitter_lt (cappedDelay attempt base bound) draw
    exact ⟨_, retryDelay?_of_fits hgrows hle draw, Nat.le_add_right _ _, by omega⟩

/-- There is a range of delays exactly when all of them fit. -/
theorem fits_iff_isSome_delayRange? (hbase : base < 2 ^ 64) :
    Fits attempt base bound ↔ (delayRange? retryDelay? attempt base bound).isSome := by
  have hdescribes := describes_retryDelay? attempt base bound
  cases hrange : delayRange? retryDelay? attempt base bound with
  | none =>
    rw [hrange] at hdescribes
    obtain ⟨draw, hnone⟩ := hdescribes
    refine iff_of_false (fun hfits => ?_) (by simp)
    obtain ⟨_, hdelay, -⟩ := hfits draw
    exact absurd (hnone.symm.trans hdelay) (by simp)
  | some range =>
    rw [hrange] at hdescribes
    refine iff_of_true (fun draw => ?_) rfl
    obtain ⟨delay, hdelay, -⟩ := hdescribes.within draw
    refine ⟨delay, hdelay, ?_⟩
    rcases Nat.lt_or_ge base bound with hgrows | hfixed
    · rw [retryDelay?_of_grows hgrows] at hdelay
      obtain ⟨hless, hsum⟩ := Option.ite_none_right_eq_some.mp hdelay
      obtain rfl := Option.some.inj hsum
      exact ⟨Nat.le_add_right _ _, hless⟩
    · obtain rfl : base = delay := Option.some.inj ((if_pos hfixed).symm.trans hdelay)
      exact ⟨(cappedDelay_le attempt base bound).trans hfixed, hbase⟩

theorem cappedDelay_of_base_zero (attempt bound : Nat) : cappedDelay attempt 0 bound = 0 := by
  simp [cappedDelay]

theorem forall_fits_iff_of_grows (hgrows : base < bound) (hbound : bound < 2 ^ 64) :
    (∀ attempt, Fits attempt base bound) ↔ base = 0 ∨ bound + bound / 10 ≤ 2 ^ 64 := by
  constructor
  · intro hfits
    rcases Nat.eq_zero_or_pos base with hzero | hbase
    · exact .inl hzero
    · -- by attempt 65 the delay is at its bound
      have hlate := (fits_iff_of_grows hgrows hbound).mp (hfits 65)
      rw [cappedDelay_eq (by decide) hbound, doubledDelay_eq_bound hbase hbound le_rfl] at hlate
      exact .inr hlate
  · intro hsafe attempt
    refine (fits_iff_of_grows hgrows hbound).mpr ?_
    rcases hsafe with rfl | hle
    · rw [cappedDelay_of_base_zero]
      decide
    · have hcapped := cappedDelay_le attempt base bound
      omega

end

theorem retryDelay_le_of_validate {settings : Settings} (h : settings.validate = .ok ()) :
    settings.polling.retryDelayMs ≤ settings.polling.maxRetryDelay := by
  have hnone : settings.problems = [] := by
    unfold Settings.validate at h
    split at h
    · assumption
    · exact nomatch h
  unfold PollingSettings.maxRetryDelay
  cases hmax : settings.polling.maxRetryDelayMs with
  | none => exact le_rfl
  | some bound =>
    by_contra hless
    have hbound : bound < settings.polling.retryDelayMs := Nat.not_le.mp hless
    have hproblem : .retryBound settings.polling.retryDelayMs ∈ settings.problems := by
      simp [Settings.problems, hmax, hbound]
    rw [hnone] at hproblem
    exact List.not_mem_nil hproblem

/-- Only the polling settings of these differ from the defaults. -/
theorem validate_polling {polling : PollingSettings} (hperiod : polling.periodMs ≠ 0)
    (hbound : ∀ bound ∈ polling.maxRetryDelayMs, polling.retryDelayMs ≤ bound) :
    ({ polling } : Settings).validate = .ok () := by
  have hproblems : ({ polling } : Settings).problems = [] := by
    cases hmax : polling.maxRetryDelayMs with
    | none => simp [Settings.problems, hperiod, hmax, isLogLevel_info]
    | some bound =>
      have hle : ¬ bound < polling.retryDelayMs := Nat.not_lt.mpr (hbound bound hmax)
      simp [Settings.problems, hperiod, hmax, isLogLevel_info, hle]
  rw [Settings.validate, hproblems]

namespace Schedule

variable {plan : Plan} {continues : Schedule → Bool}

/-- What a schedule does depends on what it takes for a delay that does not fit only when there
is one. -/
theorem step_congr (hfits : ∀ attempt, Fits attempt plan.settings.retryDelayMs
      plan.settings.maxRetryDelay) (overflow : Nat → Nat) (schedule : Schedule) :
    schedule.step { plan with overflow } = schedule.step plan := by
  have hdelay (attempt : Nat) :
      Plan.retryDelay { plan with overflow } attempt = plan.retryDelay attempt := by
    obtain ⟨delay, hdelay, -⟩ := hfits attempt (plan.draw attempt)
    rw [Plan.retryDelay, Plan.retryDelay, hdelay, Option.getD_some, Option.getD_some]
  unfold step
  simp only [hdelay]
  rfl

theorem runWhile_congr (hfits : ∀ attempt, Fits attempt plan.settings.retryDelayMs
      plan.settings.maxRetryDelay) (overflow : Nat → Nat) (fuel : Nat) (schedule : Schedule) :
    runWhile { plan with overflow } continues fuel schedule =
      runWhile plan continues fuel schedule := by
  induction fuel generalizing schedule with
  | zero => rfl
  | succ fuel ih =>
    simp only [runWhile, step_congr hfits overflow, ih]

end Schedule

/-- A retry delay of accepted settings is fixed, or grows to the bound. A growing one fits in 64
bits whatever the draw exactly when a tenth of it may be added, so all of them do exactly when
that is so of the bound, or nothing grows. Then an execution never meets a delay that does not
fit. -/
theorem retryDelay_fits_iff {settings : Settings} (hvalid : settings.validate = .ok ())
    (hmillis : settings.polling.maxRetryDelay < 2 ^ 64) :
    (∀ attempt, Fits attempt settings.polling.retryDelayMs settings.polling.maxRetryDelay ↔
        settings.polling.retryDelayMs = settings.polling.maxRetryDelay ∨
        cappedDelay attempt settings.polling.retryDelayMs settings.polling.maxRetryDelay +
          cappedDelay attempt settings.polling.retryDelayMs settings.polling.maxRetryDelay / 10
            ≤ 2 ^ 64) ∧
      ((∀ attempt, Fits attempt settings.polling.retryDelayMs settings.polling.maxRetryDelay) ↔
        settings.polling.retryDelayMs = settings.polling.maxRetryDelay ∨
        settings.polling.retryDelayMs = 0 ∨
        settings.polling.maxRetryDelay + settings.polling.maxRetryDelay / 10 ≤ 2 ^ 64) ∧
      ((∀ attempt, Fits attempt settings.polling.retryDelayMs settings.polling.maxRetryDelay) →
        ∀ plan : Plan, plan.settings = settings.polling → ∀ overflow script poller entries,
          (Schedule.launch plan script poller entries).execute { plan with overflow } =
            (Schedule.launch plan script poller entries).execute plan) := by
  have hexecute (hfits : ∀ attempt,
        Fits attempt settings.polling.retryDelayMs settings.polling.maxRetryDelay)
      (plan : Plan) (hplan : plan.settings = settings.polling) (overflow : Nat → Nat)
      (script : List Reply) (poller : Poller) (entries : Entries) :
      (Schedule.launch plan script poller entries).execute { plan with overflow } =
        (Schedule.launch plan script poller entries).execute plan :=
    Schedule.runWhile_congr (hplan ▸ hfits) overflow _ _
  rcases (retryDelay_le_of_validate hvalid).eq_or_lt with heq | hgrows
  · have hfits (attempt : Nat) :
        Fits attempt settings.polling.retryDelayMs settings.polling.maxRetryDelay :=
      fits_of_fixed heq.ge (heq.trans_lt hmillis)
    exact ⟨fun attempt => iff_of_true (hfits attempt) (.inl heq),
      iff_of_true hfits (.inl heq), hexecute⟩
  · refine ⟨fun attempt => ?_, ?_, hexecute⟩
    · rw [fits_iff_of_grows hgrows hmillis, or_iff_right hgrows.ne]
    · rw [forall_fits_iff_of_grows hgrows hmillis, or_iff_right hgrows.ne]

/-- The settings with the largest bound that keeps all delays within 64 bits, and those with the
next one. -/
theorem retryDelay_fits_iff_largest :
    (∀ attempt, Fits attempt 1 16769767339735956015) ∧
      ¬ ∀ attempt, Fits attempt 1 16769767339735956016 := by
  have hvalid (bound : Nat) (hbound : 1 ≤ bound) :
      ({ polling := { retryDelayMs := 1, maxRetryDelayMs := some bound } } : Settings).validate =
        .ok () := by
    refine validate_polling (show 30000 ≠ 0 by decide) ?_
    rintro other ⟨⟩
    exact hbound
  have hlargest := (retryDelay_fits_iff (hvalid 16769767339735956015 (by decide)) (by decide)).2.1
  have hnext := (retryDelay_fits_iff (hvalid 16769767339735956016 (by decide)) (by decide)).2.1
  exact ⟨hlargest.mpr (by decide), fun hfits => absurd (hnext.mp hfits) (by decide)⟩

/-- Settings whose first retry delay may already be too long. -/
def steep : PollingSettings :=
  { retryDelayMs := 18446744073709551614, maxRetryDelayMs := some 18446744073709551615 }

theorem retryDelay_overflows :
    ({ polling := steep } : Settings).validate = .ok () ∧ steep.maxRetryDelay < 2 ^ 64 ∧
      retryDelay? 1 steep.retryDelayMs steep.maxRetryDelay 2 = none := by
  refine ⟨validate_polling (by decide) ?_, by decide, by decide⟩
  rintro bound ⟨⟩
  decide

end Overlay.Poll
