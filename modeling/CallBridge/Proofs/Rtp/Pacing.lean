import CallBridge.Rtp.AudioStream
import Mathlib.Algebra.Order.Field.Basic
import Mathlib.Data.List.Defs
import Mathlib.Data.Rat.Cast.Order
import Mathlib.Tactic.Linarith

/-!
# Pacing at regular ticks

A gate is polled at every tick of the media clock and is meant to let one frame through for each
packetization interval, so that the frames keep pace with the time that has passed, give or take
one.

A gate knows no more than when it opened last, which was at a tick. It opens again at the first tick
that is an interval away, so between two frames lies the same whole number of ticks: the interval
rounded up. Where the quantum divides the interval nothing is rounded, and the frames keep pace for
ever. Everywhere else each frame comes late by what was rounded, the next interval counts from
there, and the frames fall behind by more than any number.

Results:
* `lt_period_iff`, `period_mul_eq_iff`: the interval rounded up to whole ticks.
* `Gate.opened_le`, `Gate.opened_eq`: how often a gate opens that waits since it opened last.
* `Gate.opened_start_le`, `Gate.opened_start_eq`: how often a gate opens that was never polled.
* `keepsPace_iff`: what it means to keep pace, in whole numbers.
* `Gate.paced_of_dvd`, `Gate.dvd_of_paced`: a gate keeps pace exactly if the quantum divides the
  interval.
* `openings_pollSend`, `openings_pollRead`: the gates of a stream.
* `paced_iff`: the gates of a stream keep pace exactly if the quantum divides the interval.
* `not_paced`: not every gate does.
-/

namespace CallBridge.Rtp

/-- The timestamps of a number of ticks. -/
def ticks (ts quantum : UInt64) (n : Nat) : List UInt64 := List.iterate (· + quantum) ts n

/-- How often a gate opens that is polled at some timestamps one after the other. -/
def openings {σ : Type} (poll : σ → UInt64 → σ × Bool) : σ → List UInt64 → Nat
  | _, [] => 0
  | s, ts :: rest => (if (poll s ts).2 then 1 else 0) + openings poll (poll s ts).1 rest

/-- After a number of ticks as many frames were let through as intervals have passed, give or take
one. -/
def KeepsPace (interval quantum : UInt64) (n frames : Nat) : Prop :=
  |(frames : ℚ) - n * quantum.toNat / interval.toNat| ≤ 1

/-- The least number of ticks that last an interval. -/
def period (interval quantum : UInt64) : Nat :=
  (interval.toNat + quantum.toNat - 1) / quantum.toNat

theorem ticks_succ (ts quantum : UInt64) (n : Nat) :
    ticks ts quantum (n + 1) = ts :: ticks (ts + quantum) quantum n := rfl

section

variable {interval quantum : UInt64}

theorem lt_period_iff (hquantum : 1 ≤ quantum.toNat) {j : Nat} :
    j < period interval quantum ↔ j * quantum.toNat < interval.toNat := by
  rw [period, ← Nat.succ_le_iff, Nat.le_div_iff_mul_le hquantum, Nat.succ_mul]
  omega

theorem one_le_period (hquantum : 1 ≤ quantum.toNat) (hle : quantum.toNat ≤ interval.toNat) :
    1 ≤ period interval quantum := by
  rw [Nat.one_le_iff_ne_zero, ← Nat.pos_iff_ne_zero, lt_period_iff hquantum]
  omega

/-- The period lasts an interval, and no more if the quantum divides it. -/
theorem period_mul_eq_iff (hquantum : 1 ≤ quantum.toNat) :
    period interval quantum * quantum.toNat = interval.toNat ↔
      quantum.toNat ∣ interval.toNat := by
  constructor
  · intro h
    exact ⟨period interval quantum, by rw [← h, Nat.mul_comm]⟩
  · rintro ⟨k, hk⟩
    have hround : quantum.toNat * k + quantum.toNat - 1 =
        quantum.toNat - 1 + quantum.toNat * k := by omega
    have hperiod : period interval quantum = k := by
      rw [period, hk, hround, Nat.add_mul_div_left _ _ hquantum,
        Nat.div_eq_of_lt (by omega), Nat.zero_add]
    rw [hperiod, hk, Nat.mul_comm]

theorem interval_le_period_mul (hquantum : 1 ≤ quantum.toNat) :
    interval.toNat ≤ period interval quantum * quantum.toNat :=
  Nat.le_of_not_lt fun h => Nat.lt_irrefl _ ((lt_period_iff hquantum).2 h)

/-- A period more is begun when all before it are over. -/
theorem begun_succ {p : Nat} (hpos : 1 ≤ p) (n : Nat) : (n + 1 + p - 1) / p = 1 + n / p := by
  rw [Nat.succ_add_sub_one, Nat.add_div_right n hpos, Nat.add_comm 1]

/-! ## A gate that waits -/

namespace Gate

/-- How often a gate opens that was never polled, or opened last at a timestamp, when it is polled
at a number of ticks. -/
def opened (interval quantum : UInt64) (g : Gate) (ts : UInt64) (n : Nat) : Nat :=
  openings (poll · · interval) g (ticks ts quantum n)

section

variable {last ts : UInt64} (n : Nat)

theorem opened_start : opened interval quantum start ts (n + 1) =
    1 + opened interval quantum ⟨some ts⟩ (ts + quantum) n := rfl

theorem opened_early (h : ts - last < interval) : opened interval quantum ⟨some last⟩ ts (n + 1) =
    opened interval quantum ⟨some last⟩ (ts + quantum) n := by
  rw [opened, ticks_succ, openings, due_of_lt h]
  exact Nat.zero_add _

theorem opened_due (h : ¬ ts - last < interval) : opened interval quantum ⟨some last⟩ ts (n + 1) =
    1 + opened interval quantum ⟨some ts⟩ (ts + quantum) n := by
  rw [opened, ticks_succ, openings, due_of_le h]
  rfl

end

/-- The time since a gate opened is longer by the quantum at the next tick. -/
theorem since_next {last ts : UInt64} {j : Nat} (h : (ts - last).toNat = j * quantum.toNat)
    (hfits : (j + 1) * quantum.toNat < UInt64.size) :
    (ts + quantum - last).toNat = (j + 1) * quantum.toNat := by
  have hsum : ts + quantum - last = ts - last + quantum := by
    rw [UInt64.sub_eq_add_neg, UInt64.sub_eq_add_neg, UInt64.add_assoc, UInt64.add_comm quantum,
      ← UInt64.add_assoc]
  rw [Nat.succ_mul] at hfits ⊢
  rw [hsum, UInt64.toNat_add, h]
  exact Nat.mod_eq_of_lt hfits

/-- At the first tick after it opened, the quantum has passed. -/
theorem since_opened (ts : UInt64) : (ts + quantum - ts).toNat = 1 * quantum.toNat := by
  rw [UInt64.add_comm, UInt64.add_sub_cancel, Nat.one_mul]

section

variable (hquantum : 1 ≤ quantum.toNat) (hle : quantum.toNat ≤ interval.toNat)
include hquantum hle

/-- **Step and run**: a gate that opened some ticks ago waits until a period is over before it opens
again, and longer where timestamps do not show that an interval has passed. -/
theorem opened_le {last ts : UInt64} {j : Nat} (hperiod : j ≤ period interval quantum)
    (hsince : j < period interval quantum → (ts - last).toNat = j * quantum.toNat) (n : Nat) :
    opened interval quantum ⟨some last⟩ ts n ≤ (n + j - 1) / period interval quantum := by
  have hpos := one_le_period hquantum hle
  induction n generalizing last ts j with
  | zero => exact Nat.zero_le _
  | succ n ih =>
    rcases Nat.lt_or_eq_of_le hperiod with hlt | rfl
    · have hearly : ts - last < interval := by
        rw [UInt64.lt_iff_toNat_lt, hsince hlt]
        exact (lt_period_iff hquantum).1 hlt
      rw [opened_early n hearly, Nat.succ_add_eq_add_succ]
      exact ih hlt fun hnext => since_next (hsince hlt)
        (Nat.lt_trans ((lt_period_iff hquantum).1 hnext) interval.toNat_lt)
    · by_cases hdue : ts - last < interval
      · rw [opened_early n hdue]
        refine Nat.le_trans (ih (Nat.le_refl _) fun h => absurd h (Nat.lt_irrefl _)) ?_
        exact Nat.div_le_div_right (by omega)
      · rw [opened_due n hdue, begun_succ hpos]
        exact Nat.add_le_add_left (ih hpos fun _ => since_opened ts) 1

/-- **Step and run**: where timestamps show that a period is over, a gate opens right then. -/
theorem opened_eq (hfits : period interval quantum * quantum.toNat < UInt64.size)
    {last ts : UInt64} {j : Nat} (hj : 1 ≤ j) (hperiod : j ≤ period interval quantum)
    (hsince : (ts - last).toNat = j * quantum.toNat) (n : Nat) :
    opened interval quantum ⟨some last⟩ ts n = (n + j - 1) / period interval quantum := by
  have hpos := one_le_period hquantum hle
  induction n generalizing last ts j with
  | zero => exact (Nat.div_eq_of_lt (by omega)).symm
  | succ n ih =>
    rcases Nat.lt_or_eq_of_le hperiod with hlt | rfl
    · have hearly : ts - last < interval := by
        rw [UInt64.lt_iff_toNat_lt, hsince]
        exact (lt_period_iff hquantum).1 hlt
      rw [opened_early n hearly, Nat.succ_add_eq_add_succ]
      exact ih (Nat.le_add_left 1 j) hlt (since_next hsince
        (Nat.lt_of_le_of_lt (Nat.mul_le_mul_right _ hlt) hfits))
    · have hdue : ¬ ts - last < interval := by
        rw [UInt64.lt_iff_toNat_lt, hsince]
        exact Nat.not_lt.2 (interval_le_period_mul hquantum)
      rw [opened_due n hdue, begun_succ hpos, ih (Nat.le_refl 1) hpos (since_opened ts)]
      rfl

/-! ## A gate that was never polled -/

/-- A gate that was never polled opens at once, and then at most once in a period. -/
theorem opened_start_le (ts : UInt64) (n : Nat) : opened interval quantum start ts n ≤
    (n + period interval quantum - 1) / period interval quantum := by
  have hpos := one_le_period hquantum hle
  cases n with
  | zero => exact Nat.zero_le _
  | succ n =>
    rw [opened_start, begun_succ hpos]
    exact Nat.add_le_add_left (opened_le hquantum hle hpos (fun _ => since_opened ts) n) 1

/-- Where timestamps show that a period is over, it opens once in every period begun. -/
theorem opened_start_eq (hfits : period interval quantum * quantum.toNat < UInt64.size)
    (ts : UInt64) (n : Nat) : opened interval quantum start ts n =
      (n + period interval quantum - 1) / period interval quantum := by
  have hpos := one_le_period hquantum hle
  cases n with
  | zero => exact (Nat.div_eq_of_lt (by omega)).symm
  | succ n =>
    rw [opened_start, begun_succ hpos,
      opened_eq hquantum hle hfits (Nat.le_refl 1) hpos (since_opened ts)]
    rfl

end

end Gate

/-! ## Keeping pace -/

/-- To keep pace in whole numbers: frames times the interval, and the time that has passed. -/
theorem keepsPace_iff (hinterval : 0 < interval.toNat) {n frames : Nat} :
    KeepsPace interval quantum n frames ↔
      frames * interval.toNat ≤ n * quantum.toNat + interval.toNat ∧
      n * quantum.toNat ≤ frames * interval.toNat + interval.toNat := by
  have hpos : (0 : ℚ) < interval.toNat := Nat.cast_pos.2 hinterval
  have hscale : (frames : ℚ) - n * quantum.toNat / interval.toNat =
      (frames * interval.toNat - n * quantum.toNat) / interval.toNat := by
    rw [sub_div, mul_div_cancel_right₀ _ hpos.ne']
  rw [KeepsPace, hscale, abs_le, le_div_iff₀ hpos, div_le_iff₀ hpos]
  have hcast : ∀ a b : Nat, a ≤ b ↔ (a : ℚ) ≤ b := fun a b => Nat.cast_le.symm
  rw [hcast, hcast]
  push_cast
  constructor
  · rintro ⟨hlow, hhigh⟩
    exact ⟨by linarith, by linarith⟩
  · rintro ⟨hhigh, hlow⟩
    exact ⟨by linarith, by linarith⟩

namespace Gate

section

variable (hquantum : 1 ≤ quantum.toNat) (hle : quantum.toNat ≤ interval.toNat)
include hquantum hle

/-- Where the quantum divides the interval, the frames keep pace for ever. -/
theorem paced_of_dvd (hdvd : quantum.toNat ∣ interval.toNat) (ts : UInt64) (n : Nat) :
    KeepsPace interval quantum n (opened interval quantum start ts n) := by
  have hexact := (period_mul_eq_iff hquantum).2 hdvd
  have hpos := one_le_period hquantum hle
  rw [keepsPace_iff (Nat.lt_of_lt_of_le hquantum hle),
    opened_start_eq hquantum hle (by rw [hexact]; exact interval.toNat_lt) ts n, ← hexact]
  generalize period interval quantum = p at hpos
  have hdiv := Nat.div_add_mod (n + p - 1) p
  have hmod := Nat.mod_lt (n + p - 1) hpos
  rw [Nat.mul_comm p] at hdiv
  rw [← Nat.mul_assoc, ← Nat.add_mul, ← Nat.add_mul]
  exact ⟨Nat.mul_le_mul_right _ (by omega), Nat.mul_le_mul_right _ (by omega)⟩

/-- Where it does not, the frames fall behind: in as many periods as the interval has cycles and one
more, by more than an interval. -/
theorem dvd_of_paced {ts : UInt64}
    (hpaced : ∀ n, KeepsPace interval quantum n (opened interval quantum start ts n)) :
    quantum.toNat ∣ interval.toNat := by
  rw [← period_mul_eq_iff hquantum]
  by_contra hne
  have hpos := one_le_period hquantum hle
  have hlate : interval.toNat + 1 ≤ period interval quantum * quantum.toNat :=
    Nat.lt_of_le_of_ne (interval_le_period_mul hquantum) (Ne.symm hne)
  obtain ⟨m, hm⟩ : ∃ m, m = interval.toNat + 1 := ⟨_, rfl⟩
  have hframes : opened interval quantum start ts (m * period interval quantum) ≤ m := by
    refine Nat.le_trans (opened_start_le hquantum hle ts _) (Nat.le_of_lt_succ ?_)
    rw [Nat.div_lt_iff_lt_mul hpos, Nat.succ_mul]
    omega
  have hbehind := ((keepsPace_iff (Nat.lt_of_lt_of_le hquantum hle)).1
    (hpaced (m * period interval quantum))).2
  have hpassed : m * (interval.toNat + 1) ≤ m * period interval quantum * quantum.toNat := by
    rw [Nat.mul_assoc]
    exact Nat.mul_le_mul_left m hlate
  have hcarried : opened interval quantum start ts (m * period interval quantum) * interval.toNat ≤
      m * interval.toNat := Nat.mul_le_mul_right _ hframes
  rw [Nat.mul_succ] at hpassed
  omega

end

end Gate

end

/-! ## The gates of a stream -/

section

variable (s : AudioStream) (frameSize : Nat)

theorem openings_pollSend (stamps : List UInt64) :
    openings (·.pollSend · frameSize) s stamps =
      openings (Gate.poll · · (s.interval frameSize)) s.sendGate stamps := by
  induction stamps generalizing s with
  | nil => rfl
  | cons ts stamps ih => exact congrArg (_ + ·) (ih (s.pollSend ts frameSize).1)

theorem openings_pollRead (stamps : List UInt64) :
    openings (·.pollRead · frameSize) s stamps =
      openings (Gate.poll · · (s.interval frameSize)) s.readGate stamps := by
  induction stamps generalizing s with
  | nil => rfl
  | cons ts stamps ih => exact congrArg (_ + ·) (ih (s.pollRead ts frameSize).1)

end

/-- **Main theorem**: when a gate keeps pace.

A gate that was never polled is polled at regular ticks, one interval or less apart. The frames that
it lets through keep pace with the intervals that have passed, whatever the number of ticks, if and
only if the quantum divides the interval. Otherwise it opens once in a period, which is longer than
an interval, and still less often where timestamps do not show that a period is over. The send gate
and the read gate of a stream are such gates, with the interval of the frames that they are polled
for. -/
theorem paced_iff {interval quantum : UInt64} (hquantum : 1 ≤ quantum) (hle : quantum ≤ interval)
    (ts : UInt64) :
    let opened := Gate.opened interval quantum Gate.start ts
    ((∀ n, KeepsPace interval quantum n (opened n)) ↔ quantum.toNat ∣ interval.toNat) ∧
    (∀ n, opened n ≤ (n + period interval quantum - 1) / period interval quantum) ∧
    (period interval quantum * quantum.toNat < UInt64.size →
      ∀ n, opened n = (n + period interval quantum - 1) / period interval quantum) ∧
    ∀ (s : AudioStream) (frameSize : Nat), s.interval frameSize = interval →
      (s.sendGate = Gate.start → ∀ n,
        openings (·.pollSend · frameSize) s (ticks ts quantum n) = opened n) ∧
      (s.readGate = Gate.start → ∀ n,
        openings (·.pollRead · frameSize) s (ticks ts quantum n) = opened n) := by
  have hquantum : 1 ≤ quantum.toNat := UInt64.le_iff_toNat_le.1 hquantum
  have hle := UInt64.le_iff_toNat_le.1 hle
  refine ⟨⟨Gate.dvd_of_paced hquantum hle, fun hdvd => Gate.paced_of_dvd hquantum hle hdvd ts⟩,
    Gate.opened_start_le hquantum hle ts,
    fun hfits => Gate.opened_start_eq hquantum hle hfits ts, ?_⟩
  rintro s frameSize rfl
  refine ⟨fun hstart n => ?_, fun hstart n => ?_⟩
  · rw [openings_pollSend, hstart]
    rfl
  · rw [openings_pollRead, hstart]
    rfl

/-- Packets of 20 milliseconds keep pace with ticks of ten, on a clock of 32000 Hz. -/
theorem paced_iff_twentyMs :
    (1 : UInt64) ≤ 320 ∧ (320 : UInt64) ≤ 640 ∧
      ∀ n, KeepsPace 640 320 n (Gate.opened 640 320 Gate.start 0 n) :=
  ⟨by decide, by decide, (paced_iff (by decide) (by decide) 0).1.2 (by decide)⟩

/-- Packets of 25 milliseconds do not keep pace with ticks of 15: after twelve ticks, in which 7.2
intervals have passed, six frames were let through. -/
theorem not_paced :
    ¬ ∀ interval quantum ts : UInt64, 1 ≤ quantum → quantum ≤ interval →
      ∀ n, KeepsPace interval quantum n (Gate.opened interval quantum Gate.start ts n) := by
  intro hpaced
  have htwelve := hpaced 800 480 0 (by decide) (by decide) 12
  have hsix : Gate.opened 800 480 Gate.start 0 12 = 6 := by decide
  rw [hsix, keepsPace_iff (by decide)] at htwelve
  exact absurd htwelve (by decide)

end CallBridge.Rtp
