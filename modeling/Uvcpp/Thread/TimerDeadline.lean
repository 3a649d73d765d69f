/-
Timeval.h, and EventLoop.cpp: the deadline of a timer.

runAfter and runEvery add their delay to one reading of the clock, and timerRunImpl
subtracts a later one.  The difference is cut to whole milliseconds, so a timer is in time
only when whole milliseconds have passed between the two readings, and when the second one
is not behind the deadline.
-/

import Uvcpp.Buffer.DataBlock

namespace Uvcpp

structure Timeval where
  microsecond_ : UInt64
deriving DecidableEq, Repr

namespace Timeval

def millisecond (t : Timeval) : UInt64 := t.microsecond_ / 1000

/-- `operator>`. -/
def gt (lval rval : Timeval) : Bool := lval.microsecond_ > rval.microsecond_

/-- `operator==`. -/
def eq (lval rval : Timeval) : Bool := lval.microsecond_ == rval.microsecond_

/-- `operator>=`. -/
def ge (lval rval : Timeval) : Bool := lval.gt rval || lval.eq rval

/-- `operator-`. -/
def minus (lval rval : Timeval) : Except Fault Timeval :=
  if lval.ge rval then .ok ⟨lval.microsecond_ - rval.microsecond_⟩ else .error .assertion

/-- `operator+=`. -/
def plusAssign (t val : Timeval) : Timeval := ⟨t.microsecond_ + val.microsecond_⟩

/-- The clock in microseconds. -/
def reading (t : Timeval) : Nat := t.microsecond_.toNat

theorem ge_iff (lval rval : Timeval) : lval.ge rval = true ↔ rval.reading ≤ lval.reading := by
  unfold ge gt eq reading
  rw [Bool.or_eq_true, decide_eq_true_iff, beq_iff_eq, gt_iff_lt, UInt64.lt_iff_toNat_lt,
    ← UInt64.toNat_inj]
  omega

theorem minus_of_le {lval rval : Timeval} (ordered : rval.reading ≤ lval.reading) :
    ∃ diff, lval.minus rval = .ok diff ∧ diff.reading = lval.reading - rval.reading := by
  refine ⟨_, if_pos ((ge_iff lval rval).mpr ordered), ?_⟩
  exact UInt64.toNat_sub_of_le _ _ (UInt64.le_iff_toNat_le.mpr ordered)

theorem minus_of_lt {lval rval : Timeval} (passed : lval.reading < rval.reading) :
    lval.minus rval = .error .assertion := by
  apply if_neg
  rw [ge_iff]
  exact Nat.not_le_of_lt passed

theorem millisecond_toNat (t : Timeval) : t.millisecond.toNat = t.reading / 1000 :=
  UInt64.toNat_div _ _

end Timeval

namespace TimerDeadline

/-- What a timer is started with. -/
structure Started (Callback : Type) where
  data : Callback
  timeout : UInt64
  interval : UInt64
deriving DecidableEq, Repr

variable {Callback : Type}

/-- `timerRunImpl`, where `now` is its reading of the clock. -/
def timerRunImpl (time : Timeval) (interval : UInt64) (cb : Option Callback) (now : Timeval) :
    Except Fault (Option (Started Callback)) :=
  match cb with
  | none => .ok none
  | some cb => do
      let diff ← time.minus now
      pure (some { data := cb, timeout := diff.millisecond, interval := interval })

/-- `runAfter`, where `now` is its own reading and `later` the one of `timerRunImpl`. -/
def runAfter (delay : UInt64) (cb : Option Callback) (now later : Timeval) :
    Except Fault (Option (Started Callback)) :=
  timerRunImpl (now.plusAssign ⟨delay * 1000⟩) 0 cb later

def runEvery (interval : UInt64) (cb : Option Callback) (now later : Timeval) :
    Except Fault (Option (Started Callback)) :=
  timerRunImpl (now.plusAssign ⟨interval * 1000⟩) interval cb later

/-- The subtraction of `timerRunImpl` is exact, and the timer it starts does not expire
before the deadline, nor a millisecond behind it unless that has passed already. -/
structure Punctual (deadline : Nat) (time later : Timeval)
    (result : Except Fault (Option (Started Callback))) : Prop where
  subtracts : ∃ diff, time.minus later = .ok diff ∧ diff.reading + later.reading = deadline
  starts : ∃ started, result = .ok (some started) ∧
    deadline ≤ later.reading + 1000 * started.timeout.toNat ∧
      (later.reading ≤ deadline →
        later.reading + 1000 * started.timeout.toNat < deadline + 1000)

/-! ### The two readings -/

/-- A deadline that fits does not wrap. -/
theorem reading_plusAssign {now : Timeval} {delay : UInt64}
    (fits : now.reading + 1000 * delay.toNat < 18446744073709551616) :
    (now.plusAssign ⟨delay * 1000⟩).reading = now.reading + 1000 * delay.toNat := by
  have product : (delay * 1000).toNat = 1000 * delay.toNat := by
    have thousand : (1000 : UInt64).toNat = 1000 := rfl
    rw [UInt64.toNat_mul, thousand, Nat.mul_comm]
    exact Nat.mod_eq_of_lt (by omega)
  have sum : (now.plusAssign ⟨delay * 1000⟩).reading =
      (now.reading + (delay * 1000).toNat) % 18446744073709551616 := UInt64.toNat_add _ _
  rw [sum, product, Nat.mod_eq_of_lt fits]

section Implementation

variable {time later : Timeval} (interval : UInt64) (cb : Callback)

theorem timerRunImpl_passed (passed : time.reading < later.reading) :
    timerRunImpl time interval (some cb) later = .error .assertion := by
  rw [timerRunImpl, Timeval.minus_of_lt passed]
  rfl

/-- The timeout is what is left until the deadline, cut to whole milliseconds. -/
theorem timerRunImpl_timeout (ahead : later.reading ≤ time.reading) :
    ∃ timeout, timerRunImpl time interval (some cb) later =
        .ok (some { data := cb, timeout := timeout, interval := interval }) ∧
      timeout.toNat = (time.reading - later.reading) / 1000 := by
  rcases Timeval.minus_of_le ahead with ⟨diff, hMinus, exactly⟩
  refine ⟨diff.millisecond, ?_, ?_⟩
  · rw [timerRunImpl, hMinus]
    rfl
  · rw [Timeval.millisecond_toNat, exactly]

/-- A timer is never late by what is computed here: the assert fails, or it expires at the
deadline or within the millisecond before. -/
theorem timerRunImpl_never_late :
    timerRunImpl time interval (some cb) later = .error .assertion ∨
      ∃ started, timerRunImpl time interval (some cb) later = .ok (some started) ∧
        later.reading + 1000 * started.timeout.toNat ≤ time.reading ∧
          time.reading < later.reading + 1000 * started.timeout.toNat + 1000 := by
  by_cases passed : time.reading < later.reading
  · exact .inl (timerRunImpl_passed interval cb passed)
  · have ahead : later.reading ≤ time.reading := Nat.not_lt.mp passed
    rcases timerRunImpl_timeout interval cb ahead with ⟨timeout, hRun, truncated⟩
    refine .inr ⟨_, hRun, ?_, ?_⟩
    · show later.reading + 1000 * timeout.toNat ≤ time.reading
      omega
    · show time.reading < later.reading + 1000 * timeout.toNat + 1000
      omega

theorem timerRunImpl_punctual :
    Punctual time.reading time later (timerRunImpl time interval (some cb) later) ↔
      later.reading ≤ time.reading ∧ 1000 ∣ time.reading - later.reading := by
  constructor
  · rintro ⟨⟨diff, hMinus, exactly⟩, started, hRun, notBefore, _soon⟩
    have ahead : later.reading ≤ time.reading := by omega
    rcases timerRunImpl_timeout interval cb ahead with ⟨timeout, hSame, truncated⟩
    rw [hRun] at hSame
    cases hSame
    have notBefore : time.reading ≤ later.reading + 1000 * timeout.toNat := notBefore
    exact ⟨ahead, ⟨timeout.toNat, by omega⟩⟩
  · rintro ⟨ahead, whole⟩
    rcases Timeval.minus_of_le ahead with ⟨diff, hMinus, exactly⟩
    rcases timerRunImpl_timeout interval cb ahead with ⟨timeout, hRun, truncated⟩
    have reached : 1000 * timeout.toNat = time.reading - later.reading := by
      rw [truncated]
      exact Nat.mul_div_cancel' whole
    have onTime : later.reading + 1000 * timeout.toNat = time.reading := by omega
    refine ⟨⟨diff, hMinus, by omega⟩, _, hRun, Nat.le_of_eq onTime.symm, ?_⟩
    intro _ahead
    exact Nat.lt_of_le_of_lt (Nat.le_of_eq onTime) (Nat.lt_add_of_pos_right (by decide))

end Implementation

end TimerDeadline

/-- **Timer deadlines.** The timer of `runAfter` and of `runEvery` is in time exactly when
the second reading of the clock is not behind the deadline and is whole milliseconds after
the first. -/
theorem timer_punctual_iff {Callback : Type} (cb : Callback) {d : UInt64} {t1 t2 : Timeval}
    (ordered : t1.reading ≤ t2.reading)
    (fits : t1.reading + 1000 * d.toNat < 18446744073709551616) :
    (TimerDeadline.Punctual (t1.reading + 1000 * d.toNat) (t1.plusAssign ⟨d * 1000⟩) t2
        (TimerDeadline.runAfter d (some cb) t1 t2) ↔
      t2.reading ≤ t1.reading + 1000 * d.toNat ∧ 1000 ∣ t2.reading - t1.reading) ∧
    (TimerDeadline.Punctual (t1.reading + 1000 * d.toNat) (t1.plusAssign ⟨d * 1000⟩) t2
        (TimerDeadline.runEvery d (some cb) t1 t2) ↔
      t2.reading ≤ t1.reading + 1000 * d.toNat ∧ 1000 ∣ t2.reading - t1.reading) := by
  have deadline := TimerDeadline.reading_plusAssign fits
  have whole (interval : UInt64) :
      TimerDeadline.Punctual (t1.reading + 1000 * d.toNat) (t1.plusAssign ⟨d * 1000⟩) t2
        (TimerDeadline.timerRunImpl (t1.plusAssign ⟨d * 1000⟩) interval (some cb) t2) ↔
      t2.reading ≤ t1.reading + 1000 * d.toNat ∧ 1000 ∣ t2.reading - t1.reading := by
    rw [← deadline, TimerDeadline.timerRunImpl_punctual, deadline]
    omega
  exact ⟨whole 0, whole d⟩

/-- Two milliseconds pass of a delay of five. -/
theorem timer_punctual_iff_two :
    TimerDeadline.Punctual 5007 ⟨5007⟩ ⟨2007⟩
        (TimerDeadline.runAfter 5 (some ()) ⟨7⟩ ⟨2007⟩) ∧
      TimerDeadline.Punctual 5007 ⟨5007⟩ ⟨2007⟩
        (TimerDeadline.runEvery 5 (some ()) ⟨7⟩ ⟨2007⟩) := by
  have punctual := @timer_punctual_iff Unit () 5 ⟨7⟩ ⟨2007⟩ (by decide) (by decide)
  exact ⟨punctual.1.mpr ⟨by decide, by decide⟩, punctual.2.mpr ⟨by decide, by decide⟩⟩

/-- One microsecond between the readings: without a delay the assert fails, and a delay of
one millisecond becomes none. -/
theorem timer_not_punctual :
    TimerDeadline.runAfter 0 (some ()) ⟨0⟩ ⟨1⟩ = .error .assertion ∧
      ¬TimerDeadline.Punctual 0 ⟨0⟩ ⟨1⟩ (TimerDeadline.runAfter 0 (some ()) ⟨0⟩ ⟨1⟩) ∧
      TimerDeadline.runAfter 1 (some ()) ⟨0⟩ ⟨1⟩ =
        .ok (some { data := (), timeout := 0, interval := 0 }) ∧
      ¬TimerDeadline.Punctual 1000 ⟨1000⟩ ⟨1⟩
        (TimerDeadline.runAfter 1 (some ()) ⟨0⟩ ⟨1⟩) := by
  have fails : TimerDeadline.runAfter 0 (some ()) ⟨0⟩ ⟨1⟩ = .error .assertion := by decide
  have early : TimerDeadline.runAfter 1 (some ()) ⟨0⟩ ⟨1⟩ =
      .ok (some { data := (), timeout := 0, interval := 0 }) := by decide
  refine ⟨fails, ?_, early, ?_⟩
  · rw [fails]
    rintro ⟨_subtracts, started, impossible, _bounds⟩
    cases impossible
  · rw [early]
    rintro ⟨_subtracts, started, same, notBefore, _soon⟩
    cases same
    exact absurd notBefore (by decide)

end Uvcpp
