import Telemetry.Store.Adapter

/-!
# Timing work

Work ends by returning a result or by unwinding past whoever called it (`Ending`). A timer that is
started hands out a `TimerContext`, which records how long the work took when it is stopped, or when
it is dropped while it still runs, as happens when the work unwinds (specification, 4.3). To stop a
context uses it up, so it is dropped then as well; having been stopped, it records nothing more.

* `stop_start`, `drop_start`: either way a context that was started records once.
-/

namespace Telemetry

/-- How work ends. -/
inductive Ending (β : Type) where
  | returned (result : β)
  | unwound
deriving DecidableEq

namespace Ending

variable {β γ : Type}

/-- Change the result, if there is one. -/
def map (f : β → γ) : Ending β → Ending γ
  | .returned result => .returned (f result)
  | .unwound => .unwound

/-- Whether the work unwinds. -/
def unwinds : Ending β → Bool
  | .returned _ => false
  | .unwound => true

end Ending

/-- A timing in flight. -/
structure TimerContext where
  timer : Adapter
  /-- Whether it has recorded. -/
  stopped : Bool
deriving DecidableEq

/-- Start timing. -/
def Adapter.start (timer : Adapter) : TimerContext := ⟨timer, false⟩

@[simp]
theorem Adapter.start_timer (a : Adapter) : a.start.timer = a := rfl

namespace TimerContext

/-- Record what the host measured, and be stopped. -/
def record (c : TimerContext) (elapsed : Duration) (s : MeterStore) : TimerContext × MeterStore :=
  ({ c with stopped := true }, c.timer.updateDuration elapsed s)

/-- Let go of a context. One that still runs records first. -/
def drop (c : TimerContext) (elapsed : Duration) (s : MeterStore) : MeterStore :=
  if c.stopped then s else (c.record elapsed s).2

/-- Stop a context, and let go of it. Answers what was recorded. -/
def stop (c : TimerContext) (elapsed : Duration) (s : MeterStore) : Duration × MeterStore :=
  let (c, s) := c.record elapsed s
  (elapsed, c.drop elapsed s)

/-- **A context that was stopped** records nothing when it is dropped, whatever the clock says. -/
theorem drop_record (c : TimerContext) (elapsed later : Duration) (s s' : MeterStore) :
    (c.record elapsed s).1.drop later s' = s' := rfl

/-- **Stopping a context records once**, -/
theorem stop_start (a : Adapter) (elapsed : Duration) (s : MeterStore) :
    a.start.stop elapsed s = (elapsed, a.updateDuration elapsed s) := by
  show (elapsed, (a.start.record elapsed s).1.drop elapsed (a.start.record elapsed s).2) = _
  rw [drop_record]
  rfl

/-- **and so does dropping it** while it runs. -/
theorem drop_start (a : Adapter) (elapsed : Duration) (s : MeterStore) :
    a.start.drop elapsed s = a.updateDuration elapsed s := rfl

/-- Stop contexts one after the other. -/
def stopEach (elapsed : Adapter → Duration) (contexts : List TimerContext) (s : MeterStore) :
    MeterStore :=
  contexts.foldl (fun s c => (c.stop (elapsed c.timer) s).2) s

/-- Drop contexts one after the other. -/
def dropEach (elapsed : Adapter → Duration) (contexts : List TimerContext) (s : MeterStore) :
    MeterStore :=
  contexts.foldl (fun s c => c.drop (elapsed c.timer) s) s

variable (elapsed : Adapter → Duration) (timers : List Adapter) (s : MeterStore)

/-- Every timer that was started records once when the contexts are stopped, -/
theorem stopEach_start : stopEach elapsed (timers.map Adapter.start) s =
    timers.foldl (fun s a => a.updateDuration (elapsed a) s) s := by
  unfold stopEach
  simp only [List.foldl_map, stop_start, Adapter.start_timer]

/-- and once when they are dropped instead. -/
theorem dropEach_start : dropEach elapsed (timers.map Adapter.start) s =
    timers.foldl (fun s a => a.updateDuration (elapsed a) s) s := by
  unfold dropEach
  simp only [List.foldl_map, drop_start, Adapter.start_timer]

end TimerContext

end Telemetry
