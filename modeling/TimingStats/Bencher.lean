import TimingStats.Recorder
import TimingStats.Summary

/-! # Timing a routine

A bencher runs a routine, times each measured call with a stopwatch, and records the durations.
Warm-up calls are counted and not timed, and a set-up runs before its call outside the timed
part. -/

namespace TimingStats

/-- Runs an action and tells how many nanoseconds it took. -/
abbrev Stopwatch (m : Type → Type) := m Unit → m Int64

structure Bencher where
  recorder : Recorder
  /-- All calls, those of the warm-up included. -/
  iterations : Nat
  warmups : Nat

structure BenchmarkResult where
  run : RecordedRun
  summary : Summary
  iterations : Nat

namespace Bencher

def defaultWindow : Nat := 8

def new (windowSize : Nat := defaultWindow)
    (tolerance : Float := OutlierWindow.defaultTolerance) : Bencher :=
  ⟨.new windowSize tolerance, 0, 0⟩

/-- The number of timed calls. -/
def measured (b : Bencher) : Nat := b.iterations - b.warmups

/-- The timed calls, as a difference of counters; no more can have been warm-ups than were made. -/
def countMeasured (b : Bencher) : Except Fault Nat :=
  if b.warmups ≤ b.iterations then .ok b.measured else .error .countUnderflow

def stats (b : Bencher) : RecorderStats := b.recorder.stats

def noteWarmup (b : Bencher) (calls : Nat) : Bencher :=
  { b with iterations := b.iterations + calls, warmups := b.warmups + calls }

def noteDuration (b : Bencher) (nanoseconds : Int64) : Except Fault (Recorded × Bencher) := do
  let (recorded, r) ← b.recorder.record nanoseconds
  return (recorded, { b with recorder := r, iterations := b.iterations + 1 })

section Calls

variable {m : Type → Type} [Monad m]

def repeatCall (work : m Unit) : Nat → m Unit
  | 0 => pure ()
  | n + 1 => do work; repeatCall work n

def warmup (b : Bencher) (calls : Nat) (work : m Unit) : m Bencher := do
  repeatCall work calls
  return b.noteWarmup calls

def iter (b : Bencher) (watch : Stopwatch m) (work : m Unit) :
    m (Except Fault (Recorded × Bencher)) := do
  return b.noteDuration (← watch work)

/-- Runs a set-up, then a routine on its result; only the routine is timed. -/
def iterWithSetup {α : Type} (b : Bencher) (watch : Stopwatch m) (setup : m α)
    (routine : α → m Unit) : m (Except Fault (Recorded × Bencher)) := do
  let input ← setup
  b.iter watch (routine input)

/-- Runs and times a routine some number of times, up to the first fault. -/
def run (watch : Stopwatch m) (work : m Unit) : Nat → Bencher → m (Except Fault Bencher)
  | 0, b => return .ok b
  | n + 1, b => do
    match ← b.iter watch work with
    | .ok (_, b) => run watch work n b
    | .error f => return .error f

end Calls

/-- The distribution of the durations that were kept, and its summary. -/
def finish (b : Bencher) : Except Fault (Except RecorderError BenchmarkResult) :=
  match b.recorder.finish with
  | .error e => .ok (.error e)
  | .ok run => do return .ok ⟨run, ← run.distribution.summary, b.iterations⟩

end Bencher
end TimingStats
