import Mathlib.Data.Vector.Basic
import TimingStats.Bencher
import TimingStats.Proofs.Distribution.Summaries
import TimingStats.Proofs.Recorder.Reports

/-! # Calls of a bencher

A bencher runs what it is asked to run, in order, and nothing besides. What it makes of the
durations is an account of them: the counters follow the calls, and the recorder is given one
duration for each timed routine. So nothing that is said of the counters depends on the clock. -/

namespace TimingStats

namespace Recorder

variable {r r' : Recorder}

theorem recordEach_append (r : Recorder) (xs ys : List Int64) :
    r.recordEach (xs ++ ys) = (do
      let (first, r) ← r.recordEach xs
      let (rest, r) ← r.recordEach ys
      return (first ++ rest, r)) := by
  induction xs generalizing r with
  | nil =>
    change _ = (do
      let (rest, r) ← r.recordEach ys
      return (rest, r))
    exact (bind_pure _).symm
  | cons x xs ih =>
    rw [List.cons_append, recordEach, recordEach]
    simp only [ih, bind_assoc, pure_bind, List.cons_append]

theorem length_of_recordEach {xs : List Int64} {outs : List Recorded}
    (h : r.recordEach xs = .ok (outs, r')) : outs.length = xs.length := by
  induction xs generalizing r outs with
  | nil =>
    cases h
    rfl
  | cons x xs ih =>
    rw [recordEach] at h
    cases hx : r.record x with
    | error f =>
      rw [hx] at h
      cases h
    | ok first =>
      rw [hx] at h
      dsimp only [bind, Except.bind] at h
      cases hrest : first.2.recordEach xs with
      | error f =>
        rw [hrest] at h
        cases h
      | ok rest =>
        rw [hrest] at h
        cases h
        exact congrArg Nat.succ (ih hrest)

end Recorder

namespace Bencher

open Offline (report reports)
open Recorder (Judged)

variable {m : Type → Type}

/-- A call of a bencher, with the routines that it runs. -/
inductive Call (m : Type → Type) : Type 1 where
  | warmup (times : Nat) (work : m Unit)
  | iter (work : m Unit)
  | iterWithSetup {α : Type} (setup : m α) (routine : α → m Unit)
  | run (times : Nat) (work : m Unit)

namespace Call

def untimed : Call m → Nat
  | warmup times _ => times
  | _ => 0

@[reducible] def timed : Call m → Nat
  | warmup _ _ => 0
  | iter _ | iterWithSetup _ _ => 1
  | run times _ => times

/-- Whether a call answers with what became of its sample. -/
def answers : Call m → Bool
  | iter _ | iterWithSetup _ _ => true
  | _ => false

theorem timed_of_answers {call : Call m} (h : call.answers = true) : call.timed = 1 := by
  cases call with
  | iter work => rfl
  | iterWithSetup setup routine => rfl
  | warmup times work => cases h
  | run times work => cases h

end Call

def untimed : List (Call m) → Nat
  | [] => 0
  | call :: calls => call.untimed + untimed calls

@[reducible] def timed : List (Call m) → Nat
  | [] => 0
  | call :: calls => call.timed + timed calls

/-! ## Programs -/

section Programs

variable [Monad m]

def perform (watch : Stopwatch m) (b : Bencher) :
    Call m → m (Except Fault (Option Recorded × Bencher))
  | .warmup times work => do return .ok (none, ← b.warmup times work)
  | .iter work => do return (← b.iter watch work).map (Prod.map some id)
  | .iterWithSetup setup routine => do
    return (← b.iterWithSetup watch setup routine).map (Prod.map some id)
  | .run times work => do return (← Bencher.run watch work times b).map (none, ·)

/-- Makes calls in order, up to the first fault, and gives what they answer. -/
def performAll (watch : Stopwatch m) :
    List (Call m) → Bencher → m (Except Fault (List (Option Recorded) × Bencher))
  | [], b => return .ok ([], b)
  | call :: calls, b => do
    match ← b.perform watch call with
    | .error f => return .error f
    | .ok (answer, b) => return (← performAll watch calls b).map (Prod.map (answer :: ·) id)

/-- The durations of a routine that is timed some number of times. -/
def timeEach (watch : Stopwatch m) (work : m Unit) : (times : Nat) → m (List.Vector Int64 times)
  | 0 => return .nil
  | times + 1 => do
    let d ← watch work
    return d ::ᵥ (← timeEach watch work times)

/-- A routine that is run some number of times, untimed. -/
def runEach (work : m Unit) (times : Nat) : m Unit := (List.replicate times work).forM id

theorem repeatCall_eq (work : m Unit) (times : Nat) :
    repeatCall work times = runEach work times := by
  induction times with
  | zero => rfl
  | succ times ih =>
    rw [repeatCall, ih]
    rfl

/-- What a call runs, without a bencher, and the durations of what it times. -/
def Call.time (watch : Stopwatch m) : (call : Call m) → m (List.Vector Int64 call.timed)
  | .warmup times work => do
    runEach work times
    return .nil
  | .iter work => do return (← watch work) ::ᵥ .nil
  | .iterWithSetup setup routine => do
    let input ← setup
    return (← watch (routine input)) ::ᵥ .nil
  | .run times work => timeEach watch work times

/-- What some calls run, in order, and the durations of what they time. -/
def timeAll (watch : Stopwatch m) : (calls : List (Call m)) → m (List.Vector Int64 (timed calls))
  | [] => return .nil
  | call :: calls => do
    let ds ← call.time watch
    return ds ++ (← timeAll watch calls)

end Programs

/-! ## The account -/

/-- What a call answers, from the reports on what it times. -/
def Call.answer (call : Call m) (reports : List Recorded) : Option Recorded :=
  if call.answers then reports.head? else none

/-- What some calls answer, from the reports on all that they time. -/
def answers : List (Call m) → List Recorded → List (Option Recorded)
  | [], _ => []
  | call :: calls, reports => call.answer reports :: answers calls (reports.drop call.timed)

/-- Gives the durations of a call to the recorder, and counts what the call has run. -/
def account (b : Bencher) (call : Call m) (ds : List Int64) :
    Except Fault (Option Recorded × Bencher) := do
  let (reports, r) ← b.recorder.recordEach ds
  return (call.answer reports,
    ⟨r, b.iterations + (call.timed + call.untimed), b.warmups + call.untimed⟩)

/-- Gives the durations of some calls to the recorder, and counts what the calls have run. -/
def accountAll (b : Bencher) (calls : List (Call m)) (ds : List Int64) :
    Except Fault (List (Option Recorded) × Bencher) := do
  let (reports, r) ← b.recorder.recordEach ds
  return (answers calls reports,
    ⟨r, b.iterations + (timed calls + untimed calls), b.warmups + untimed calls⟩)

theorem Call.answer_append (call : Call m) {reports : List Recorded}
    (hlen : reports.length = call.timed) (later : List Recorded) :
    call.answer (reports ++ later) = call.answer reports := by
  unfold Call.answer
  split
  · rename_i hanswers
    rw [Call.timed_of_answers hanswers] at hlen
    exact List.head?_append_of_ne_nil _ (List.ne_nil_of_length_eq_add_one hlen)
  · rfl

theorem accountAll_cons (b : Bencher) (call : Call m) (calls : List (Call m)) {ds : List Int64}
    (hlen : ds.length = call.timed) (rest : List Int64) :
    b.accountAll (call :: calls) (ds ++ rest) = (do
      let (answer, b) ← b.account call ds
      let (answers, b) ← b.accountAll calls rest
      return (answer :: answers, b)) := by
  have hiterations : b.iterations + (timed (call :: calls) + untimed (call :: calls)) =
      b.iterations + (call.timed + call.untimed) + (timed calls + untimed calls) := by
    rw [timed, untimed]
    omega
  have hwarmups : b.warmups + untimed (call :: calls) =
      b.warmups + call.untimed + untimed calls := (Nat.add_assoc ..).symm
  unfold accountAll account
  rw [Recorder.recordEach_append, hiterations, hwarmups]
  cases hfirst : b.recorder.recordEach ds with
  | error f => rfl
  | ok first =>
    have hreports := (Recorder.length_of_recordEach hfirst).trans hlen
    dsimp only [bind, Except.bind, pure, Except.pure]
    cases first.2.recordEach rest with
    | error f => rfl
    | ok last =>
      dsimp only
      rw [answers, call.answer_append hreports, List.drop_left' hreports]

variable {n : Nat} {t : Float} {b : Bencher} {stream : List Int64}

/-- The account of a call goes on with the rule. -/
theorem account_judged (h : Judged b.recorder n t stream) (hn : 2 ≤ n)
    (ht : OutlierWindow.validTolerance t = true) (call : Call m) (ds : List Int64) :
    ∃ answer b', b.account call ds = .ok (answer, b') ∧
      Judged b'.recorder n t (stream ++ ds) := by
  obtain ⟨r, hok, hr⟩ := h.recordEach hn ht ds
  unfold account
  rw [hok]
  exact ⟨_, _, rfl, hr⟩

theorem account_one (b : Bencher) (d : Int64) {call : Call m} (htimed : call.timed = 1)
    (huntimed : call.untimed = 0) (hanswers : call.answers = true) :
    (b.noteDuration d).map (Prod.map some id) = b.account call [d] := by
  unfold noteDuration account Call.answer
  rw [Recorder.recordEach, htimed, huntimed, hanswers]
  cases b.recorder.record d <;> rfl

theorem account_silent (b : Bencher) (call : Call m) (ds : List Int64)
    (hanswers : call.answers = false) :
    ((b.account call ds).map Prod.snd).map (none, ·) = b.account call ds := by
  unfold account Call.answer
  rw [hanswers]
  cases b.recorder.recordEach ds <;> rfl

/-! ## The same program -/

section Programs

variable [Monad m] [LawfulMonad m]

theorem noteDuration_of_record {r : Recorder} {d : Int64} {out : Recorded}
    (h : b.recorder.record d = .ok (out, r)) :
    b.noteDuration d = .ok (out, { b with recorder := r, iterations := b.iterations + 1 }) := by
  unfold noteDuration
  rw [h]
  rfl

/-- Timing a routine and giving the durations to the recorder, as long as nothing faults. -/
theorem run_eq (h : Judged b.recorder n t stream) (hn : 2 ≤ n)
    (ht : OutlierWindow.validTolerance t = true) (watch : Stopwatch m) (work : m Unit)
    (times : Nat) :
    Bencher.run watch work times b =
      (fun ds => (b.account (Call.run times work) ds.toList).map Prod.snd) <$>
        timeEach watch work times := by
  induction times generalizing b stream with
  | zero =>
    rw [timeEach, map_pure]
    rfl
  | succ times ih =>
    simp only [Bencher.run, timeEach, iter, bind_assoc, pure_bind, map_bind, map_pure]
    refine bind_congr fun d => ?_
    obtain ⟨r, hok, hr⟩ := h.record hn ht d
    rw [noteDuration_of_record hok]
    dsimp only
    rw [ih hr, ← bind_pure_comp]
    refine bind_congr fun ds => congrArg pure ?_
    rw [List.Vector.toList_cons]
    unfold account
    rw [Recorder.recordEach, hok]
    dsimp only [bind, Except.bind]
    cases r.recordEach ds.toList with
    | error f => rfl
    | ok rest =>
      have hcount : b.iterations + 1 + (times + 0) = b.iterations + (times + 1 + 0) := by omega
      exact congrArg (fun k => Except.ok (⟨rest.2, k, b.warmups⟩ : Bencher)) hcount

/-- A call runs what it would run without a bencher; the rest is the account of the durations. -/
theorem perform_eq (h : Judged b.recorder n t stream) (hn : 2 ≤ n)
    (ht : OutlierWindow.validTolerance t = true) (watch : Stopwatch m) (call : Call m) :
    b.perform watch call = (fun ds => b.account call ds.toList) <$> call.time watch := by
  cases call with
  | warmup times work =>
    have hcount : b.iterations + (0 + times) = b.iterations + times := by rw [Nat.zero_add]
    simp only [perform, Call.time, warmup, repeatCall_eq, bind_assoc, pure_bind, map_bind, map_pure]
    refine bind_congr fun _ => congrArg pure ?_
    exact congrArg (fun k => Except.ok (none, (⟨b.recorder, k, b.warmups + times⟩ : Bencher)))
      hcount.symm
  | iter work =>
    simp only [perform, Call.time, iter, bind_assoc, pure_bind, map_bind, map_pure]
    exact bind_congr fun d => congrArg pure (account_one b d rfl rfl rfl)
  | iterWithSetup setup routine =>
    simp only [perform, Call.time, iterWithSetup, iter, bind_assoc, pure_bind, map_bind, map_pure]
    exact bind_congr fun input => bind_congr fun d => congrArg pure (account_one b d rfl rfl rfl)
  | run times work =>
    rw [perform, Call.time, run_eq h hn ht, bind_map_left, ← bind_pure_comp]
    exact bind_congr fun ds => congrArg pure (account_silent b (.run times work) ds.toList rfl)

/-- **Calls are their routines and an account of the durations.** -/
theorem performAll_eq (h : Judged b.recorder n t stream) (hn : 2 ≤ n)
    (ht : OutlierWindow.validTolerance t = true) (watch : Stopwatch m) (calls : List (Call m)) :
    performAll watch calls b =
      (fun ds => b.accountAll calls ds.toList) <$> timeAll watch calls := by
  induction calls generalizing b stream with
  | nil =>
    rw [timeAll, map_pure]
    rfl
  | cons call calls ih =>
    simp only [performAll, timeAll, perform_eq h hn ht, bind_map_left, map_bind, map_pure]
    refine bind_congr fun ds => ?_
    obtain ⟨answer, b', hok, hb'⟩ := account_judged h hn ht call ds.toList
    rw [hok]
    dsimp only
    rw [ih hb', bind_map_left]
    refine bind_congr fun rest => congrArg pure ?_
    rw [List.Vector.toList_append, accountAll_cons b call calls ds.toList_length, hok]
    dsimp only [bind, Except.bind]
    cases b'.accountAll calls rest.toList <;> rfl

end Programs

end Bencher
end TimingStats
