import Courier.AbortSignal

/-! # Callbacks and those who wait

However a signal is called upon, and whatever its callbacks call in turn: none runs before the
signal is raised, each runs once after it, and the first to raise it gives the reason. Running a
callback comes to the calls that it makes until it breaks off, and by then the signal is up, so what
it registers runs at once and what it raises is up already. Whoever waits is done just when the
signal is up.
-/

namespace Courier

namespace AbortCallback

def number : AbortCallback → Nat
  | .mk id _ => id

mutual

/-- The callback, and those that are registered while it runs, in the order in which they run. -/
def cascade : AbortCallback → List AbortCallback
  | .mk id actions => .mk id actions :: cascadeOf actions

def cascadeOf : List (Action AbortCallback) → List AbortCallback
  | [] => []
  | .register c :: actions => cascade c ++ cascadeOf actions
  | .abort _ :: actions => cascadeOf actions
  | .panic :: _ => []

end

end AbortCallback

namespace AbortSignal

open AbortCallback

variable {s : AbortSignal}

/-! ## Running callbacks -/

mutual

theorem runCallback_eq (s : AbortSignal) :
    ∀ c : AbortCallback, s.runCallback c = { s with ran := s.ran ++ c.cascade.map number }
  | .mk n actions => by
    rw [runCallback, runActions_eq, cascade]
    simp [number]

theorem runActions_eq (s : AbortSignal) :
    ∀ l : List (Action AbortCallback),
      s.runActions l = { s with ran := s.ran ++ (cascadeOf l).map number }
  | [] => by simp [runActions, cascadeOf]
  | .register c :: actions => by
    rw [runActions, runCallback_eq s c, runActions_eq, cascadeOf]
    simp
  | .abort _ :: actions => by rw [runActions, runActions_eq s actions, cascadeOf]
  | .panic :: actions => by simp [runActions, cascadeOf]

end

theorem foldl_runCallback (s : AbortSignal) (cs : List AbortCallback) :
    cs.foldl runCallback s = { s with ran := s.ran ++ (cs.flatMap cascade).map number } := by
  induction cs generalizing s with
  | nil => simp
  | cons c cs ih =>
    rw [List.foldl_cons, ih, runCallback_eq]
    simp

/-! ## Raising -/

theorem abort_of_not_aborted (hs : s.aborted = false) (reason : String) :
    s.abort reason = (true,
      { aborted := true
        reason := some reason
        callbacks := []
        ran := s.ran ++ (s.callbacks.flatMap cascade).map number
        wakeups := s.wakeups + 1 }) := by
  simp [abort, hs, foldl_runCallback]

theorem abort_first (hs : s.aborted = false) (reason : String) :
    (s.abort reason).1 = true ∧ (s.abort reason).2.aborted = true ∧
      (s.abort reason).2.reason = some reason := by
  simp [abort_of_not_aborted hs]

theorem abort_again (hs : s.aborted = true) (reason : String) :
    s.abort reason = (false, s) := by
  simp [abort, hs]

theorem aborted_abort (s : AbortSignal) (reason : String) :
    (s.abort reason).2.aborted = true := by
  cases hs : s.aborted with
  | false => exact (abort_first hs reason).2.1
  | true => rwa [abort_again hs]

/-! ## Calls -/

/-- A call on a signal. Those who wait are told apart by the order in which they came. -/
inductive Call
  | abort (reason : String)
  | onAbort (c : AbortCallback)
  | watch
  | poll (i : Nat)

inductive Reply
  | raised (first : Bool)
  | done
  | ready (up : Bool)
  | absent
  deriving DecidableEq, Repr

/-- A signal and those who wait for it. -/
structure Vigil where
  signal : AbortSignal
  watchers : List Watcher

namespace Vigil

def start : Vigil := ⟨.start, []⟩

def serve (v : Vigil) : Call → Reply × Vigil
  | .abort reason =>
    let (first, signal) := v.signal.abort reason
    (.raised first, { v with signal })
  | .onAbort c => (.done, { v with signal := v.signal.onAbort c })
  | .watch => (.done, { v with watchers := v.watchers ++ [.fresh] })
  | .poll i =>
    match v.watchers[i]? with
    | none => (.absent, v)
    | some w =>
      match v.signal.poll w with
      | none => (.ready true, v)
      | some w => (.ready false, { v with watchers := v.watchers.set i w })

def serveAll (v : Vigil) : List Call → List Reply × Vigil
  | [] => ([], v)
  | call :: calls =>
    let (reply, v) := v.serve call
    let (replies, v) := v.serveAll calls
    (reply :: replies, v)

/-- What a signal and those who wait for it have come to with these calls. -/
def after (calls : List Call) : Vigil :=
  (start.serveAll calls).2

/-- Notes that a callback begins to run. -/
def begin (v : Vigil) (c : AbortCallback) : Vigil :=
  { v with signal := { v.signal with ran := v.signal.ran ++ [c.number] } }

end Vigil

/-- What is said to a call from a callback, while the signal is up. -/
def Call.late : Call → Reply
  | .abort _ => .raised false
  | _ => .done

def Call.reason? : Call → Option String
  | .abort reason => some reason
  | _ => none

def Call.callback? : Call → Option AbortCallback
  | .onAbort c => some c
  | _ => none

def Call.isWatch : Call → Bool
  | .watch => true
  | _ => false

def raisedBy (calls : List Call) : Option String :=
  calls.findSome? Call.reason?

def registeredBy (calls : List Call) : List AbortCallback :=
  calls.filterMap Call.callback?

def watchedBy (calls : List Call) : Nat :=
  calls.countP Call.isWatch

end AbortSignal

/-! ## Calls from callbacks -/

namespace AbortCallback

open AbortSignal (Call registeredBy)

def callsOf : List (Action AbortCallback) → List Call
  | [] => []
  | .register c :: actions => .onAbort c :: callsOf actions
  | .abort reason :: actions => .abort reason :: callsOf actions
  | .panic :: _ => []

/-- The calls that a callback makes until it is through or breaks off. -/
def calls : AbortCallback → List Call
  | .mk _ actions => callsOf actions

theorem cascadeOf_eq (l : List (Action AbortCallback)) :
    cascadeOf l = (registeredBy (callsOf l)).flatMap cascade := by
  unfold registeredBy
  induction l with
  | nil => rfl
  | cons a l ih =>
    cases a with
    | register c => simp [cascadeOf, callsOf, Call.callback?, ih]
    | abort reason => exact ih
    | panic => rfl

theorem cascade_eq (c : AbortCallback) :
    c.cascade = c :: (registeredBy c.calls).flatMap cascade := by
  cases c with
  | mk n actions => rw [cascade, cascadeOf_eq, calls]

end AbortCallback

namespace AbortSignal

open AbortCallback

theorem serveAll_callsOf {v : Vigil} (hv : v.signal.aborted = true)
    (l : List (Action AbortCallback)) :
    v.serveAll (callsOf l) =
      ((callsOf l).map Call.late, { v with signal := v.signal.runActions l }) := by
  induction l generalizing v with
  | nil => rfl
  | cons a l ih =>
    cases a with
    | register c =>
      have hc : (v.signal.runCallback c).aborted = true := by
        rw [runCallback_eq]
        exact hv
      simp [callsOf, Vigil.serveAll, Vigil.serve, onAbort, hv, runActions, Call.late, ih, hc]
    | abort reason =>
      simp [callsOf, Vigil.serveAll, Vigil.serve, abort_again hv, runActions, Call.late, ih hv]
    | panic => rfl

/-- While the signal is up, to run a callback is to make its calls. None of them raises the
signal. -/
theorem serveAll_calls {v : Vigil} (hv : v.signal.aborted = true) (c : AbortCallback) :
    (v.begin c).serveAll c.calls =
      (c.calls.map Call.late, { v with signal := v.signal.runCallback c }) := by
  cases c with
  | mk n actions => exact serveAll_callsOf (v := v.begin (.mk n actions)) hv actions

/-! ## Histories -/

variable {watchers : List Watcher} {calls : List Call} {call : Call} {v : Vigil}

theorem raisedBy_concat (calls : List Call) (call : Call) :
    raisedBy (calls ++ [call]) = (raisedBy calls).or call.reason? := by
  simp [raisedBy, List.findSome?_append]

theorem registeredBy_concat (calls : List Call) (call : Call) :
    registeredBy (calls ++ [call]) = registeredBy calls ++ call.callback?.toList := by
  unfold registeredBy
  rw [List.filterMap_append]
  cases call <;> rfl

theorem watchedBy_concat (calls : List Call) (call : Call) :
    watchedBy (calls ++ [call]) = watchedBy calls + call.isWatch.toNat := by
  unfold watchedBy
  rw [List.countP_append]
  cases call <;> rfl

/-- What the signal has come to: it keeps what is registered until it is raised, and has run it all
from then on. -/
def accounted (calls : List Call) : AbortSignal :=
  match raisedBy calls with
  | none => ⟨false, none, registeredBy calls, [], 0⟩
  | some reason => ⟨true, some reason, [], ((registeredBy calls).flatMap cascade).map number, 1⟩

theorem accounted_abort (calls : List Call) (reason : String) :
    accounted (calls ++ [.abort reason]) = ((accounted calls).abort reason).2 := by
  unfold accounted
  rw [raisedBy_concat, registeredBy_concat]
  cases raisedBy calls with
  | none => simp [abort_of_not_aborted, Call.reason?, Call.callback?]
  | some first => simp [abort_again, Call.callback?]

theorem accounted_onAbort (calls : List Call) (c : AbortCallback) :
    accounted (calls ++ [.onAbort c]) = (accounted calls).onAbort c := by
  unfold accounted
  rw [raisedBy_concat, registeredBy_concat]
  cases raisedBy calls with
  | none => simp [onAbort, Call.reason?, Call.callback?]
  | some first => simp [onAbort, runCallback_eq, Call.callback?]

theorem accounted_of_none (hr : call.reason? = none) (hc : call.callback? = none) :
    accounted (calls ++ [call]) = accounted calls := by
  unfold accounted
  rw [raisedBy_concat, registeredBy_concat, hr, hc]
  simp

theorem aborted_accounted (calls : List Call) :
    (accounted calls).aborted = (raisedBy calls).isSome := by
  unfold accounted
  cases raisedBy calls <;> rfl

theorem reason_accounted (calls : List Call) : (accounted calls).reason = raisedBy calls := by
  unfold accounted
  cases raisedBy calls <;> rfl

theorem ran_accounted (calls : List Call) :
    (accounted calls).ran =
      if (raisedBy calls).isSome then ((registeredBy calls).flatMap cascade).map number
      else [] := by
  cases hr : raisedBy calls <;> simp [accounted, hr]

/-- Those who wait have yet to look, or have slept since before the signal was raised. -/
structure Waits (watchers : List Watcher) (calls : List Call) : Prop where
  length : watchers.length = watchedBy calls
  asleep : ∀ n, .asleep n ∈ watchers → n = 0

namespace Waits

theorem concat (hw : Waits watchers calls) (hc : call.isWatch = false) :
    Waits watchers (calls ++ [call]) :=
  ⟨by rw [watchedBy_concat, hc, hw.length]; rfl, hw.asleep⟩

theorem watch (hw : Waits watchers calls) : Waits (watchers ++ [.fresh]) (calls ++ [.watch]) := by
  constructor
  · rw [watchedBy_concat, List.length_append, hw.length]
    rfl
  · intro n hn
    rcases List.mem_append.mp hn with hn | hn
    · exact hw.asleep n hn
    · cases List.mem_singleton.mp hn

theorem sleep (hw : Waits watchers calls) (i : Nat) :
    Waits (watchers.set i (.asleep 0)) calls := by
  constructor
  · rw [List.length_set, hw.length]
  · intro n hn
    rcases List.mem_or_eq_of_mem_set hn with hn | hn
    · exact hw.asleep n hn
    · cases hn
      rfl

theorem poll_accounted (hw : Waits watchers calls) {w : Watcher} (hm : w ∈ watchers) :
    (accounted calls).poll w = if (raisedBy calls).isSome then none else some (.asleep 0) := by
  unfold accounted
  cases w with
  | fresh => cases raisedBy calls <;> simp [poll, look]
  | asleep n =>
    cases hw.asleep n hm
    cases raisedBy calls <;> simp [poll, look]

end Waits

structure Stands (calls : List Call) (v : Vigil) : Prop where
  signal : v.signal = accounted calls
  waits : Waits v.watchers calls

namespace Stands

theorem start : Stands [] .start := by
  constructor
  · rfl
  · exact ⟨rfl, by rintro n ⟨⟩⟩

theorem serve_poll (h : Stands calls v) (i : Nat) :
    v.serve (.poll i) =
      if i < watchedBy calls then
        if (raisedBy calls).isSome then (.ready true, v)
        else (.ready false, { v with watchers := v.watchers.set i (.asleep 0) })
      else (.absent, v) := by
  unfold Vigil.serve
  rw [← h.waits.length]
  by_cases hi : i < v.watchers.length
  · simp only [List.getElem?_eq_getElem hi, h.signal,
      h.waits.poll_accounted (List.getElem_mem hi), hi, if_true]
    cases (raisedBy calls).isSome <;> rfl
  · simp [hi]

theorem serve (h : Stands calls v) (call : Call) : Stands (calls ++ [call]) (v.serve call).2 := by
  cases call with
  | abort reason =>
    refine ⟨?_, h.waits.concat rfl⟩
    rw [accounted_abort, ← h.signal]
    rfl
  | onAbort c =>
    refine ⟨?_, h.waits.concat rfl⟩
    rw [accounted_onAbort, ← h.signal]
    rfl
  | watch => exact ⟨h.signal.trans (accounted_of_none rfl rfl).symm, h.waits.watch⟩
  | poll i =>
    have hs : v.signal = accounted (calls ++ [.poll i]) :=
      h.signal.trans (accounted_of_none rfl rfl).symm
    have hw : Waits v.watchers (calls ++ [.poll i]) := h.waits.concat rfl
    rw [h.serve_poll]
    split
    · split
      · exact ⟨hs, hw⟩
      · exact ⟨hs, hw.sleep i⟩
    · exact ⟨hs, hw⟩

theorem serveAll (h : Stands calls v) (later : List Call) :
    Stands (calls ++ later) (v.serveAll later).2 := by
  induction later generalizing calls v with
  | nil =>
    rw [List.append_nil]
    exact h
  | cons call later ih =>
    rw [List.append_cons]
    exact ih (h.serve call)

end Stands

/-- However the signal is called upon: no callback has run while nobody has raised it; from then on
all that were registered have, each once, in the order of their registration and each followed by
those it registered itself. A callback comes to the calls it makes until it breaks off, of which
none raises the signal. Only the first to raise it is told so, and gives the reason. Whoever waits
is done just when the signal is up. -/
theorem callbacks_run_once (calls : List Call) :
    let v := Vigil.after calls
    let up := (raisedBy calls).isSome
    v.signal.aborted = up ∧ v.signal.reason = raisedBy calls ∧
      v.signal.ran =
        (if up then ((registeredBy calls).flatMap cascade).map number else []) ∧
      (∀ c, cascade c = c :: (registeredBy c.calls).flatMap cascade) ∧
      (∀ w : Vigil, w.signal.aborted = true → ∀ c,
        (w.begin c).serveAll c.calls =
          (c.calls.map Call.late, { w with signal := w.signal.runCallback c })) ∧
      (∀ reason, (v.serve (.abort reason)).1 = .raised (!up)) ∧
      ∀ i, (v.serve (.poll i)).1 = if i < watchedBy calls then .ready up else .absent := by
  intro v up
  have hv : Stands calls v := Stands.start.serveAll calls
  have hup : v.signal.aborted = up := by rw [hv.signal, aborted_accounted]
  refine ⟨hup, ?_, ?_, cascade_eq, fun w hw c => serveAll_calls hw c, fun reason => ?_,
    fun i => ?_⟩
  · rw [hv.signal, reason_accounted]
  · rw [hv.signal, ran_accounted]
  · rw [← hup]
    cases hs : v.signal.aborted with
    | true => simp [Vigil.serve, abort_again hs]
    | false => simp [Vigil.serve, abort_of_not_aborted hs]
  · rw [hv.serve_poll]
    simp only [up]
    cases (raisedBy calls).isSome <;> split <;> rfl

/-- One callback registers another, which tries to raise the signal and breaks off, and then a
third; one who waits has looked before the signal was raised. -/
theorem callbacks_run_once_nested :
    let inner : AbortCallback := .mk 2 [.abort "inner", .panic, .register (.mk 9 [])]
    let outer : AbortCallback := .mk 1 [.register inner, .abort "outer", .register (.mk 3 [])]
    let calls : List Call := [.watch, .poll 0, .onAbort outer, .onAbort (.mk 4 [.panic]),
      .abort "user", .abort "timeout", .onAbort (.mk 5 [])]
    let v := Vigil.after calls
    v.signal.aborted = true ∧ v.signal.reason = some "user" ∧ v.signal.ran = [1, 2, 3, 4, 5] ∧
      (v.begin outer).serveAll outer.calls =
        ([.done, .raised false, .done], { v with signal := v.signal.runCallback outer }) ∧
      (v.serve (.abort "late")).1 = .raised false ∧ (v.serve (.poll 0)).1 = .ready true := by
  intro inner outer calls v
  obtain ⟨ha, hr, hran, -, hc, hf, hp⟩ := callbacks_run_once calls
  exact ⟨ha, hr, hran, hc v ha outer, hf "late", hp 0⟩

end AbortSignal

end Courier
