import BcRuntime.Log.Counter
import Mathlib.Data.List.Perm.Subperm

/-!
Logging from many threads at once. The level and the counter are atomic variables and a
record reaches `stderr` in one write, so a call of `bc_runtime_log` is four steps, and a
schedule is any order of the steps of any number of threads. Every run is told by its
effects, one for each call: the records and the counter are those of the calls made one
after another, each with a level it could have loaded.
-/

namespace BcRuntime
open Fallible LogRun

/-- A call of `bc_runtime_log` with the outcomes of the calls it makes outside. `since` is
not in the source and nothing reads it: how often the level had been set when it was made. -/
structure SharedCall where
  host : LogHost
  level : LogLevel
  message : CString
  since : Nat

/-- A call that is over or has handed its record over, with the level it has loaded. -/
structure LogEffect (Thread : Type) where
  thread : Thread
  call : SharedCall
  currentLevel : LogLevel
  result : Bool

/-- Where a thread is: before the load of the level, and with `current_level` at hand before
the formatting, before the write and before the `fetch_add`. -/
inductive LogPlace
  | idle
  | loading (call : SharedCall)
  | formatting (call : SharedCall) (currentLevel : LogLevel)
  | writing (call : SharedCall) (currentLevel : LogLevel) (record : List UInt8) (calls : Nat)
  | counting (call : SharedCall) (currentLevel : LogLevel)

/-- The variables the threads share, where the threads are, the levels that were set before
the present one, and the calls that have returned. -/
structure SharedLog (Thread : Type) where
  machine : LogMachine
  place : Thread → LogPlace
  earlierLevels : List LogLevel
  returned : List (LogEffect Thread)

inductive SharedAction
  | log (host : LogHost) (level : LogLevel) (message : CString)
  | setLevel (level : LogLevel)
  | proceed

namespace SharedLog
variable {Thread : Type}

def started (level : LogLevel) : SharedLog Thread where
  machine := .started level (fun _ => []) fun _ => level
  place := fun _ => .idle
  earlierLevels := []
  returned := []

/-- The levels there have been, the present one last. -/
def levels (shared : SharedLog Thread) : List LogLevel :=
  shared.earlierLevels ++ [shared.machine.logLevel]

variable [DecidableEq Thread]

def goTo (shared : SharedLog Thread) (t : Thread) (next : LogPlace) : SharedLog Thread :=
  { shared with place := Function.update shared.place t next }

def returns (shared : SharedLog Thread) (effect : LogEffect Thread) : SharedLog Thread :=
  { shared.goTo effect.thread .idle with returned := shared.returned ++ [effect] }

/-- What a thread that goes on does from its place, and the effect it has by that. -/
def advance (shared : SharedLog Thread) (t : Thread) :
    LogPlace → SharedLog Thread × List (LogEffect Thread)
  | .idle => (shared, [])
  | .loading call =>
      let currentLevel := shared.machine.logLevel
      if call.level.rank > currentLevel.rank then
        (shared.returns ⟨t, call, currentLevel, true⟩, [⟨t, call, currentLevel, true⟩])
      else (shared.goTo t (.formatting call currentLevel), [])
  | .formatting call currentLevel =>
      match formatRecordIntoBuffer call.level call.message logStackSize call.host
        { shared.machine with calls := 0 } with
      | (none, _) =>
          (shared.returns ⟨t, call, currentLevel, false⟩, [⟨t, call, currentLevel, false⟩])
      | (some record, m) => (shared.goTo t (.writing call currentLevel record m.calls), [])
  | .writing call currentLevel record calls =>
      match writeToStderr record [record] call.host { shared.machine with calls := calls } with
      | (none, m) =>
          ({ shared with machine := m }.returns ⟨t, call, currentLevel, false⟩,
            [⟨t, call, currentLevel, false⟩])
      | (some _, m) =>
          ({ shared with machine := m }.goTo t (.counting call currentLevel),
            [⟨t, call, currentLevel, true⟩])
  | .counting call currentLevel =>
      ({ shared with machine := { shared.machine with
        logMessagesWritten := shared.machine.logMessagesWritten + 1 } }.returns
          ⟨t, call, currentLevel, true⟩, [])

/-- One step of one thread; a call is only made by a thread that is in none. -/
def turn (shared : SharedLog Thread) :
    Thread × SharedAction → SharedLog Thread × List (LogEffect Thread)
  | (t, .log host level message) =>
      match shared.place t with
      | .idle =>
          (shared.goTo t (.loading ⟨host, level, message, shared.earlierLevels.length⟩), [])
      | _ => (shared, [])
  | (t, .setLevel level) =>
      match shared.place t with
      | .idle =>
          ({ shared with
            machine := { shared.machine with logLevel := level }
            earlierLevels := shared.levels }, [])
      | _ => (shared, [])
  | (t, .proceed) => shared.advance t (shared.place t)

def step (shared : SharedLog Thread) (action : Thread × SharedAction) : SharedLog Thread :=
  (shared.turn action).1

def effects (shared : SharedLog Thread) : List (Thread × SharedAction) → List (LogEffect Thread)
  | [] => []
  | action :: schedule => (shared.turn action).2 ++ (shared.step action).effects schedule

end SharedLog

section Oblivious

/-- The computation only makes calls outside: nothing but their number and their outcomes
decides what it gives. -/
def Oblivious {α : Type} (c : LogRun α) : Prop :=
  ∀ host n, ∃ result calls, ∀ m : LogMachine,
    c host { m with calls := n } = (result, { m with calls := calls })

variable {α β : Type}

theorem Oblivious.pure (a : α) : Oblivious (Pure.pure a : LogRun α) :=
  fun _ n => ⟨some a, n, fun _ => rfl⟩

theorem Oblivious.fail : Oblivious (Fallible.fail : LogRun α) :=
  fun _ n => ⟨none, n, fun _ => rfl⟩

theorem Oblivious.ask : Oblivious (Fallible.ask : LogRun LogHost) :=
  fun host n => ⟨some host, n, fun _ => rfl⟩

theorem Oblivious.external (call : LogCall) : Oblivious (LogRun.external call) :=
  fun host n => ⟨if host.succeeds n call then some n else none, n + 1, fun _ => rfl⟩

theorem Oblivious.bind {c : LogRun α} {next : α → LogRun β} (first : Oblivious c)
    (rest : ∀ a, Oblivious (next a)) : Oblivious (c >>= next) := by
  intro host n
  obtain ⟨result, calls, ran⟩ := first host n
  cases result with
  | none => exact ⟨none, calls, fun m => bind_run_of_none (ran m) next⟩
  | some a =>
      obtain ⟨result, calls', ran'⟩ := rest a host calls
      exact ⟨result, calls', fun m => (bind_run_of_some (ran m) next).trans (ran' m)⟩

theorem Oblivious.ite {p : Prop} [Decidable p] {c d : LogRun α} (first : Oblivious c)
    (second : Oblivious d) : Oblivious (if p then c else d) := by
  by_cases h : p
  · rwa [if_pos h]
  · rwa [if_neg h]

theorem logFormatTimestamp_oblivious (bufferSize : Nat) :
    Oblivious (logFormatTimestamp bufferSize) := by
  refine .ite .fail ((Oblivious.external _).bind fun reading => ?_)
  exact (Oblivious.external _).bind fun converted => Oblivious.ask.bind fun host => .pure _

theorem formatRecord_oblivious (level : LogLevel) (message : CString) (capacity : Nat) :
    Oblivious (formatRecordIntoBuffer level message capacity) := by
  refine (logFormatTimestamp_oblivious capacity).bind fun timestamp => ?_
  refine .ite .fail ((Oblivious.external _).bind fun _ => ?_)
  exact (Oblivious.external _).bind fun _ => (Oblivious.external _).bind fun _ => .pure _

/-- A session on `stderr` succeeds with its data, or fails and nothing is told of it. -/
theorem writeToStderr_alone (data : List UInt8) (records : List (List UInt8)) (host : LogHost)
    (n : Nat) : ∃ calls,
    (∀ m : LogMachine, writeToStderr data records host { m with calls := n } =
      (none, { m with calls := calls })) ∨
    ∀ m : LogMachine, writeToStderr data records host { m with calls := n } =
      (some (), { m with calls := calls, sessions := m.sessions ++ [⟨data, records⟩] }) := by
  cases started : host.succeeds n .writerInit with
  | false => exact ⟨n + 1, .inl fun m => by simp [writeToStderr, bind_run, external, started]⟩
  | true =>
      have unfolded : ∀ m : LogMachine, writeToStderr data records host { m with calls := n } =
          if host.succeeds (n + 1) (.writerWrite data) = true ∧
              host.succeeds (n + 2) .writerDestroy = true then
            (some (), { m with calls := n + 3, sessions := m.sessions ++ [⟨data, records⟩] })
          else (none, { m with calls := n + 3 }) := by
        intro m
        cases wrote : host.succeeds (n + 1) (.writerWrite data) <;>
          cases ended : host.succeeds (n + 2) .writerDestroy <;>
            simp [writeToStderr, bind_run, attempt, external, started, wrote, ended, Fallible.fail,
              Fallible.modify]
      by_cases both : host.succeeds (n + 1) (.writerWrite data) = true ∧
          host.succeeds (n + 2) .writerDestroy = true
      · exact ⟨n + 3, .inr fun m => (unfolded m).trans (if_pos both)⟩
      · exact ⟨n + 3, .inl fun m => (unfolded m).trans (if_neg both)⟩

end Oblivious

namespace LogEffect
variable {Thread : Type}

/-- The sequential `bc_runtime_log` with the level that was loaded. -/
def alone (effect : LogEffect Thread) (m : LogMachine) : Option Unit × LogMachine :=
  log effect.call.level effect.call.message effect.call.host
    { m with calls := 0, logLevel := effect.currentLevel }

/-- The call has passed the filter and handed its record over. -/
def Delivered (effect : LogEffect Thread) : Prop :=
  effect.result = true ∧ ¬ effect.call.level.rank > effect.currentLevel.rank

instance (effect : LogEffect Thread) : Decidable effect.Delivered :=
  inferInstanceAs (Decidable (_ ∧ _))

/-- What the call does alone, on any machine. -/
structure Tells (effect : LogEffect Thread) (written : List Written) : Prop where
  alone : ∃ calls, ∀ m, effect.alone m = (if effect.result then some () else none,
    { m with calls := calls, logLevel := effect.currentLevel, sessions := m.sessions ++ written
             logMessagesWritten := m.logMessagesWritten + written.length })
  records : (written.flatMap Written.records).length = if effect.Delivered then 1 else 0

variable {effect : LogEffect Thread}

theorem tells_filtered (filtered : effect.call.level.rank > effect.currentLevel.rank)
    (result : effect.result = true) : effect.Tells [] where
  alone := ⟨0, fun m => by
    rw [LogEffect.alone, log, bind_run, result]
    simp [Fallible.get, filtered]⟩
  records := by simp [Delivered, filtered]

variable (passes : ¬ effect.call.level.rank > effect.currentLevel.rank)
include passes

theorem tells_unformatted {calls : Nat} (result : effect.result = false)
    (format : ∀ m : LogMachine, formatRecordIntoBuffer effect.call.level effect.call.message
      logStackSize effect.call.host { m with calls := 0 } = (none, { m with calls := calls })) :
    effect.Tells [] where
  alone := ⟨calls, fun m => by
    have formatted := format { m with logLevel := effect.currentLevel }
    rw [LogEffect.alone, log, bind_run, result]
    simp [Fallible.get, passes, bind_run, formatted]⟩
  records := by simp [Delivered, result]

theorem tells_unwritten {calls calls' : Nat} {record : List UInt8} (result : effect.result = false)
    (format : ∀ m : LogMachine, formatRecordIntoBuffer effect.call.level effect.call.message
      logStackSize effect.call.host { m with calls := 0 } = (some record, { m with calls := calls }))
    (write : ∀ m : LogMachine, writeToStderr record [record] effect.call.host
      { m with calls := calls } = (none, { m with calls := calls' })) :
    effect.Tells [] where
  alone := ⟨calls', fun m => by
    have formatted := format { m with logLevel := effect.currentLevel }
    have wrote := write { m with logLevel := effect.currentLevel }
    rw [LogEffect.alone, log, bind_run, result]
    simp [Fallible.get, passes, bind_run, formatted, wrote]⟩
  records := by simp [Delivered, result]

theorem tells_delivered {calls calls' : Nat} {record : List UInt8} (result : effect.result = true)
    (format : ∀ m : LogMachine, formatRecordIntoBuffer effect.call.level effect.call.message
      logStackSize effect.call.host { m with calls := 0 } = (some record, { m with calls := calls }))
    (write : ∀ m : LogMachine, writeToStderr record [record] effect.call.host
      { m with calls := calls } =
        (some (), { m with calls := calls', sessions := m.sessions ++ [⟨record, [record]⟩] })) :
    effect.Tells [⟨record, [record]⟩] where
  alone := ⟨calls', fun m => by
    have formatted := format { m with logLevel := effect.currentLevel }
    have wrote := write { m with logLevel := effect.currentLevel }
    rw [LogEffect.alone, log, bind_run, result]
    simp [Fallible.get, Fallible.modify, passes, bind_run, formatted, wrote]⟩
  records := by simp [Delivered, result, passes]

end LogEffect

section Runs
variable {Thread : Type} [DecidableEq Thread]

def replay (m : LogMachine) (effects : List (LogEffect Thread)) : LogMachine :=
  effects.foldl (fun m effect => (effect.alone m).2) m

/-- The call of a thread that has handed its record over and not returned. -/
def LogPlace.pending (t : Thread) : LogPlace → List (LogEffect Thread)
  | .counting call currentLevel => [⟨t, call, currentLevel, true⟩]
  | _ => []

/-- What a thread knows at its place: when its call was made, the level it has loaded since
then, and that the record is the one its call makes. -/
def LogPlace.Sound (levels : List LogLevel) : LogPlace → Prop
  | .idle => True
  | .loading call => call.since < levels.length
  | .counting call currentLevel => ¬ call.level.rank > currentLevel.rank
  | .formatting call currentLevel =>
      currentLevel ∈ levels.drop call.since ∧ ¬ call.level.rank > currentLevel.rank
  | .writing call currentLevel record calls =>
      (currentLevel ∈ levels.drop call.since ∧ ¬ call.level.rank > currentLevel.rank) ∧
        ∀ m : LogMachine, formatRecordIntoBuffer call.level call.message logStackSize call.host
          { m with calls := 0 } = (some record, { m with calls := calls })

/-- The effects explain the state: the output is that of their calls made one after another,
the counter counts those that have returned, and each thread has made them in its order. -/
structure Serial (start : LogMachine) (shared : SharedLog Thread)
    (effects : List (LogEffect Thread)) : Prop where
  sessions : shared.machine.sessions = (replay start effects).sessions
  counter : shared.machine.logMessagesWritten = shared.returned.countP fun e => e.Delivered
  tells : ∀ effect ∈ effects, ∃ written, effect.Tells written
  loaded : ∀ effect ∈ effects, effect.currentLevel ∈ shared.levels.drop effect.call.since
  sound : ∀ t, (shared.place t).Sound shared.levels
  order : ∀ t, effects.filter (fun effect => effect.thread = t) =
    shared.returned.filter (fun effect => effect.thread = t) ++ (shared.place t).pending t

variable {start : LogMachine} {shared next : SharedLog Thread}
  {effects more : List (LogEffect Thread)} {place : LogPlace}

omit [DecidableEq Thread] in
theorem replay_append : replay start (effects ++ more) = replay (replay start effects) more :=
  List.foldl_append

/-- A step of one thread: what it returns and the effects it has, `ret` and `more`, are its
own, and the place it goes to remembers what has not returned yet. -/
theorem Serial.moved (h : Serial start shared effects) (t : Thread) (place : LogPlace)
    (ret : List (LogEffect Thread))
    (goes : next.place = Function.update shared.place t place)
    (levels : next.levels = shared.levels) (returns : next.returned = shared.returned ++ ret)
    (own : ∀ effect ∈ ret ++ more, effect.thread = t)
    (order : (shared.place t).pending t ++ more = ret ++ place.pending t)
    (sound : place.Sound shared.levels)
    (tells : ∀ effect ∈ more, (∃ written, effect.Tells written) ∧
      effect.currentLevel ∈ shared.levels.drop effect.call.since)
    (sessions : ∀ m : LogMachine, m.sessions = shared.machine.sessions →
      next.machine.sessions = (replay m more).sessions)
    (counter : next.machine.logMessagesWritten =
      shared.machine.logMessagesWritten + ret.countP fun e => e.Delivered) :
    Serial start next (effects ++ more) where
  sessions := by
    rw [replay_append]
    exact sessions _ h.sessions.symm
  counter := by rw [counter, h.counter, returns, List.countP_append]
  tells := fun effect mem => by
    cases List.mem_append.mp mem with
    | inl before => exact h.tells effect before
    | inr new => exact (tells effect new).1
  loaded := fun effect mem => by
    rw [levels]
    cases List.mem_append.mp mem with
    | inl before => exact h.loaded effect before
    | inr new => exact (tells effect new).2
  sound := fun u => by
    rw [goes, levels]
    by_cases same : u = t
    · subst same
      rwa [Function.update_self]
    · rw [Function.update_of_ne same]
      exact h.sound u
  order := fun u => by
    rw [goes, returns, List.filter_append, List.filter_append, h.order]
    by_cases same : u = t
    · subst same
      have all : ∀ part : List (LogEffect Thread), (∀ effect ∈ part, effect.thread = u) →
          part.filter (fun effect => effect.thread = u) = part := by
        intro part mine
        exact List.filter_eq_self.mpr fun effect mem => decide_eq_true (mine effect mem)
      rw [all more fun effect mem => own effect (List.mem_append_right _ mem),
        all ret fun effect mem => own effect (List.mem_append_left _ mem), Function.update_self,
        List.append_assoc, List.append_assoc, order]
    · have nothing : ∀ part : List (LogEffect Thread), (∀ effect ∈ part, effect.thread = t) →
          part.filter (fun effect => effect.thread = u) = [] := by
        intro part mine
        refine List.filter_eq_nil_iff.mpr fun effect mem here => ?_
        exact same ((of_decide_eq_true here).symm.trans (mine effect mem))
      rw [nothing more fun effect mem => own effect (List.mem_append_right _ mem),
        nothing ret fun effect mem => own effect (List.mem_append_left _ mem),
        Function.update_of_ne same, List.append_nil, List.append_nil]

/-- Setting the level adds one to those a call under way may load. -/
theorem LogPlace.Sound.later {levels : List LogLevel} (h : place.Sound levels)
    (level : LogLevel) : place.Sound (levels ++ [level]) := by
  have later : ∀ {currentLevel : LogLevel} {n : Nat}, currentLevel ∈ levels.drop n →
      currentLevel ∈ (levels ++ [level]).drop n := by
    intro currentLevel n mem
    rw [List.drop_append]
    exact List.mem_append_left _ mem
  cases place with
  | idle => trivial
  | counting call currentLevel => exact h
  | loading call => exact Nat.lt_of_lt_of_le h (by simp)
  | formatting call currentLevel => exact ⟨later h.1, h.2⟩
  | writing call currentLevel record calls => exact ⟨⟨later h.1.1, h.1.2⟩, h.2⟩

theorem Serial.set (h : Serial start shared effects) (level : LogLevel) :
    Serial start { shared with
      machine := { shared.machine with logLevel := level }
      earlierLevels := shared.levels } effects where
  sessions := h.sessions
  counter := h.counter
  tells := h.tells
  loaded := fun effect mem => by
    rw [SharedLog.levels, List.drop_append]
    exact List.mem_append_left _ (h.loaded effect mem)
  sound := fun t => (h.sound t).later level
  order := h.order

omit [DecidableEq Thread] in
theorem SharedLog.logLevel_loaded (shared : SharedLog Thread) {n : Nat}
    (since : n < shared.levels.length) : shared.machine.logLevel ∈ shared.levels.drop n := by
  have early : n - shared.earlierLevels.length = 0 := by
    rw [SharedLog.levels, List.length_append, List.length_singleton] at since
    omega
  rw [SharedLog.levels, List.drop_append, early]
  exact List.mem_append_right _ List.mem_cons_self

omit [DecidableEq Thread] in
theorem LogEffect.Tells.replayed {effect : LogEffect Thread} {written : List Written}
    (h : effect.Tells written) (m : LogMachine) :
    (replay m [effect]).sessions = m.sessions ++ written := by
  obtain ⟨calls, alone⟩ := h.alone
  rw [replay, List.foldl_cons, List.foldl_nil, alone]

theorem Serial.finished (h : Serial start shared effects) {effect : LogEffect Thread}
    {m : LogMachine} (before : (shared.place effect.thread).pending effect.thread = [])
    (tells : effect.Tells []) (quiet : ¬ effect.Delivered)
    (loaded : effect.currentLevel ∈ shared.levels.drop effect.call.since)
    (same : ∃ calls, m = { shared.machine with calls := calls }) :
    Serial start ({ shared with machine := m }.returns effect) (effects ++ [effect]) := by
  obtain ⟨calls, hm⟩ := same
  subst hm
  refine h.moved effect.thread .idle [effect] rfl rfl rfl ?_ ?_ trivial ?_ ?_ ?_
  · simp
  · rw [before]
    rfl
  · intro other mem
    obtain rfl := List.mem_singleton.mp mem
    exact ⟨⟨[], tells⟩, loaded⟩
  · intro m' output
    rw [tells.replayed, List.append_nil, output]
    rfl
  · rw [List.countP_singleton, if_neg (by simpa using quiet)]
    rfl

theorem Serial.advance (h : Serial start shared effects) (t : Thread) :
    Serial start (shared.advance t (shared.place t)).1
      (effects ++ (shared.advance t (shared.place t)).2) := by
  have sound := h.sound t
  cases place : shared.place t with
  | idle => simpa [SharedLog.advance] using h
  | loading call =>
      rw [place] at sound
      have loaded := shared.logLevel_loaded sound
      have before : (shared.place t).pending t = [] := by rw [place]; rfl
      rw [SharedLog.advance]
      by_cases filtered : call.level.rank > shared.machine.logLevel.rank
      · have tells : LogEffect.Tells ⟨t, call, shared.machine.logLevel, true⟩ [] :=
          LogEffect.tells_filtered filtered rfl
        simp only [if_pos filtered]
        exact h.finished before tells (fun delivered => delivered.2 filtered) loaded ⟨_, rfl⟩
      · simp only [if_neg filtered]
        exact h.moved t _ [] rfl rfl (List.append_nil _).symm (by simp)
          (by rw [before]; rfl) ⟨loaded, filtered⟩ (by simp) (fun m output => output.symm) rfl
  | formatting call currentLevel =>
      rw [place] at sound
      obtain ⟨loaded, passes⟩ := sound
      have before : (shared.place t).pending t = [] := by rw [place]; rfl
      obtain ⟨result, calls, format⟩ :=
        formatRecord_oblivious call.level call.message logStackSize call.host 0
      simp only [SharedLog.advance, format]
      cases result with
      | none =>
          have tells : LogEffect.Tells ⟨t, call, currentLevel, false⟩ [] :=
            LogEffect.tells_unformatted passes rfl format
          exact h.finished before tells (fun delivered => nomatch delivered.1) loaded ⟨_, rfl⟩
      | some record =>
          exact h.moved t _ [] rfl rfl (List.append_nil _).symm (by simp)
            (by rw [before]; rfl) ⟨⟨loaded, passes⟩, format⟩ (by simp)
            (fun m output => output.symm) rfl
  | writing call currentLevel record calls =>
      rw [place] at sound
      obtain ⟨⟨loaded, passes⟩, format⟩ := sound
      have before : (shared.place t).pending t = [] := by rw [place]; rfl
      obtain ⟨calls', failed | wrote⟩ := writeToStderr_alone record [record] call.host calls
      · have tells : LogEffect.Tells ⟨t, call, currentLevel, false⟩ [] :=
          LogEffect.tells_unwritten passes rfl format failed
        simp only [SharedLog.advance, failed]
        exact h.finished before tells (fun delivered => nomatch delivered.1) loaded ⟨_, rfl⟩
      · have tells : LogEffect.Tells ⟨t, call, currentLevel, true⟩ [⟨record, [record]⟩] :=
          LogEffect.tells_delivered passes rfl format wrote
        simp only [SharedLog.advance, wrote]
        refine h.moved t _ [] rfl rfl (List.append_nil _).symm (by simp) ?_ passes ?_ ?_ rfl
        · rw [before]
          rfl
        · intro effect mem
          obtain rfl := List.mem_singleton.mp mem
          exact ⟨⟨_, tells⟩, loaded⟩
        · intro m output
          rw [tells.replayed, output]
          rfl
  | counting call currentLevel =>
      rw [place] at sound
      have delivered : LogEffect.Delivered ⟨t, call, currentLevel, true⟩ := ⟨rfl, sound⟩
      refine h.moved t .idle [⟨t, call, currentLevel, true⟩] rfl rfl rfl
        (by simp [SharedLog.advance]) ?_ trivial (by simp [SharedLog.advance]) ?_ ?_
      · rw [place]
        rfl
      · exact fun m output => output.symm
      · rw [List.countP_singleton, if_pos (decide_eq_true delivered)]
        rfl

theorem Serial.turn (h : Serial start shared effects) (action : Thread × SharedAction) :
    Serial start (shared.step action) (effects ++ (shared.turn action).2) := by
  obtain ⟨t, action⟩ := action
  have nothing : Serial start shared (effects ++ []) := by rwa [List.append_nil]
  cases action with
  | log host level message =>
      rw [SharedLog.step, SharedLog.turn]
      cases place : shared.place t with
      | idle =>
          refine h.moved t _ [] rfl rfl (List.append_nil _).symm (by simp) ?_ ?_ (by simp)
            (fun m output => output.symm) rfl
          · rw [place]
            rfl
          · rw [SharedLog.levels]
            simp [LogPlace.Sound]
      | loading _ | formatting _ _ | writing _ _ _ _ | counting _ _ => exact nothing
  | setLevel level =>
      rw [SharedLog.step, SharedLog.turn]
      cases place : shared.place t with
      | idle =>
          rw [List.append_nil]
          exact h.set level
      | loading _ | formatting _ _ | writing _ _ _ _ | counting _ _ => exact nothing
  | proceed => exact h.advance t

theorem Serial.run (h : Serial start shared effects) (schedule : List (Thread × SharedAction)) :
    Serial start (schedule.foldl SharedLog.step shared) (effects ++ shared.effects schedule) := by
  induction schedule generalizing shared effects with
  | nil => rwa [SharedLog.effects, List.append_nil]
  | cons action schedule ih =>
      rw [SharedLog.effects, ← List.append_assoc]
      exact ih (h.turn action)

theorem serial_started (level : LogLevel) :
    Serial (SharedLog.started level : SharedLog Thread).machine
      (SharedLog.started level : SharedLog Thread) [] where
  sessions := rfl
  counter := rfl
  tells := fun _ mem => absurd mem List.not_mem_nil
  loaded := fun _ mem => absurd mem List.not_mem_nil
  sound := fun _ => trivial
  order := fun _ => rfl

omit [DecidableEq Thread] in
/-- Every call that was let through and could be written adds one record to the output. -/
theorem replay_delivered {effects : List (LogEffect Thread)}
    (tells : ∀ effect ∈ effects, ∃ written, effect.Tells written) (m : LogMachine) :
    (replay m effects).delivered.length =
      m.delivered.length + effects.countP fun effect => effect.Delivered := by
  induction effects generalizing m with
  | nil => rfl
  | cons effect effects ih =>
      obtain ⟨written, first⟩ := tells effect List.mem_cons_self
      have rest := ih (fun other mem => tells other (List.mem_cons_of_mem _ mem)) (effect.alone m).2
      have records := first.records
      have alone : (effect.alone m).2.sessions = m.sessions ++ written := first.replayed m
      have one : (effect.alone m).2.delivered.length =
          m.delivered.length + if effect.Delivered then 1 else 0 := by
        rw [LogMachine.delivered, alone, List.flatMap_append, List.length_append, records]
        rfl
      change (replay (effect.alone m).2 effects).delivered.length = _
      rw [rest, one, List.countP_cons]
      by_cases delivered : effect.Delivered
      · simp [delivered]
        omega
      · simp [delivered]

/-- Lists of which each thread has its part in the same order. -/
theorem subperm_of_parts {first second : List (LogEffect Thread)}
    (part : ∀ t, (first.filter fun effect => effect.thread = t).Sublist
      (second.filter fun effect => effect.thread = t)) : first.Subperm second := by
  classical
  refine List.subperm_ext_iff.mpr fun effect _ => ?_
  have own : ∀ effects : List (LogEffect Thread), effects.count effect =
      (effects.filter fun other => other.thread = effect.thread).count effect := by
    intro effects
    rw [List.count_filter]
    exact decide_eq_true rfl
  rw [own first, own second]
  exact (part effect.thread).count_le effect

/-- Every interleaving of the calls is told by its effects: the output is that of the calls
made one after another by the sequential function, each thread's in its own order and with
the results they return, and each has loaded a level set no earlier than the one that was
there when it was made. The counter never runs ahead of the output, and agrees with it as
soon as no call is under way. -/
theorem SharedLog.run_serializes (level : LogLevel) (schedule : List (Thread × SharedAction)) :
    let shared := schedule.foldl SharedLog.step (SharedLog.started level)
    let effects := (SharedLog.started level).effects schedule
    shared.machine.sessions = (replay (SharedLog.started level : SharedLog Thread).machine
      effects).sessions ∧
    (∀ effect ∈ effects, effect.currentLevel ∈ shared.levels.drop effect.call.since ∧
      ∀ m, (effect.alone m).1.isSome = effect.result) ∧
    (∀ t, effects.filter (fun effect => effect.thread = t) =
      shared.returned.filter (fun effect => effect.thread = t) ++ (shared.place t).pending t) ∧
    shared.machine.logMessagesWritten = shared.returned.countP (fun effect => effect.Delivered) ∧
    shared.machine.logMessagesWritten ≤ shared.machine.delivered.length ∧
    ((∀ t, shared.place t = .idle) → shared.returned.Perm effects ∧
      shared.machine.logMessagesWritten = shared.machine.delivered.length) := by
  intro shared effects
  have serial : Serial _ shared effects := (serial_started level).run schedule
  have output : shared.machine.delivered.length =
      effects.countP fun effect => effect.Delivered := by
    rw [LogMachine.delivered, serial.sessions]
    exact (replay_delivered serial.tells _).trans (Nat.zero_add _)
  have returned : shared.returned.Subperm effects := subperm_of_parts fun t => by
    rw [serial.order]
    exact List.sublist_append_left _ _
  refine ⟨serial.sessions, fun effect mem => ⟨serial.loaded effect mem, fun m => ?_⟩, serial.order,
    serial.counter, ?_, fun idle => ?_⟩
  · obtain ⟨written, tells⟩ := serial.tells effect mem
    obtain ⟨calls, alone⟩ := tells.alone
    rw [alone]
    cases effect.result <;> rfl
  · rw [serial.counter, output]
    exact returned.countP_le _
  · have everything : effects.Subperm shared.returned := subperm_of_parts fun t => by
      have none_pending : LogPlace.pending t .idle = [] := rfl
      rw [serial.order, idle, none_pending, List.append_nil]
    have same : shared.returned.Perm effects := returned.antisymm everything
    exact ⟨same, by rw [serial.counter, output, same.countP_eq]⟩

end Runs

end BcRuntime
