import BcRuntime.App.ErrorCollector
import BcRuntime.Foundation.FairRuns
import Mathlib.Data.List.Perm.Basic

/-!
What becomes of the calls when the threads are scheduled for ever. The lock spins,
and which of the waiting threads gets it is left open; but the thread that holds it
needs nobody else, and once no more calls are made every call has returned.
-/

namespace BcRuntime

variable {Stage Thread : Type}

def AppendPlace.underWay : AppendPlace Stage → Option (AppendCall Stage)
  | .idle => none
  | .measuring call | .locking call | .reading call | .writing call _ | .publishing call _
  | .counting call | .unlocking call _ => some call

/-- The steps until a thread that holds the lock has returned. -/
def AppendPlace.remaining : AppendPlace Stage → Nat
  | .reading _ => 5
  | .writing _ _ => 4
  | .publishing _ _ => 3
  | .counting _ => 2
  | .unlocking _ _ => 1
  | _ => 0

/-- The steps until a thread is at the test-and-set, and past it if the lock is free. -/
def AppendPlace.untilLocked : AppendPlace Stage → Nat
  | .measuring _ => 2
  | .locking _ => 1
  | _ => 0

/-- Every thread is scheduled again and again. -/
def FairSchedule (schedule : Nat → Thread × AppendAction Stage) : Prop :=
  ∀ t n, ∃ k, n ≤ k ∧ ∃ succeeds, schedule k = (t, .proceed succeeds)

namespace ErrorCollector

def begins (collector : ErrorCollector Stage Thread) :
    Thread × AppendAction Stage → List (AppendCall Stage)
  | (t, .call call) =>
      match collector.place t with
      | .idle => [call]
      | _ => []
  | (_, .proceed _) => []

variable [DecidableEq Thread]

/-- The collector before turn `n` of a schedule. -/
abbrev before (cells : Nat → ErrorRecord Stage) (schedule : Nat → Thread × AppendAction Stage) :
    Nat → ErrorCollector Stage Thread :=
  FairRuns.after step (created cells) schedule

def begun (cells : Nat → ErrorRecord Stage) (schedule : Nat → Thread × AppendAction Stage) :
    Nat → List (AppendCall Stage)
  | 0 => []
  | n + 1 => begun cells schedule n ++ (before cells schedule n).begins (schedule n)

/-- What a turn does to the calls under way. -/
inductive Turned (collector : ErrorCollector Stage Thread) (turn : Thread × AppendAction Stage) :
    Prop
  | goesOn (next : AppendPlace Stage)
      (place : (collector.step turn).place = Function.update collector.place turn.1 next)
      (same : next.underWay = (collector.place turn.1).underWay)
      (returned : (collector.step turn).returned = collector.returned)
      (begins : collector.begins turn = [])
  | starts (call : AppendCall Stage) (action : turn.2 = .call call)
      (idle : collector.place turn.1 = .idle)
      (place : (collector.step turn).place =
        Function.update collector.place turn.1 (.measuring call))
      (returned : (collector.step turn).returned = collector.returned)
      (begins : collector.begins turn = [call])
  | returns (call : AppendCall Stage) (result : Bool)
      (underWay : (collector.place turn.1).underWay = some call)
      (place : (collector.step turn).place = Function.update collector.place turn.1 .idle)
      (returned : (collector.step turn).returned = collector.returned ++ [(call, result)])
      (begins : collector.begins turn = [])

theorem turned (collector : ErrorCollector Stage Thread) (turn : Thread × AppendAction Stage) :
    collector.Turned turn := by
  obtain ⟨t, action⟩ := turn
  have stays : collector.step (t, action) = collector → collector.begins (t, action) = [] →
      collector.Turned (t, action) := by
    intro same begins
    refine .goesOn (collector.place t) ?_ rfl ?_ begins
    · rw [same, Function.update_eq_self]
    · rw [same]
  cases action with
  | call call =>
      cases here : collector.place t with
      | idle =>
          refine .starts call rfl here ?_ ?_ ?_
          · simp only [step, here, goTo]
          · simp only [step, here, goTo]
          · simp only [begins, here]
      | _ => exact stays (by simp only [step, here]) (by simp only [begins, here])
  | proceed succeeds =>
      have goes : ∀ (next : AppendPlace Stage) (changed : ErrorCollector Stage Thread),
          collector.step (t, .proceed succeeds) = changed.goTo t next →
          changed.place = collector.place → changed.returned = collector.returned →
          next.underWay = (collector.place t).underWay →
          collector.Turned (t, .proceed succeeds) := by
        intro next changed stepped place returned same
        refine .goesOn next ?_ same ?_ rfl
        · rw [stepped, goTo, place]
        · rw [stepped, goTo, returned]
      cases here : collector.place t with
      | idle => exact stays (by simp only [step, here]) rfl
      | measuring call =>
          rw [here] at goes
          cases succeeds with
          | true => exact goes (.locking call) collector (by simp [step, here]) rfl rfl rfl
          | false =>
              refine .returns call false (by rw [here]; rfl) ?_ ?_ rfl
              · simp [step, here, returnTo, goTo]
              · simp [step, here, returnTo]
      | locking call =>
          rw [here] at goes
          cases lock : collector.appendLock with
          | true => exact stays (by simp only [step, here, lock, if_true]) rfl
          | false =>
              exact goes (.reading call) { collector with appendLock := true }
                (by simp [step, here, lock]) rfl rfl rfl
      | reading call =>
          rw [here] at goes
          exact goes (.writing call collector.length) collector (by simp only [step, here]) rfl rfl
            rfl
      | writing call index =>
          rw [here] at goes
          cases succeeds with
          | true =>
              exact goes (.publishing call index)
                { collector with cells := Function.update collector.cells index call.record }
                (by simp [step, here]) rfl rfl rfl
          | false => exact goes (.unlocking call false) collector (by simp [step, here]) rfl rfl rfl
      | publishing call index =>
          rw [here] at goes
          exact goes (.counting call) { collector with length := index + 1 }
            (by simp only [step, here]) rfl rfl rfl
      | counting call =>
          rw [here] at goes
          exact goes (.unlocking call true)
            { collector with totalCount := collector.totalCount + 1 }
            (by simp only [step, here]) rfl rfl rfl
      | unlocking call pushOk =>
          refine .returns call pushOk (by rw [here]; rfl) ?_ ?_ rfl
          · simp only [step, here, returnTo, goTo]
          · simp only [step, here, returnTo, goTo]

section Turns
variable {collector : ErrorCollector Stage Thread} {turn : Thread × AppendAction Stage}

theorem returned_grows (collector : ErrorCollector Stage Thread)
    (turn : Thread × AppendAction Stage) :
    collector.returned.length ≤ (collector.step turn).returned.length := by
  cases collector.turned turn with
  | goesOn _ _ _ returned _ => rw [returned]
  | starts _ _ _ _ returned _ => rw [returned]
  | returns _ _ _ _ returned _ =>
      rw [returned, List.length_append]
      exact Nat.le_add_right _ _

theorem place_elsewhere {t : Thread} (other : t ≠ turn.1) :
    (collector.step turn).place t = collector.place t := by
  cases collector.turned turn with
  | goesOn _ place _ _ _ => rw [place, Function.update_of_ne other]
  | starts _ _ _ place _ _ => rw [place, Function.update_of_ne other]
  | returns _ _ _ place _ _ => rw [place, Function.update_of_ne other]

/-- The calls under way, each with its thread, and the calls that were started. -/
structure Account (collector : ErrorCollector Stage Thread)
    (active : List (Thread × AppendCall Stage)) (begun : List (AppendCall Stage)) : Prop where
  threads : (active.map Prod.fst).Nodup
  active_iff : ∀ t call, (t, call) ∈ active ↔ (collector.place t).underWay = some call
  begun : begun.Perm (collector.returned.map Prod.fst ++ active.map Prod.snd)

omit [DecidableEq Thread] in
theorem created_account (cells : Nat → ErrorRecord Stage) :
    (created cells : ErrorCollector Stage Thread).Account [] [] where
  threads := List.nodup_nil
  active_iff := fun _ _ => ⟨fun mem => absurd mem List.not_mem_nil, fun some => nomatch some⟩
  begun := List.Perm.refl _

theorem Account.step {active : List (Thread × AppendCall Stage)} {begun : List (AppendCall Stage)}
    (h : collector.Account active begun) (turn : Thread × AppendAction Stage) :
    ∃ active', (collector.step turn).Account active' (begun ++ collector.begins turn) := by
  cases collector.turned turn with
  | goesOn next place same returned begins =>
      refine ⟨active, h.threads, fun t call => ?_, ?_⟩
      · rw [h.active_iff, place]
        by_cases here : t = turn.1
        · subst here
          rw [Function.update_self, same]
        · rw [Function.update_of_ne here]
      · rw [begins, returned, List.append_nil]
        exact h.begun
  | starts call _ idle place returned begins =>
      have absent : turn.1 ∉ active.map Prod.fst := by
        intro mem
        obtain ⟨⟨t, other⟩, mem, rfl⟩ := List.mem_map.mp mem
        have underWay := (h.active_iff _ _).mp mem
        rw [idle] at underWay
        exact nomatch underWay
      refine ⟨(turn.1, call) :: active, List.nodup_cons.mpr ⟨absent, h.threads⟩,
        fun t other => ?_, ?_⟩
      · rw [place, List.mem_cons, Prod.mk.injEq]
        by_cases here : t = turn.1
        · subst here
          rw [Function.update_self]
          refine ⟨fun mem => ?_, fun underWay => .inl ⟨rfl, (Option.some.inj underWay).symm⟩⟩
          cases mem with
          | inl same => exact congrArg some same.2.symm
          | inr mem => exact absurd (List.mem_map_of_mem (f := Prod.fst) mem) absent
        · rw [Function.update_of_ne here, ← h.active_iff]
          exact ⟨fun mem => mem.resolve_left fun same => here same.1, .inr⟩
      · rw [begins, returned]
        exact (List.perm_append_comm.trans (h.begun.cons call)).trans List.perm_middle.symm
  | returns call result underWay place returned begins =>
      obtain ⟨earlier, later, rfl⟩ := List.append_of_mem ((h.active_iff _ _).mpr underWay)
      have threads := h.threads
      rw [List.map_append, List.map_cons, List.perm_middle.nodup_iff, ← List.map_append] at threads
      refine ⟨earlier ++ later, (List.nodup_cons.mp threads).2, fun t other => ?_, ?_⟩
      · have absent := (List.nodup_cons.mp threads).1
        rw [place]
        by_cases here : t = turn.1
        · subst here
          rw [Function.update_self]
          refine ⟨fun mem => ?_, fun some => nomatch some⟩
          exact absurd (List.mem_map_of_mem (f := Prod.fst) mem) absent
        · rw [Function.update_of_ne here, ← h.active_iff]
          simp [here]
      · rw [begins, returned, List.append_nil]
        refine h.begun.trans ?_
        rw [List.map_append, List.map_append, List.map_append, List.append_assoc]
        exact List.Perm.append_left _ List.perm_middle

/-- The holder of the lock goes one step on, and returns after the last one. -/
theorem holder_step {t : Thread} (holds : (collector.place t).holdsLock = true)
    (succeeds : Bool) :
    collector.returned.length < (collector.step (t, .proceed succeeds)).returned.length ∨
      ((collector.step (t, .proceed succeeds)).place t).holdsLock = true ∧
        ((collector.step (t, .proceed succeeds)).place t).remaining <
          (collector.place t).remaining := by
  cases here : collector.place t with
  | idle | measuring _ | locking _ =>
      rw [here] at holds
      exact Bool.noConfusion holds
  | reading call | publishing call _ | counting call =>
      simp only [step, here, goTo, Function.update_self]
      exact .inr ⟨rfl, Nat.lt_succ_self _⟩
  | writing call index =>
      cases succeeds <;> simp [step, here, goTo, AppendPlace.holdsLock, AppendPlace.remaining]
  | unlocking call pushOk =>
      refine .inl ?_
      simp [step, here, returnTo]

/-- A thread that waits for a free lock gets it, if it does not return before. -/
theorem waiter_step {t : Thread} (waits : collector.place t ≠ .idle)
    (free : ∀ u, (collector.place u).holdsLock = false) (lock : collector.appendLock = false)
    (succeeds : Bool) :
    collector.returned.length < (collector.step (t, .proceed succeeds)).returned.length ∨
      ((collector.step (t, .proceed succeeds)).place t).holdsLock = true ∨
      (collector.step (t, .proceed succeeds)).place t ≠ .idle ∧
        ((collector.step (t, .proceed succeeds)).place t).untilLocked <
          (collector.place t).untilLocked := by
  have outside := free t
  cases here : collector.place t with
  | idle => exact absurd here waits
  | measuring call =>
      cases succeeds <;> simp [step, here, goTo, returnTo, AppendPlace.untilLocked]
  | locking call =>
      refine .inr (.inl ?_)
      simp [step, here, lock, goTo, AppendPlace.holdsLock]
  | reading _ | writing _ _ | publishing _ _ | counting _ | unlocking _ _ =>
      rw [here] at outside
      exact Bool.noConfusion outside

end Turns

section Fair
variable {cells : Nat → ErrorRecord Stage} {schedule : Nat → Thread × AppendAction Stage}

theorem before_invariant (cells : Nat → ErrorRecord Stage)
    (schedule : Nat → Thread × AppendAction Stage) (n : Nat) :
    (before cells schedule n).Invariant :=
  FairRuns.after_keeps invariant_kept (created_invariant cells) n

theorem returned_mono {n k : Nat} (later : n ≤ k) :
    (before cells schedule n).returned.length ≤ (before cells schedule k).returned.length :=
  FairRuns.after_keeps_from
    (I := fun collector : ErrorCollector Stage Thread =>
      (before cells schedule n).returned.length ≤ collector.returned.length)
    (fun _ _ ih => Nat.le_trans ih (returned_grows _ _)) (Nat.le_refl _) later

/-- A thread under way whose own steps lower a rank reaches what they lead to: no other
thread moves it, and it makes no new call before it has returned. -/
theorem thread_reaches (fair : FairSchedule schedule) {t : Thread} {n : Nat}
    {P : AppendPlace Stage → Prop} {Q : ErrorCollector Stage Thread → Prop}
    (rank : AppendPlace Stage → Nat) (busy : ¬ P .idle)
    (own : ∀ (collector : ErrorCollector Stage Thread) succeeds, collector.Invariant →
      (before cells schedule n).returned.length ≤ collector.returned.length →
      P (collector.place t) → ¬ Q collector → Q (collector.step (t, .proceed succeeds)) ∨
        P ((collector.step (t, .proceed succeeds)).place t) ∧
          rank ((collector.step (t, .proceed succeeds)).place t) < rank (collector.place t))
    (here : P ((before cells schedule n).place t)) :
    ∃ k, n ≤ k ∧ Q (before cells schedule k) := by
  refine FairRuns.eventually
    (I := fun collector : ErrorCollector Stage Thread => collector.Invariant ∧
      (before cells schedule n).returned.length ≤ collector.returned.length ∧
        P (collector.place t))
    (H := fun turn => ∃ succeeds, turn = (t, .proceed succeeds))
    (fun collector => rank (collector.place t)) ?_ ?_ (fair t) n
    ⟨before_invariant cells schedule n, Nat.le_refl _, here⟩
  · rintro collector ⟨u, action⟩ ⟨invariant, grown, inside⟩ notYet
    have grown' := Nat.le_trans grown (returned_grows collector (u, action))
    by_cases same : t = u
    · subst same
      cases action with
      | proceed succeeds =>
          refine (own collector succeeds invariant grown inside notYet).imp_right fun next => ?_
          exact ⟨⟨invariant.step _, grown', next.1⟩, Nat.le_of_lt next.2⟩
      | call call =>
          have stuck : collector.step (t, .call call) = collector := by
            cases here : collector.place t with
            | idle => exact absurd (here ▸ inside) busy
            | _ => simp only [step, here]
          rw [stuck]
          exact .inr ⟨⟨invariant, grown, inside⟩, Nat.le_refl _⟩
    · refine .inr ⟨⟨invariant.step _, grown', ?_⟩, ?_⟩
      · rwa [place_elsewhere same]
      · rw [place_elsewhere same]
  · rintro collector _ ⟨invariant, grown, inside⟩ notYet ⟨succeeds, rfl⟩
    exact (own collector succeeds invariant grown inside notYet).imp_right And.right

theorem holder_returns (fair : FairSchedule schedule) {t : Thread} {n : Nat}
    (holds : ((before cells schedule n).place t).holdsLock = true) :
    ∃ k, n ≤ k ∧ (before cells schedule n).returned.length <
      (before cells schedule k).returned.length := by
  refine thread_reaches fair (t := t) (P := fun place => place.holdsLock = true)
    (Q := fun collector => (before cells schedule n).returned.length < collector.returned.length)
    AppendPlace.remaining Bool.false_ne_true (fun collector succeeds _ grown holds _ => ?_) holds
  exact (holder_step holds succeeds).imp_left (Nat.lt_of_le_of_lt grown)

theorem some_call_returns (fair : FairSchedule schedule) {t : Thread} {n : Nat}
    (waits : (before cells schedule n).place t ≠ .idle) :
    ∃ k, n ≤ k ∧ (before cells schedule n).returned.length <
      (before cells schedule k).returned.length := by
  have reaches : ∃ k, n ≤ k ∧ ((before cells schedule n).returned.length <
      (before cells schedule k).returned.length ∨
        ∃ u, ((before cells schedule k).place u).holdsLock = true) := by
    refine thread_reaches fair (t := t) (P := fun place => place ≠ .idle)
      (Q := fun collector => (before cells schedule n).returned.length <
        collector.returned.length ∨ ∃ u, (collector.place u).holdsLock = true)
      AppendPlace.untilLocked (fun busy => busy rfl)
      (fun collector succeeds invariant grown waits notYet => ?_) waits
    have free : ∀ u, (collector.place u).holdsLock = false := fun u =>
      Bool.not_eq_true _ ▸ fun holds => notYet (.inr ⟨u, holds⟩)
    have lock : collector.appendLock = false :=
      Bool.not_eq_true _ ▸ fun set => notYet (.inr (invariant.flag_iff.mp set))
    rcases waiter_step waits free lock succeeds with returns | holds | closer
    · exact .inl (.inl (Nat.lt_of_le_of_lt grown returns))
    · exact .inl (.inr ⟨t, holds⟩)
    · exact .inr closer
  obtain ⟨k, later, returns | ⟨u, holds⟩⟩ := reaches
  · exact ⟨k, later, returns⟩
  · obtain ⟨m, after_k, returns⟩ := holder_returns fair holds
    exact ⟨m, Nat.le_trans later after_k, Nat.lt_of_le_of_lt (returned_mono later) returns⟩

theorem before_account (cells : Nat → ErrorRecord Stage)
    (schedule : Nat → Thread × AppendAction Stage) (n : Nat) :
    ∃ active, (before cells schedule n).Account active (begun cells schedule n) := by
  induction n with
  | zero => exact ⟨[], created_account cells⟩
  | succ n ih =>
      obtain ⟨active, account⟩ := ih
      exact account.step (schedule n)

theorem begun_quiet {n k : Nat}
    (quiet : ∀ k, n ≤ k → ∀ t call, schedule k ≠ (t, .call call)) (later : n ≤ k) :
    begun cells schedule k = begun cells schedule n := by
  induction k, later using Nat.le_induction with
  | base => rfl
  | succ k later ih =>
      rw [begun, ih]
      match turn : schedule k with
      | (t, .call call) => exact absurd turn (quiet k later t call)
      | (_, .proceed _) => exact List.append_nil _

/-- The calls under way end one after another when no more of them are made. -/
theorem all_return (fair : FairSchedule schedule) {n : Nat}
    (quiet : ∀ k, n ≤ k → ∀ t call, schedule k ≠ (t, .call call)) :
    ∃ k, n ≤ k ∧ ∀ t, (before cells schedule k).place t = .idle := by
  obtain ⟨active, account⟩ := before_account cells schedule n
  induction count : active.length using Nat.strong_induction_on generalizing n active with
  | _ count ih =>
      subst count
      by_cases idle : ∀ t, (before cells schedule n).place t = .idle
      · exact ⟨n, Nat.le_refl n, idle⟩
      · obtain ⟨t, waits⟩ := not_forall.mp idle
        obtain ⟨k, later, returns⟩ := some_call_returns fair waits
        obtain ⟨active', account'⟩ := before_account cells schedule k
        have fewer : active'.length < active.length := by
          have first := account.begun.length_eq
          have second := account'.begun.length_eq
          rw [List.length_append, List.length_map, List.length_map] at first second
          rw [begun_quiet quiet later] at second
          omega
        obtain ⟨m, after_k, idle⟩ := ih _ fewer
          (fun m after_k => quiet m (Nat.le_trans later after_k)) active' account' rfl
        exact ⟨m, Nat.le_trans later after_k, idle⟩

theorem idle_kept {n k : Nat} (quiet : ∀ k, n ≤ k → ∀ t call, schedule k ≠ (t, .call call))
    (idle : ∀ t, (before cells schedule n).place t = .idle) (later : n ≤ k) :
    before cells schedule k = before cells schedule n := by
  induction k, later using Nat.le_induction with
  | base => rfl
  | succ k later ih =>
      change (before cells schedule k).step (schedule k) = _
      match turn : schedule k with
      | (t, .call call) => exact absurd turn (quiet k later t call)
      | (t, .proceed _) => rw [ih]; simp only [step, idle t]

/-- In every fair schedule some call returns while one is under way, and when no more
calls are made there is a time from which on no thread is in a call: each call that was
made has returned once, and the records are those of the calls that returned true. -/
theorem fair_schedule_progress (cells : Nat → ErrorRecord Stage)
    (schedule : Nat → Thread × AppendAction Stage) (fair : FairSchedule schedule) :
    (∀ n t, (before cells schedule n).place t ≠ .idle → ∃ k, n ≤ k ∧
      (before cells schedule n).returned.length < (before cells schedule k).returned.length) ∧
    ∀ n, (∀ k, n ≤ k → ∀ t call, schedule k ≠ (t, .call call)) → ∃ k, n ≤ k ∧ ∀ m, k ≤ m →
      (∀ t, (before cells schedule m).place t = .idle) ∧
      (begun cells schedule n).Perm ((before cells schedule m).returned.map Prod.fst) ∧
      (before cells schedule m).count = (before cells schedule m).collected.length ∧
      (before cells schedule m).records =
        (before cells schedule m).collected.map AppendCall.record := by
  refine ⟨fun n t => some_call_returns fair, fun n quiet => ?_⟩
  obtain ⟨k, later, idle⟩ : ∃ k, n ≤ k ∧ ∀ t, (before cells schedule k).place t = .idle :=
    all_return fair quiet
  refine ⟨k, later, fun m after_k => ?_⟩
  have quiet_k := fun m (after_k : k ≤ m) => quiet m (Nat.le_trans later after_k)
  rw [idle_kept quiet_k idle after_k]
  obtain ⟨active, account⟩ := before_account cells schedule k
  have none : active = [] := by
    refine List.eq_nil_iff_forall_not_mem.mpr fun ⟨t, call⟩ mem => ?_
    have underWay := (account.active_iff t call).mp mem
    rw [idle t] at underWay
    exact nomatch underWay
  have begun := account.begun
  rw [none, begun_quiet quiet later, List.map_nil, List.append_nil] at begun
  have settled := (before_invariant cells schedule k).settled idle
  exact ⟨idle, begun, settled.2, settled.1⟩

/-- Two threads that call at the same time and then take turns. -/
def takingTurns (call : AppendCall Stage) (n : Nat) : Bool × AppendAction Stage :=
  (n % 2 == 0, if n < 2 then .call call else .proceed true)

theorem takingTurns_fair (call : AppendCall Stage) : FairSchedule (takingTurns call) := by
  intro t n
  cases t with
  | true => exact ⟨2 * n + 2, by omega, true, by simp [takingTurns]⟩
  | false => exact ⟨2 * n + 3, by omega, true, by simp [takingTurns, Nat.add_mod]⟩

def missingFile : AppendCall Unit := ⟨.lit "/tmp/missing", (), 2⟩

theorem takingTurns_progress :
    ∃ k, 2 ≤ k ∧ (begun (fun _ => missingFile.record) (takingTurns missingFile) 2).Perm
      ((before (fun _ => missingFile.record) (takingTurns missingFile) k).returned.map
        Prod.fst) := by
  have quiet : ∀ k, 2 ≤ k → ∀ t other, takingTurns missingFile k ≠ (t, .call other) := by
    intro k later t other
    rw [takingTurns, if_neg (Nat.not_lt.mpr later)]
    exact fun same => nomatch congrArg Prod.snd same
  obtain ⟨k, later, settled⟩ := (fair_schedule_progress (fun _ => missingFile.record)
    (takingTurns missingFile) (takingTurns_fair missingFile)).2 2 quiet
  exact ⟨k, later, (settled k (Nat.le_refl k)).2.1⟩

end Fair
end ErrorCollector

end BcRuntime
