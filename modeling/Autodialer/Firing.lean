import Autodialer.Timers

/-!
# When timers fire

What holds of every run of the timers of a thread, with any clock and with handlers that start and
cancel any timers, as long as a timer is zeroed only while it is off the list.

* `timers_refine`: the run is one of a timer service, so timers go off in the order in which they
  are due, and of several due at the same time the one that was started first.
* `timer_cause`: a timer that goes off was started, and is not early.
* `timer_fires`: a timer that was started goes off once, at the latest in the first poll at a time
  at which it is due.
* `timer_poll`: a poll calls at most one handler for each timer that was running when it began.
-/

namespace Autodialer

variable {α : Type} {s s₀ : Timers α} {h h₁ h₂ : List (Timers α × TimerEvent α)} {t : LeId}

/-- A timer that goes off has a handler. -/
theorem Keeps.pop_handler {s s' : Timers α} {a : Agenda.State LeId α} {th : Option α}
    (keeps : Keeps s a) (step : TimerStep s (.pop t th) s') : ∃ task, th = some task := by
  obtain ⟨l, sched⟩ := keeps
  cases step with
  | pop _ pop =>
    obtain ⟨task, _, _, has, _⟩ := sched.tmrPop pop
    exact ⟨task, has⟩

theorem pop_handler {w : Timers α} {th : Option α} (run : (timers α).Execution h s)
    (mem : (w, .pop t th) ∈ h) : ∃ task, th = some task := by
  obtain ⟨h₁, _, v, _, before, step, _⟩ := run.step_of_mem mem
  obtain ⟨_, _, _, keeps, _⟩ := timers_simulates.execution before
  exact keeps.pop_handler step

/-! ## A run -/

/-- A timer is started at the time 5 for a second later and goes off in a poll at the time 2000. -/
theorem timer_run : ∃ s₁ w s, (timers Unit).Execution
    [({}, .start 7 1000 () 5), (s₁, .poll 2000), (w, .pop 7 (some ()))] s := by
  obtain ⟨s₁, started, polling⟩ : ∃ s₁, TimerStep {} (.start 7 1000 () 5) s₁ ∧ s₁.polling = none ∧
      (Timers.tmrPop { s₁ with polling := some 2000 } 2000).map (fun r => (r.1, r.2.1)) =
        some (7, some ()) :=
    ⟨_, @TimerStep.start Unit {} _ 1 5 1000 7 () rfl, rfl, by decide⟩
  obtain ⟨⟨t, th, s₂⟩, pop, same⟩ := Option.map_eq_some_iff.mp polling.2
  obtain ⟨rfl, rfl⟩ : t = 7 ∧ th = some () := by simpa using same
  exact ⟨_, _, _, {}, rfl, ((Lts.Run.nil.snoc started).snoc (TimerStep.poll polling.1)).snoc
    (TimerStep.pop rfl pop)⟩

/-- Every run of the timers is a run of a timer service: the list in memory holds the armed timers
in the order in which they go off, `tmr_start` ends, and no timer goes off without a handler. -/
theorem timers_refine (run : (timers α).Execution h s) :
    (∃ k a, (Agenda.agenda LeId α).Execution k a ∧ Keeps s a ∧
      Lts.Matched TimerEvent.agenda Keeps h k) ∧
    (∀ w t th, (w, .pop t th) ∈ h → ∃ task, th = some task) ∧
    ∀ now t delay th, ∃ n, ∀ fuel, n ≤ fuel → (s.tmrStart fuel now t delay th).isSome := by
  obtain ⟨k, a, runA, ⟨l, sched⟩, matched⟩ := timers_simulates.execution run
  refine ⟨⟨k, a, runA, ⟨l, sched⟩, matched⟩, fun w t th mem => pop_handler run mem, ?_⟩
  intro now t delay th
  cases th with
  | none => exact ⟨0, fun fuel _ => rfl⟩
  | some th =>
    refine ⟨l.length, fun fuel enough => ?_⟩
    obtain ⟨s', _, done, _⟩ := sched.tmrStart now t delay th enough
    simp [done]

theorem timers_refine_run : ∃ h s, (timers Unit).Execution h s ∧ h.length = 3 ∧
    ∃ k a, (Agenda.agenda LeId Unit).Execution k a ∧ Keeps s a ∧
      Lts.Matched TimerEvent.agenda Keeps h k := by
  obtain ⟨s₁, w, s, run⟩ := timer_run
  exact ⟨_, s, run, rfl, (timers_refine run).1⟩

/-! ## One timer -/

/-- The timer is started, cancelled or zeroed, or goes off. -/
def TimerEvent.Touches (t : LeId) : TimerEvent α → Prop
  | .init u | .start u _ _ _ | .cancel u | .pop u _ => u = t
  | .poll _ | .done => False

/-- The timer is started, cancelled or zeroed. -/
def TimerEvent.Resets (t : LeId) : TimerEvent α → Prop
  | .init u | .start u _ _ _ | .cancel u => u = t
  | .pop _ _ | .poll _ | .done => False

def TimerEvent.pops (t : LeId) : TimerEvent α → Bool
  | .pop u _ => u = t
  | .init _ | .start _ _ _ _ | .cancel _ | .poll _ | .done => false

/-- The times the timer goes off in a history. -/
def pops (t : LeId) (h : List (Timers α × TimerEvent α)) : List (Timers α × TimerEvent α) :=
  h.filter fun x => x.2.pops t

theorem touches_agenda (e : TimerEvent α) : e.agenda.Touches t ↔ e.Touches t := by
  cases e with
  | pop u th => cases th <;> exact Iff.rfl
  | _ => exact Iff.rfl

/-- Only a start with a handler arms a timer. -/
theorem arm_eq {e : TimerEvent α} {due : Nat} {task : α} (arm : .arm t due task = e.agenda) :
    ∃ delay now, e = .start t delay task now ∧ due = (delay + now) % 2 ^ 64 := by
  cases e with
  | start u delay th now =>
    obtain ⟨rfl, rfl, rfl⟩ : t = u ∧ due = _ ∧ task = th := by
      simpa [TimerEvent.agenda] using arm
    exact ⟨delay, now, rfl, rfl⟩
  | pop u th => cases th <;> cases arm
  | _ => cases arm

theorem idle_eq {e : TimerEvent α} (idle : .idle = e.agenda) : e = .done := by
  cases e with
  | pop u th => cases th <;> cases idle
  | done => rfl
  | _ => cases idle

theorem fire_eq {e : TimerEvent α} {task : α} (fire : .fire t task = e.agenda) :
    e = .pop t (some task) := by
  cases e with
  | pop u th =>
    cases th with
    | none => cases fire
    | some th =>
      obtain ⟨rfl, rfl⟩ : t = u ∧ task = th := by simpa [TimerEvent.agenda] using fire
      rfl
  | _ => cases fire

/-- A timer that goes off was started with this handler, nothing has happened to it since, it is not
early, and no running timer is due before it. -/
theorem timer_cause {w : Timers α} {th : Option α} (run : (timers α).Execution h s)
    (mem : (w, .pop t th) ∈ h) :
    ∃ h₁ u delay task now h₂ h₃ jfs,
      h = h₁ ++ (u, .start t delay task now) :: h₂ ++ (w, .pop t th) :: h₃ ∧ th = some task ∧
      (∀ x ∈ h₂, ¬ x.2.Touches t) ∧ w.polling = some jfs ∧ (delay + now) % 2 ^ 64 ≤ jfs ∧
      ∀ v, (w.tmr v).th.isSome → (delay + now) % 2 ^ 64 ≤ (w.tmr v).jfs := by
  obtain ⟨h', h₃, v, rfl, before, step, -⟩ := run.step_of_mem mem
  obtain ⟨k, a, runA, ⟨l, sched⟩, matched⟩ := timers_simulates.execution before
  cases step with
  | @pop _ jfs _ _ polling pop =>
    obtain ⟨task, n, l', rfl, first, due, -⟩ := sched.tmrPop pop
    -- the start that armed the timer, in the run of the service and in that of the timers
    obtain ⟨k₁, u', k₂, rfl, -, quiet⟩ := (Agenda.armed_iff runA).mp first.1
    obtain ⟨h₁, h₂', rfl, -, right⟩ := matched.append_right
    obtain ⟨u, e, h₂, rfl, arm, -, rest⟩ := right.cons_right
    obtain ⟨delay, now, rfl, eq⟩ := arm_eq arm
    refine ⟨h₁, u, delay, task, now, h₂, h₃, jfs, rfl, rfl, fun x mem => ?_, polling, eq ▸ due, ?_⟩
    · obtain ⟨b, memK, -⟩ := rest.mem mem
      rw [← touches_agenda]
      exact quiet _ memK
    · intro v running
      rw [← eq]
      obtain ⟨task', has⟩ := Option.isSome_iff_exists.mp running
      obtain ⟨n', -, armed⟩ := sched.armed v task' has
      by_cases same : v = t
      · rw [same]
      · rcases first.2 v _ same armed with lt | ⟨eq', -⟩
        · exact Nat.le_of_lt lt
        · exact Nat.le_of_eq eq'

theorem timer_cause_run : ∃ h s w, (timers Unit).Execution h s ∧ (w, .pop 7 (some ())) ∈ h ∧
    ∃ delay task now jfs, some () = some task ∧ w.polling = some jfs ∧
      (delay + now) % 2 ^ 64 ≤ jfs := by
  obtain ⟨s₁, w, s, run⟩ := timer_run
  have mem : (w, TimerEvent.pop 7 (some ())) ∈
      [({}, TimerEvent.start 7 1000 () 5), (s₁, .poll 2000), (w, .pop 7 (some ()))] := by simp
  obtain ⟨_, _, delay, task, now, _, _, jfs, -, has, -, polling, due, -⟩ := timer_cause run mem
  exact ⟨_, s, w, run, mem, delay, task, now, jfs, has, polling, due⟩

/-! ## From one start to the next -/

theorem resets_agenda {e : TimerEvent α} (handler : ∀ u, e ≠ .pop u none) :
    e.agenda.Resets t ↔ e.Resets t := by
  cases e with
  | pop u th =>
    cases th with
    | none => exact absurd rfl (handler u)
    | some th => exact Iff.rfl
  | _ => exact Iff.rfl

theorem fires_agenda {e : TimerEvent α} (handler : ∀ u, e ≠ .pop u none) :
    e.agenda.fires t = e.pops t := by
  cases e with
  | pop u th =>
    cases th with
    | none => exact absurd rfl (handler u)
    | some th => rfl
  | _ => rfl

/-- The firings of a timer in a run and in the run of the service that matches it. -/
theorem matched_pops {k : List (Agenda.State LeId α × Agenda.Event LeId α)}
    (matched : Lts.Matched TimerEvent.agenda Keeps h k)
    (handler : ∀ x ∈ h, ∀ u, x.2 ≠ .pop u none) :
    Lts.Matched TimerEvent.agenda Keeps (pops t h) (Agenda.firings t k) :=
  matched.filter fun x mem => fires_agenda (handler x mem)

/-- What comes of a start, as long as the timer is not started again, cancelled or zeroed: it goes
off at most once, with its own handler and not early, and when a poll at a time at which it is due
has ended it has gone off. -/
theorem timer_fires {delay now : Nat} {task : α}
    (run : (timers α).Execution (h₁ ++ (s₀, .start t delay task now) :: h₂) s)
    (quiet : ∀ x ∈ h₂, ¬ x.2.Resets t) :
    (pops t h₂).length ≤ 1 ∧
    (∀ w e, (w, e) ∈ pops t h₂ → e = .pop t (some task) ∧
      ∃ jfs, w.polling = some jfs ∧ (delay + now) % 2 ^ 64 ≤ jfs) ∧
    ∀ k w jfs k', h₂ = k ++ (w, .done) :: k' → w.polling = some jfs →
      (delay + now) % 2 ^ 64 ≤ jfs → (pops t k).length = 1 := by
  have handler : ∀ x ∈ h₂, ∀ u, x.2 ≠ .pop u none := by
    rintro ⟨w, e⟩ mem u rfl
    obtain ⟨task, has⟩ := pop_handler run (List.mem_append_right _ (List.mem_cons_of_mem _ mem))
    cases has
  obtain ⟨k, a, runA, -, matched⟩ := timers_simulates.execution run
  obtain ⟨k₁, k', rfl, -, right⟩ := matched.append_left
  obtain ⟨b, k₂, rfl, -, rest⟩ := right.cons_left
  have quietA : ∀ y ∈ k₂, ¬ y.2.Resets t := by
    intro y mem
    obtain ⟨x, memH, -, same⟩ := rest.of_mem mem
    rw [same, resets_agenda (handler x memH)]
    exact quiet x memH
  obtain ⟨once, cause, served⟩ := Agenda.alarm_rule runA quietA
  refine ⟨?_, ?_, ?_⟩
  · rw [(matched_pops rest handler).length_eq]
    exact once
  · intro w e mem
    obtain ⟨c, memK, ⟨l, sched⟩⟩ := (matched_pops rest handler).mem mem
    obtain ⟨same, jfs, polling, due⟩ := cause c _ memK
    exact ⟨fire_eq same.symm, jfs, sched.polling_eq.trans polling, due⟩
  · rintro k w jfs k' rfl polling due
    obtain ⟨l₁, l₂, rfl, left, right⟩ := rest.append_left
    obtain ⟨c, l₃, rfl, ⟨_, sched⟩, -⟩ := right.cons_left
    rw [(matched_pops left fun x mem => handler x (by simp [mem])).length_eq]
    exact served l₁ c jfs l₃ rfl (sched.polling_eq ▸ polling) due

theorem timer_fires_run : ∃ (s₁ w s : Timers Unit),
    (timers Unit).Execution [({}, .start 7 1000 () 5), (s₁, .poll 2000), (w, .pop 7 (some ()))] s ∧
    (pops 7 [(s₁, .poll 2000), (w, .pop 7 (some ()))]).length ≤ 1 := by
  obtain ⟨s₁, w, s, run⟩ := timer_run
  have split : (timers Unit).Execution
      ([] ++ ({}, .start 7 1000 () 5) :: [(s₁, .poll 2000), (w, .pop 7 (some ()))]) s := run
  exact ⟨s₁, w, s, run, (timer_fires split (by simp [TimerEvent.Resets])).1⟩

/-! ## One poll -/

/-- As long as the handlers start timers for later than the time of the poll, `tmr_poll` calls at
most one handler for each timer, and only for timers that were running when it began. -/
theorem timer_poll {jfs : Nat} (run : (timers α).Execution (h₁ ++ (s₀, .poll jfs) :: h₂) s)
    (going : ∀ x ∈ h₂, x.2 ≠ .done)
    (later : ∀ x ∈ h₂, ∀ u delay task now, x.2 = .start u delay task now →
      jfs < (delay + now) % 2 ^ 64) (t : LeId) :
    (pops t h₂).length ≤ 1 ∧ (pops t h₂ ≠ [] → (s₀.tmr t).th.isSome) := by
  have handler : ∀ x ∈ h₂, ∀ u, x.2 ≠ .pop u none := by
    rintro ⟨w, e⟩ mem u rfl
    obtain ⟨task, has⟩ := pop_handler run (List.mem_append_right _ (List.mem_cons_of_mem _ mem))
    cases has
  obtain ⟨k, a, ⟨a₀, start, runA⟩, -, matched⟩ := timers_simulates.execution run
  obtain ⟨k₁, k', rfl, -, right⟩ := matched.append_left
  obtain ⟨b, k₂, rfl, ⟨l, sched⟩, rest⟩ := right.cons_left
  obtain ⟨v, -, step, runV⟩ := runA.split
  have goingA : ∀ y ∈ k₂, y.2 ≠ .idle := by
    intro y mem idle
    obtain ⟨x, memH, -, same⟩ := rest.of_mem mem
    exact going x memH (idle_eq (idle.symm.trans same))
  have laterA : ∀ y ∈ k₂, ∀ u due task, y.2 = .arm u due task → jfs < due := by
    intro y mem u due task arm
    obtain ⟨x, memH, -, same⟩ := rest.of_mem mem
    obtain ⟨delay, now, start, rfl⟩ := arm_eq (arm.symm.trans same)
    exact later x memH u delay task now start
  obtain ⟨polling, alarms⟩ : v.polling = some jfs ∧ v.alarm = b.alarm := by
    cases step
    exact ⟨rfl, rfl⟩
  have length := (matched_pops rest handler (t := t)).length_eq
  rcases (Agenda.poll_once runV polling goingA laterA t).2 with ⟨none, -⟩ | ⟨once, was, -⟩
  · rw [none] at length
    have empty : pops t h₂ = [] := List.length_eq_zero_iff.mp length
    simp [empty]
  · refine ⟨by rw [length, once], fun _ => ?_⟩
    rw [alarms] at was
    by_contra off
    rw [sched.unarmed t (by simpa using off)] at was
    cases was

theorem timer_poll_run : ∃ (s₁ w s : Timers Unit),
    (timers Unit).Execution [({}, .start 7 1000 () 5), (s₁, .poll 2000), (w, .pop 7 (some ()))] s ∧
    (pops 7 [(w, .pop 7 (some ()))]).length ≤ 1 ∧ (s₁.tmr 7).th.isSome := by
  obtain ⟨s₁, w, s, run⟩ := timer_run
  have split : (timers Unit).Execution
      ([(({} : Timers Unit), .start 7 1000 () 5)] ++ (s₁, .poll 2000) ::
        [(w, .pop 7 (some ()))]) s := run
  obtain ⟨once, running⟩ := timer_poll split (by simp) (by simp) 7
  exact ⟨s₁, w, s, run, once, running (by simp [pops, TimerEvent.pops])⟩

end Autodialer
