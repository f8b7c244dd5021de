import Autodialer.Fate
import Autodialer.SqlQueue

/-!
# What the main loop writes to the database

Between two statements about a contact its destination is there. Status records
always carry the duration 0; a positive `call_duration` comes from the final
record of an answered call, and after it the destination is gone, unless the
handler has gone by the duration of the PBX leg.

* `mainStep_enqueues`: the statements of a step of the main loop.
-/

namespace Autodialer

variable {s s' : Sys} {b b' : Book} {e : Event} {d : DestId} {cp : CampId} {dest : Destination}
  {now : Time} {ans : CallId → Addr → Prop}

/-- The statements are status records of destinations of `b`. -/
def Reports (b : Book) (ws : List Sql) : Prop :=
  ∀ sql ∈ ws, ∃ d dest status connectTm establishTm, b.dests.get d = some dest ∧
    sql = .status status 0 connectTm establishTm dest.destId

/-- The handler of `d` records a positive duration and keeps the contact. -/
def PutsBack (s : Sys) : Event → Prop
  | .destTimer d now env => ∃ dest camp c call, EndsAnswered s d now env dest camp c call ∧
      0 < toInt32 (now - call.establishTm) ∧ ¬ (Spent camp dest ∨ Talked s.media now call)
  | _ => False

/-- The statements that a step of the main loop enqueues. -/
inductive Enqueues (s : Sys) (e : Event) (s' : Sys) : List Sql → Prop
  | reports {ws : List Sql} : Reports s.book ws → Enqueues s e s' ws
  /-- A final record, and perhaps a forwarding record after it. -/
  | outcome {d : DestId} {dest : Destination} {u : FinalUpdate} {rest : List Sql} :
      s.book.dests.get d = some dest → u.id = dest.destId →
      (rest = [] ∨ ∃ f, rest = [.forwarding f]) →
      (0 < u.callDuration → s'.book.dests.get d = none ∨ PutsBack s e) →
      Enqueues s e s' (.final u :: rest)

/-! ## Ticks -/

theorem Reports.append {ws ws' : List Sql} (first : Reports b ws) (second : Reports b ws') :
    Reports b (ws ++ ws') := by
  intro sql mem
  rcases List.mem_append.mp mem with mem | mem
  · exact first sql mem
  · exact second sql mem

/-- The destinations of a later book are those of the book before. -/
theorem Reports.earlier {ws : List Sql} (fewer : Fewer b b') (reports : Reports b' ws) :
    Reports b ws := by
  intro sql mem
  obtain ⟨d, dest', status, connectTm, establishTm, live', isSql⟩ := reports sql mem
  obtain ⟨dest, live, sameId, -⟩ := fewer.same d dest' live'
  exact ⟨d, dest, status, connectTm, establishTm, live, sameId ▸ isSql⟩

theorem DialResult.reports {env : DialEnv} {destroyed : Bool}
    (live : s.book.dests.get d = some dest)
    (result : DialResult s now env d dest s' destroyed) :
    ∃ ws, Reports s.book ws ∧ s'.db = s.db.execAll ws := by
  have nothing : Reports s.book [] := fun sql mem => absurd mem (by simp)
  cases result with
  | skipped => exact ⟨[], nothing, rfl⟩
  | destroyed => exact ⟨[], nothing, rfl⟩
  | undone => exact ⟨[], nothing, rfl⟩
  | @placed r c camp f call =>
    refine ⟨[.status call.callStatus 0 call.connectTm call.establishTm dest.destId], ?_, rfl⟩
    intro sql mem
    obtain rfl := List.mem_singleton.mp mem
    exact ⟨d, dest, _, _, _, live, rfl⟩

theorem startFakeCalling_reports {env : DestId → DialEnv}
    (run : startFakeCalling s cp now env = .ok s') :
    ∃ ws, Reports s.book ws ∧ s'.db = s.db.execAll ws := by
  have account : Fewer s.book s'.book ∧ ∃ ws, Reports s.book ws ∧ s'.db = s.db.execAll ws := by
    refine startFakeCalling_rule
      (I := fun t => Fewer s.book t.book ∧ ∃ ws, Reports s.book ws ∧ t.db = s.db.execAll ws)
      ?_ ?_ ?_ ⟨.refl _, [], fun sql mem => absurd mem (by simp), rfl⟩ run
    · rintro t f ⟨fewer, wrote⟩ -
      exact ⟨fewer.trans (.of_dests rfl), wrote⟩
    · rintro book ⟨fewer, wrote⟩ filled
      exact ⟨fewer.trans (.rearranged (fillProcessl_rearranged filled)), wrote⟩
    · rintro d t dest t' destroyed - ⟨fewer, ws, reports, wrote⟩ live result
      obtain ⟨ws', reports', wrote'⟩ := result.reports live
      refine ⟨fewer.trans result.fewer, ws ++ ws', reports.append (reports'.earlier fewer), ?_⟩
      rw [wrote', wrote, execAll_append]
  exact account.2

/-! ## Ends of calls -/

theorem Recorded.enqueued {db db' : Db Sql} {u : FinalUpdate} (recorded : Recorded db u db') :
    ∃ rest, (rest = [] ∨ ∃ f, rest = [Sql.forwarding f]) ∧ db' = db.execAll (.final u :: rest) := by
  rcases recorded with rfl | ⟨f, rfl⟩
  · exact ⟨[], .inl rfl, rfl⟩
  · exact ⟨[.forwarding f], .inr ⟨f, rfl⟩, rfl⟩

/-- A positive duration in the final record is that of an established call. -/
theorem finalUpdate_positive {call : Call}
    (positive : 0 < (finalUpdate dest call.forceEnd now).callDuration) :
    call.callStatus = .established ∧ 0 < toInt32 (now - call.establishTm) := by
  have duration : 0 < call.duration now := positive
  unfold Call.duration at duration
  split at duration
  next up => exact ⟨up, duration⟩
  next => exact absurd duration (by decide)

theorem supervised_enqueues {env : AllocEnv} (inv : Inv ans s) (armed : dest.tmr = true)
    (live : s.book.dests.get d = some dest)
    (run : onCallEnd (s.disarmDest d) d now env = .ok s') :
    ∃ ws, Enqueues s (.destTimer d now env) s' ws ∧ s'.db = s.db.execAll ws := by
  obtain ⟨c, call, has, liveCall, result⟩ := inv.supervised_cases live armed run
  cases result with
  | rearmed _ rules =>
    refine ⟨[], .reports fun sql mem => absurd mem (by simp), ?_⟩
    rw [rules.frame]
    rfl
  | destroyed _ _ _ recorded =>
    obtain ⟨rest, forwarding, wrote⟩ := recorded.enqueued
    refine ⟨_, .outcome live rfl forwarding fun _ => .inl ?_, wrote⟩
    exact (Book.remove_dests d).trans (if_pos rfl)
  | @requeued camp duration db media ruled liveCamp lasted recorded keeps =>
    obtain ⟨rest, forwarding, wrote⟩ := recorded.enqueued
    refine ⟨_, .outcome live rfl forwarding fun positive => .inr ?_, wrote⟩
    obtain ⟨up, talked⟩ := finalUpdate_positive positive
    have ends : Ends s d now env dest camp c call := .of_ended live liveCamp has liveCall ruled
    refine ⟨dest, camp, c, call, ⟨ends, up⟩, talked, fun done => keeps ?_⟩
    exact done.imp_right (lasted.positive_iff up).mpr

/-! ## Steps -/

/-- What a step of the main loop enqueues. -/
theorem mainStep_enqueues (inv : Inv ans s) (main : e.isMain = true) (step : dialer.step s e s') :
    ∃ ws, Enqueues s e s' ws ∧ s'.db = s.db.execAll ws := by
  cases step_cases step with
  | pulled => cases main
  | ticked ticks run =>
    obtain ⟨f, msgq, torn, lost, -, rfl⟩ := ticks.state
    obtain ⟨ws, reports, wrote⟩ := startFakeCalling_reports run
    exact ⟨ws, .reports reports, wrote⟩
  | supervised live armed run => exact supervised_enqueues inv armed live run
  | calledBack _ reported =>
    rcases reported with rfl | ⟨d, dest, status, connectTm, establishTm, live, rfl⟩
    · exact ⟨[], .reports fun sql mem => absurd mem (by simp), rfl⟩
    · refine ⟨[.status status 0 connectTm establishTm dest.destId], .reports ?_, rfl⟩
      intro sql mem
      obtain rfl := List.mem_singleton.mp mem
      exact ⟨d, dest, _, _, _, live, rfl⟩
  | lost => exact ⟨[], .reports fun sql mem => absurd mem (by simp), rfl⟩

end Autodialer
