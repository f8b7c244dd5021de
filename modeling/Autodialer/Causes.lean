import Autodialer.CallStatements

/-!
# The disconnect cause in the final record

`close_handler` finds out why a call has ended and keeps the cause in `resp_code`.
`on_call_end`, which writes the final record, stores 1 there for every ended call
first, for those that it has ended itself and for the others too.

* `final_cause`: the cause in a final record is always 1.
* `causes_recorded_iff`: in a run every final record has the real cause exactly when
  no recorded call was ended by `close_handler` with another cause than 1.
* `cause_lost`: a rejection with 486 is recorded with the cause 1.
-/

namespace Autodialer

variable {s s' t t' : Sys} {e : Event} {d : DestId} {c : CallId} {dest : Destination} {call : Call}
  {now : Time} {env : AllocEnv} {ans : CallId → Addr → Prop} {h h₁ h₂ : List (Sys × Event)}

/-! ## The property -/

/-- `close_handler` was called for the running call `c` with these arguments, when it
looked like `call`. -/
def ClosedBy (h : List (Sys × Event)) (c : CallId) (call : Call) (err : Bool) (scode : Nat) : Prop :=
  ∃ t, (t, .close c err scode) ∈ h ∧ t.media.calls.get c = some call ∧ call.ended = false

/-- The real causes of the end of the call `c`, after the history `h`, when its
`on_call_end` finds it as `call`. -/
inductive Cause (h : List (Sys × Event)) (c : CallId) (call : Call) : Nat → Prop
  | rejected {old : Call} {scode : Nat} : ClosedBy h c old false scode →
      old.callStatus ≠ .established → 0 < scode → Cause h c call scode
  | failed {old : Call} {scode : Nat} : ClosedBy h c old true scode →
      old.callStatus ≠ .established → Cause h c call 400
  | hungUp {old : Call} {err : Bool} {scode : Nat} : ClosedBy h c old err scode →
      old.callStatus = .established → Cause h c call 2
  /-- `on_call_end` ends it itself. -/
  | forced : call.ended = false → Cause h c call 1

/-- In the run `h` the final record `u` of the call `c` is enqueued after `h₁`, where
the call is `call`. -/
def Records (h h₁ : List (Sys × Event)) (c : CallId) (call : Call) (u : FinalUpdate) : Prop :=
  ∃ t e t' h₂, h = h₁ ++ (t, e) :: h₂ ∧ dialer.step t e t' ∧ t.media.calls.get c = some call ∧
    (c, .final u) ∈ stepLog t e t'

/-! ## The cause that is recorded -/

/-- A final record comes from `on_call_end`. -/
theorem Ready.supervises {u : FinalUpdate} (ready : Ready s) (step : dialer.step s e s')
    (mem : (c, .final u) ∈ stepLog s e s') : ∃ d now env, e = .destTimer d now env := by
  have noStatus : ¬ IsStatus (.final u) := by
    rintro ⟨_, _, _, _, _, eq, -⟩
    cases eq
  have entry := mem_entriesOf.mpr mem
  cases (ready.account step).2 c with
  | bystander _ _ silent =>
    rw [silent] at entry
    cases entry
  | starts _ _ statuses => exact absurd (statuses _ entry) noStatus
  | goesOn _ _ _ statuses => exact absurd (statuses _ entry) noStatus
  | ends _ _ ends =>
    obtain ⟨d, now, env, _, _, isTimer, -⟩ := ends
    exact ⟨d, now, env, isTimer⟩

/-- The one final record among the records of an end is the first of them. -/
theorem Closes.final_eq {l : List Sql} {u u' : FinalUpdate} (closes : Closes call l)
    (first : l.head? = some (.final u)) (mem : .final u' ∈ l) : u' = u := by
  obtain ⟨w, -, ⟨-, rfl⟩ | ⟨leg, f, -, rfl⟩⟩ := closes
  · cases first
    cases List.mem_singleton.mp mem
    rfl
  · cases first
    rcases List.mem_cons.mp mem with eq | mem
    · cases eq
      rfl
    · cases List.mem_singleton.mp mem

/-- Whatever has ended the call, the cause in its final record is 1. -/
theorem final_cause {u : FinalUpdate} (ready : Ready s) (step : dialer.step s e s')
    (mem : (c, .final u) ∈ stepLog s e s') : u.disconnectCause = 1 := by
  obtain ⟨d, now, env, rfl⟩ := ready.supervises step mem
  obtain ⟨dest, live, armed, run⟩ := supervised_of_step step
  obtain ⟨p, call, has, liveCall, -⟩ := ready.inv.supervised_cases live armed run
  have log : stepLog s (.destTimer d now env) s' = enqueuedFor (some p) s s' := by
    rw [stepLog, owner_of_live live, has]
  rcases onCallEnd_writes (dests_disarmDest live) has liveCall run with
    ⟨_, _, -, -, -, db⟩ | ⟨-, ws, closes, db, first⟩
  · have nothing : stepLog s (.destTimer d now env) s' = [] :=
      log.trans (enqueuedFor_same (some p) db)
    rw [nothing] at mem
    cases mem
  · have entries : stepLog s (.destTimer d now env) s' = ws.map fun sql => (p, sql) :=
      log.trans (enqueuedFor_eq db)
    rw [entries] at mem
    obtain ⟨sql, written, eq⟩ := List.mem_map.mp mem
    cases eq
    rw [closes.final_eq first written]
    rfl

/-! ## Runs -/

/-- Every final record of a run has the real cause exactly when the recorded calls that
`close_handler` has ended were rejected with the code 1 (or with no code at all). -/
theorem causes_recorded_iff (run : dialer.Execution h s) :
    (∀ h₁ c call u n, Records h h₁ c call u → Cause h₁ c call n → u.disconnectCause = n) ↔
      ∀ h₁ c call u, Records h h₁ c call u → ∀ old err scode, ClosedBy h₁ c old err scode →
        old.callStatus ≠ .established ∧ err = false ∧ scode ≤ 1 := by
  have one : ∀ h₁ c call u, Records h h₁ c call u → u.disconnectCause = 1 := by
    rintro h₁ c call u ⟨t, e, t', h₂, rfl, step, -, mem⟩
    obtain ⟨_, before, -⟩ := run.split
    exact final_cause (execution_ready before) step mem
  constructor
  · intro real h₁ c call u records old err scode closed
    have is_one : ∀ n, Cause h₁ c call n → n = 1 := fun n cause =>
      (real h₁ c call u n records cause).symm.trans (one h₁ c call u records)
    rcases eq_or_ne old.callStatus .established with up | notUp
    · exact absurd (is_one 2 (.hungUp closed up)) (by decide)
    · cases err with
      | true => exact absurd (is_one 400 (.failed closed notUp)) (by decide)
      | false =>
        refine ⟨notUp, rfl, ?_⟩
        rcases Nat.eq_zero_or_pos scode with rfl | positive
        · exact Nat.zero_le 1
        · exact Nat.le_of_eq (is_one scode (.rejected closed notUp positive))
  · intro clean h₁ c call u n records cause
    rw [one h₁ c call u records]
    cases cause with
    | rejected closed _ positive =>
      exact Nat.le_antisymm positive (clean h₁ c call u records _ _ _ closed).2.2
    | failed closed => exact absurd (clean h₁ c call u records _ _ _ closed).2.1 (by decide)
    | hungUp closed up => exact absurd up (clean h₁ c call u records _ _ _ closed).1
    | forced => rfl

/-- Nobody answers, and after 40 seconds `on_call_end` ends the call. -/
theorem causes_recorded_iff_forced : ∃ h s, dialer.Execution h s ∧
    (∃ u, s.db.enqueued.getLast? = some (.final u) ∧ u.disconnectCause = 1) ∧
    ((∀ h₁ c call u n, Records h h₁ c call u → Cause h₁ c call n → u.disconnectCause = n) ↔
      ∀ h₁ c call u, Records h h₁ c call u → ∀ old err scode, ClosedBy h₁ c old err scode →
        old.callStatus ≠ .established ∧ err = false ∧ scode ≤ 1) := by
  obtain ⟨h, s, run, test⟩ := Lts.replay_exists SysInit Sys.next (s := Sys.boot 4 "/audio")
    [.pull oneCampaign, .message 100 fun _ => {}, .destTimer 0 141 {}]
    (fun _ s => s.db.enqueued.getLast?.any fun sql => match sql with
      | .final u => u.disconnectCause = 1
      | _ => false)
    ⟨4, "/audio", by decide, rfl⟩ (by decide)
  obtain ⟨sql, last, isFinal⟩ := (Option.any_eq_true ..).mp test
  cases sql with
  | final u => exact ⟨h, s, run, ⟨u, last, of_decide_eq_true isFinal⟩, causes_recorded_iff run⟩
  | status | forwarding => cases isFinal

/-- The contact is busy, and the record says 1. -/
theorem cause_lost : ∃ h h₁ s call u, dialer.Execution h s ∧ Records h h₁ 0 call u ∧
    Cause h₁ 0 call 486 ∧ u.disconnectCause = 1 := by
  obtain ⟨h, s, run, test⟩ := Lts.replay_exists SysInit Sys.next (s := Sys.boot 4 "/audio")
    [.pull oneCampaign, .message 100 fun _ => {}]
    (fun _ s => (s.media.calls.get 0).any fun old =>
      (old.callStatus ≠ .established && !old.ended) &&
      (s.next (.close 0 false 486)).any fun t => (t.media.calls.get 0).any fun _ =>
        (t.next (.destTimer 0 105 {})).any fun t' =>
          (stepLog t (.destTimer 0 105 {}) t').any fun x => x.1 = 0 && match x.2 with
            | .final _ => true
            | _ => false)
    ⟨4, "/audio", by decide, rfl⟩ (by decide)
  simp only [Option.any_eq_true, List.any_eq_true, Bool.and_eq_true, decide_eq_true_eq,
    Bool.not_eq_true'] at test
  obtain ⟨old, live, ⟨notUp, running⟩, t, closes, call, live', t', ends, ⟨_, sql⟩, mem, rfl, isFinal⟩ :=
    test
  cases sql with
  | status | forwarding => cases isFinal
  | final u =>
    have before := run.snoc (T := dialer) closes
    refine ⟨_, _, t', call, u, before.snoc ends, ⟨t, _, t', [], rfl, ends, live', mem⟩,
      .rejected ⟨s, List.mem_append_right _ (List.mem_singleton_self _), live, running⟩ notUp
        (by decide), final_cause (execution_ready before) ends mem⟩

end Autodialer
