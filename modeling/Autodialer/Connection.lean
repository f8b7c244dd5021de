import Autodialer.Loading
import Autodialer.Statements

/-!
# The connection handle

The database thread works with one handle. `db_sync` closes it when the ping fails,
and `db_reconnect` replaces it; when that fails too, the handle is null or closed,
`db_sync` returns, and the thread goes on with `pull_groups` as if nothing had
happened.

* `handle_protocol_iff`: in a run every handle passed to MySQL is usable exactly when
  the thread takes no step after a failed reconnect.
* `handle_used_closed`: after a failed connect the gateways are queried through the
  closed handle.
-/

namespace Autodialer

variable {w w' v : World} {e : WorldEvent} {h : List (World × WorldEvent)}

/-! ## The uses of the handle -/

/-- The functions of the MySQL client that take the handle. -/
inductive MysqlCall
  | query
  | storeResult
  | close
deriving DecidableEq, Repr

/-- A call with the handle it is given. -/
structure HandleUse where
  call : MysqlCall
  con : Handle
deriving DecidableEq, Repr

namespace World

/-- `get_results`: the result of a query that has succeeded is stored. -/
def getResults {α : Type} (w : World) (rows : Option α) : List HandleUse :=
  ⟨.query, w.sys.db.con⟩ :: if rows.isSome then [⟨.storeResult, w.sys.db.con⟩] else []

/-- The queries of the loop over the services, for one campaign. -/
def serviceUses (w : World) (camp : Campaign) (ok : Bool) (actions : Option (List ActionRow)) :
    List HandleUse :=
  if camp.isRunning then []
  else
    (if camp.destinations.isEmpty then w.getResults (w.selected ok camp.campaignId) else []) ++
      if (rowsFor (w.selected ok) camp).isSome then w.getResults (w.answer actions) else []

/-- The uses of the handle in a step. -/
def uses (w : World) : WorldEvent → List HandleUse
  | .sync (.ping ok) =>
    [⟨.query, w.sys.db.con⟩, ⟨if ok then .storeResult else .close, w.sys.db.con⟩]
  | .sync (.reconnect init connect) =>
    -- the handle that `mysql_init` has returned is closed when the connect fails
    if init && !connect then [⟨.close, .connected⟩] else []
  | .sync .query => [⟨.query, w.sys.db.con⟩]
  | .gateways rows => w.getResults (w.answer rows)
  | .campaigns rows => w.getResults (w.answer rows)
  | .service ok actions =>
    match w.pc with
    | .services (cp :: _) =>
      (w.sys.book.camps.get cp).elim [] fun camp => w.serviceUses camp ok actions
    | _ => []
  | _ => []

end World

/-- The step belongs to the database thread. -/
def WorldEvent.isThread : WorldEvent → Bool
  | .main _ | .insert _ => false
  | _ => true

/-- The thread takes no step after a failed `db_reconnect`. -/
def StopsUnconnected (h : List (World × WorldEvent)) : Prop :=
  ∀ h₁ v init connect h₂, h = h₁ ++ (v, .sync (.reconnect init connect)) :: h₂ →
    (init && connect) = false → ∀ y ∈ h₂, y.2.isThread = false

/-! ## What a step does with the handle -/

theorem execAll_con {α : Type} (db : Db α) (ws : List α) : (db.execAll ws).con = db.con := by
  induction ws generalizing db with
  | nil => rfl
  | cons sql ws ih => exact ih (dbExec db sql)

theorem uses_getResults {α : Type} (rows : Option α) :
    ∀ use ∈ w.getResults rows, use.con = w.sys.db.con := by
  intro use mem
  unfold World.getResults at mem
  rcases List.mem_cons.mp mem with rfl | mem
  · rfl
  · split at mem
    · cases List.mem_singleton.mp mem
      rfl
    · cases mem

/-- But for the one that is just made, a step uses the handle of the thread. -/
theorem uses_con : ∀ use ∈ w.uses e, use.con = w.sys.db.con ∨ use.con = .connected := by
  intro use mem
  cases e with
  | sync e =>
    cases e with
    | ping ok =>
      rcases List.mem_cons.mp mem with rfl | mem
      · exact .inl rfl
      · cases List.mem_singleton.mp mem
        exact .inl rfl
    | reconnect init connect =>
      rw [World.uses] at mem
      split at mem
      · cases List.mem_singleton.mp mem
        exact .inr rfl
      · cases mem
    | query =>
      cases List.mem_singleton.mp mem
      exact .inl rfl
    | detach | finish => cases mem
  | gateways rows => exact .inl (uses_getResults _ use mem)
  | campaigns rows => exact .inl (uses_getResults _ use mem)
  | service ok actions =>
    rcases here : w.pc with _ | _ | _ | ⟨_ | ⟨cp, rest⟩⟩
    case services.cons =>
      simp only [World.uses, here] at mem
      cases live : w.sys.book.camps.get cp with
      | none =>
        rw [live] at mem
        cases mem
      | some camp =>
        rw [live, Option.elim_some] at mem
        unfold World.serviceUses at mem
        split at mem
        · cases mem
        · rcases List.mem_append.mp mem with mem | mem
          · split at mem
            · exact .inl (uses_getResults _ use mem)
            · cases mem
          · split at mem
            · exact .inl (uses_getResults _ use mem)
            · cases mem
    all_goals
      rw [World.uses, here] at mem
      cases mem
  | main | wake | insert => cases mem

/-- A step of the main loop or of others leaves the thread and its handle alone. -/
theorem worldStep_idle (inv : Inv.Any w.sys) (step : world.step w e w')
    (other : e.isThread = false) : w'.pc = w.pc ∧ w'.sys.db.con = w.sys.db.con := by
  replace step : w.next e = some w' := step
  cases e with
  | main e =>
    rw [World.next] at step
    split at step
    next main =>
      obtain ⟨sys, taken, rfl⟩ := Option.map_eq_some_iff.mp step
      obtain ⟨ws, -, wrote⟩ := mainStep_enqueues inv main taken
      exact ⟨rfl, by rw [wrote, execAll_con]⟩
    next => cases step
  | insert r =>
    rw [World.next] at step
    split at step
    · cases step
    · cases step
      exact ⟨rfl, rfl⟩
  | sync | gateways | campaigns | service | wake => cases other

/-- After `db_sync` the thread queries the gateways. -/
theorem thread_gateways (here : w.pc = .gateways) (step : world.step w e w')
    (thread : e.isThread = true) : ∃ rows, e = .gateways rows := by
  replace step : w.next e = some w' := step
  cases e with
  | gateways rows => exact ⟨rows, rfl⟩
  | main | insert => cases thread
  | sync | campaigns | service | wake => simp [World.next, here] at step

/-! ## The state of the handle -/

/-- The handle is usable, or about to be replaced. -/
def Connected (w : World) : Prop :=
  w.sys.db.con = .connected ∨ ∃ le, w.pc = .sync (.reconnect le)

theorem Connected.uses (connected : Connected w) (step : world.step w e w') :
    ∀ use ∈ w.uses e, use.con = .connected := by
  intro use mem
  rcases connected with con | ⟨le, here⟩
  · rcases uses_con use mem with eq | eq
    · exact eq.trans con
    · exact eq
  · replace step : w.next e = some w' := step
    cases e with
    | sync e =>
      simp only [World.next, here] at step
      cases e with
      | reconnect init connect =>
        rw [World.uses] at mem
        split at mem
        · cases List.mem_singleton.mp mem
          rfl
        · cases mem
      | ping | detach | query | finish => cases step
    | gateways | campaigns | service => simp [World.next, here] at step
    | main | wake | insert => cases mem

/-- What `db_sync` does with the handle. -/
theorem dbSync_con {α : Type} {db db' : Db α} {pc pc' : SyncPc} {e : SyncEvent}
    (step : dbSync db pc e = some (db', pc')) :
    ((∀ init connect, e ≠ .reconnect init connect) ∧
        (db'.con = db.con ∨ ∃ le, pc' = .reconnect le)) ∨
      ∃ init connect, e = .reconnect init connect ∧
        (db'.con = .connected ∧ (init && connect) = true ∨
          db'.con ≠ .connected ∧ (init && connect) = false ∧ pc' = .idle) := by
  unfold dbSync at step
  split at step
  · cases step
    exact .inl ⟨fun _ _ => SyncEvent.noConfusion, .inl rfl⟩
  · cases step
    exact .inl ⟨fun _ _ => SyncEvent.noConfusion, .inl rfl⟩
  next le =>
    cases step
    exact .inl ⟨fun _ _ => SyncEvent.noConfusion, .inr ⟨le, rfl⟩⟩
  next le init connect =>
    refine .inr ⟨init, connect, rfl, ?_⟩
    cases init with
    | false =>
      cases step
      exact .inr ⟨Handle.noConfusion, rfl, rfl⟩
    | true =>
      cases connect with
      | false =>
        cases step
        exact .inr ⟨Handle.noConfusion, rfl, rfl⟩
      | true =>
        cases step
        exact .inl ⟨rfl, rfl⟩
  · obtain ⟨query, -, eq⟩ := Option.map_eq_some_iff.mp step
    cases eq
    exact .inl ⟨fun _ _ => SyncEvent.noConfusion, .inl rfl⟩
  · cases step
    exact .inl ⟨fun _ _ => SyncEvent.noConfusion, .inl rfl⟩
  · cases step

theorem pc_synced {db : Db Sql} {le : Option Nat} :
    (w.synced db (.reconnect le)).pc = .sync (.reconnect le) := rfl

/-- A step keeps the connection unless a reconnect fails in it. -/
theorem Connected.step (connected : Connected w) (inv : Inv.Any w.sys) (step : world.step w e w') :
    Connected w' ∨
      ∃ init connect, e = .sync (.reconnect init connect) ∧ (init && connect) = false := by
  cases thread : e.isThread with
  | false =>
    obtain ⟨pc, con⟩ := worldStep_idle inv step thread
    refine .inl ?_
    rwa [Connected, pc, con]
  | true =>
    cases worldStep_cases step with
    | main | inserted => cases thread
    | @sync e pc pc' db here taken =>
      rcases dbSync_con taken with ⟨other, con | ⟨le, rfl⟩⟩ | ⟨init, connect, rfl, account⟩
      · rcases connected with up | ⟨le, waits⟩
        · exact .inl (.inl (con.trans up))
        · -- only a reconnect goes on from there
          obtain rfl : pc = .reconnect le := DbPc.sync.inj (here.symm.trans waits)
          cases e with
          | reconnect init connect => exact absurd rfl (other init connect)
          | ping | detach | query | finish => cases taken
      · exact .inl (.inr ⟨le, pc_synced⟩)
      · rcases account with ⟨up, -⟩ | ⟨-, failed, -⟩
        · exact .inl (.inl up)
        · exact .inr ⟨init, connect, rfl, failed⟩
    | gateways here run =>
      rcases connected with up | ⟨le, waits⟩
      · exact .inl (.inl ((congrArg Db.con (pullGateways_db run)).trans up))
      · cases here.symm.trans waits
    | campaigns here run =>
      rcases connected with up | ⟨le, waits⟩
      · exact .inl (.inl ((congrArg Db.con (pullCampaigns_db run)).trans up))
      · cases here.symm.trans waits
    | service here run =>
      rcases connected with up | ⟨le, waits⟩
      · exact .inl (.inl ((congrArg Db.con (pullService_db run)).trans up))
      · cases here.symm.trans waits
    | passed here =>
      rcases connected with up | ⟨le, waits⟩
      · exact .inl (.inl up)
      · rcases here with here | here
        · cases here.symm.trans waits
        · cases here.symm.trans waits
    | woken here =>
      rcases connected with up | ⟨le, waits⟩
      · exact .inl (.inl up)
      · cases here.symm.trans waits

/-- The thread has returned from `db_sync` without a connection. -/
structure Unconnected (w : World) : Prop where
  inv : Inv.Any w.sys
  pc : w.pc = .gateways
  con : w.sys.db.con ≠ .connected

theorem reconnect_unconnected {init connect : Bool} (inv : Inv.Any w.sys)
    (step : world.step w (.sync (.reconnect init connect)) w')
    (failed : (init && connect) = false) : Unconnected w' := by
  have after := worldStep_inv inv step
  cases worldStep_cases step with
  | passed here =>
    replace step : w.next _ = some _ := step
    rcases here with here | here
    · simp [World.next, here] at step
    · simp [World.next, here] at step
  | @sync _ pc pc' db here taken =>
    rcases dbSync_con taken with ⟨other, -⟩ | ⟨_, _, eq, ⟨-, up⟩ | ⟨down, -, rfl⟩⟩
    · exact absurd rfl (other init connect)
    · cases eq
      rw [failed] at up
      cases up
    · exact ⟨after, rfl, down⟩

/-- As long as all handles are usable, the unconnected thread does nothing. -/
theorem Unconnected.idle (run : world.Run w h w') (start : Unconnected w)
    (usable : ∀ x ∈ h, ∀ use ∈ x.1.uses x.2, use.con = .connected) :
    ∀ x ∈ h, x.2.isThread = false := by
  have account : Unconnected w' ∧ ∀ x ∈ h, x.2.isThread = false := by
    induction run with
    | nil => exact ⟨start, fun x mem => absurd mem List.not_mem_nil⟩
    | @snoc h t u e _ step ih =>
      obtain ⟨here, idle⟩ := ih fun x mem => usable x (List.mem_append_left _ mem)
      have last : (t, e) ∈ h ++ [(t, e)] := List.mem_append_right h (List.mem_singleton_self _)
      cases thread : e.isThread with
      | true =>
        obtain ⟨rows, rfl⟩ := thread_gateways here.pc step thread
        exact absurd (usable _ last ⟨.query, t.sys.db.con⟩ List.mem_cons_self) here.con
      | false =>
        obtain ⟨pc, con⟩ := worldStep_idle here.inv step thread
        refine ⟨⟨worldStep_inv here.inv step, pc.trans here.pc, by rw [con]; exact here.con⟩, ?_⟩
        intro x mem
        rcases List.mem_append.mp mem with old | new
        · exact idle x old
        · rw [List.mem_singleton.mp new]
          exact thread
  exact account.2

/-! ## Runs -/

theorem uses_idle (other : e.isThread = false) : w.uses e = [] := by
  cases e with
  | main | insert => rfl
  | sync | gateways | campaigns | service | wake => cases other

/-- No use of the handle in a run is on a null or closed one exactly when the thread
takes no step after a failed reconnect. -/
theorem handle_protocol_iff (run : world.Execution h w) :
    (∀ x ∈ h, ∀ use ∈ x.1.uses x.2, use.con = .connected) ↔ StopsUnconnected h := by
  constructor
  · rintro usable h₁ v init connect h₂ rfl failed
    obtain ⟨u, before, step, rest⟩ := run.split
    have unconnected := reconnect_unconnected (world_inv before.reachable) step failed
    exact unconnected.idle rest fun x mem =>
      usable x (List.mem_append_right _ (List.mem_cons_of_mem _ mem))
  · -- the handle is usable until a reconnect fails, and then there are no more uses
    have account : StopsUnconnected h →
        (∀ x ∈ h, ∀ use ∈ x.1.uses x.2, use.con = .connected) ∧
          (Connected w ∨ ∃ v init connect, (v, .sync (.reconnect init connect)) ∈ h ∧
            (init && connect) = false) := by
      refine run.induct (C := fun _ _ => True) (I := fun h w => StopsUnconnected h →
        (∀ x ∈ h, ∀ use ∈ x.1.uses x.2, use.con = .connected) ∧
          (Connected w ∨ ∃ v init connect, (v, .sync (.reconnect init connect)) ∈ h ∧
            (init && connect) = false)) (fun _ _ => trivial) ?_ ?_
      · rintro w ⟨⟨n, audioPath, -, eq⟩, -⟩ -
        refine ⟨fun x mem => absurd mem List.not_mem_nil, .inl (.inl ?_)⟩
        rw [eq]
        rfl
      · intro h w e w' before ih step _ stops
        have earlier : StopsUnconnected h := by
          rintro h₁ v init connect h₂ rfl failed y mem
          refine stops h₁ v init connect (h₂ ++ [(w, e)]) (by simp) failed y ?_
          exact List.mem_append_left _ mem
        obtain ⟨usable, state⟩ := ih earlier
        have last : (∀ use ∈ w.uses e, use.con = .connected) →
            ∀ x ∈ h ++ [(w, e)], ∀ use ∈ x.1.uses x.2, use.con = .connected := by
          intro here x mem
          rcases List.mem_append.mp mem with old | new
          · exact usable x old
          · rw [List.mem_singleton.mp new]
            exact here
        rcases state with connected | ⟨v, init, connect, mem, failed⟩
        · refine ⟨last (connected.uses step), ?_⟩
          rcases connected.step (world_inv before.reachable) step with up | ⟨init, connect, rfl, failed⟩
          · exact .inl up
          · exact .inr ⟨w, init, connect, List.mem_append_right _ (List.mem_singleton_self _), failed⟩
        · refine ⟨last ?_, .inr ⟨v, init, connect, List.mem_append_left _ mem, failed⟩⟩
          obtain ⟨h₁, h₂, rfl⟩ := List.append_of_mem mem
          have idle : e.isThread = false :=
            stops h₁ v init connect (h₂ ++ [(w, e)]) (by simp) failed (w, e) (by simp)
          rw [uses_idle idle]
          exact fun use mem => absurd mem List.not_mem_nil
    exact fun stops => (account stops).1

/-- Two turns of the thread whose pings are answered. -/
theorem handle_protocol_iff_turn : ∃ h w, world.Execution h w ∧ h.length = 18 ∧
    ((∀ x ∈ h, ∀ use ∈ x.1.uses x.2, use.con = .connected) ↔ StopsUnconnected h) := by
  obtain ⟨h, w, run, test⟩ := Lts.replay_exists WorldInit World.next (s := twoContacts) pausedTick
    (fun h _ => h.length == 18) ⟨⟨4, "/audio", by decide, rfl⟩, rfl, by decide⟩ (by decide)
  exact ⟨h, w, run, beq_iff_eq.mp test, handle_protocol_iff run⟩

/-- The ping fails, the connect fails, and the gateways are queried through the handle
that `db_reconnect` has closed. -/
theorem handle_used_closed : ∃ h w t rows, world.Execution h w ∧
    (t, .gateways rows) ∈ h ∧ ⟨.query, .closed⟩ ∈ t.uses (.gateways rows) := by
  obtain ⟨h, t, run, closed⟩ := Lts.replay_exists WorldInit World.next (s := twoContacts)
    [.sync .detach, .sync (.ping false), .sync (.reconnect true false)]
    (fun _ t => t.sys.db.con = .closed && (t.next (.gateways none)).isSome)
    ⟨⟨4, "/audio", by decide, rfl⟩, rfl, by decide⟩ (by decide)
  obtain ⟨closed, goesOn⟩ := Bool.and_eq_true_iff.mp closed
  obtain ⟨w, step⟩ := Option.isSome_iff_exists.mp goesOn
  refine ⟨_, w, t, none, run.snoc (T := world) step, List.mem_append_right _
    (List.mem_singleton_self _), ?_⟩
  rw [← of_decide_eq_true closed]
  exact List.mem_cons_self

end Autodialer
