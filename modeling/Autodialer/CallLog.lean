import Autodialer.CallLimit
import Autodialer.CallSteps
import Autodialer.Fate
import Autodialer.SqlQueue

/-!
# The statements of one call

Every statement of the main loop is enqueued for one call: by the iteration of the
dial loop that places it, by the callbacks of its SIP session, or by the
supervision of its destination. `runLog` is the sequence of all statements of a
run, each with its call.

* `callback_log`, `onCallEnd_writes`, `startFakeCalling_logged`: the entries of a
  callback, of a supervision and of a tick.
-/

namespace Autodialer

variable {s s' t : Sys} {e : Event} {d : DestId} {c : CallId} {cp : CampId} {dest : Destination}
  {camp : Campaign} {call : Call} {now : Time} {ans : CallId → Addr → Prop}
  {h h₁ h₂ : List (Sys × Event)}

/-! ## The log -/

/-- What was enqueued between two states, for the call `c`. -/
def enqueuedFor (c : Option CallId) (s s' : Sys) : List (CallId × Sql) :=
  match c with
  | none => []
  | some c => (s'.db.enqueued.drop s.db.enqueued.length).map fun sql => (c, sql)

/-- The log of `dialLoop`: each iteration is about the call of its destination. -/
def dialLog (now : Time) (env : DestId → DialEnv) : List DestId → Sys → List (CallId × Sql)
  | [], _ => []
  | d :: rest, s =>
    match dialDest s now (env d) d with
    | .error _ => []
    | .ok (s', destroyed) =>
      enqueuedFor (s'.book.owner d) s s' ++
        if destroyed && (env d).freed ≠ .stale then [] else dialLog now env rest s'

/-- The log of `startFakeCalling`. -/
def tickLog (s : Sys) (cp : CampId) (now : Time) (env : DestId → DialEnv) : List (CallId × Sql) :=
  match fillProcessl s.book cp now with
  | .error _ => []
  | .ok book =>
    if (s.book.camps.get cp).any fun camp => camp.campaignStatus = 2 then
      dialLog now env ((book.camps.get cp).elim [] Campaign.processl) { s with book := book }
    else []

def stepLog (s : Sys) (e : Event) (s' : Sys) : List (CallId × Sql) :=
  match e with
  | .message now env =>
    match s.msgq with
    | [] => []
    | (_, cp) :: rest => tickLog (s.startCamp cp rest) cp now env
  | .campTimer cp now env => tickLog (s.disarmCamp cp) cp now env
  | .destTimer d _ _ => enqueuedFor (s.book.owner d) s s'
  | .progress c _ => enqueuedFor (some c) s s'
  | .establish c _ => enqueuedFor (some c) s s'
  | _ => []

/-- The statements of a run with their calls. -/
def runLog (h : List (Sys × Event)) : List (CallId × Sql) :=
  h.flatMap fun x => (x.1.next x.2).elim [] (stepLog x.1 x.2)

/-- The entries of a log for the call `c`. -/
def entriesOf (c : CallId) (log : List (CallId × Sql)) : List Sql :=
  (log.filter fun x => x.1 = c).map Prod.snd

/-! ## The kinds of statements -/

/-- A status record of a call that is not disconnected. -/
def IsStatus (sql : Sql) : Prop :=
  ∃ status duration connectTm establishTm id,
    sql = .status status duration connectTm establishTm id ∧
      status.toNat < CallStatus.disconnected.toNat

/-- The final record, and a forwarding record if there is a PBX leg. -/
def Closes (call : Call) (l : List Sql) : Prop :=
  ∃ u : FinalUpdate, u.callStatus = .disconnected ∧
    ((call.pbxCall = none ∧ l = [.final u]) ∨
      ∃ leg f, call.pbxCall = some leg ∧ l = [.final u, .forwarding f])

/-- It is the main call of a destination. -/
def Owned (s : Sys) (c : CallId) : Prop := ∃ d, s.book.owner d = some c

/-- In a state of the run the call has an `on_call_end` timer. -/
def Timed (h : List (Sys × Event)) (s : Sys) (c : CallId) : Prop :=
  ∃ t d dest, Lts.Visits h s t ∧ t.book.dests.get d = some dest ∧ dest.call = some c ∧
    dest.tmr = true

/-- In this step `on_call_end` sees that the call is ended. -/
def EndsAt (c : CallId) (call : Call) (x : Sys × Event) : Prop :=
  ∃ d now env dest camp, x.2 = .destTimer d now env ∧ Ends x.1 d now env dest camp c call

/-! ## Lemmas about logs -/

theorem enqueuedFor_eq {ws : List Sql} (wrote : s'.db = s.db.execAll ws) :
    enqueuedFor (some c) s s' = ws.map fun sql => (c, sql) := by
  rw [enqueuedFor, wrote, execAll_enqueued, List.drop_left]

theorem enqueuedFor_same (o : Option CallId) (same : s'.db = s.db) : enqueuedFor o s s' = [] := by
  cases o with
  | none => rfl
  | some c =>
    have nothing : s'.db = s.db.execAll [] := same
    rw [enqueuedFor_eq nothing, List.map_nil]

theorem entriesOf_append (log log' : List (CallId × Sql)) :
    entriesOf c (log ++ log') = entriesOf c log ++ entriesOf c log' := by
  rw [entriesOf, List.filter_append, List.map_append]
  rfl

theorem map_snd_tagged (c : CallId) (ws : List Sql) :
    (ws.map fun sql => (c, sql)).map Prod.snd = ws := by
  rw [List.map_map]
  exact List.map_id ws

theorem entriesOf_self (ws : List Sql) : entriesOf c (ws.map fun sql => (c, sql)) = ws := by
  rw [entriesOf, List.filter_eq_self.mpr (by simp), map_snd_tagged]

theorem entriesOf_none {log : List (CallId × Sql)} (other : ∀ x ∈ log, x.1 ≠ c) :
    entriesOf c log = [] := by
  rw [entriesOf, List.filter_eq_nil_iff.mpr (by simpa using other), List.map_nil]

theorem entriesOf_other {c' : CallId} (ne : c' ≠ c) (ws : List Sql) :
    entriesOf c (ws.map fun sql => (c', sql)) = [] :=
  entriesOf_none fun x mem => by
    obtain ⟨sql, -, rfl⟩ := List.mem_map.mp mem
    exact ne

theorem mem_entriesOf {log : List (CallId × Sql)} {sql : Sql} :
    sql ∈ entriesOf c log ↔ (c, sql) ∈ log := by
  simp [entriesOf]

theorem runLog_append (h₁ h₂ : List (Sys × Event)) : runLog (h₁ ++ h₂) = runLog h₁ ++ runLog h₂ :=
  List.flatMap_append

theorem runLog_snoc (step : dialer.step s e s') :
    runLog (h ++ [(s, e)]) = runLog h ++ stepLog s e s' := by
  have next : s.next e = some s' := step
  rw [runLog_append, runLog, runLog, List.flatMap_singleton, next]
  rfl

/-! ## Callbacks -/

/-- A callback reports the status of a live call, if it enqueues anything. -/
def Sys.ReportsLive (s s' : Sys) : Prop :=
  ∃ p call connectTm establishTm id, s'.media.calls.get p = some call ∧
    s'.db = dbExec s.db (.status call.callStatus 0 connectTm establishTm id)

theorem updateCallStatus_live {arg : Option DestId} (run : updateCallStatus s arg = .ok s') :
    s.ReportsLive s' := by
  obtain ⟨_, _, p, call, -, -, -, live, rfl⟩ := updateCallStatus_cases run
  exact ⟨p, call, _, _, _, live, rfl⟩

theorem Sys.ReportsLive.congr (reports : t.ReportsLive s') (same : t.db = s.db) :
    s.ReportsLive s' := by
  obtain ⟨p, call, connectTm, establishTm, id, live, wrote⟩ := reports
  exact ⟨p, call, connectTm, establishTm, id, live, by rw [wrote, same]⟩

theorem progressHandler_reports {scode : Nat} (live : s.media.calls.get c = some call)
    (run : progressHandler s c scode = .ok s') :
    s'.db = s.db ∨ (call.ispbxcall = false ∧ s.ReportsLive s') := by
  simp only [progressHandler, Sys.loadCall, load, live, Fallible.get?_some, Fallible.ok_bind] at run
  cases pbx : call.ispbxcall with
  | true =>
    rw [pbx, if_pos rfl] at run
    cases run
    exact .inl rfl
  | false =>
    rw [pbx, if_neg Bool.false_ne_true] at run
    have reports := updateCallStatus_live run
    exact .inr ⟨rfl, reports⟩

theorem establishHandler_reports {env : EstablishEnv} (live : s.media.calls.get c = some call)
    (run : establishHandler s c env = .ok s') :
    s'.db = s.db ∨ (call.ispbxcall = false ∧ s.ReportsLive s') := by
  simp only [establishHandler, Sys.loadCall, load, live, Fallible.get?_some, Fallible.ok_bind] at run
  split at run
  · cases run
    exact .inl rfl
  · cases format : env.answer.format with
    | none =>
      rw [format] at run
      cases run
      exact .inl rfl
    | some pt =>
      rw [format] at run
      obtain ⟨rs, -, run⟩ := Fallible.bind_eq_ok.mp run
      cases pbx : call.ispbxcall with
      | true =>
        rw [pbx, if_pos rfl] at run
        obtain ⟨_, _, _, _, -, -, -, -, rfl⟩ := establishBridge_cases run
        exact .inl rfl
      | false =>
        rw [pbx, if_neg Bool.false_ne_true] at run
        refine .inr ⟨rfl, (updateCallStatus_live run).congr ?_⟩
        cases call.joinPbx with
        | true => rfl
        | false =>
          unfold establishAudio
          cases env.thrdCreate <;> rfl

/-- What a callback enqueues, it enqueues for the live main call it is about. -/
theorem callback_log (callback : e.isCallback = true) (step : dialer.step s e s') :
    (s'.db = s.db ∧ stepLog s e s' = []) ∨ ∃ c call, s.media.calls.get c = some call ∧
      call.ispbxcall = false ∧ s.ReportsLive s' ∧ stepLog s e s' = enqueuedFor (some c) s s' := by
  obtain ⟨enabled, run⟩ := step_iff.mp step
  cases e with
  | progress c scode =>
    obtain ⟨call, live, -⟩ := (Option.any_eq_true ..).mp enabled
    rcases progressHandler_reports live run with same | ⟨main, reports⟩
    · exact .inl ⟨same, enqueuedFor_same (some c) same⟩
    · exact .inr ⟨c, call, live, main, reports, rfl⟩
  | establish c env =>
    obtain ⟨call, live, -⟩ := (Option.any_eq_true ..).mp enabled
    rcases establishHandler_reports live run with same | ⟨main, reports⟩
    · exact .inl ⟨same, enqueuedFor_same (some c) same⟩
    · exact .inr ⟨c, call, live, main, reports, rfl⟩
  | close c err scode =>
    obtain ⟨_, rfl⟩ := closeHandler_cases run
    exact .inl ⟨rfl, rfl⟩
  | rtp rs mb =>
    refine .inl ⟨?_, rfl⟩
    have forward : ∀ t : Sys, (rtpForward t rs mb).db = t.db := by
      intro t
      rcases rtpForward_cases t rs mb with ⟨-, eq⟩ | ⟨_, -, eq⟩ <;> rw [eq]
    rcases rtpRecvHandler_cases run with rfl | rfl | ⟨_, _, _, _, _, _, rfl | ⟨_, _, rfl⟩⟩
    · rfl
    · exact forward s
    · exact forward _
    · rfl
  | played c =>
    cases run
    exact .inl ⟨rfl, rfl⟩
  | _ => cases callback

/-! ## Ticks -/

/-- No live call is disconnected. -/
theorem step_notDisconnected (inv : Inv ans s)
    (every : EveryCall (fun call => call.callStatus ≠ .disconnected) s.media)
    (step : dialer.step s e s') :
    EveryCall (fun call => call.callStatus ≠ .disconnected) s'.media := by
  refine step_everyCall inv every step ?_ ?_
  · rintro call (_ | _)
    · exact CallStatus.noConfusion
    · exact CallStatus.noConfusion
  · intro c call call' _ old write
    cases write with
    | kept | progress | again | closed | pressed | played | forwarded => exact old
    | noFormat | answered => exact CallStatus.noConfusion

/-- The log of a part of a tick: the calls in it are new and owned in the end. -/
structure Logged (s s' : Sys) (log : List (CallId × Sql)) : Prop where
  wrote : s'.db = s.db.execAll (log.map Prod.snd)
  entry : ∀ x ∈ log, s.media.calls.next ≤ x.1 ∧ Owned s' x.1 ∧ IsStatus x.2
  kept : ∀ c, Owned s c → Owned s' c
  new : ∀ c, Owned s' c → Owned s c ∨ s.media.calls.next ≤ c
  next : s.media.calls.next ≤ s'.media.calls.next

namespace Logged

theorem of_owner (owner : s'.book.owner = s.book.owner) (media : s'.media = s.media)
    (db : s'.db = s.db) : Logged s s' [] where
  wrote := db
  entry x mem := absurd mem List.not_mem_nil
  kept c owned := by rwa [Owned, owner]
  new c owned := .inl (by rwa [Owned, owner] at owned)
  next := Nat.le_of_eq (by rw [media])

theorem trans {log log' : List (CallId × Sql)} (first : Logged s t log)
    (second : Logged t s' log') : Logged s s' (log ++ log') where
  wrote := by rw [second.wrote, first.wrote, List.map_append, execAll_append]
  entry x mem := by
    rcases List.mem_append.mp mem with mem | mem
    · obtain ⟨new, owned, status⟩ := first.entry x mem
      exact ⟨new, second.kept _ owned, status⟩
    · obtain ⟨new, owned, status⟩ := second.entry x mem
      exact ⟨Nat.le_trans first.next new, owned, status⟩
  kept c owned := second.kept c (first.kept c owned)
  new c owned := by
    rcases second.new c owned with owned | new
    · exact first.new c owned
    · exact .inr (Nat.le_trans first.next new)
  next := Nat.le_trans first.next second.next

end Logged

/-- A dialled destination owns the call that it gets, and the others keep theirs. -/
theorem DialResult.logged {env : DialEnv} {destroyed : Bool}
    (live : s.book.dests.get d = some dest)
    (result : DialResult s now env d dest s' destroyed) :
    Logged s s' (enqueuedFor (s'.book.owner d) s s') := by
  have others : ∀ f, f ≠ d → s'.book.owner f = s.book.owner f := by
    intro f ne
    rw [Book.owner, result.others ne]
    rfl
  have next := (result.grows (.pull ⟨none, none, fun _ => none, fun _ => none⟩)).next
  -- nothing is written when the destination is left without a call
  have idle : dest.call = none → s'.book.owner d = none → s'.db = s.db →
      Logged s s' (enqueuedFor (s'.book.owner d) s s') := by
    intro noCall unowned db
    rw [enqueuedFor_same _ db]
    refine ⟨db, fun x mem => absurd mem List.not_mem_nil, ?_, ?_, next⟩
    · rintro c ⟨f, owned⟩
      refine ⟨f, (others f ?_).trans owned⟩
      rintro rfl
      rw [owner_of_live live, noCall] at owned
      cases owned
    · rintro c ⟨f, owned⟩
      refine .inl ⟨f, (others f ?_).symm.trans owned⟩
      rintro rfl
      rw [unowned] at owned
      cases owned
  cases result with
  | skipped =>
    rw [enqueuedFor_same _ rfl]
    exact .of_owner rfl rfl rfl
  | destroyed noCall => exact idle noCall (by rw [owner_remove, Function.update_self]) rfl
  | undone noCall => exact idle noCall (by rw [owner_setDest live, Function.update_self]; rfl) rfl
  | @placed r c camp f call noCall calls ok isCall liveCamp target tags liveCall =>
    obtain ⟨_, _, _, -, -, -, placing⟩ := calls
    obtain ⟨rfl, rs, new, done⟩ := callAlloc_placed placing ok isCall
    have owner : (s.book.setDest d fun dest => dest.dialled s.media.calls.next now).owner d =
        some s.media.calls.next := by
      rw [owner_setDest live, Function.update_self]
      rfl
    have status : call.callStatus = .connecting := by
      rw [calls_setCall, done.calls, Heap.modify_alloc_next, Heap.get_alloc_next] at liveCall
      obtain ⟨pt, sess, rfl⟩ := done.new
      obtain ⟨_, _, eq⟩ := tags (Call.placed rs pt sess now d)
      rw [eq] at liveCall
      cases liveCall
      rfl
    show Logged s _ (enqueuedFor (Book.owner _ d) s _)
    have one : dbExec s.db (.status call.callStatus 0 call.connectTm call.establishTm dest.destId) =
        s.db.execAll [.status call.callStatus 0 call.connectTm call.establishTm dest.destId] := rfl
    rw [owner, enqueuedFor_eq one]
    refine ⟨rfl, ?_, ?_, ?_, next⟩
    · intro x mem
      obtain rfl := List.mem_singleton.mp mem
      exact ⟨Nat.le_refl _, ⟨d, owner⟩, _, _, _, _, _, rfl, by rw [status]; decide⟩
    · rintro c ⟨f, owned⟩
      refine ⟨f, (others f ?_).trans owned⟩
      rintro rfl
      rw [owner_of_live live, noCall] at owned
      cases owned
    · rintro c ⟨f, owned⟩
      rcases eq_or_ne f d with rfl | ne
      · exact .inr (Nat.le_of_eq (Option.some.inj (owner.symm.trans owned)))
      · exact .inl ⟨f, (others f ne).symm.trans owned⟩

theorem dialLoop_logged {env : DestId → DialEnv} {l : List DestId}
    (run : dialLoop now env l s = .ok s') : Logged s s' (dialLog now env l s) := by
  induction l generalizing s with
  | nil =>
    cases run
    exact .of_owner rfl rfl rfl
  | cons d rest ih =>
    obtain ⟨⟨t, destroyed⟩, dialled, run⟩ := Fallible.bind_eq_ok.mp run
    obtain ⟨dest, live, -⟩ := Fallible.bind_eq_ok.mp dialled
    have first := (dialDest_cases (load_eq_ok.mp live) dialled).logged (load_eq_ok.mp live)
    rw [dialLog, dialled]
    refine first.trans ?_
    dsimp only at run
    cases destroyed with
    | false => exact ih run
    | true =>
      cases freed : (env d).freed with
      | null =>
        rw [if_pos rfl, freed] at run
        cases run
        exact .of_owner rfl rfl rfl
      | stale =>
        rw [if_pos rfl, freed] at run
        exact ih run
      | trap =>
        rw [if_pos rfl, freed] at run
        cases run

theorem startFakeCalling_logged {env : DestId → DialEnv}
    (run : startFakeCalling s cp now env = .ok s') : Logged s s' (tickLog s cp now env) := by
  obtain ⟨camp, live, ⟨stopped, rfl⟩ | ⟨running, book, camp', t, filled, live', dialled, rfl⟩⟩ :=
    startFakeCalling_cases run
  · have nothing : tickLog s cp now env = [] := by
      unfold tickLog
      cases fillProcessl s.book cp now with
      | error => rfl
      | ok book =>
        rw [live]
        exact if_neg (by simpa using stopped)
    rw [nothing]
    exact .of_owner rfl rfl rfl
  · have log : tickLog s cp now env = dialLog now env camp'.processl { s with book := book } := by
      rw [tickLog, filled, live]
      exact (if_pos (decide_eq_true running)).trans (by rw [live']; rfl)
    have filling : Logged s { s with book := book } [] :=
      .of_owner (owner_rearranged (fillProcessl_rearranged filled)) rfl rfl
    have dialling := filling.trans (dialLoop_logged dialled)
    have marking : Logged t (t.setCamp cp fun camp => { camp with tmr := true }) [] :=
      .of_owner rfl rfl rfl
    rw [log, ← List.append_nil (dialLog _ _ _ _)]
    exact dialling.trans marking

/-! ## Supervision -/

theorem endDispose_db {duration : Int} (run : endDispose s d duration = .ok s') : s'.db = s.db := by
  obtain ⟨dest, live, run⟩ := Fallible.bind_eq_ok.mp run
  obtain ⟨c, -, run⟩ := Fallible.bind_eq_ok.mp run
  obtain ⟨call, -, run⟩ := Fallible.bind_eq_ok.mp run
  rw [Sys.loadDest, load_eq_ok] at live
  have destroyed : memDerefDest s d = .ok s' → s'.db = s.db := by
    intro run
    obtain ⟨_, -, rfl⟩ := memDerefDest_cases live run
    rfl
  split at run
  · obtain ⟨camp, -, run⟩ := Fallible.bind_eq_ok.mp run
    split at run
    · exact destroyed run
    · split at run
      · exact destroyed run
      · obtain ⟨t, dropped, run⟩ := Fallible.bind_eq_ok.mp run
        obtain ⟨_, -, rfl⟩ := dropCall_cases dropped
        cases run
        rfl
  · cases run
    rfl

/-- The records of `on_call_end` for a call that is ended. -/
theorem endRecord_writes {duration : Int} (live : s.book.dests.get d = some dest)
    (has : dest.call = some c) (liveCall : s.media.calls.get c = some call)
    (ended : call.ended = true) (run : endRecord s d now = .ok (s', duration)) :
    (call.pbxCall = none ∧ s'.db = s.db.execAll [.final (finalUpdate dest call now)]) ∨
      ∃ leg f, call.pbxCall = some leg ∧
        s'.db = s.db.execAll [.final (finalUpdate dest call now), .forwarding f] := by
  simp only [endRecord, Sys.loadDest, Sys.loadCall, load, live, has, liveCall, Fallible.get?_some,
    nonNull_some, Fallible.ok_bind, ended, if_true] at run
  cases hasLeg : call.pbxCall with
  | none =>
    rw [hasLeg] at run
    cases run
    exact .inl ⟨rfl, rfl⟩
  | some leg =>
    rw [hasLeg] at run
    obtain ⟨legCall, -, run⟩ := Fallible.bind_eq_ok.mp run
    obtain ⟨camp, -, run⟩ := Fallible.bind_eq_ok.mp run
    obtain ⟨⟨gateway, callTo⟩, -, run⟩ := Fallible.bind_eq_ok.mp run
    cases run
    exact .inr ⟨leg, _, rfl, rfl⟩

/-- `on_call_end` writes its records exactly for a call that is ended when its rules are
through. -/
theorem onCallEnd_writes {env : AllocEnv} (live : s.book.dests.get d = some dest)
    (has : dest.call = some c) (liveCall : s.media.calls.get c = some call)
    (run : onCallEnd s d now env = .ok s') :
    (∃ t call', endRules s d now env = .ok t ∧ t.media.calls.get c = some call' ∧
        call'.ended = false ∧ s'.db = s.db) ∨
      (∃ t call', endRules s d now env = .ok t ∧ t.media.calls.get c = some call' ∧
        call'.ended = true) ∧
      ∃ ws, Closes call ws ∧ s'.db = s.db.execAll ws ∧
        ws.head? = some (.final (finalUpdate dest call.forceEnd now)) := by
  obtain ⟨t, ruled, run⟩ := Fallible.bind_eq_ok.mp run
  obtain ⟨⟨t', duration⟩, recorded, disposed⟩ := Fallible.bind_eq_ok.mp run
  obtain ⟨halted, rules⟩ := endRules_cases live has liveCall ruled
  obtain ⟨call', liveCall', isOver, same⟩ := rules.call_after liveCall
  have liveDest : t.book.dests.get d = some dest := by rw [rules.frame]; exact live
  have db : t.db = s.db := by rw [rules.frame]
  cases halted with
  | false =>
    refine .inl ⟨t, call', ruled, liveCall', isOver, (endDispose_db disposed).trans ?_⟩
    simp only [endRecord, Sys.loadDest, Sys.loadCall, load, liveDest, has, liveCall',
      Fallible.get?_some, nonNull_some, Fallible.ok_bind, isOver] at recorded
    cases recorded
    exact db
  | true =>
    obtain rfl := same rfl
    refine .inr ⟨⟨t, _, ruled, liveCall', isOver⟩, ?_⟩
    have wrote := endDispose_db disposed
    rcases endRecord_writes liveDest has liveCall' isOver recorded with
      ⟨noLeg, records⟩ | ⟨leg, f, hasLeg, records⟩
    · exact ⟨_, ⟨_, rfl, .inl ⟨noLeg, rfl⟩⟩, by rw [wrote, records, db], rfl⟩
    · exact ⟨_, ⟨_, rfl, .inr ⟨leg, f, hasLeg, rfl⟩⟩, by rw [wrote, records, db], rfl⟩

end Autodialer
