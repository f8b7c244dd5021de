import Autodialer.Campaigns
import Autodialer.Fate

/-!
# INVITEs and the retry limit

`try_count` is meant to count the INVITEs of a destination, and the limit on it
to bound them. An INVITE whose call is dropped for want of an audio file and of
a PBX is not counted; `Undoes` is the step that sends one.

* `Budget`: what a destination has still to spend.
* `invites_within`: without such a step the limit bounds the INVITEs.
-/

namespace Autodialer

variable {s s' t : Sys} {m m' : Media} {d e : DestId} {c : CallId} {cp : CampId} {dest : Destination}
  {camp : Campaign} {call : Call} {now : Time} {ans : CallId → Addr → Prop} {n : Nat}

/-! ## Counting INVITEs -/

/-- An INVITE of a main call for the destination `d`. -/
def Wire.isDial (d : DestId) : Wire → Bool
  | .invite _ arg isPbx _ => arg == d && !isPbx
  | .datagram .. => false

/-- The number of INVITEs sent for `d`. -/
def Media.invitesFor (m : Media) (d : DestId) : Nat := m.wire.countP (Wire.isDial d)

theorem invitesFor_append {ws : List Wire} (sent : m'.wire = m.wire ++ ws) (d : DestId) :
    m'.invitesFor d = m.invitesFor d + ws.countP (Wire.isDial d) := by
  rw [Media.invitesFor, sent, List.countP_append, Media.invitesFor]

theorem invitesFor_congr (same : m'.wire = m.wire) (d : DestId) :
    m'.invitesFor d = m.invitesFor d := by
  rw [Media.invitesFor, same, Media.invitesFor]

theorem countP_invites (env : AllocEnv) (c : CallId) (arg : DestId) (isPbx : Bool)
    (tel : Option String) (d : DestId) :
    (invites env c arg isPbx tel).countP (Wire.isDial d) =
      if env.sipsessConnect = true ∧ arg = d ∧ isPbx = false then 1 else 0 := by
  unfold invites
  cases env.sipsessConnect <;> cases isPbx <;> by_cases same : arg = d <;>
    simp [Wire.isDial, same]

/-- `call_alloc` sends at most one INVITE, for its own destination. -/
theorem callAlloc_invites {env : AllocEnv} {callp : Option CallId} {tel : Option String}
    {gateway : SipUri} {isPbx : Bool} {mainPt : Nat} {arg : DestId} {r : Alloc}
    (run : callAlloc m env now callp tel gateway isPbx mainPt arg = .ok r) (d : DestId) :
    r.media.invitesFor d ≤ m.invitesFor d +
      if env.sipsessConnect = true ∧ arg = d ∧ isPbx = false then 1 else 0 := by
  rw [← countP_invites env m.calls.next arg isPbx tel d]
  rcases callAlloc_cases run with failed | ⟨rs, call, done⟩
  · rcases failed.wire with same | sent
    · rw [invitesFor_congr same]
      exact Nat.le_add_right _ _
    · rw [invitesFor_append sent]
  · rw [invitesFor_append done.wire]

/-! ## What is sent for a destination -/

theorem DialResult.invites_other {env : DialEnv} {destroyed : Bool}
    (result : DialResult s now env d dest s' destroyed) (other : d ≠ e) :
    s'.media.invitesFor e ≤ s.media.invitesFor e := by
  have none {r : Alloc} (calls : Calls s now env.alloc d dest r) :
      r.media.invitesFor e ≤ s.media.invitesFor e := by
    obtain ⟨_, _, _, -, -, -, placing⟩ := calls
    have sent := callAlloc_invites placing e
    rwa [if_neg (by simp [other]), Nat.add_zero] at sent
  cases result with
  | skipped => exact Nat.le_refl _
  | destroyed _ calls => exact none calls
  | undone _ calls _ _ _ _ _ gone =>
    rw [invitesFor_congr (memDerefCall_wire gone)]
    exact none calls
  | placed _ calls => exact none calls

theorem RulesResult.invites {env : AllocEnv} {halted : Bool}
    (rules : RulesResult s now env d c call t halted) (e : DestId) :
    t.media.invitesFor e ≤ s.media.invitesFor e := by
  -- a PBX leg is not a call to the contact
  have none {gateway : Gateway} {tel : Option String} {r : Alloc}
      (placing : callAlloc s.media env now call.pbxCall tel gateway.sipUri true call.pt d = .ok r) :
      r.media.invitesFor e ≤ s.media.invitesFor e := by
    simpa using callAlloc_invites placing e
  cases rules with
  | kept => exact Nat.le_refl _
  | ended => exact Nat.le_refl _
  | refused _ _ _ placing => exact none placing
  | forwarded _ _ _ placing => exact none placing

theorem EndResult.invites {env : AllocEnv} (result : EndResult s now env d dest c call s')
    (e : DestId) : s'.media.invitesFor e ≤ s.media.invitesFor e := by
  cases result with
  | rearmed _ rules => exact rules.invites e
  | destroyed _ _ _ _ _ gone => exact Nat.le_of_eq (invitesFor_congr (memDerefCall_wire gone) e)
  | requeued _ _ _ _ _ gone => exact Nat.le_of_eq (invitesFor_congr (memDerefCall_wire gone) e)

theorem callback_invites {ev : Event} (callback : ev.isCallback = true) (run : s.run ev = .ok s')
    (d : DestId) : s'.media.invitesFor d = s.media.invitesFor d := by
  cases ev with
  | progress c scode =>
    obtain ⟨db, -, rfl⟩ := progressHandler_cases run
    rfl
  | establish c env =>
    obtain ⟨_, _, _, -, -, result, rfl⟩ := establishHandler_cases run
    cases result <;> rfl
  | close c err scode =>
    obtain ⟨_, rfl⟩ := closeHandler_cases run
    rfl
  | rtp rs mb =>
    rcases rtpRecvHandler_sends run with same | ⟨t, -, sent⟩
    · exact invitesFor_congr same d
    · rw [invitesFor_append sent]
      rfl
  | played c =>
    cases run
    rfl
  | _ => cases callback

theorem flushDests_wire {l : List DestId} (run : flushDests l s = .ok s') :
    s'.media.wire = s.media.wire := by
  induction l generalizing s with
  | nil =>
    cases run
    rfl
  | cons d rest ih =>
    obtain ⟨dest, media, -, gone, run⟩ := flushDests_cons run
    refine (ih run).trans ?_
    split at gone
    · exact memDerefCall_wire gone
    · rw [gone]

theorem readCampaign_wire {row : CampaignRow} (run : readCampaign s cp row = .ok s') :
    s'.media.wire = s.media.wire := by
  obtain ⟨camp, -, ⟨-, -, run⟩ | ⟨-, gateway, pbxGateway, rfl⟩⟩ := readCampaign_cases run
  · obtain ⟨_, _, -, flushed, rfl⟩ := memDerefCampaign_cases run
    have quiet := flushDests_wire flushed
    exact quiet
  · rfl

theorem pull_wire {snap : Snapshot} (run : pullGroups s snap = .ok s') :
    s'.media.wire = s.media.wire := by
  refine pullGroups_rule (I := fun t => t.media.wire = s.media.wire) ?_ ?_ ?_ rfl run
  · intro t row t' same run
    rw [pullGateway_frame run]
    exact same
  · intro t row t' same run
    rcases pullCampaign_cases run with ⟨rfl, -⟩ | ⟨cp, -, -, run⟩ | ⟨-, -, run⟩
    · exact same
    · exact (readCampaign_wire run).trans same
    · exact (readCampaign_wire run).trans same
  · intro calls actions t cp t' same _ run
    obtain ⟨camp, -, ⟨rfl, -⟩ | ⟨-, rows, acts, l, -, -, rfl⟩⟩ := pullService_cases run
    · exact same
    · exact same

/-! ## Limits on the limit -/

/-- `max_try` is a byte. -/
def MaxTries (b : Book) : Prop := ∀ cp camp, b.camps.get cp = some camp → camp.maxTry < 2 ^ 8

theorem maxTries_persistent : Persistent fun camp => camp.maxTry < 2 ^ 8 where
  new := by decide
  row _ _ _ _ _ := Nat.mod_lt _ (by decide)
  settings camp camp' same byte := by
    obtain ⟨_, _, _, _, rfl⟩ := same
    exact byte
  actions _ _ byte := byte

theorem step_maxTries {ev : Event} (inv : Inv ans s) (tries : MaxTries s.book)
    (step : dialer.step s ev s') : MaxTries s'.book :=
  step_everyCamp maxTries_persistent inv tries step

/-! ## The budget of a destination -/

/-- The destination `d`, whose retry limit is `n`, has been sent no more INVITEs
than were counted. -/
structure Budget (n : Nat) (d : DestId) (s : Sys) : Prop where
  unborn : s.book.dests.next ≤ d → s.media.invitesFor d = 0
  within : s.media.invitesFor d ≤ n
  tried : ∀ dest, s.book.dests.get d = some dest →
    s.media.invitesFor d ≤ dest.tryCount ∧ dest.tryCount ≤ n
  /-- A destination without a call may be dialled once more. -/
  room : ∀ dest, s.book.dests.get d = some dest → dest.call = none → dest.tryCount < n

namespace Budget

/-- Nothing is sent, and nothing changes for the destination. -/
theorem congr (budget : Budget n d s) (next : s.book.dests.next ≤ s'.book.dests.next)
    (sent : s'.media.invitesFor d ≤ s.media.invitesFor d)
    (same : ∀ dest', s'.book.dests.get d = some dest' → ∃ dest, s.book.dests.get d = some dest ∧
      dest'.tryCount = dest.tryCount ∧ (dest'.call = none → dest.call = none)) :
    Budget n d s' where
  unborn above := by
    have before := budget.unborn (Nat.le_trans next above)
    omega
  within := Nat.le_trans sent budget.within
  tried dest' live := by
    obtain ⟨dest, old, tries, -⟩ := same dest' live
    rw [tries]
    exact ⟨Nat.le_trans sent (budget.tried dest old).1, (budget.tried dest old).2⟩
  room dest' live idle := by
    obtain ⟨dest, old, tries, was⟩ := same dest' live
    rw [tries]
    exact budget.room dest old (was idle)

theorem boot (k : Nat) (audioPath : String) : Budget n d (Sys.boot k audioPath) where
  unborn _ := rfl
  within := Nat.zero_le _
  tried _ live := by cases live
  room _ live := by cases live

/-- A destination is dialled. Its INVITE is counted, unless the call is dropped. -/
theorem dial {env : DialEnv} {destroyed : Bool} (budget : Budget n d s)
    (live : s.book.dests.get d = some dest) (byte : n < 2 ^ 8)
    (counted : ∀ r, dest.call = none → Calls s now env.alloc d dest r → r.err = false →
      env.alloc.sipsessConnect = true → ∀ camp, s.book.camps.get dest.cp = some camp →
      hasTarget s.audioPath camp env.access = true)
    (result : DialResult s now env d dest s' destroyed) : Budget n d s' := by
  have born := Heap.lt_next live
  have tried := budget.tried dest live
  cases result with
  | skipped => exact budget
  | @destroyed r idle calls err noCall =>
    have room := budget.room dest live idle
    obtain ⟨_, _, _, -, -, -, placing⟩ := calls
    have sent : r.media.invitesFor d ≤ s.media.invitesFor d + 1 :=
      Nat.le_trans (callAlloc_invites placing d) (by split <;> omega)
    have gone : (s.book.remove d).dests.get d = none := (Book.remove_dests d).trans (if_pos rfl)
    refine ⟨fun above => ?_, Nat.le_trans sent (by omega), fun dest' live' => ?_,
      fun dest' live' => ?_⟩
    · rw [(Fewer.remove s.book d).next] at above
      omega
    · rw [gone] at live'
      cases live'
    · rw [gone] at live'
      cases live'
  | @undone r c camp f media idle calls ok isCall liveCamp noTarget tags dropped =>
    have room := budget.room dest live idle
    -- a call is undone for want of a target, so by `counted` no INVITE was sent
    have quiet : env.alloc.sipsessConnect = false := by
      by_contra connected
      have target := counted r idle calls ok (by simpa using connected) camp liveCamp
      rw [noTarget] at target
      cases target
    obtain ⟨_, _, _, -, -, -, placing⟩ := calls
    have sent : media.invitesFor d ≤ s.media.invitesFor d := by
      have none : r.media.invitesFor d ≤ s.media.invitesFor d := by
        simpa [quiet] using callAlloc_invites placing d
      rw [invitesFor_congr (memDerefCall_wire dropped)]
      exact none
    have same : (dest.undone now).tryCount = dest.tryCount := by
      simp only [Destination.undone]
      omega
    refine budget.congr (Nat.le_refl _) sent fun dest' live' => ?_
    obtain rfl : dest.undone now = dest' := by
      simpa [live] using live'
    exact ⟨dest, live, same, fun _ => idle⟩
  | @placed r c camp f call idle calls ok isCall =>
    have room := budget.room dest live idle
    obtain ⟨_, _, _, -, -, -, placing⟩ := calls
    have sent : r.media.invitesFor d ≤ s.media.invitesFor d + 1 :=
      Nat.le_trans (callAlloc_invites placing d) (by split <;> omega)
    have placed : ∀ dest', (s.book.setDest d fun dest => dest.dialled c now).dests.get d = some dest' →
        dest' = dest.dialled c now := by
      intro dest' live'
      simpa [live, eq_comm] using live'
    have next : (dest.dialled c now).tryCount = dest.tryCount + 1 :=
      Nat.mod_eq_of_lt (by omega)
    refine ⟨fun above => ?_, Nat.le_trans sent (by omega), fun dest' live' => ?_,
      fun dest' live' noCall => ?_⟩
    · exact absurd born (Nat.not_lt.mpr above)
    · rw [placed dest' live', next]
      exact ⟨Nat.le_trans sent (by omega), by omega⟩
    · rw [placed dest' live'] at noCall
      cases noCall

end Budget

/-! ## Runs -/

/-- With the event `e` an INVITE is sent for `d` and the call is dropped, for there
is neither an audio file to play nor a PBX to join. -/
def Undoes (s : Sys) (d : DestId) (e : Event) : Prop :=
  ∃ cp now env t u camp dest r, Ticks s cp now env e t ∧ TickReaches t cp now env d u ∧
    s.book.camps.get cp = some camp ∧ hasTarget s.audioPath camp (env d).access = false ∧
    u.book.dests.get d = some dest ∧ dest.call = none ∧ Calls u now (env d).alloc d dest r ∧
    r.err = false ∧ (env d).alloc.sipsessConnect = true

theorem SameSettings.hasTarget {camp' : Campaign} (same : SameSettings camp camp')
    (audioPath : String) (access : Bool) :
    hasTarget audioPath camp' access = hasTarget audioPath camp access := by
  obtain ⟨_, _, _, _, rfl⟩ := same
  rfl

theorem DialResult.audioPath {env : DialEnv} {destroyed : Bool}
    (result : DialResult s now env d dest s' destroyed) : s'.audioPath = s.audioPath := by
  cases result <;> rfl

theorem Budget.tick {ev : Event} {env : DestId → DialEnv} (budget : Budget n d s) (inv : Inv ans s)
    (byte : ∀ dest, s.book.dests.get d = some dest → n < 2 ^ 8)
    (counted : ¬ Undoes s d ev) (ticks : Ticks s cp now env ev t)
    (run : startFakeCalling t cp now env = .ok s') : Budget n d s' := by
  have start : Budget n d t ∧ Fewer s.book t.book ∧ Steady s.book t.book ∧
      t.audioPath = s.audioPath := by
    obtain ⟨f, msgq, torn, lost, flags, rfl⟩ := ticks.state
    exact ⟨budget.congr (Nat.le_refl _) (Nat.le_refl _) fun dest live => ⟨dest, live, rfl, id⟩,
      .of_dests rfl, .flags flags, rfl⟩
  have startInv := inv.ticks ticks
  refine (startFakeCalling_rule (I := fun u => Budget n d u ∧ Fewer s.book u.book ∧
    Steady s.book u.book ∧ u.audioPath = s.audioPath) ?_ ?_ ?_ start run).1
  · rintro u f ⟨budget, fewer, steady, path⟩ flags
    exact ⟨budget.congr (Nat.le_refl _) (Nat.le_refl _) fun dest live => ⟨dest, live, rfl, id⟩,
      fewer.trans (.of_dests rfl), steady.trans (.flags flags), path⟩
  · rintro book ⟨budget, fewer, steady, path⟩ filled
    have change := fillProcessl_rearranged filled
    refine ⟨budget.congr (Nat.le_of_eq change.nextDest.symm) (Nat.le_refl _) fun dest' live => ?_,
      fewer.trans (.rearranged change), steady.trans (.relisted change.camps), path⟩
    obtain ⟨old, le, liveOld, rfl⟩ := change.of_dest live
    exact ⟨old, liveOld, rfl, id⟩
  · rintro d' u dest u' destroyed reached ⟨budget, fewer, steady, path⟩ live result
    refine ⟨?_, fewer.trans result.fewer, steady.trans (.relisted result.relisted),
      result.audioPath.trans path⟩
    by_cases here : d' = d
    · subst here
      obtain ⟨old, liveOld, -, onCp⟩ := fewer.same d' dest live
      refine budget.dial live (byte old liveOld) (fun r idle calls ok connected camp' liveCamp' => ?_)
        result
      by_contra noTarget
      obtain ⟨camp, liveCamp, same⟩ := steady dest.cp camp' liveCamp'
      obtain ⟨_, loop⟩ := reached.dialling startInv
      obtain ⟨dest₁, live₁, isCp, -⟩ := loop.on d' List.mem_cons_self
      obtain rfl := Option.some.inj (live.symm.trans live₁)
      subst isCp
      refine counted ⟨dest.cp, now, env, t, u, camp, dest, r, ticks, reached, liveCamp, ?_, live,
        idle, calls, ok, connected⟩
      rw [same.hasTarget, path] at noTarget
      simpa using noTarget
    · refine budget.congr (Nat.le_of_eq result.fewer.next.symm) (result.invites_other here)
        fun dest' live' => ?_
      rw [result.others (Ne.symm here)] at live'
      exact ⟨dest', live', rfl, id⟩

theorem Budget.supervised {env : AllocEnv} (budget : Budget n d s) (inv : Inv ans s)
    (positive : 0 < n)
    (limit : ∀ dest camp, s.book.dests.get d = some dest → s.book.camps.get dest.cp = some camp →
      camp.maxTry = n)
    (live : s.book.dests.get e = some dest) (armed : dest.tmr = true)
    (run : onCallEnd (s.disarmDest e) e now env = .ok s') : Budget n d s' := by
  obtain ⟨c, call, has, liveCall, result⟩ := inv.supervised_cases live armed run
  have sent : s'.media.invitesFor d ≤ s.media.invitesFor d := result.invites d
  have next : s.book.dests.next ≤ s'.book.dests.next := Nat.le_of_eq result.fewer.next.symm
  rcases eq_or_ne d e with rfl | here
  · cases result with
    | rearmed _ rules =>
      refine budget.congr next sent fun dest' live' => ⟨dest, live, ?_⟩
      cases (rearmed_dest live rules).symm.trans live'
      exact ⟨rfl, id⟩
    | destroyed =>
      refine budget.congr next sent fun dest' live' => ?_
      rw [Book.remove_dests, if_pos rfl] at live'
      cases live'
    | @requeued camp duration db media _ liveCamp _ _ why =>
      have moved := inv.requeued_dest live
      have isLimit : camp.maxTry = n := limit dest camp live liveCamp
      have room : dest.tryCount < n := by
        by_contra spent
        exact why (.inl ⟨isLimit ▸ positive, isLimit ▸ Nat.le_of_not_lt spent⟩)
      have tried := budget.tried dest live
      refine ⟨fun above => ?_, Nat.le_trans sent budget.within, fun dest' live' => ?_,
        fun dest' live' _ => ?_⟩
      · exact Nat.le_antisymm (Nat.le_trans sent
          (Nat.le_of_eq (budget.unborn (Nat.le_trans next above)))) (Nat.zero_le _)
      · obtain rfl := Option.some.inj (moved.symm.trans live')
        exact ⟨Nat.le_trans sent tried.1, tried.2⟩
      · obtain rfl := Option.some.inj (moved.symm.trans live')
        exact room
  · refine budget.congr next sent fun dest' live' => ?_
    rw [inv.supervised_others live armed run here] at live'
    exact ⟨dest', live', rfl, id⟩

theorem Budget.pull {snap : Snapshot} (budget : Budget n d s) (positive : 0 < n)
    (run : pullGroups s snap = .ok s') : Budget n d s' := by
  have onward := pull_onward run
  have sent : s'.media.invitesFor d = s.media.invitesFor d := invitesFor_congr (pull_wire run) d
  refine ⟨fun above => ?_, sent ▸ budget.within, fun dest' live' => ?_, fun dest' live' idle => ?_⟩
  · rw [sent]
    exact budget.unborn (Nat.le_trans onward.later.1 above)
  · rcases pull_dests run live' with old | ⟨above, row, cp, rfl⟩
    · rw [sent]
      exact budget.tried dest' old
    · rw [sent, budget.unborn above]
      exact ⟨Nat.zero_le _, Nat.zero_le _⟩
  · rcases pull_dests run live' with old | ⟨above, row, cp, rfl⟩
    · exact budget.room dest' old idle
    · exact positive

theorem Budget.step {ev : Event} (budget : Budget n d s) (inv : Inv ans s) (tries : MaxTries s.book)
    (positive : 0 < n)
    (limit : ∀ dest camp, s.book.dests.get d = some dest → s.book.camps.get dest.cp = some camp →
      camp.maxTry = n)
    (counted : ¬ Undoes s d ev) (step : dialer.step s ev s') : Budget n d s' := by
  cases step_cases step with
  | pulled run => exact budget.pull positive run
  | ticked ticks run =>
    refine budget.tick inv (fun dest live => ?_) counted ticks run
    obtain ⟨_, camp, -, -, liveCamp, -⟩ := inv.partition.linked d dest live
    exact limit dest camp live liveCamp ▸ tries dest.cp camp liveCamp
  | supervised live armed run => exact budget.supervised inv positive limit live armed run
  | calledBack callback _ run =>
    exact budget.congr (Nat.le_refl _) (Nat.le_of_eq (callback_invites callback run d))
      fun dest live => ⟨dest, live, rfl, id⟩
  | lost => exact budget.congr (Nat.le_refl _) (Nat.le_refl _) fun dest live => ⟨dest, live, rfl, id⟩

/-- A destination whose campaign has the retry limit `n` as long as it lives is
sent at most `n` INVITEs in a run without a step that undoes one. -/
theorem invites_within {h : List (Sys × Event)} (run : dialer.Execution h s) (positive : 0 < n)
    (constant : ∀ t, Lts.Visits h s t → ∀ dest camp, t.book.dests.get d = some dest →
      t.book.camps.get dest.cp = some camp → camp.maxTry = n)
    (counted : ∀ x ∈ h, ¬ Undoes x.1 d x.2) :
    ∀ t, Lts.Visits h s t → t.media.invitesFor d ≤ n := by
  intro t visit
  obtain ⟨h₁, h₂, rfl, run₁⟩ := run.of_visits visit
  have meets : ∀ x ∈ h₁, ¬ Undoes x.1 d x.2 ∧ ∀ dest camp, x.1.book.dests.get d = some dest →
      x.1.book.camps.get dest.cp = some camp → camp.maxTry = n := fun x mem =>
    ⟨counted x (List.mem_append_left _ mem),
      constant x.1 (.inr ⟨x.2, List.mem_append_left _ mem⟩)⟩
  have account := run₁.induct (C := fun s e => ¬ Undoes s d e ∧ ∀ dest camp,
      s.book.dests.get d = some dest → s.book.camps.get dest.cp = some camp → camp.maxTry = n)
    (I := fun h s => Inv (Answered h) s ∧ MaxTries s.book ∧ Budget n d s) meets
    (fun _ ⟨k, audioPath, _, eq⟩ => eq ▸ ⟨Inv.boot k audioPath, nofun, Budget.boot k audioPath⟩)
    (fun _ _ _ _ _ ⟨inv, tries, budget⟩ step ⟨counted, limit⟩ =>
      ⟨step_inv inv step, step_maxTries inv tries step,
        budget.step inv tries positive limit counted step⟩)
  exact account.2.2.within

/-- The one campaign, if it is there, may try once, and its audio file is found. -/
def mayTryOnce (s : Sys) : Bool :=
  s.book.camps.next ≤ 1 && (s.book.camps.get 0).all fun camp =>
    camp.maxTry == 1 && hasTarget s.audioPath camp true

/-- The audio file can be accessed for the first contact. -/
def Event.findsAudio : Event → Bool
  | .message _ env | .campTimer _ _ env => (env 0).access
  | _ => true

theorem mayTryOnce_camp (once : mayTryOnce s = true) (live : s.book.camps.get cp = some camp) :
    camp.maxTry = 1 ∧ hasTarget s.audioPath camp true = true := by
  rw [mayTryOnce, Bool.and_eq_true, decide_eq_true_eq, Option.all_eq_true] at once
  obtain rfl : cp = 0 := Nat.lt_one_iff.mp (Nat.lt_of_lt_of_le (Heap.lt_next live) once.1)
  simpa using once.2 camp live

theorem not_undoes {ev : Event} (once : mayTryOnce s = true) (finds : ev.findsAudio = true) :
    ¬ Undoes s 0 ev := by
  rintro ⟨cp, now, env, t, u, camp, dest, r, ticks, -, live, noTarget, -⟩
  have access : (env 0).access = true := by cases ticks <;> exact finds
  rw [access, (mayTryOnce_camp once live).2] at noTarget
  cases noTarget

theorem invites_within_once : ∃ h s, dialer.Execution h s ∧ 0 < s.media.invitesFor 0 ∧
    s.media.invitesFor 0 ≤ 1 := by
  obtain ⟨h, s, run, test⟩ := Lts.replay_exists SysInit Sys.next (s := Sys.boot 4 "/audio")
    [.pull oneCampaign, .message 100 fun _ => {}, .destTimer 0 101 {}]
    (fun h s => (0 < s.media.invitesFor 0 && mayTryOnce s) &&
      h.all fun x => mayTryOnce x.1 && x.2.findsAudio)
    ⟨4, "/audio", by decide, rfl⟩ (by decide)
  simp only [Bool.and_eq_true, decide_eq_true_eq, List.all_eq_true] at test
  obtain ⟨⟨sent, onceEnd⟩, once⟩ := test
  refine ⟨h, s, run, sent, invites_within run (by decide) ?_ ?_ s (.inl rfl)⟩
  · rintro t (rfl | ⟨ev, mem⟩) dest camp - live
    · exact (mayTryOnce_camp onceEnd live).1
    · exact (mayTryOnce_camp (once (t, ev) mem).1 live).1
  · exact fun x mem => not_undoes (once x mem).1 (once x mem).2

/-- The audio file is missing: two ticks send two INVITEs where the retry limit
is one throughout. -/
theorem invites_exceed : ∃ h s, dialer.Execution h s ∧
    (∀ t, Lts.Visits h s t → ∀ camp, t.book.camps.get 0 = some camp → camp.maxTry = 1) ∧
    s.media.invitesFor 0 = 2 := by
  obtain ⟨h, s, run, test⟩ := Lts.replay_exists SysInit Sys.next (s := Sys.boot 4 "/audio")
    [.pull oneCampaign, .message 100 fun _ => { access := false },
      .campTimer 0 110 fun _ => { access := false }]
    (fun h s => (s.media.invitesFor 0 == 2 && mayTryOnce s) && h.all fun x => mayTryOnce x.1)
    ⟨4, "/audio", by decide, rfl⟩ (by decide)
  simp only [Bool.and_eq_true, beq_iff_eq, List.all_eq_true] at test
  obtain ⟨⟨sent, onceEnd⟩, once⟩ := test
  refine ⟨h, s, run, ?_, sent⟩
  rintro t (rfl | ⟨ev, mem⟩) camp live
  · exact (mayTryOnce_camp onceEnd live).1
  · exact (mayTryOnce_camp (once (t, ev) mem) live).1

end Autodialer
