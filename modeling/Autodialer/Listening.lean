import Autodialer.CallSteps

/-!
# Which calls are listened to

`rtp_recv_handler` looks for telephone events in the packets of a session only when
`telev_recv` is set there, and only the answer of a call that plays its audio file
sets it.

* `step_listened`: a session that is listened to was so before for the same call,
  unless its call has just been answered.
* `Unheard.step`: no call that joins the PBX is listened to.
-/

namespace Autodialer

variable {s s' : Sys} {m m' m'' : Media} {e : Event} {c : CallId} {call : Call} {d : DestId}
  {dest : Destination} {now : Time} {rs : SessionId} {ans : CallId → Addr → Prop}

/-- A session that is listened to in `m'` was so in `m`, for the same call. -/
def Listened (m m' : Media) : Prop :=
  ∀ rs, (m'.rtp rs).televRecv = true →
    (m.rtp rs).televRecv = true ∧ (m'.rtp rs).arg = (m.rtp rs).arg

namespace Listened

theorem of_rtp (same : m'.rtp = m.rtp) : Listened m m' := by
  intro rs on
  rw [same] at on ⊢
  exact ⟨on, rfl⟩

@[refl] theorem refl (m : Media) : Listened m m := of_rtp rfl

theorem trans (first : Listened m m') (second : Listened m' m'') : Listened m m'' := by
  intro rs on
  obtain ⟨on', arg'⟩ := second rs on
  obtain ⟨on'', arg''⟩ := first rs on'
  exact ⟨on'', arg'.trans arg''⟩

theorem setSession {f : RtpSession → RtpSession} (rs : SessionId)
    (same : ∀ r, (f r).televRecv = r.televRecv ∧ (f r).arg = r.arg) :
    Listened m (m.setSession rs f) := by
  intro rs' on
  rw [rtp_setSession] at on ⊢
  split
  next here =>
    rw [if_pos here] at on
    rw [here, ← (same (m.rtp rs)).1]
    exact ⟨on, (same (m.rtp rs)).2⟩
  next other =>
    rw [if_neg other] at on
    exact ⟨on, rfl⟩

theorem releaseOf (m : Media) (call : Call) : Listened m (m.releaseOf call) := by
  unfold Media.releaseOf
  cases call.rtpSess with
  | none => exact .refl m
  | some rs =>
    intro rs' on
    rw [rtp_releaseRtpSession] at on ⊢
    split at on
    · cases on
    next other => exact ⟨on, by rw [if_neg other]⟩

end Listened

theorem memDerefCall_listened {depth : Nat} (run : memDerefCall depth m c = .ok m') :
    Listened m m' := by
  induction depth generalizing m c m' with
  | zero => cases run
  | succ depth ih =>
    obtain ⟨call, live⟩ := memDerefCall_live run
    rw [memDerefCall_succ live] at run
    split at run
    · obtain ⟨m₁, inner, run⟩ := Fallible.bind_eq_ok.mp run
      cases run
      have both : Listened m m₁ := (Listened.releaseOf m call).trans (ih inner)
      exact both
    · cases run
      exact Listened.releaseOf m call

/-- A session is taken from the pool with nobody listening. -/
theorem callAlloc_listened {env : AllocEnv} {callp : Option CallId} {tel : Option String}
    {gateway : SipUri} {isPbx : Bool} {mainPt : Nat} {arg : DestId} {r : Alloc} (pool : Pool m)
    (run : callAlloc m env now callp tel gateway isPbx mainPt arg = .ok r) :
    Listened m r.media := by
  intro rs on
  rcases callAlloc_cases run with failed | ⟨taken, call, done⟩
  · by_cases free : rs ∈ m.rtpSessions
    · rw [((failed.refused pool).idle rs free).2.1] at on
      cases on
    · rw [(failed.refused pool).busy rs free] at on ⊢
      exact ⟨on, rfl⟩
  · rw [done.rtp_get] at on ⊢
    split at on
    next here =>
      rw [(pool.clean taken done.free).televRecv] at on
      cases on
    next other => exact ⟨on, by rw [if_neg other]⟩

theorem DialResult.listened {env : DialEnv} {destroyed : Bool} (pool : Pool s.media)
    (result : DialResult s now env d dest s' destroyed) : Listened s.media s'.media := by
  have placing : ∀ {r : Alloc}, Calls s now env.alloc d dest r → Listened s.media r.media := by
    rintro r ⟨_, _, _, -, -, -, placing⟩
    exact callAlloc_listened pool placing
  cases result with
  | skipped => exact .refl _
  | destroyed _ calls => exact placing calls
  | undone _ calls _ _ _ _ _ gone =>
    exact (placing calls).trans (memDerefCall_listened (m := Media.setCall _ _ _) gone)
  | placed _ calls => exact placing calls

theorem EndResult.listened {env : AllocEnv} (pool : Pool s.media)
    (result : EndResult s now env d dest c call s') : Listened s.media s'.media := by
  cases result with
  | destroyed _ _ _ _ _ gone => exact memDerefCall_listened (m := Media.setCall _ _ _) gone
  | requeued _ _ _ _ _ gone => exact memDerefCall_listened (m := Media.setCall _ _ _) gone
  | rearmed _ rules =>
    cases rules with
    | kept => exact .refl _
    | refused _ _ _ placing => exact callAlloc_listened pool placing
    | forwarded _ _ _ placing => exact callAlloc_listened pool placing

theorem flushDests_listened {l : List DestId} (run : flushDests l s = .ok s') :
    Listened s.media s'.media := by
  induction l generalizing s with
  | nil =>
    cases run
    exact .refl _
  | cons d rest ih =>
    obtain ⟨dest, media, -, gone, run⟩ := flushDests_cons run
    have first : Listened s.media media := by
      cases has : dest.call with
      | none =>
        rw [has] at gone
        exact .of_rtp (congrArg Media.rtp gone)
      | some c =>
        rw [has] at gone
        exact memDerefCall_listened gone
    exact first.trans (ih run)

theorem pull_listened {snap : Snapshot} (run : pullGroups s snap = .ok s') :
    Listened s.media s'.media := by
  have read : ∀ {t t' : Sys} {cp : CampId} {row : CampaignRow}, readCampaign t cp row = .ok t' →
      Listened t.media t'.media := by
    intro t t' cp row run
    obtain ⟨_, -, ⟨-, -, run⟩ | ⟨-, _, _, rfl⟩⟩ := readCampaign_cases run
    · obtain ⟨_, u, -, flushed, rfl⟩ := memDerefCampaign_cases run
      have listened := flushDests_listened flushed
      exact listened
    · exact .refl _
  refine pullGroups_rule (I := fun t => Listened s.media t.media) ?_ ?_ ?_ (.refl _) run
  · intro t row t' listened run
    rw [pullGateway_frame run]
    exact listened
  · intro t row t' listened run
    rcases pullCampaign_cases run with ⟨rfl, -⟩ | ⟨cp, -, -, run⟩ | ⟨-, -, run⟩
    · exact listened
    · exact listened.trans (read run)
    · exact listened.trans (read (t := t.createCamp) run)
  · intro calls actions t cp t' listened _ run
    obtain ⟨_, -, ⟨rfl, -⟩ | ⟨-, _, _, _, -, -, rfl⟩⟩ := pullService_cases run
    · exact listened
    · exact listened

/-- The answer of a call lets its session be listened to only if it does not join the
PBX. -/
theorem AnswerResult.listened {own : Owner} {env : EstablishEnv} (sound : Sound m own)
    (live : m.calls.get c = some call) (result : AnswerResult m own c call env m')
    (on : (m'.rtp rs).televRecv = true) :
    ((m.rtp rs).televRecv = true ∧ (m'.rtp rs).arg = (m.rtp rs).arg) ∨
      (call.joinPbx = false ∧ (m'.rtp rs).arg = some c) := by
  cases result with
  | again => exact .inl ⟨on, rfl⟩
  | noFormat => exact .inl ⟨on, rfl⟩
  | @main g f rs' _ _ _ holds _ _ same joins =>
    cases joined : call.joinPbx with
    | true =>
      have plain := joins joined
      have listened : Listened m _ :=
        (Listened.setSession (m := m.setCall c g)
          (f := fun r => { r with remoteIp := some env.answer.raddr }) rs' fun _ => ⟨rfl, rfl⟩).trans
        (.setSession (f := f) rs' fun r => by rw [plain r]; exact ⟨rfl, rfl⟩)
      exact .inl (listened rs on)
    | false =>
      rw [rtp_setSession] at on ⊢
      split at on
      next here =>
        refine .inr ⟨rfl, ?_⟩
        rw [if_pos here, (same _).1, rtp_setSession, if_pos rfl]
        exact sound.arg_of live holds
      next other =>
        rw [if_neg other]
        rw [rtp_setSession, if_neg other] at on ⊢
        exact .inl ⟨on, rfl⟩
  | @leg g rs' t =>
    have listened : Listened m _ :=
      ((Listened.setSession (m := m.setCall c g)
        (f := fun r => { r with remoteIp := some env.answer.raddr }) rs' fun _ => ⟨rfl, rfl⟩).trans
      (.setSession (f := fun r => { r with remote := some rs' }) t fun _ => ⟨rfl, rfl⟩)).trans
      (.setSession (f := fun r => { r with remote := some t }) rs' fun _ => ⟨rfl, rfl⟩)
    exact .inl (listened rs on)

theorem rtpForward_listened (s : Sys) (rs : SessionId) (mb : List UInt8) :
    Listened s.media (rtpForward s rs mb).media := by
  rcases rtpForward_cases s rs mb with ⟨-, eq⟩ | ⟨t, -, eq⟩
  · rw [eq]
  · rw [eq]
    exact .of_rtp rfl

theorem rtpRecvHandler_listened {mb : List UInt8} (run : rtpRecvHandler s rs mb = .ok s') :
    Listened s.media s'.media := by
  have noted : ∀ telev, Listened s.media
      (s.setSession rs fun r => { r with telev := telev }).media := fun telev =>
    Listened.setSession (f := fun r => { r with telev := telev }) rs fun _ => ⟨rfl, rfl⟩
  rcases rtpRecvHandler_cases run with rfl | rfl | ⟨c, call, telev, -, -, -, rfl | ⟨f, -, rfl⟩⟩
  · exact .refl _
  · exact rtpForward_listened s rs mb
  · exact (noted telev).trans (rtpForward_listened _ rs mb)
  · exact noted telev

theorem callback_listened (inv : Inv ans s) (callback : e.isCallback = true)
    (run : s.run e = .ok s') (on : (s'.media.rtp rs).televRecv = true) :
    ((s.media.rtp rs).televRecv = true ∧ (s'.media.rtp rs).arg = (s.media.rtp rs).arg) ∨
      ∃ c call, s.media.calls.get c = some call ∧ call.joinPbx = false ∧
        (s'.media.rtp rs).arg = some c := by
  cases e with
  | progress c scode =>
    obtain ⟨db, -, rfl⟩ := progressHandler_cases run
    exact .inl ⟨on, rfl⟩
  | establish c env =>
    obtain ⟨call, m, db, live, -, result, rfl⟩ := establishHandler_cases run
    rcases result.listened inv.sound live on with before | ⟨noJoin, named⟩
    · exact .inl before
    · exact .inr ⟨c, call, live, noJoin, named⟩
  | close c err scode =>
    obtain ⟨_, rfl⟩ := closeHandler_cases run
    exact .inl ⟨on, rfl⟩
  | rtp rs' mb => exact .inl (rtpRecvHandler_listened run rs on)
  | played c =>
    cases run
    exact .inl ⟨on, rfl⟩
  | pull | message | campTimer | destTimer | lose | astray => cases callback

/-- A session that is listened to was so before, unless a call that does not join the
PBX has been answered on it. -/
theorem step_listened (inv : Inv ans s) (step : dialer.step s e s')
    (on : (s'.media.rtp rs).televRecv = true) :
    ((s.media.rtp rs).televRecv = true ∧ (s'.media.rtp rs).arg = (s.media.rtp rs).arg) ∨
      ∃ c call, s.media.calls.get c = some call ∧ call.joinPbx = false ∧
        (s'.media.rtp rs).arg = some c := by
  cases step_cases step with
  | pulled run => exact .inl (pull_listened run rs on)
  | @ticked _ _ _ _ t _ ticks run =>
    obtain ⟨f, msgq, torn, lost, -, state⟩ := ticks.state
    have starts : Inv ans t := inv.ticks ticks
    have listened : Listened t.media s'.media :=
      startFakeCalling_rule (I := fun u => Listened t.media u.media) (fun _ _ listened _ => listened)
        (fun _ listened _ => listened)
        (fun _ _ _ _ _ reached listened _ result => by
          obtain ⟨_, loop⟩ := reached.dialling starts
          exact listened.trans (result.listened loop.inv.sound.pool))
        (.refl _) run
    rw [state] at listened
    exact .inl (listened rs on)
  | @supervised d _ _ _ _ live armed run =>
    obtain ⟨_, _, -, -, result⟩ := inv.supervised_cases live armed run
    have pool : Pool (s.disarmDest d).media := inv.sound.pool
    exact .inl (result.listened pool rs on)
  | calledBack callback _ run => exact callback_listened inv callback run on
  | lost => exact .inl ⟨on, rfl⟩

/-- No call that joins the PBX is listened to. -/
def Unheard (m : Media) : Prop :=
  ∀ rs c call, (m.rtp rs).televRecv = true → (m.rtp rs).arg = some c →
    m.calls.get c = some call → call.joinPbx = false

theorem Unheard.step (unheard : Unheard s.media) (inv : Inv ans s) (step : dialer.step s e s') :
    Unheard s'.media := by
  intro rs c call' on named live'
  have before : ∃ call, s.media.calls.get c = some call ∧ call.joinPbx = false := by
    rcases step_listened inv step on with ⟨wasOn, sameArg⟩ | ⟨p, call, live, noJoin, isArg⟩
    · have wasNamed := sameArg.symm.trans named
      obtain ⟨call, live, -⟩ := inv.sound.owner rs c wasNamed
      exact ⟨call, live, unheard rs c call wasOn wasNamed live⟩
    · obtain rfl := Option.some.inj (isArg.symm.trans named)
      exact ⟨call, live, noJoin⟩
  obtain ⟨call, live, noJoin⟩ := before
  rcases step_calls inv step live' with ⟨old, liveOld, write⟩ | ⟨above, -⟩
  · cases live.symm.trans liveOld
    rw [write.joinPbx]
    exact noJoin
  · exact absurd (Heap.lt_next live) (Nat.not_lt.mpr above)

end Autodialer
