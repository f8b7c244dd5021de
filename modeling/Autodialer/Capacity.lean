import Autodialer.AllOrNothing
import Autodialer.CallLimit
import Autodialer.CallSteps
import Mathlib.Data.List.Perm.Basic

/-!
# The capacity of the dialer

The RTP sessions that could be bound when the program started limit the number of calls. A session
is in service while it is on the free list or a live call holds it. Calls take sessions off the list
and put them back; only `sdp_sess_alloc` takes one and loses it, when a function of libre fails
there, and a lost session never serves again.

* `callAlloc_service`, `memDerefCall_service`: what a call does to the sessions in service.
* `step_service`: what a step does to them.
* `capacity`: free sessions, live calls and lost sessions add up in every run.
-/

namespace Autodialer

variable {s s' t : Sys} {m m' m'' : Media} {e : Event} {d : DestId} {c : CallId} {call : Call}
  {rs : SessionId} {dest : Destination} {now : Time} {own : Owner} {ans : CallId → Addr → Prop}
  {h h₁ h₂ : List (Sys × Event)}

/-- The session is on the free list, or a live call holds it. -/
def Media.InService (m : Media) (rs : SessionId) : Prop :=
  rs ∈ m.rtpSessions ∨ ∃ c call, m.calls.get c = some call ∧ call.rtpSess = some rs

/-- No session comes back into service; unless `loses` none is lost. -/
structure Service (loses : Prop) (m m' : Media) : Prop where
  gone : ∀ rs, m'.InService rs → m.InService rs
  stays : ¬ loses → ∀ rs, m.InService rs → m'.InService rs

namespace Service

variable {loses : Prop}

@[refl] theorem refl (m : Media) : Service loses m m := ⟨fun _ on => on, fun _ _ on => on⟩

theorem trans (first : Service loses m m') (second : Service loses m' m'') :
    Service loses m m'' :=
  ⟨fun rs on => first.gone rs (second.gone rs on),
    fun kept rs on => second.stays kept rs (first.stays kept rs on)⟩

theorem of_iff (same : ∀ rs, m'.InService rs ↔ m.InService rs) : Service loses m m' :=
  ⟨fun rs on => (same rs).mp on, fun _ rs on => (same rs).mpr on⟩

/-- A write that leaves the free list alone, and the sessions of the calls. -/
theorem alike (free : m'.rtpSessions = m.rtpSessions)
    (forth : ∀ p call, m.calls.get p = some call →
      ∃ call', m'.calls.get p = some call' ∧ call'.rtpSess = call.rtpSess)
    (back : ∀ p call', m'.calls.get p = some call' →
      ∃ call, m.calls.get p = some call ∧ call'.rtpSess = call.rtpSess) : Service loses m m' := by
  refine of_iff fun rs => ?_
  unfold Media.InService
  rw [free]
  refine or_congr Iff.rfl ⟨?_, ?_⟩
  · rintro ⟨p, call', live', holds⟩
    obtain ⟨call, live, same⟩ := back p call' live'
    exact ⟨p, call, live, same ▸ holds⟩
  · rintro ⟨p, call, live, holds⟩
    obtain ⟨call', live', same⟩ := forth p call live
    exact ⟨p, call', live', same.trans holds⟩

theorem setCall {f : Call → Call} (same : ∀ call, (f call).rtpSess = call.rtpSess) :
    Service loses m (m.setCall c f) := by
  refine alike rfl (fun p call live => ?_) fun p call' live' => ?_
  · by_cases here : p = c
    · subst here
      exact ⟨f call, by simp [live], same call⟩
    · exact ⟨call, (Heap.get_modify_ne here).trans live, rfl⟩
  · rw [calls_setCall, Heap.get_modify] at live'
    split at live'
    · obtain ⟨call, live, rfl⟩ := Option.map_eq_some_iff.mp live'
      exact ⟨call, live, same call⟩
    · exact ⟨call', live', rfl⟩

/-- The calls and the free list are the same. -/
theorem of_eq (calls : m'.calls = m.calls) (free : m'.rtpSessions = m.rtpSessions) :
    Service loses m m' :=
  alike free (fun _ call live => ⟨call, calls ▸ live, rfl⟩)
    fun _ call live => ⟨call, calls ▸ live, rfl⟩

end Service

/-! ## Calls -/

theorem mem_releaseOf : rs ∈ (m.releaseOf call).rtpSessions ↔
    rs ∈ m.rtpSessions ∨ call.rtpSess = some rs := by
  unfold Media.releaseOf
  cases call.rtpSess with
  | none => simp
  | some t => rw [mem_releaseRtpSession, Option.some.injEq, eq_comm (a := rs)]

/-- A main call that ends puts its session back, and that of its leg. -/
theorem memDerefCall_service {loses : Prop} (sound : Sound m own) (has : own d = some c)
    (run : memDerefCall callDepth m c = .ok m') : Service loses m m' := by
  obtain ⟨call, live, -, -⟩ := sound.owned d c has
  refine .of_iff fun rs => ?_
  unfold Media.InService
  cases hasLeg : call.pbxCall with
  | none =>
    rw [callDepth, memDerefCall_leaf live hasLeg] at run
    cases run
    dsimp only
    rw [mem_releaseOf]
    constructor
    · rintro ((free | holds) | ⟨p, call', live', holds⟩)
      · exact .inl free
      · exact .inr ⟨c, call, live, holds⟩
      · rw [Heap.get_free] at live'
        split at live'
        · cases live'
        · exact .inr ⟨p, call', live', holds⟩
    · rintro (free | ⟨p, call', live', holds⟩)
      · exact .inl (.inl free)
      · by_cases here : p = c
        · subst here
          obtain rfl := Option.some.inj (live.symm.trans live')
          exact .inl (.inr holds)
        · exact .inr ⟨p, call', by rw [Heap.get_free_ne here, live'], holds⟩
  | some leg =>
    obtain ⟨-, legCall, liveLeg, pbx, -⟩ := sound.leg c call leg live hasLeg
    rw [memDerefCall_leg live hasLeg liveLeg (sound.leg_noLeg liveLeg pbx)] at run
    cases run
    dsimp only
    rw [mem_releaseOf, mem_releaseOf]
    constructor
    · rintro (((free | holds) | holds) | ⟨p, call', live', holds⟩)
      · exact .inl free
      · exact .inr ⟨c, call, live, holds⟩
      · exact .inr ⟨leg, legCall, liveLeg, holds⟩
      · rw [Heap.get_free, Heap.get_free] at live'
        split at live'
        · cases live'
        · split at live'
          · cases live'
          · exact .inr ⟨p, call', live', holds⟩
    · rintro (free | ⟨p, call', live', holds⟩)
      · exact .inl (.inl (.inl free))
      · by_cases here : p = c
        · subst here
          obtain rfl := Option.some.inj (live.symm.trans live')
          exact .inl (.inl (.inr holds))
        · by_cases there : p = leg
          · subst there
            obtain rfl := Option.some.inj (liveLeg.symm.trans live')
            exact .inl (.inr holds)
          · exact .inr ⟨p, call', by rw [Heap.get_free_ne here, Heap.get_free_ne there, live'],
              holds⟩

section CallAlloc

variable {env : AllocEnv} {tel : Option String} {isPbx : Bool} {arg : DestId} {r : Alloc}
  {callp : Option CallId} {gateway : SipUri} {mainPt : Nat}

/-- A placed call holds the session that it takes. -/
theorem Placed.service {loses : Prop} (done : Placed m env now tel isPbx arg r rs call) :
    Service loses m r.media := by
  obtain ⟨pt, sess, isNew⟩ := done.new
  refine .of_iff fun rs' => ?_
  unfold Media.InService
  rw [done.rtpSessions]
  constructor
  · rintro (free | ⟨p, call', live', holds⟩)
    · exact .inl (List.mem_of_mem_erase free)
    · rw [done.calls, Heap.get_alloc] at live'
      split at live'
      · obtain rfl := Option.some.inj live'
        rw [isNew] at holds
        obtain rfl : rs = rs' := Option.some.inj holds
        exact .inl done.free
      · exact .inr ⟨p, call', live', holds⟩
  · rintro (free | ⟨p, call', live', holds⟩)
    · by_cases here : rs' = rs
      · subst here
        exact .inr ⟨m.calls.next, call, by rw [done.calls, Heap.get_alloc_next], by rw [isNew]; rfl⟩
      · exact .inl ((List.mem_erase_of_ne here).mpr free)
    · exact .inr ⟨p, call', by rw [done.calls, Heap.get_alloc_of_live live'], holds⟩

/-- If the session description is made, a failing `call_alloc` puts the session back. -/
theorem callAlloc_takenBack (nodup : m.rtpSessions.Nodup) (added : env.sdpAdds = true)
    (run : callAlloc m env now callp tel gateway isPbx mainPt arg = .ok r) (err : r.err = true) :
    r.media.rtpSessions.Perm m.rtpSessions := by
  cases mem : env.callMem with
  | false =>
    rw [callAlloc, mem] at run
    cases run
    exact List.Perm.refl _
  | true =>
    cases found : findRtpSession { m with calls := m.calls.alloc {} } with
    | none =>
      have none : sdpSessAlloc { m with calls := m.calls.alloc {} } env =
          .ok ({ m with calls := m.calls.alloc {} }, none) := by
        rw [sdpSessAlloc, found]
      rw [callAlloc, if_pos mem] at run
      dsimp only at run
      rw [none, Fallible.ok_bind] at run
      cases (callAllocFail_eq (m := m) rfl rfl).symm.trans run
      exact List.Perm.refl _
    | some taken =>
      obtain ⟨m₁, rs⟩ := taken
      by_cases smooth : env.sdpEncode → env.named gateway ∧ (env.rtpAlloc → env.sipsessConnect)
      · obtain ⟨r', run', -, undone⟩ := (callAlloc_added nodup mem found added).mpr smooth
        obtain rfl : r' = r := by simpa using run'.symm.trans run
        exact (undone err).sessions
      · -- here 0 is returned, although `sipsess_connect` has failed
        obtain ⟨encode, smooth⟩ := Classical.not_imp.mp smooth
        rw [callAlloc, if_pos mem] at run
        dsimp only at run
        rw [sdpSessAlloc_added found added, Fallible.ok_bind] at run
        dsimp only at run
        rw [if_pos encode] at run
        split at run
        next named =>
          have alloc : env.rtpAlloc = true :=
            by_contra fun refused => smooth ⟨named, fun alloc => absurd alloc refused⟩
          rw [if_pos alloc] at run
          cases run
          cases err
        next => cases run

/-- `call_alloc` loses a session only if the session description is not made. -/
theorem callAlloc_service (pool : Pool m)
    (run : callAlloc m env now callp tel gateway isPbx mainPt arg = .ok r) :
    Service (env.sdpAdds = false) m r.media := by
  rcases callAlloc_cases run with failed | ⟨rs, call, done⟩
  · have same : ∀ rs, (∃ c call, r.media.calls.get c = some call ∧ call.rtpSess = some rs) ↔
        ∃ c call, m.calls.get c = some call ∧ call.rtpSess = some rs := fun rs => by
      simp only [failed.calls]
    refine ⟨fun rs on => ?_, fun kept rs on => ?_⟩
    · exact on.imp ((failed.refused pool).subset rs) (same rs).mp
    · have back := callAlloc_takenBack pool.nodup (by simpa using kept) run failed.err
      exact on.imp back.mem_iff.mpr (same rs).mpr
  · exact done.service

end CallAlloc

/-! ## Steps -/

/-- The session description is not made in a call of `call_alloc`. -/
def Event.Loses : Event → Prop
  | .message _ env | .campTimer _ _ env => ∃ d, (env d).alloc.sdpAdds = false
  | .destTimer _ _ env => env.sdpAdds = false
  | _ => False

theorem Service.weaken {p q : Prop} (service : Service p m m') (weaker : p → q) :
    Service q m m' :=
  ⟨service.gone, fun kept => service.stays fun loses => kept (weaker loses)⟩

theorem DialResult.service {env : DialEnv} {destroyed : Bool} (inv : Inv ans s)
    (live : s.book.dests.get d = some dest) (result : DialResult s now env d dest s' destroyed) :
    Service (env.alloc.sdpAdds = false) s.media s'.media := by
  have placing : ∀ {r : Alloc}, Calls s now env.alloc d dest r →
      Service (env.alloc.sdpAdds = false) s.media r.media := by
    rintro r ⟨_, _, _, -, -, -, placing⟩
    exact callAlloc_service inv.sound.pool placing
  have tagged : ∀ {m : Media} {c : CallId} {f : Call → Call}, Tags f →
      Service (env.alloc.sdpAdds = false) m (m.setCall c f) := fun tags =>
    .setCall fun call => (tags.links call).rtpSess
  cases result with
  | skipped => exact .refl _
  | destroyed _ calls => exact placing calls
  | @undone r c camp f media idle calls ok isCall _ _ tags gone =>
    have taken := placing calls
    obtain ⟨_, _, _, -, -, -, placing⟩ := calls
    obtain ⟨rfl, rs, call, done⟩ := callAlloc_placed placing ok isCall
    have sound := (inv.sound.place done ((owner_of_live live).trans idle)).setCall
      (c := s.media.calls.next) (f := f) fun call _ => tags.links call
    exact (taken.trans (tagged tags)).trans
      (memDerefCall_service sound (Function.update_self ..) gone)
  | placed _ calls _ _ _ _ tags => exact (placing calls).trans (tagged tags)

theorem RulesResult.service {env : AllocEnv} {halted : Bool} (pool : Pool s.media)
    (rules : RulesResult s now env d c call t halted) :
    Service (env.sdpAdds = false) s.media t.media := by
  cases rules with
  | kept => exact .refl _
  | ended => exact .setCall fun _ => rfl
  | refused _ _ _ placing =>
    refine (callAlloc_service pool placing).trans (.setCall ?_)
    exact fun _ => rfl
  | @forwarded _ _ r leg _ _ _ placing =>
    refine (((callAlloc_service pool placing).trans (.setCall ?_)).trans (.setCall ?_)).trans
      (.setCall ?_)
    · exact fun _ => rfl
    · exact fun _ => rfl
    · exact fun _ => rfl

theorem EndResult.service {env : AllocEnv} (sound : Sound s.media own) (has : own d = some c)
    (result : EndResult s now env d dest c call s') :
    Service (env.sdpAdds = false) s.media s'.media := by
  have ended : ∀ {media : Media},
      memDerefCall callDepth (s.media.setCall c Call.disconnect) c = .ok media →
      Service (env.sdpAdds = false) s.media media := fun gone => by
    have marked := sound.setCall (c := c) fun call _ => call.disconnect_links
    have written : Service (env.sdpAdds = false) s.media (s.media.setCall c Call.disconnect) :=
      .setCall fun _ => rfl
    exact written.trans (memDerefCall_service marked has gone)
  cases result with
  | rearmed _ rules =>
    have kept := rules.service sound.pool
    exact kept
  | destroyed _ _ _ _ _ gone => exact ended gone
  | requeued _ _ _ _ _ gone => exact ended gone

theorem flushDests_service {loses : Prop} {l : List DestId} (sound : Sound s.media s.book.owner)
    (run : flushDests l s = .ok s') : Service loses s.media s'.media := by
  induction l generalizing s with
  | nil =>
    cases run
    exact .refl _
  | cons d rest ih =>
    obtain ⟨dest, media, live, gone, run⟩ := flushDests_cons run
    have owner : Book.owner { s.book with dests := s.book.dests.free d } =
        Function.update s.book.owner d none :=
      owner_update (by simp [Book.owner]) fun e ne => by simp [Heap.get_free_ne ne]
    have first : Service loses s.media media ∧ Sound media (Function.update s.book.owner d none) := by
      cases has : dest.call with
      | none =>
        rw [has] at gone
        rw [gone, ← has, ← owner_of_live live, Function.update_eq_self]
        exact ⟨.refl _, sound⟩
      | some c =>
        rw [has] at gone
        have owned := (owner_of_live live).trans has
        exact ⟨memDerefCall_service sound owned gone, sound.drop owned gone⟩
    have rest := ih (s := { s with
      media := media, book := { s.book with dests := s.book.dests.free d } }) (owner ▸ first.2) run
    exact first.1.trans rest

theorem memDerefCampaign_service {loses : Prop} {cp : CampId} (inv : Inv ans s)
    (run : memDerefCampaign s cp = .ok s') : Service loses s.media s'.media := by
  obtain ⟨camp, t, -, flushed, rfl⟩ := memDerefCampaign_cases run
  have service : Service loses s.media t.media :=
    flushDests_service (s := { s with services := s.services.erase cp }) inv.sound flushed
  exact service

theorem AnswerResult.service {loses : Prop} {env : EstablishEnv}
    (result : AnswerResult m own c call env m') : Service loses m m' := by
  cases result with
  | again _ eq => exact .setCall fun call => by rw [eq]
  | noFormat _ _ eq => exact .setCall fun call => by rw [eq]
  | @main g f rs _ _ _ _ links =>
    exact (Service.setCall (f := g) fun call => (links call).rtpSess).trans (.of_eq rfl rfl)
  | @leg g rs t d main mainCall _ _ _ _ _ _ _ _ links =>
    exact (Service.setCall (f := g) fun call => (links call).rtpSess).trans (.of_eq rfl rfl)

theorem readCampaign_service {loses : Prop} {cp : CampId} {row : CampaignRow} (inv : Inv ans s)
    (run : readCampaign s cp row = .ok s') : Service loses s.media s'.media := by
  obtain ⟨_, -, ⟨-, -, run⟩ | ⟨-, _, _, rfl⟩⟩ := readCampaign_cases run
  · have head : Inv ans (s.setCamp cp fun camp => camp.readHead row) :=
      inv.setCamp fun _ => ⟨rfl, rfl, rfl⟩
    have service : Service loses (s.setCamp cp fun camp => camp.readHead row).media s'.media :=
      memDerefCampaign_service head run
    exact service
  · exact .refl _

theorem pull_service {loses : Prop} {snap : Snapshot} (inv : Inv ans s)
    (run : pullGroups s snap = .ok s') : Service loses s.media s'.media := by
  refine (pullGroups_rule (I := fun t => Inv ans t ∧ Service loses s.media t.media) ?_ ?_ ?_
    ⟨inv, .refl _⟩ run).2
  · rintro t row t' ⟨inv, service⟩ run
    refine ⟨inv.gateway run, ?_⟩
    rw [pullGateway_frame run]
    exact service
  · rintro t row t' ⟨inv, service⟩ run
    refine ⟨inv.campaign run, ?_⟩
    rcases pullCampaign_cases run with ⟨rfl, -⟩ | ⟨cp, -, -, run⟩ | ⟨-, -, run⟩
    · exact service
    · exact service.trans (readCampaign_service inv run)
    · exact service.trans (readCampaign_service (s := t.createCamp) inv.createCamp run)
  · rintro calls actions t cp t' ⟨inv, service⟩ - run
    refine ⟨inv.service run, ?_⟩
    obtain ⟨_, -, ⟨rfl, -⟩ | ⟨-, _, _, _, -, -, rfl⟩⟩ := pullService_cases run
    · exact service
    · exact service

theorem callback_service {loses : Prop} (callback : e.isCallback = true)
    (run : s.run e = .ok s') : Service loses s.media s'.media := by
  cases e with
  | progress c scode =>
    obtain ⟨db, -, rfl⟩ := progressHandler_cases run
    exact .setCall fun _ => rfl
  | establish c env =>
    obtain ⟨call, m, db, -, -, result, rfl⟩ := establishHandler_cases run
    exact result.service
  | close c err scode =>
    obtain ⟨_, rfl⟩ := closeHandler_cases run
    refine Service.trans (.setCall (c := c) (f := fun call => { call with sess := .terminated }) ?_)
      (.setCall ?_)
    · exact fun _ => rfl
    · exact fun _ => rfl
  | rtp rs mb =>
    have forward : ∀ u : Sys, Service loses u.media (rtpForward u rs mb).media := by
      intro u
      rcases rtpForward_cases u rs mb with ⟨-, eq⟩ | ⟨_, -, eq⟩
      · rw [eq]
      · rw [eq]
        exact .of_eq rfl rfl
    rcases rtpRecvHandler_cases run with
      rfl | rfl | ⟨c, call, telev, -, -, -, rfl | ⟨f, presses, rfl⟩⟩
    · exact .refl _
    · exact forward s
    · have noted : Service loses s.media
          (s.setSession rs fun r => { r with telev := telev }).media := .of_eq rfl rfl
      exact noted.trans (forward _)
    · have noted : Service loses s.media
          (s.setSession rs fun r => { r with telev := telev }).media := .of_eq rfl rfl
      refine noted.trans (.setCall fun call => ?_)
      rcases presses with presses | same
      · obtain ⟨_, _, _, _, eq, -⟩ := presses call
        rw [eq]
      · rw [same]
  | played c =>
    cases run
    exact .setCall fun _ => rfl
  | pull | message | campTimer | destTimer | lose | astray => cases callback

/-- A session that is out of service stays out, and a step takes one out only where the session
description is not made. -/
theorem step_service (inv : Inv ans s) (step : dialer.step s e s') :
    Service e.Loses s.media s'.media := by
  cases step_cases step with
  | pulled run => exact pull_service inv run
  | @ticked _ cp now env t _ ticks run =>
    obtain ⟨f, msgq, torn, lost, -, state⟩ := ticks.state
    have starts : Inv ans t := inv.ticks ticks
    have media : t.media = s.media := by rw [state]; rfl
    rw [← media]
    have loses : ∀ d, (env d).alloc.sdpAdds = false → e.Loses := by
      intro d refused
      cases ticks with
      | message => exact ⟨d, refused⟩
      | timer => exact ⟨d, refused⟩
    refine startFakeCalling_rule (I := fun u => Service e.Loses t.media u.media)
      (fun _ _ service _ => service) (fun _ service _ => service)
      (fun d u dest u' destroyed reaches service live result => ?_) (.refl _) run
    obtain ⟨_, loop⟩ := reaches.dialling starts
    exact service.trans ((result.service loop.inv live).weaken (loses d))
  | @supervised d now env dest _ live armed run =>
    obtain ⟨c, call, has, -, result⟩ := inv.supervised_cases live armed run
    have sound : Sound (s.disarmDest d).media s.book.owner := inv.sound
    have service := EndResult.service (s := s.disarmDest d) sound ((owner_of_live live).trans has)
      result
    exact service
  | calledBack callback _ run => exact callback_service callback run
  | lost => exact .refl _

theorem run_service (inv : Inv (fun _ _ => True) s) (run : dialer.Run s h s') :
    Service (∃ x ∈ h, x.2.Loses) s.media s'.media := by
  have kept : Inv (fun _ _ => True) s' ∧ Service (∃ x ∈ h, x.2.Loses) s.media s'.media := by
    induction run with
    | nil => exact ⟨inv, .refl _⟩
    | @snoc h t u e _ step ih =>
      obtain ⟨inv, service⟩ := ih
      refine ⟨step_inv_hears inv (.anything _ _) step, ?_⟩
      have before := service.weaken (q := ∃ x ∈ h ++ [(t, e)], x.2.Loses) fun ⟨x, mem, loses⟩ =>
        ⟨x, List.mem_append_left _ mem, loses⟩
      have last := (step_service inv step).weaken (q := ∃ x ∈ h ++ [(t, e)], x.2.Loses)
        fun loses => ⟨(t, e), by simp, loses⟩
      exact before.trans last
  exact kept.2

/-! ## The account of a run -/

/-- Of the `n` sessions bound at the start, those that are not free are held by the calls `busy`,
one each, or are `lost`. -/
structure Media.Accounted (m : Media) (n : Nat) (busy : List CallId) (lost : List SessionId) :
    Prop where
  busy_nodup : busy.Nodup
  mem_busy : ∀ c, c ∈ busy ↔ (m.calls.get c).isSome
  lost_nodup : lost.Nodup
  mem_lost : ∀ rs, rs ∈ lost ↔ rs < n ∧ ¬ m.InService rs
  total : m.rtpSessions.length + busy.length + lost.length = n

theorem inService_boot (n : Nat) (audioPath : String) :
    (Sys.boot n audioPath).media.InService rs ↔ rs < n := by
  constructor
  · rintro (free | ⟨c, call, live, -⟩)
    · exact List.mem_range.mp free
    · cases live
  · intro below
    exact .inl (List.mem_range.mpr below)

/-- The session that a live call holds. -/
def Media.sessionOf (m : Media) (c : CallId) : SessionId :=
  ((m.calls.get c).bind Call.rtpSess).getD 0

theorem Sound.accounted {n : Nat} (inv : Sound m own)
    (bound : ∀ rs, m.InService rs → rs < n) : ∃ busy lost, m.Accounted n busy lost := by
  classical
  let busy := (List.range m.calls.next).filter fun c => (m.calls.get c).isSome
  let lost := (List.range n).filter fun rs => ¬ m.InService rs
  have memBusy : ∀ c, c ∈ busy ↔ (m.calls.get c).isSome := by
    intro c
    refine List.mem_filter.trans ⟨fun ⟨_, live⟩ => live, fun live => ⟨?_, live⟩⟩
    obtain ⟨call, live⟩ := Option.isSome_iff_exists.mp live
    exact List.mem_range.mpr (Heap.lt_next live)
  have memLost : ∀ rs, rs ∈ lost ↔ rs < n ∧ ¬ m.InService rs := by
    intro rs
    simp [lost]
  -- what a busy call holds
  have held : ∀ c ∈ busy, ∃ call, m.calls.get c = some call ∧
      call.rtpSess = some (m.sessionOf c) ∧ (m.rtp (m.sessionOf c)).inUse = true := by
    intro c mem
    obtain ⟨call, live⟩ := Option.isSome_iff_exists.mp ((memBusy c).mp mem)
    obtain ⟨rs, holds, -, used⟩ := inv.session c call live
    have same : m.sessionOf c = rs := by simp [Media.sessionOf, live, holds]
    exact ⟨call, live, same ▸ holds, same ▸ used⟩
  have nodupBusy : busy.Nodup := List.nodup_range.filter _
  have nodupLost : lost.Nodup := List.nodup_range.filter _
  have nodupHeld : (busy.map m.sessionOf).Nodup := by
    refine (List.nodup_map_iff_inj_on nodupBusy).mpr fun c mem c' mem' same => ?_
    obtain ⟨call, live, holds, -⟩ := held c mem
    obtain ⟨call', live', holds', -⟩ := held c' mem'
    exact inv.holder_unique live holds live' (same ▸ holds')
  have memHeld : ∀ rs, rs ∈ busy.map m.sessionOf ↔
      ∃ c call, m.calls.get c = some call ∧ call.rtpSess = some rs := by
    intro rs
    constructor
    · intro mem
      obtain ⟨c, busy, rfl⟩ := List.mem_map.mp mem
      obtain ⟨call, live, holds, -⟩ := held c busy
      exact ⟨c, call, live, holds⟩
    · rintro ⟨c, call, live, holds⟩
      refine List.mem_map.mpr ⟨c, (memBusy c).mpr (by simp [live]), ?_⟩
      simp [Media.sessionOf, live, holds]
  have parts : (m.rtpSessions ++ busy.map m.sessionOf ++ lost).Perm (List.range n) := by
    refine (List.perm_ext_iff_of_nodup ?_ List.nodup_range).mpr fun rs => ?_
    · refine ((inv.pool.nodup.append nodupHeld ?_).append nodupLost ?_)
      · intro rs free mem
        obtain ⟨c, busy, rfl⟩ := List.mem_map.mp mem
        obtain ⟨_, -, -, used⟩ := held c busy
        rw [(inv.pool.clean _ free).inUse] at used
        cases used
      · intro rs mem out
        refine ((memLost rs).mp out).2 ?_
        exact (List.mem_append.mp mem).imp id (memHeld rs).mp
    · rw [List.mem_append, List.mem_append, memHeld, memLost, List.mem_range]
      constructor
      · rintro (on | ⟨below, -⟩)
        · exact bound rs on
        · exact below
      · intro below
        by_cases on : m.InService rs
        · exact .inl on
        · exact .inr ⟨below, on⟩
  refine ⟨busy, lost, nodupBusy, memBusy, nodupLost, memLost, ?_⟩
  have count := parts.length_eq
  simpa [Nat.add_assoc] using count

/-- **The capacity of the dialer.** At most 100 sessions are bound at the start, and in every run
the free ones, the live calls and the lost ones add up to their number. A session that was lost
stays lost, and none is lost where the session descriptions of all calls are made. -/
theorem capacity (run : dialer.Execution h s) : ∃ n ≤ 100, ∃ busy lost,
    s.media.Accounted n busy lost ∧
    (∀ t, Lts.Visits h s t → ∀ rs < n, ¬ t.media.InService rs → rs ∈ lost) ∧
    ((∀ x ∈ h, ¬ x.2.Loses) → lost = []) := by
  obtain ⟨_, ⟨n, audioPath, few, rfl⟩, run⟩ := run
  have start : Inv (fun _ _ => True) (Sys.boot n audioPath) := .boot n audioPath
  have inv : Inv (fun _ _ => True) s :=
    run.invariant (fun _ _ _ inv => step_inv_hears inv (.anything _ _)) start
  have service := run_service start run
  obtain ⟨busy, lost, account⟩ := inv.sound.accounted (n := n) fun rs on =>
    (inService_boot n audioPath).mp (service.gone rs on)
  refine ⟨n, few, busy, lost, account, ?_, ?_⟩
  · intro t visit rs below out
    refine (account.mem_lost rs).mpr ⟨below, fun on => out ?_⟩
    obtain rfl | ⟨e, mem⟩ := visit
    · exact on
    · obtain ⟨h₁, h₂, rfl⟩ := List.append_of_mem mem
      obtain ⟨u, before, step, after⟩ := run.split
      have earlier : Inv (fun _ _ => True) t :=
        before.invariant (fun _ _ _ inv => step_inv_hears inv (.anything _ _)) start
      have later := run_service (step_inv_hears earlier (.anything _ _) step) after
      exact (step_service earlier step).gone rs (later.gone rs on)
  · intro none
    refine List.eq_nil_iff_forall_not_mem.mpr fun rs mem => ?_
    obtain ⟨below, out⟩ := (account.mem_lost rs).mp mem
    have kept : ¬ ∃ x ∈ h, x.2.Loses := fun ⟨x, mem, loses⟩ => none x mem loses
    exact out (service.stays kept rs ((inService_boot n audioPath).mpr below))

/-- libre makes no session description for the second contact of `oneCampaign`. -/
def secondUndescribed : DestId → DialEnv :=
  fun d => { alloc := { sdpMediaAdd := d != 1 } }

/-- The first contact of `oneCampaign` is called, and one of the four sessions is lost. -/
theorem capacity_undescribed : ∃ h s, dialer.Execution h s ∧ s.media.rtpSessions.length = 2 ∧
    ∃ n ≤ 100, ∃ busy lost, s.media.Accounted n busy lost ∧
      (∀ t, Lts.Visits h s t → ∀ rs < n, ¬ t.media.InService rs → rs ∈ lost) ∧
      ((∀ x ∈ h, ¬ x.2.Loses) → lost = []) := by
  obtain ⟨h, s, run, free⟩ := Lts.replay_exists SysInit Sys.next (s := Sys.boot 4 "/audio")
    [.pull oneCampaign, .message 100 secondUndescribed]
    (fun _ s => s.media.rtpSessions.length == 2) ⟨4, "/audio", by decide, rfl⟩ (by decide)
  exact ⟨h, s, run, beq_iff_eq.mp free, capacity run⟩

end Autodialer
