import Autodialer.CallSpec

/-!
# Who owns which session

`own d` is the main call of the destination `d`. Every live call is a main call
or the PBX leg of one, and holds one session of the pool, which names it in
`arg`; two sessions are linked only as those of a main call and its PBX leg,
both answered. `Sound` states this, and each operation of `call.c` has one
lemma here that says that it keeps it.

* `Sound.place`, `Sound.placeLeg`, `Sound.refused`: the outcomes of `call_alloc`.
* `Sound.drop`: the end of a main call.
* `Sound.answer`, `Sound.bridge`: the writes of `establish_handler`.
-/

namespace Autodialer

/-- The main call of each destination. -/
abbrev Owner := DestId → Option CallId

/-- A PBX leg and its main call. -/
structure IsLeg (m : Media) (own : Owner) (leg : CallId) (call : Call) (d : DestId) : Prop where
  ispbxcall : call.ispbxcall = true
  dest : call.dest = some d
  noLeg : call.pbxCall = none
  main : ∃ c mainCall, own d = some c ∧ m.calls.get c = some mainCall ∧ mainCall.pbxCall = some leg

structure Sound (m : Media) (own : Owner) : Prop where
  pool : Pool m
  /-- A live call holds a session, which names it. -/
  session : ∀ c call, m.calls.get c = some call →
    ∃ rs, call.rtpSess = some rs ∧ (m.rtp rs).arg = some c ∧ (m.rtp rs).inUse = true
  /-- A session names the live call that holds it, or none. -/
  owner : ∀ rs c, (m.rtp rs).arg = some c →
    ∃ call, m.calls.get c = some call ∧ call.rtpSess = some rs
  listens : ∀ rs, (m.rtp rs).televRecv = true → ∃ c, (m.rtp rs).arg = some c
  owned : ∀ d c, own d = some c →
    ∃ call, m.calls.get c = some call ∧ call.ispbxcall = false ∧ call.arg = some d
  /-- A live call is a main call or a PBX leg. -/
  role : ∀ c call, m.calls.get c = some call → ∃ d, call.arg = some d ∧
    ((call.ispbxcall = false ∧ own d = some c) ∨ IsLeg m own c call d)
  leg : ∀ c call leg, m.calls.get c = some call → call.pbxCall = some leg →
    call.rtpDest.isSome = true ∧
      ∃ legCall, m.calls.get leg = some legCall ∧ legCall.ispbxcall = true ∧ legCall.arg = call.arg
  /-- The address of an answer is that of the session. -/
  peer : ∀ c call rs a, m.calls.get c = some call → call.rtpSess = some rs →
    call.rtpDest = some a → (m.rtp rs).remoteIp = some a
  /-- Linked sessions are those of an answered main call and its answered leg. -/
  bridge : ∀ rs t, (m.rtp rs).remote = some t → (m.rtp t).remote = some rs ∧
    ∃ c call leg legCall, m.calls.get c = some call ∧ call.pbxCall = some leg ∧
      m.calls.get leg = some legCall ∧ legCall.rtpDest.isSome = true ∧
      ((call.rtpSess = some rs ∧ legCall.rtpSess = some t) ∨
        (call.rtpSess = some t ∧ legCall.rtpSess = some rs))

variable {m m' : Media} {own : Owner} {c leg : CallId} {call legCall : Call} {rs t : SessionId}
  {d : DestId}

namespace Sound

/-! ## Consequences -/

theorem empty (n : Nat) : Sound { rtpSessions := List.range n } (fun _ => none) where
  pool := ⟨List.nodup_range, fun _ _ => ⟨rfl, rfl, rfl, rfl, rfl⟩⟩
  session _ _ live := by cases live
  owner _ _ named := by cases named
  listens _ on := by cases on
  owned _ _ has := by cases has
  role _ _ live := by cases live
  leg _ _ _ live := by cases live
  peer _ _ _ _ live := by cases live
  bridge _ _ linked := by cases linked

/-- A session that names a call is not free. -/
theorem busy (inv : Sound m own) (named : (m.rtp rs).arg = some c) : rs ∉ m.rtpSessions := by
  intro free
  rw [(inv.pool.clean rs free).arg] at named
  cases named

/-- The session of a live call. -/
theorem arg_of (inv : Sound m own) (live : m.calls.get c = some call)
    (holds : call.rtpSess = some rs) : (m.rtp rs).arg = some c := by
  obtain ⟨rs', holds', named, -⟩ := inv.session c call live
  obtain rfl : rs = rs' := Option.some.inj (holds.symm.trans holds')
  exact named

/-- A session has at most one holder. -/
theorem holder_unique {c' : CallId} {call' : Call} (inv : Sound m own)
    (live : m.calls.get c = some call) (holds : call.rtpSess = some rs)
    (live' : m.calls.get c' = some call') (holds' : call'.rtpSess = some rs) : c = c' :=
  Option.some.inj ((inv.arg_of live holds).symm.trans (inv.arg_of live' holds'))

theorem arg_of_owned (inv : Sound m own) (has : own d = some c)
    (live : m.calls.get c = some call) : call.ispbxcall = false ∧ call.arg = some d := by
  obtain ⟨call', live', main, isArg⟩ := inv.owned d c has
  obtain rfl : call = call' := Option.some.inj (live.symm.trans live')
  exact ⟨main, isArg⟩

/-- A main call is that of one destination. -/
theorem owner_unique {e : DestId} (inv : Sound m own) (has : own d = some c)
    (has' : own e = some c) : d = e := by
  obtain ⟨call, live, -, isArg⟩ := inv.owned d c has
  exact Option.some.inj (isArg.symm.trans (inv.arg_of_owned has' live).2)

/-- A call with a PBX leg is a main call. -/
theorem owned_of_leg (inv : Sound m own) (live : m.calls.get c = some call)
    (has : call.pbxCall = some leg) : ∃ d, call.arg = some d ∧ own d = some c := by
  obtain ⟨d, isArg, ⟨-, owned⟩ | isLeg⟩ := inv.role c call live
  · exact ⟨d, isArg, owned⟩
  · rw [isLeg.noLeg] at has
    cases has

theorem main_of_leg (inv : Sound m own) (live : m.calls.get c = some call)
    (has : call.pbxCall = some leg) : call.ispbxcall = false := by
  obtain ⟨d, -, owned⟩ := inv.owned_of_leg live has
  exact (inv.arg_of_owned owned live).1

theorem leg_noLeg (inv : Sound m own) (live : m.calls.get leg = some legCall)
    (pbx : legCall.ispbxcall = true) : legCall.pbxCall = none := by
  cases has : legCall.pbxCall with
  | none => rfl
  | some l =>
    rw [inv.main_of_leg live has] at pbx
    cases pbx

/-- A PBX leg is that of one main call. -/
theorem leg_unique {c' : CallId} {call' : Call} (inv : Sound m own)
    (live : m.calls.get c = some call) (has : call.pbxCall = some leg)
    (live' : m.calls.get c' = some call') (has' : call'.pbxCall = some leg) : c = c' := by
  obtain ⟨-, legCall, liveLeg, -, isArg⟩ := inv.leg c call leg live has
  obtain ⟨-, legCall', liveLeg', -, isArg'⟩ := inv.leg c' call' leg live' has'
  obtain rfl : legCall = legCall' := Option.some.inj (liveLeg.symm.trans liveLeg')
  obtain ⟨d, isD, owned⟩ := inv.owned_of_leg live has
  obtain ⟨e, isE, owned'⟩ := inv.owned_of_leg live' has'
  obtain rfl : d = e := Option.some.inj (isD.symm.trans (isArg.symm.trans (isArg'.trans isE)))
  exact Option.some.inj (owned.symm.trans owned')

theorem leg_ne (inv : Sound m own) (live : m.calls.get c = some call)
    (has : call.pbxCall = some leg) : leg ≠ c := by
  rintro rfl
  obtain ⟨-, legCall, liveLeg, pbx, -⟩ := inv.leg leg call leg live has
  obtain rfl : call = legCall := Option.some.inj (live.symm.trans liveLeg)
  rw [inv.main_of_leg live has] at pbx
  cases pbx

/-! ## Writes -/

theorem congr_own {own' : Owner} (inv : Sound m own) (same : ∀ d, own' d = own d) :
    Sound m own' := by
  obtain rfl : own' = own := funext same
  exact inv

end Sound

/-- The write leaves alone what links a call to other objects. -/
structure SameLinks (old new : Call) : Prop where
  rtpSess : new.rtpSess = old.rtpSess
  pbxCall : new.pbxCall = old.pbxCall
  rtpDest : new.rtpDest = old.rtpDest
  dest : new.dest = old.dest
  ispbxcall : new.ispbxcall = old.ispbxcall
  arg : new.arg = old.arg

@[refl] theorem SameLinks.refl (call : Call) : SameLinks call call := ⟨rfl, rfl, rfl, rfl, rfl, rfl⟩

/-- The same calls, but for fields that link nothing. -/
structure SameCalls (m m' : Media) : Prop where
  forth : ∀ c call, m.calls.get c = some call →
    ∃ call', m'.calls.get c = some call' ∧ SameLinks call call'
  back : ∀ c call', m'.calls.get c = some call' →
    ∃ call, m.calls.get c = some call ∧ SameLinks call call'

theorem SameCalls.of_eq (same : ∀ c, m'.calls.get c = m.calls.get c) : SameCalls m m' where
  forth c call live := ⟨call, (same c).trans live, SameLinks.refl call⟩
  back c call live := ⟨call, (same c).symm.trans live, SameLinks.refl call⟩

theorem SameCalls.setCall {f : Call → Call}
    (links : ∀ call, m.calls.get c = some call → SameLinks call (f call)) :
    SameCalls m (m.setCall c f) where
  forth p call live := by
    by_cases here : p = c
    · subst here
      exact ⟨f call, by simp [live], links call live⟩
    · exact ⟨call, by simp [Heap.get_modify_ne here, live], SameLinks.refl call⟩
  back p call' live := by
    rw [calls_setCall, Heap.get_modify] at live
    split at live
    next here =>
      subst here
      obtain ⟨call, old, rfl⟩ := Option.map_eq_some_iff.mp live
      exact ⟨call, old, links call old⟩
    next => exact ⟨call', live, SameLinks.refl call'⟩

theorem IsLeg.alike (isLeg : IsLeg m own leg legCall d) (calls : SameCalls m m') {new : Call}
    (links : SameLinks legCall new) : IsLeg m' own leg new d where
  ispbxcall := links.ispbxcall.trans isLeg.ispbxcall
  dest := links.dest.trans isLeg.dest
  noLeg := links.pbxCall.trans isLeg.noLeg
  main := by
    obtain ⟨c, call, owned, live, has⟩ := isLeg.main
    obtain ⟨call', live', links'⟩ := calls.forth c call live
    exact ⟨c, call', owned, live', links'.pbxCall.trans has⟩

namespace Sound

/-- What links calls and sessions is left alone. -/
theorem alike (inv : Sound m own) (calls : SameCalls m m') (pool : Pool m')
    (rtp : ∀ rs, (m'.rtp rs).arg = (m.rtp rs).arg ∧ (m'.rtp rs).inUse = (m.rtp rs).inUse ∧
      (m'.rtp rs).remote = (m.rtp rs).remote ∧ (m'.rtp rs).remoteIp = (m.rtp rs).remoteIp)
    (listens : ∀ rs, (m'.rtp rs).televRecv = true → ∃ c, (m'.rtp rs).arg = some c) :
    Sound m' own where
  pool := pool
  listens := listens
  session c call' live := by
    obtain ⟨call, old, links⟩ := calls.back c call' live
    obtain ⟨rs, holds, named, used⟩ := inv.session c call old
    exact ⟨rs, links.rtpSess.trans holds, (rtp rs).1.trans named, (rtp rs).2.1.trans used⟩
  owner rs c named := by
    obtain ⟨call, live, holds⟩ := inv.owner rs c ((rtp rs).1.symm.trans named)
    obtain ⟨call', live', links⟩ := calls.forth c call live
    exact ⟨call', live', links.rtpSess.trans holds⟩
  owned d c has := by
    obtain ⟨call, live, main, isArg⟩ := inv.owned d c has
    obtain ⟨call', live', links⟩ := calls.forth c call live
    exact ⟨call', live', links.ispbxcall.trans main, links.arg.trans isArg⟩
  role c call' live := by
    obtain ⟨call, old, links⟩ := calls.back c call' live
    obtain ⟨d, isArg, ⟨main, owned⟩ | isLeg⟩ := inv.role c call old
    · exact ⟨d, links.arg.trans isArg, .inl ⟨links.ispbxcall.trans main, owned⟩⟩
    · exact ⟨d, links.arg.trans isArg, .inr (isLeg.alike calls links)⟩
  leg c call' leg live has := by
    obtain ⟨call, old, links⟩ := calls.back c call' live
    obtain ⟨answered, legCall, liveLeg, pbx, isArg⟩ :=
      inv.leg c call leg old (links.pbxCall.symm.trans has)
    obtain ⟨legCall', liveLeg', links'⟩ := calls.forth leg legCall liveLeg
    exact ⟨by rw [links.rtpDest]; exact answered, legCall', liveLeg',
      links'.ispbxcall.trans pbx, by rw [links'.arg, links.arg, isArg]⟩
  peer c call' rs a live holds answer := by
    obtain ⟨call, old, links⟩ := calls.back c call' live
    rw [(rtp rs).2.2.2]
    exact inv.peer c call rs a old (links.rtpSess.symm.trans holds)
      (links.rtpDest.symm.trans answer)
  bridge rs t linked := by
    obtain ⟨back, c, call, leg, legCall, live, has, liveLeg, answered, holds⟩ :=
      inv.bridge rs t ((rtp rs).2.2.1.symm.trans linked)
    obtain ⟨call', live', links⟩ := calls.forth c call live
    obtain ⟨legCall', liveLeg', links'⟩ := calls.forth leg legCall liveLeg
    refine ⟨(rtp t).2.2.1.trans back, c, call', leg, legCall', live', links.pbxCall.trans has,
      liveLeg', by rw [links'.rtpDest]; exact answered, ?_⟩
    rw [links.rtpSess, links'.rtpSess]
    exact holds

theorem setCall (inv : Sound m own) {f : Call → Call}
    (links : ∀ call, m.calls.get c = some call → SameLinks call (f call)) :
    Sound (m.setCall c f) own :=
  inv.alike (SameCalls.setCall links) ⟨inv.pool.nodup, inv.pool.clean⟩
    (fun _ => ⟨rfl, rfl, rfl, rfl⟩) inv.listens

/-- A write to a session that somebody holds. -/
theorem setSession (inv : Sound m own) (named : (m.rtp rs).arg = some c)
    {f : RtpSession → RtpSession}
    (same : (f (m.rtp rs)).arg = (m.rtp rs).arg ∧ (f (m.rtp rs)).inUse = (m.rtp rs).inUse ∧
      (f (m.rtp rs)).remote = (m.rtp rs).remote ∧ (f (m.rtp rs)).remoteIp = (m.rtp rs).remoteIp) :
    Sound (m.setSession rs f) own := by
  have elsewhere : ∀ rs', rs' ≠ rs → (m.setSession rs f).rtp rs' = m.rtp rs' := fun rs' ne => by
    rw [rtp_setSession, if_neg ne]
  refine inv.alike (SameCalls.of_eq fun _ => rfl) ⟨inv.pool.nodup, fun rs' free => ?_⟩
    (fun rs' => ?_) (fun rs' on => ?_)
  · rw [elsewhere rs' (by rintro rfl; exact inv.busy named free)]
    exact inv.pool.clean rs' free
  · by_cases here : rs' = rs
    · subst here
      rw [rtp_setSession, if_pos rfl]
      exact same
    · rw [elsewhere rs' here]
      exact ⟨rfl, rfl, rfl, rfl⟩
  · by_cases here : rs' = rs
    · subst here
      rw [rtp_setSession, if_pos rfl, same.1]
      exact ⟨c, named⟩
    · rw [elsewhere rs' here] at on ⊢
      exact inv.listens rs' on

/-- Sending touches nothing. -/
theorem send (inv : Sound m own) (w : Wire) : Sound (m.send w) own :=
  inv.alike (SameCalls.of_eq fun _ => rfl) ⟨inv.pool.nodup, inv.pool.clean⟩
    (fun _ => ⟨rfl, rfl, rfl, rfl⟩) inv.listens

/-! ## `call_alloc` -/

/-- Sessions that nobody holds may change; they still listen to nothing and are
linked to nothing. -/
theorem spare (inv : Sound m own) (calls : ∀ p, m'.calls.get p = m.calls.get p) (pool : Pool m')
    (held : ∀ rs, rs ∉ m.rtpSessions → m'.rtp rs = m.rtp rs)
    (idle : ∀ rs ∈ m.rtpSessions,
      (m'.rtp rs).arg = none ∧ (m'.rtp rs).televRecv = false ∧ (m'.rtp rs).remote = none) :
    Sound m' own where
  pool := pool
  session c call live := by
    rw [calls] at live
    obtain ⟨rs, holds, named, used⟩ := inv.session c call live
    exact ⟨rs, holds, by rw [held rs (inv.busy named)]; exact ⟨named, used⟩⟩
  owner rs c named := by
    have notFree : rs ∉ m.rtpSessions := fun free => by
      rw [(idle rs free).1] at named
      cases named
    rw [held rs notFree] at named
    obtain ⟨call, live, holds⟩ := inv.owner rs c named
    exact ⟨call, (calls c).trans live, holds⟩
  listens rs on := by
    have notFree : rs ∉ m.rtpSessions := fun free => by
      rw [(idle rs free).2.1] at on
      cases on
    rw [held rs notFree] at on ⊢
    exact inv.listens rs on
  owned d c has := by
    obtain ⟨call, live, rest⟩ := inv.owned d c has
    exact ⟨call, (calls c).trans live, rest⟩
  role c call live := by
    rw [calls] at live
    obtain ⟨d, isArg, main | isLeg⟩ := inv.role c call live
    · exact ⟨d, isArg, .inl main⟩
    · exact ⟨d, isArg, .inr (isLeg.alike (SameCalls.of_eq calls) (SameLinks.refl call))⟩
  leg c call leg live has := by
    rw [calls] at live
    obtain ⟨answered, legCall, liveLeg, rest⟩ := inv.leg c call leg live has
    exact ⟨answered, legCall, (calls leg).trans liveLeg, rest⟩
  peer c call rs a live holds answer := by
    rw [calls] at live
    rw [held rs (inv.busy (inv.arg_of live holds))]
    exact inv.peer c call rs a live holds answer
  bridge rs t linked := by
    have notFree : ∀ rs t, (m'.rtp rs).remote = some t → rs ∉ m.rtpSessions :=
      fun rs t linked free => by
        rw [(idle rs free).2.2] at linked
        cases linked
    rw [held rs (notFree rs t linked)] at linked
    obtain ⟨back, c, call, leg, legCall, live, has, liveLeg, rest⟩ := inv.bridge rs t linked
    have tHeld : t ∉ m.rtpSessions := fun free => by
      rw [(inv.pool.clean t free).remote] at back
      cases back
    rw [held t tHeld]
    exact ⟨back, c, call, leg, legCall, (calls c).trans live, has, (calls leg).trans liveLeg, rest⟩

theorem refused {env : AllocEnv} {tel : Option String} {isPbx : Bool} {arg : DestId}
    {callp : Option CallId} {r : Alloc} (inv : Sound m own)
    (failed : NotPlaced m env tel isPbx arg callp r) : Sound r.media own :=
  have refused := failed.refused inv.pool
  inv.spare failed.calls refused.pool refused.busy refused.idle

section Place

variable {env : AllocEnv} {now : Time} {tel : Option String} {isPbx : Bool} {r : Alloc}

/-- The sessions of the calls that were there before. -/
theorem held_of_placed (inv : Sound m own) (done : Placed m env now tel isPbx d r rs call)
    (named : (m.rtp t).arg = some c) : r.media.rtp t = m.rtp t := by
  rw [done.rtp_get, if_neg]
  rintro rfl
  exact inv.busy named done.free

/-- What the sessions say after a call has been placed, if the calls that were
there before keep their links. -/
theorem sessions_of_placed (inv : Sound m own) (done : Placed m env now tel isPbx d r rs call) :
    (∀ t, (r.media.rtp t).televRecv = true → ∃ c, (r.media.rtp t).arg = some c) ∧
      (∀ t u, (r.media.rtp t).remote = some u → (m.rtp t).remote = some u) ∧
      (r.media.rtp rs).arg = some m.calls.next ∧ (r.media.rtp rs).inUse = true := by
  have clean := inv.pool.clean rs done.free
  refine ⟨fun t on => ?_, fun t u linked => ?_, ?_, ?_⟩
  · rw [done.rtp_get] at on ⊢
    split at on
    next here => exact ⟨m.calls.next, by rw [if_pos here]⟩
    next ne =>
      rw [if_neg ne]
      exact inv.listens t on
  · rw [done.rtp_get] at linked
    split at linked
    next here =>
      rw [here]
      exact linked
    next => exact linked
  · rw [done.rtp_get, if_pos rfl]
  · rw [done.rtp_get, if_pos rfl]

/-- A main call is placed for a destination that has none. -/
theorem place (inv : Sound m own) (done : Placed m env now tel isPbx d r rs call)
    (idle : own d = none) : Sound r.media (Function.update own d (some m.calls.next)) := by
  obtain ⟨listens, linked, named, used⟩ := inv.sessions_of_placed done
  obtain ⟨pt, sess, isNew⟩ := done.new
  have old : ∀ c call, m.calls.get c = some call → r.media.calls.get c = some call :=
    fun c call live => by rw [done.calls, Heap.get_alloc_of_live live]
  have new : r.media.calls.get m.calls.next = some call := by rw [done.calls, Heap.get_alloc_next]
  have cases : ∀ c call', r.media.calls.get c = some call' →
      (c = m.calls.next ∧ call' = call) ∨ m.calls.get c = some call' := by
    intro c call' live
    rw [done.calls, Heap.get_alloc] at live
    split at live
    next here => exact .inl ⟨here, (Option.some.inj live).symm⟩
    next => exact .inr live
  have others : ∀ e c, own e = some c → Function.update own d (some m.calls.next) e = some c := by
    intro e c has
    rw [Function.update_of_ne, has]
    rintro rfl
    rw [idle] at has
    cases has
  -- the fields one by one: a call is the new one or an old one, and only the session taken changes
  refine ⟨done.pool inv.pool, ?_, ?_, listens, ?_, ?_, ?_, ?_, ?_⟩
  · intro c call' live
    rcases cases c call' live with ⟨rfl, rfl⟩ | live
    · exact ⟨rs, by rw [isNew]; rfl, named, used⟩
    · obtain ⟨t, holds, isArg, busy⟩ := inv.session c call' live
      exact ⟨t, holds, by rw [inv.held_of_placed done isArg]; exact ⟨isArg, busy⟩⟩
  · intro t c isArg
    by_cases here : t = rs
    · subst here
      obtain rfl := Option.some.inj (named.symm.trans isArg)
      exact ⟨call, new, by rw [isNew]; rfl⟩
    · rw [done.rtp_get, if_neg here] at isArg
      obtain ⟨call', live, holds⟩ := inv.owner t c isArg
      exact ⟨call', old c call' live, holds⟩
  · intro e c has
    by_cases here : e = d
    · subst here
      rw [Function.update_self] at has
      obtain rfl := Option.some.inj has
      exact ⟨call, new, by rw [isNew]; rfl, by rw [isNew]; rfl⟩
    · rw [Function.update_of_ne here] at has
      obtain ⟨call', live, rest⟩ := inv.owned e c has
      exact ⟨call', old c call' live, rest⟩
  · intro c call' live
    rcases cases c call' live with ⟨rfl, rfl⟩ | live
    · exact ⟨d, by rw [isNew]; rfl, .inl ⟨by rw [isNew]; rfl, Function.update_self ..⟩⟩
    · obtain ⟨e, isArg, ⟨main, has⟩ | isLeg⟩ := inv.role c call' live
      · exact ⟨e, isArg, .inl ⟨main, others e c has⟩⟩
      · obtain ⟨c', mainCall, has, liveMain, isMain⟩ := isLeg.main
        exact ⟨e, isArg, .inr ⟨isLeg.ispbxcall, isLeg.dest, isLeg.noLeg, c', mainCall,
          others e c' has, old c' mainCall liveMain, isMain⟩⟩
  · intro c call' leg live has
    rcases cases c call' live with ⟨rfl, rfl⟩ | live
    · rw [isNew] at has
      cases has
    · obtain ⟨answered, legCall, liveLeg, rest⟩ := inv.leg c call' leg live has
      exact ⟨answered, legCall, old leg legCall liveLeg, rest⟩
  · intro c call' t a live holds answer
    rcases cases c call' live with ⟨rfl, rfl⟩ | live
    · rw [isNew] at answer
      cases answer
    · rw [inv.held_of_placed done (inv.arg_of live holds)]
      exact inv.peer c call' t a live holds answer
  · intro t u link
    obtain ⟨back, c, call', leg, legCall, live, has, liveLeg, answered, holds⟩ :=
      inv.bridge t u (linked t u link)
    -- a free session is clean, so a linked one is not the session taken
    have uHeld : u ≠ rs := by
      rintro rfl
      rw [(inv.pool.clean u done.free).remote] at back
      cases back
    exact ⟨by rw [done.rtp_get, if_neg uHeld]; exact back, c, call', leg, legCall,
      old c call' live, has, old leg legCall liveLeg, answered, holds⟩

/-- The PBX leg of the answered main call `c` is placed, and the two are told of
each other. -/
theorem placeLeg {mainCall : Call} (inv : Sound m own)
    (done : Placed m env now tel isPbx d r rs call) (live : m.calls.get c = some mainCall)
    (has : own d = some c) (noLeg : mainCall.pbxCall = none)
    (answered : mainCall.rtpDest.isSome = true) :
    Sound (((r.media.setCall c fun call => { call with pbxCall := r.callp }).setCall m.calls.next
      fun call => { call with ispbxcall := true, dest := some d }).setCall c fun call =>
        { call with forwarded := true }) own := by
  generalize final : Media.setCall _ _ _ = m'
  obtain ⟨listens, linked, named, used⟩ := inv.sessions_of_placed done
  obtain ⟨pt, sess, isNew⟩ := done.new
  have apart : c ≠ m.calls.next := Heap.ne_next live
  obtain ⟨main, isArg⟩ := inv.arg_of_owned has live
  have rtp : m'.rtp = r.media.rtp := by rw [← final]; rfl
  have free : m'.rtpSessions = r.media.rtpSessions := by rw [← final]; rfl
  -- the calls: the main call, its leg, and the others
  have liveMain : m'.calls.get c =
      some { mainCall with pbxCall := some m.calls.next, forwarded := true } := by
    simp [← final, done.calls, Heap.get_modify_ne apart, Heap.get_alloc_of_live live, done.callp]
  have liveLeg : m'.calls.get m.calls.next =
      some { call with ispbxcall := true, dest := some d } := by
    simp [← final, done.calls, Heap.get_modify_ne apart.symm]
  have others : ∀ p, p ≠ c → p ≠ m.calls.next → m'.calls.get p = m.calls.get p := by
    intro p notMain notLeg
    simp [← final, done.calls, Heap.get_modify, Heap.get_alloc, notMain, notLeg]
  have cases : ∀ p call', m'.calls.get p = some call' →
      (p = m.calls.next ∧ call' = { call with ispbxcall := true, dest := some d }) ∨
      (p = c ∧ call' = { mainCall with pbxCall := some m.calls.next, forwarded := true }) ∨
      (p ≠ c ∧ m.calls.get p = some call') := by
    intro p call' live'
    by_cases isLeg : p = m.calls.next
    · subst isLeg
      exact .inl ⟨rfl, Option.some.inj (live'.symm.trans liveLeg)⟩
    · by_cases isMain : p = c
      · subst isMain
        exact .inr (.inl ⟨rfl, Option.some.inj (live'.symm.trans liveMain)⟩)
      · rw [others p isMain isLeg] at live'
        exact .inr (.inr ⟨isMain, live'⟩)
  have old : ∀ p call', p ≠ c → m.calls.get p = some call' → m'.calls.get p = some call' :=
    fun p call' ne live' => by rw [others p ne (Heap.ne_next live'), live']
  -- a call that was there before is there with its session and its owner
  have forth : ∀ p call', m.calls.get p = some call' → ∃ call'', m'.calls.get p = some call'' ∧
      call''.rtpSess = call'.rtpSess ∧ call''.ispbxcall = call'.ispbxcall ∧
      call''.arg = call'.arg ∧ call''.rtpDest = call'.rtpDest ∧
      (call'.pbxCall.isSome = true → call''.pbxCall = call'.pbxCall) := by
    intro p call' live'
    by_cases isMain : p = c
    · subst isMain
      obtain rfl : mainCall = call' := Option.some.inj (live.symm.trans live')
      exact ⟨_, liveMain, rfl, rfl, rfl, rfl, fun some => by rw [noLeg] at some; cases some⟩
    · exact ⟨call', old p call' isMain live', rfl, rfl, rfl, rfl, fun _ => rfl⟩
  refine ⟨?_, ?_, ?_, ?_, ?_, ?_, ?_, ?_, ?_⟩
  · have pool := done.pool inv.pool
    exact ⟨by rw [free]; exact pool.nodup, by rw [free, rtp]; exact pool.clean⟩
  · intro p call' live'
    rw [rtp]
    rcases cases p call' live' with ⟨rfl, rfl⟩ | ⟨rfl, rfl⟩ | ⟨-, before⟩
    · exact ⟨rs, by rw [isNew]; rfl, named, used⟩
    · obtain ⟨t, holds, isP, busy⟩ := inv.session p mainCall live
      exact ⟨t, holds, by rw [inv.held_of_placed done isP]; exact ⟨isP, busy⟩⟩
    · obtain ⟨t, holds, isP, busy⟩ := inv.session p call' before
      exact ⟨t, holds, by rw [inv.held_of_placed done isP]; exact ⟨isP, busy⟩⟩
  · intro t p isP
    rw [rtp] at isP
    by_cases here : t = rs
    · subst here
      obtain rfl := Option.some.inj (named.symm.trans isP)
      exact ⟨_, liveLeg, by rw [isNew]; rfl⟩
    · rw [done.rtp_get, if_neg here] at isP
      obtain ⟨call', before, holds⟩ := inv.owner t p isP
      obtain ⟨call'', live', sess, -⟩ := forth p call' before
      exact ⟨call'', live', sess.trans holds⟩
  · rw [rtp]
    exact listens
  · intro e p owned
    obtain ⟨call', before, isMain, isE⟩ := inv.owned e p owned
    obtain ⟨call'', live', -, pbx, arg, -⟩ := forth p call' before
    exact ⟨call'', live', pbx.trans isMain, arg.trans isE⟩
  · intro p call' live'
    rcases cases p call' live' with ⟨rfl, rfl⟩ | ⟨rfl, rfl⟩ | ⟨-, before⟩
    · exact ⟨d, by rw [isNew]; rfl, .inr ⟨rfl, rfl, by rw [isNew]; rfl, c, _, has, liveMain, rfl⟩⟩
    · exact ⟨d, isArg, .inl ⟨main, has⟩⟩
    · obtain ⟨e, isE, main' | isLeg⟩ := inv.role p call' before
      · exact ⟨e, isE, .inl main'⟩
      · obtain ⟨c', mainCall', has', liveMain', isMain'⟩ := isLeg.main
        obtain ⟨call'', live'', -, -, -, -, keeps⟩ := forth c' mainCall' liveMain'
        exact ⟨e, isE, .inr ⟨isLeg.ispbxcall, isLeg.dest, isLeg.noLeg, c', call'', has', live'',
          (keeps (by rw [isMain']; rfl)).trans isMain'⟩⟩
  · intro p call' leg live' hasLeg
    rcases cases p call' live' with ⟨rfl, rfl⟩ | ⟨rfl, rfl⟩ | ⟨-, before⟩
    · rw [isNew] at hasLeg
      cases hasLeg
    · obtain rfl : m.calls.next = leg := Option.some.inj hasLeg
      exact ⟨answered, _, liveLeg, rfl, by rw [isNew]; exact isArg.symm⟩
    · obtain ⟨up, legCall, liveLeg', pbx, sameArg⟩ := inv.leg p call' leg before hasLeg
      obtain ⟨call'', live'', -, pbx', arg', -⟩ := forth leg legCall liveLeg'
      exact ⟨up, call'', live'', pbx'.trans pbx, arg'.trans sameArg⟩
  · intro p call' t a live' holds answer
    rw [rtp]
    rcases cases p call' live' with ⟨rfl, rfl⟩ | ⟨rfl, rfl⟩ | ⟨-, before⟩
    · rw [isNew] at answer
      cases answer
    · rw [inv.held_of_placed done (inv.arg_of live holds)]
      exact inv.peer p mainCall t a live holds answer
    · rw [inv.held_of_placed done (inv.arg_of before holds)]
      exact inv.peer p call' t a before holds answer
  · intro t u link
    rw [rtp] at link ⊢
    obtain ⟨back, p, call', leg, legCall, live', hasLeg, liveLeg', up, holds⟩ :=
      inv.bridge t u (linked t u link)
    have uHeld : u ≠ rs := by
      rintro rfl
      rw [(inv.pool.clean u done.free).remote] at back
      cases back
    obtain ⟨call'', after, sess, -, -, -, keeps⟩ := forth p call' live'
    obtain ⟨legCall', after', sess', -, -, up', -⟩ := forth leg legCall liveLeg'
    refine ⟨by rw [done.rtp_get, if_neg uHeld]; exact back, p, call'', leg, legCall', after,
      (keeps (by rw [hasLeg]; rfl)).trans hasLeg, after', by rw [up']; exact up, ?_⟩
    rw [sess, sess']
    exact holds

end Place

end Sound

/-! ## The end of a main call -/

/-- The calls `gone` are destroyed and their sessions are back in the pool. -/
structure Dropped (m m' : Media) (gone : List CallId) : Prop where
  calls : ∀ p, m'.calls.get p = if p ∈ gone then none else m.calls.get p
  next : m'.calls.next = m.calls.next
  wire : m'.wire = m.wire
  pool : Pool m'
  clean : ∀ rs, (∃ p ∈ gone, (m.rtp rs).arg = some p) → Clean (m'.rtp rs)
  kept : ∀ rs, (∀ p ∈ gone, (m.rtp rs).arg ≠ some p) → m'.rtp rs = m.rtp rs

theorem Pool.releaseOf (pool : Pool m) (call : Call) : Pool (m.releaseOf call) := by
  unfold Media.releaseOf
  split
  · exact pool.release
  · exact pool

/-- What the release of a call does to a session. -/
theorem rtp_releaseOf (call : Call) (rs : SessionId) :
    (call.rtpSess = some rs → Clean ((m.releaseOf call).rtp rs)) ∧
      (call.rtpSess ≠ some rs → (m.releaseOf call).rtp rs = m.rtp rs) := by
  unfold Media.releaseOf
  cases holds : call.rtpSess with
  | none => exact ⟨nofun, fun _ => rfl⟩
  | some t =>
    refine ⟨fun eq => ?_, fun ne => ?_⟩
    · obtain rfl := Option.some.inj eq
      dsimp only
      rw [rtp_releaseRtpSession, if_pos rfl]
      exact ⟨rfl, rfl, rfl, rfl, rfl⟩
    · dsimp only
      rw [rtp_releaseRtpSession, if_neg]
      rintro rfl
      exact ne rfl

/-- A main call ends together with its PBX leg. -/
theorem memDerefCall_dropped (inv : Sound m own) (live : m.calls.get c = some call)
    (run : memDerefCall callDepth m c = .ok m') :
    ∃ gone, Dropped m m' gone ∧
      ((gone = [c] ∧ call.pbxCall = none) ∨ ∃ leg, gone = [leg, c] ∧ call.pbxCall = some leg) := by
  -- a session names the call that holds it, so those of the dead calls are the ones released
  have arg_iff : ∀ p call', m.calls.get p = some call' → ∀ rs,
      (m.rtp rs).arg = some p ↔ call'.rtpSess = some rs := by
    intro p call' live' rs
    constructor
    · intro named
      obtain ⟨call'', live'', holds⟩ := inv.owner rs p named
      obtain rfl := Option.some.inj (live'.symm.trans live'')
      exact holds
    · exact inv.arg_of live'
  cases hasLeg : call.pbxCall with
  | none =>
    rw [callDepth, memDerefCall_leaf live hasLeg] at run
    cases run
    refine ⟨[c], ⟨fun p => ?_, rfl, wire_releaseOf, ?_, ?_, ?_⟩, .inl ⟨rfl, rfl⟩⟩
    · simp [Heap.get_free]
    · exact ⟨(inv.pool.releaseOf call).nodup, (inv.pool.releaseOf call).clean⟩
    · rintro rs ⟨p, mem, named⟩
      obtain rfl : p = c := by simpa using mem
      exact (rtp_releaseOf call rs).1 ((arg_iff p call live rs).mp named)
    · intro rs others
      exact (rtp_releaseOf call rs).2 fun holds =>
        others c (by simp) ((arg_iff c call live rs).mpr holds)
  | some leg =>
    -- a leg has no leg of its own, so the depth of two is enough
    obtain ⟨-, legCall, liveLeg, pbx, -⟩ := inv.leg c call leg live hasLeg
    rw [memDerefCall_leg live hasLeg liveLeg (inv.leg_noLeg liveLeg pbx)] at run
    cases run
    refine ⟨[leg, c], ⟨fun p => ?_, rfl, wire_releaseOf.trans wire_releaseOf, ?_, ?_, ?_⟩,
      .inr ⟨leg, rfl, rfl⟩⟩
    · by_cases isMain : p = c <;> by_cases isLeg : p = leg <;>
        simp [Heap.get_free, isMain, isLeg]
    · have pool := (inv.pool.releaseOf call).releaseOf legCall
      exact ⟨pool.nodup, pool.clean⟩
    · rintro rs ⟨p, mem, named⟩
      change Clean (((m.releaseOf call).releaseOf legCall).rtp rs)
      by_cases isLeg : legCall.rtpSess = some rs
      · exact (rtp_releaseOf legCall rs).1 isLeg
      · rw [(rtp_releaseOf legCall rs).2 isLeg]
        refine (rtp_releaseOf call rs).1 ?_
        rcases List.mem_cons.mp mem with rfl | mem
        · exact absurd ((arg_iff p legCall liveLeg rs).mp named) isLeg
        · obtain rfl : p = c := by simpa using mem
          exact (arg_iff p call live rs).mp named
    · intro rs others
      change ((m.releaseOf call).releaseOf legCall).rtp rs = m.rtp rs
      rw [(rtp_releaseOf legCall rs).2 fun holds =>
          others leg (by simp) ((arg_iff leg legCall liveLeg rs).mpr holds),
        (rtp_releaseOf call rs).2 fun holds =>
          others c (by simp) ((arg_iff c call live rs).mpr holds)]

namespace Sound

/-- The main call of `d` ends. -/
theorem drop (inv : Sound m own) (has : own d = some c)
    (run : memDerefCall callDepth m c = .ok m') : Sound m' (Function.update own d none) := by
  obtain ⟨call, live, main, isArg⟩ := inv.owned d c has
  obtain ⟨gone, dropped, which⟩ := memDerefCall_dropped inv live run
  -- what is gone is the call of `d` and its leg
  have isGone : ∀ p, p ∈ gone ↔ p = c ∨ call.pbxCall = some p := by
    intro p
    rcases which with ⟨rfl, noLeg⟩ | ⟨leg, rfl, hasLeg⟩
    · simp [noLeg]
    · rw [hasLeg]
      constructor
      · intro mem
        rcases List.mem_cons.mp mem with rfl | mem
        · exact .inr rfl
        · exact .inl (by simpa using mem)
      · rintro (rfl | eq)
        · simp
        · simp [Option.some.inj eq]
  have back : ∀ p call', m'.calls.get p = some call' → p ∉ gone ∧ m.calls.get p = some call' := by
    intro p call' live'
    rw [dropped.calls] at live'
    split at live'
    · cases live'
    next here => exact ⟨here, live'⟩
  have forth : ∀ p call', p ∉ gone → m.calls.get p = some call' → m'.calls.get p = some call' :=
    fun p call' here live' => by rw [dropped.calls, if_neg here, live']
  have held : ∀ rs p, p ∉ gone → (m.rtp rs).arg = some p → m'.rtp rs = m.rtp rs := by
    intro rs p here named
    refine dropped.kept rs fun q mem eq => here ?_
    obtain rfl : p = q := Option.some.inj (named.symm.trans eq)
    exact mem
  have unclean : ∀ rs, ¬ Clean (m'.rtp rs) → m'.rtp rs = m.rtp rs := by
    intro rs notClean
    exact dropped.kept rs fun p mem named => notClean (dropped.clean rs ⟨p, mem, named⟩)
  have ownOther : ∀ e p, p ≠ c → own e = some p → Function.update own d none e = some p := by
    intro e p ne owned
    rw [Function.update_of_ne, owned]
    rintro rfl
    exact ne (Option.some.inj (owned.symm.trans has))
  -- the main call of a leg that stays stays too
  have mainStays : ∀ p mainCall q, m.calls.get p = some mainCall → mainCall.pbxCall = some q →
      q ∉ gone → p ∉ gone := by
    intro p mainCall q liveMain isLeg here mem
    rcases (isGone p).mp mem with rfl | gonePbx
    · obtain rfl := Option.some.inj (live.symm.trans liveMain)
      exact here ((isGone q).mpr (.inr isLeg))
    · obtain ⟨-, legCall, liveLeg, pbx, -⟩ := inv.leg c call p live gonePbx
      obtain rfl := Option.some.inj (liveLeg.symm.trans liveMain)
      rw [inv.main_of_leg liveLeg isLeg] at pbx
      cases pbx
  have legStays : ∀ p mainCall q, m.calls.get p = some mainCall → mainCall.pbxCall = some q →
      p ∉ gone → q ∉ gone := by
    intro p mainCall q liveMain isLeg here mem
    rcases (isGone q).mp mem with rfl | gonePbx
    · obtain ⟨-, legCall, liveLeg, pbx, -⟩ := inv.leg p mainCall q liveMain isLeg
      obtain rfl := Option.some.inj (live.symm.trans liveLeg)
      rw [main] at pbx
      cases pbx
    · obtain rfl := inv.leg_unique live gonePbx liveMain isLeg
      exact here ((isGone c).mpr (.inl rfl))
  refine ⟨dropped.pool, ?_, ?_, ?_, ?_, ?_, ?_, ?_, ?_⟩
  · intro p call' live'
    obtain ⟨here, before⟩ := back p call' live'
    obtain ⟨rs, holds, named, used⟩ := inv.session p call' before
    exact ⟨rs, holds, by rw [held rs p here named]; exact ⟨named, used⟩⟩
  · intro rs p named
    have same := unclean rs fun clean => by rw [clean.arg] at named; cases named
    rw [same] at named
    obtain ⟨call', before, holds⟩ := inv.owner rs p named
    have here : p ∉ gone := fun mem => by
      have clean := dropped.clean rs ⟨p, mem, named⟩
      rw [same] at clean
      rw [clean.arg] at named
      cases named
    exact ⟨call', forth p call' here before, holds⟩
  · intro rs on
    have same := unclean rs fun clean => by rw [clean.televRecv] at on; cases on
    rw [same] at on ⊢
    exact inv.listens rs on
  · intro e p owned
    by_cases here : e = d
    · subst here
      rw [Function.update_self] at owned
      cases owned
    · rw [Function.update_of_ne here] at owned
      obtain ⟨call', before, isMain, isE⟩ := inv.owned e p owned
      refine ⟨call', forth p call' (fun mem => ?_) before, isMain, isE⟩
      rcases (isGone p).mp mem with rfl | gonePbx
      · exact here (inv.owner_unique owned has)
      · obtain ⟨-, legCall, liveLeg, pbx, -⟩ := inv.leg c call p live gonePbx
        obtain rfl := Option.some.inj (before.symm.trans liveLeg)
        rw [isMain] at pbx
        cases pbx
  · intro p call' live'
    obtain ⟨here, before⟩ := back p call' live'
    obtain ⟨e, isE, ⟨isMain, owned⟩ | isLeg⟩ := inv.role p call' before
    · exact ⟨e, isE, .inl ⟨isMain, ownOther e p (fun eq => here ((isGone p).mpr (.inl eq))) owned⟩⟩
    · obtain ⟨q, mainCall, owned, liveMain, isMain⟩ := isLeg.main
      have stays := mainStays q mainCall p liveMain isMain here
      exact ⟨e, isE, .inr ⟨isLeg.ispbxcall, isLeg.dest, isLeg.noLeg, q, mainCall,
        ownOther e q (fun eq => stays ((isGone q).mpr (.inl eq))) owned,
        forth q mainCall stays liveMain, isMain⟩⟩
  · intro p call' leg live' hasLeg
    obtain ⟨here, before⟩ := back p call' live'
    obtain ⟨answered, legCall, liveLeg, rest⟩ := inv.leg p call' leg before hasLeg
    exact ⟨answered, legCall, forth leg legCall (legStays p call' leg before hasLeg here) liveLeg,
      rest⟩
  · intro p call' rs a live' holds answer
    obtain ⟨here, before⟩ := back p call' live'
    rw [held rs p here (inv.arg_of before holds)]
    exact inv.peer p call' rs a before holds answer
  · intro rs t linked
    have same := unclean rs fun clean => by rw [clean.remote] at linked; cases linked
    rw [same] at linked
    obtain ⟨link, p, mainCall, q, legCall, liveMain, hasLeg, liveLeg, answered, holds⟩ :=
      inv.bridge rs t linked
    have notGone : ∀ x, (m.rtp rs).arg = some x → x ∉ gone := by
      intro x named mem
      have clean := dropped.clean rs ⟨x, mem, named⟩
      rw [same] at clean
      rw [clean.arg] at named
      cases named
    -- one of the two calls holds `rs`, so neither is gone
    have stay : p ∉ gone ∧ q ∉ gone := by
      rcases holds with ⟨isRs, -⟩ | ⟨-, isRs⟩
      · have here := notGone p (inv.arg_of liveMain isRs)
        exact ⟨here, legStays p mainCall q liveMain hasLeg here⟩
      · have here := notGone q (inv.arg_of liveLeg isRs)
        exact ⟨mainStays p mainCall q liveMain hasLeg here, here⟩
    have sameT : m'.rtp t = m.rtp t := by
      rcases holds with ⟨-, isT⟩ | ⟨isT, -⟩
      · exact held t q stay.2 (inv.arg_of liveLeg isT)
      · exact held t p stay.1 (inv.arg_of liveMain isT)
    exact ⟨by rw [sameT]; exact link, p, mainCall, q, legCall, forth p mainCall stay.1 liveMain,
      hasLeg, forth q legCall stay.2 liveLeg, answered, holds⟩

/-! ## `establish_handler` -/

/-- The call `c` is answered from the address `a`. -/
theorem answer {a : Addr} {g : Call → Call} (inv : Sound m own)
    (live : m.calls.get c = some call) (holds : call.rtpSess = some rs)
    (links : SameLinks { call with rtpDest := some a } (g call)) :
    Sound ((m.setCall c g).setSession rs fun r => { r with remoteIp := some a }) own := by
  generalize final : Media.setSession _ _ _ = m'
  have liveNow : m'.calls.get c = some (g call) := by simp [← final, live]
  have others : ∀ p, p ≠ c → m'.calls.get p = m.calls.get p := fun p ne => by
    simp [← final, Heap.get_modify_ne ne]
  have rtp : ∀ t, m'.rtp t = if t = rs then { m.rtp rs with remoteIp := some a } else m.rtp t :=
    fun t => by rw [← final, rtp_setSession]; rfl
  have same : ∀ t, (m'.rtp t).arg = (m.rtp t).arg ∧ (m'.rtp t).inUse = (m.rtp t).inUse ∧
      (m'.rtp t).remote = (m.rtp t).remote ∧ (m'.rtp t).televRecv = (m.rtp t).televRecv := by
    intro t
    rw [rtp]
    split
    next here => rw [here]; exact ⟨rfl, rfl, rfl, rfl⟩
    next => exact ⟨rfl, rfl, rfl, rfl⟩
  -- every call keeps its links, but for the address of the answer
  have back : ∀ p call', m'.calls.get p = some call' → ∃ old, m.calls.get p = some old ∧
      SameLinks { old with rtpDest := call'.rtpDest } call' ∧
      (p ≠ c → call' = old) ∧ (old.rtpDest.isSome = true → call'.rtpDest.isSome = true) := by
    intro p call' live'
    by_cases here : p = c
    · subst here
      obtain rfl := Option.some.inj (live'.symm.trans liveNow)
      refine ⟨call, live, ?_, fun ne => absurd rfl ne, fun _ => by rw [links.rtpDest]; rfl⟩
      exact ⟨links.rtpSess, links.pbxCall, rfl, links.dest, links.ispbxcall, links.arg⟩
    · rw [others p here] at live'
      exact ⟨call', live', SameLinks.refl call', fun _ => rfl, fun up => up⟩
  have forth : ∀ p old, m.calls.get p = some old → ∃ call', m'.calls.get p = some call' ∧
      SameLinks { old with rtpDest := call'.rtpDest } call' ∧
      (old.rtpDest.isSome = true → call'.rtpDest.isSome = true) := by
    intro p old live'
    by_cases here : p = c
    · subst here
      obtain ⟨old', live'', links', -, up⟩ := back p (g call) liveNow
      obtain rfl := Option.some.inj (live'.symm.trans live'')
      exact ⟨g call, liveNow, links', up⟩
    · exact ⟨old, by rw [others p here, live'], SameLinks.refl old, fun up => up⟩
  refine ⟨⟨?_, fun t free => ?_⟩, ?_, ?_, fun t on => ?_, ?_, ?_, ?_, ?_, ?_⟩
  · rw [← final]
    exact inv.pool.nodup
  · have notHeld : t ≠ rs := by
      rintro rfl
      exact inv.busy (inv.arg_of live holds) (by rw [← final] at free; exact free)
    rw [rtp, if_neg notHeld]
    exact inv.pool.clean t (by rw [← final] at free; exact free)
  · intro p call' live'
    obtain ⟨old, before, links', -⟩ := back p call' live'
    obtain ⟨t, isT, named, used⟩ := inv.session p old before
    exact ⟨t, links'.rtpSess.trans isT, (same t).1.trans named, (same t).2.1.trans used⟩
  · intro t p named
    obtain ⟨old, before, isT⟩ := inv.owner t p ((same t).1.symm.trans named)
    obtain ⟨call', live', links', -⟩ := forth p old before
    exact ⟨call', live', links'.rtpSess.trans isT⟩
  · obtain ⟨p, named⟩ := inv.listens t ((same t).2.2.2.symm.trans on)
    exact ⟨p, (same t).1.trans named⟩
  · intro e p owned
    obtain ⟨old, before, main, isE⟩ := inv.owned e p owned
    obtain ⟨call', live', links', -⟩ := forth p old before
    exact ⟨call', live', links'.ispbxcall.trans main, links'.arg.trans isE⟩
  · intro p call' live'
    obtain ⟨old, before, links', -⟩ := back p call' live'
    obtain ⟨e, isE, ⟨main, owned⟩ | isLeg⟩ := inv.role p old before
    · exact ⟨e, links'.arg.trans isE, .inl ⟨links'.ispbxcall.trans main, owned⟩⟩
    · obtain ⟨q, mainCall, owned, liveMain, isMain⟩ := isLeg.main
      obtain ⟨mainCall', liveMain', links'', -⟩ := forth q mainCall liveMain
      exact ⟨e, links'.arg.trans isE, .inr ⟨links'.ispbxcall.trans isLeg.ispbxcall,
        links'.dest.trans isLeg.dest, links'.pbxCall.trans isLeg.noLeg, q, mainCall', owned,
        liveMain', links''.pbxCall.trans isMain⟩⟩
  · intro p call' leg live' hasLeg
    obtain ⟨old, before, links', -, up⟩ := back p call' live'
    obtain ⟨answered, legCall, liveLeg, pbx, isArg⟩ :=
      inv.leg p old leg before (links'.pbxCall.symm.trans hasLeg)
    obtain ⟨legCall', liveLeg', links'', -⟩ := forth leg legCall liveLeg
    exact ⟨up answered, legCall', liveLeg', links''.ispbxcall.trans pbx,
      links''.arg.trans (isArg.trans links'.arg.symm)⟩
  · intro p call' t b live' isT answer
    obtain ⟨old, before, links', unchanged, -⟩ := back p call' live'
    have holdsT : old.rtpSess = some t := links'.rtpSess.symm.trans isT
    by_cases here : p = c
    · subst here
      obtain rfl := Option.some.inj (live.symm.trans before)
      obtain rfl := Option.some.inj (holds.symm.trans holdsT)
      obtain rfl := Option.some.inj (live'.symm.trans liveNow)
      rw [rtp, if_pos rfl, ← answer, links.rtpDest]
    · obtain rfl := unchanged here
      rw [rtp, if_neg]
      · exact inv.peer p call' t b before isT answer
      · rintro rfl
        exact here (inv.holder_unique before isT live holds)
  · intro t u linked
    obtain ⟨link, p, mainCall, q, legCall, liveMain, hasLeg, liveLeg, answered, held⟩ :=
      inv.bridge t u ((same t).2.2.1.symm.trans linked)
    obtain ⟨mainCall', liveMain', links', -⟩ := forth p mainCall liveMain
    obtain ⟨legCall', liveLeg', links'', up⟩ := forth q legCall liveLeg
    refine ⟨(same u).2.2.1.trans link, p, mainCall', q, legCall', liveMain',
      links'.pbxCall.trans hasLeg, liveLeg', up answered, ?_⟩
    rw [links'.rtpSess, links''.rtpSess]
    exact held

/-- The sessions of a main call and of its answered PBX leg are linked. -/
theorem link (inv : Sound m own) (liveLeg : m.calls.get leg = some legCall)
    (pbx : legCall.ispbxcall = true) (isDest : legCall.dest = some d) (has : own d = some c)
    (live : m.calls.get c = some call) (holds : call.rtpSess = some t)
    (holdsLeg : legCall.rtpSess = some rs) (answered : legCall.rtpDest.isSome = true) :
    Sound ((m.setSession t fun r => { r with remote := some rs }).setSession rs fun r =>
      { r with remote := some t }) own := by
  have hasLeg : call.pbxCall = some leg := by
    obtain ⟨e, -, ⟨main, -⟩ | isLeg⟩ := inv.role leg legCall liveLeg
    · rw [pbx] at main
      cases main
    · obtain rfl : e = d := Option.some.inj (isLeg.dest.symm.trans isDest)
      obtain ⟨c', mainCall, owned, liveMain, isMain⟩ := isLeg.main
      obtain rfl := Option.some.inj (owned.symm.trans has)
      obtain rfl := Option.some.inj (live.symm.trans liveMain)
      exact isMain
  have named := inv.arg_of live holds
  have namedLeg := inv.arg_of liveLeg holdsLeg
  have apart : t ≠ rs := by
    rintro rfl
    exact inv.leg_ne live hasLeg (inv.holder_unique liveLeg holdsLeg live holds)
  generalize final : Media.setSession _ _ _ = m'
  have rtp : ∀ u, m'.rtp u = if u = rs then { m.rtp rs with remote := some t }
      else if u = t then { m.rtp t with remote := some rs } else m.rtp u := by
    intro u
    rw [← final, rtp_setSession, rtp_setSession, rtp_setSession]
    by_cases isRs : u = rs
    · simp [isRs, apart.symm]
    · by_cases isT : u = t <;> simp [isRs, isT, apart]
  have same : ∀ u, (m'.rtp u).arg = (m.rtp u).arg ∧ (m'.rtp u).inUse = (m.rtp u).inUse ∧
      (m'.rtp u).televRecv = (m.rtp u).televRecv ∧ (m'.rtp u).remoteIp = (m.rtp u).remoteIp := by
    intro u
    rw [rtp]
    by_cases isRs : u = rs
    · simp [isRs]
    · by_cases isT : u = t <;> simp [isRs, isT, apart]
  have calls : m'.calls = m.calls := by rw [← final]; rfl
  have free : m'.rtpSessions = m.rtpSessions := by rw [← final]; rfl
  refine ⟨⟨?_, fun u mem => ?_⟩, ?_, ?_, fun u on => ?_, ?_, ?_, ?_, ?_, ?_⟩
  · rw [free]
    exact inv.pool.nodup
  · rw [free] at mem
    rw [rtp, if_neg (by rintro rfl; exact inv.busy namedLeg mem),
      if_neg (by rintro rfl; exact inv.busy named mem)]
    exact inv.pool.clean u mem
  · intro p call' live'
    rw [calls] at live'
    obtain ⟨u, isU, namedU, used⟩ := inv.session p call' live'
    exact ⟨u, isU, (same u).1.trans namedU, (same u).2.1.trans used⟩
  · intro u p namedU
    rw [calls]
    exact inv.owner u p ((same u).1.symm.trans namedU)
  · obtain ⟨p, namedU⟩ := inv.listens u ((same u).2.2.1.symm.trans on)
    exact ⟨p, (same u).1.trans namedU⟩
  · rw [calls]
    exact inv.owned
  · intro p call' live'
    rw [calls] at live'
    obtain ⟨e, isE, main | isLeg⟩ := inv.role p call' live'
    · exact ⟨e, isE, .inl main⟩
    · exact ⟨e, isE, .inr (isLeg.alike (SameCalls.of_eq fun _ => by rw [calls])
        (SameLinks.refl call'))⟩
  · rw [calls]
    exact inv.leg
  · intro p call' u a live' isU answer
    rw [calls] at live'
    rw [(same u).2.2.2]
    exact inv.peer p call' u a live' isU answer
  · intro u v linked
    rw [calls]
    rw [rtp] at linked
    split at linked
    next isRs =>
      obtain rfl : t = v := Option.some.inj linked
      refine ⟨?_, c, call, leg, legCall, live, hasLeg, liveLeg, answered, .inr ⟨holds, ?_⟩⟩
      · rw [rtp, if_neg apart, if_pos rfl, isRs]
      · rw [isRs]
        exact holdsLeg
    next notRs =>
      split at linked
      next isT =>
        obtain rfl : rs = v := Option.some.inj linked
        refine ⟨?_, c, call, leg, legCall, live, hasLeg, liveLeg, answered, .inl ⟨?_, holdsLeg⟩⟩
        · rw [rtp, if_pos rfl, isT]
        · rw [isT]
          exact holds
      next notT =>
        -- an older link is between the sessions of two other calls
        obtain ⟨back, p, call', q, legCall', live', hasLeg', liveLeg', answered', held⟩ :=
          inv.bridge u v linked
        have others : p ≠ c := by
          rintro rfl
          obtain rfl := Option.some.inj (live.symm.trans live')
          obtain rfl := Option.some.inj (hasLeg.symm.trans hasLeg')
          obtain rfl := Option.some.inj (liveLeg.symm.trans liveLeg')
          rcases held with ⟨isU, -⟩ | ⟨-, isU⟩
          · exact notT (Option.some.inj (isU.symm.trans holds))
          · exact notRs (Option.some.inj (isU.symm.trans holdsLeg))
        have otherLegs : q ≠ leg := by
          rintro rfl
          exact others (inv.leg_unique live' hasLeg' live hasLeg)
        have vOther : v ≠ rs ∧ v ≠ t := by
          constructor
          · rintro rfl
            rcases held with ⟨-, isV⟩ | ⟨isV, -⟩
            · exact otherLegs (inv.holder_unique liveLeg' isV liveLeg holdsLeg)
            · have eq := inv.holder_unique live' isV liveLeg holdsLeg
              subst eq
              obtain rfl := Option.some.inj (liveLeg.symm.trans live')
              rw [inv.leg_noLeg liveLeg pbx] at hasLeg'
              cases hasLeg'
          · rintro rfl
            rcases held with ⟨-, isV⟩ | ⟨isV, -⟩
            · have eq := inv.holder_unique liveLeg' isV live holds
              subst eq
              exact absurd ((inv.leg p call' q live' hasLeg').2) (by
                rintro ⟨legCall'', liveLeg'', pbx', -⟩
                obtain rfl := Option.some.inj (live.symm.trans liveLeg'')
                rw [inv.main_of_leg live hasLeg] at pbx'
                cases pbx')
            · exact others (inv.holder_unique live' isV live holds)
        exact ⟨by rw [rtp, if_neg vOther.1, if_neg vOther.2]; exact back, p, call', q, legCall',
          live', hasLeg', liveLeg', answered', held⟩

end Sound

end Autodialer
