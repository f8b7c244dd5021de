import Autodialer.CallLimit

/-!
# RTP sessions and the calls they serve

The two results about sessions: who owns a session at any time, and between
whom packets are forwarded.

* `session_ownership`: free sessions are clean, no two calls share a session,
  and a packet never leads to a call that is gone.
* `bridge_isolation`: linked sessions belong to the two legs of one call, and
  packets go from one to the other unchanged.
-/

namespace Autodialer

variable {s s' : Sys} {c : CallId} {call : Call} {d : DestId} {rs t : SessionId}
  {ans : CallId → Addr → Prop} {mb : List UInt8}

/-! ## Packets lead to live calls -/

theorem findAction_ok {actions : Heap Action} {l : List ActionId} (event : Nat)
    (live : ∀ a ∈ l, (actions.get a).isSome = true) : ∃ r, findAction actions event l = .ok r := by
  induction l with
  | nil => exact ⟨none, rfl⟩
  | cons a rest ih =>
    obtain ⟨action, here⟩ := Option.isSome_iff_exists.mp (live a List.mem_cons_self)
    obtain ⟨r, found⟩ := ih fun a mem => live a (List.mem_cons_of_mem _ mem)
    by_cases same : action.actionKey = event
    · exact ⟨some (a, action), by simp [findAction, load, here, same, pure, Except.pure]⟩
    · exact ⟨r, by simp [findAction, load, here, same, found]⟩

/-- The call of a session leads to the actions of its campaign. -/
theorem Inv.findCampaignAction_ok (inv : Inv ans s) (live : s.media.calls.get c = some call)
    (event : Nat) : ∃ r, findCampaignAction s call.arg event = .ok r := by
  obtain ⟨d, dest, camp, isArg, liveDest, liveCamp⟩ := inv.arg_live live
  obtain ⟨r, found⟩ := findAction_ok event fun a mem =>
    inv.keyed.live dest.cp camp a liveCamp mem
  refine ⟨r, ?_⟩
  simp [findCampaignAction, isArg, Sys.loadDest, Sys.loadCamp, load, liveDest, liveCamp, found]

theorem Inv.rtpRecvHandler_ok (inv : Inv ans s) (rs : SessionId) (mb : List UInt8) :
    ∃ s', rtpRecvHandler s rs mb = .ok s' := by
  unfold rtpRecvHandler
  split
  · exact ⟨s, rfl⟩
  · split
    next on =>
      obtain ⟨c, named⟩ := inv.sound.listens rs on
      obtain ⟨call, live, -⟩ := inv.sound.owner rs c named
      simp only [named, nonNull_some, Fallible.ok_bind, Sys.loadCall, load, live,
        Fallible.get?_some]
      split
      · split
        · exact ⟨s, rfl⟩
        next telev event fin _ =>
          split
          · obtain ⟨r, found⟩ := inv.findCampaignAction_ok live event
            have same : findCampaignAction (s.setSession rs fun r => { r with telev := some telev })
                call.arg event = .ok r := found
            rw [rtpEvent, same, Fallible.ok_bind]
            cases r with
            | none => exact ⟨_, rfl⟩
            | some r => exact ⟨_, rfl⟩
          · exact ⟨_, rfl⟩
      · exact ⟨_, rfl⟩
    · exact ⟨_, rfl⟩

/-- A packet changes no call but the one that holds the session. -/
theorem rtpRecvHandler_calls (run : rtpRecvHandler s rs mb = .ok s')
    (changed : s'.media.calls.get c ≠ s.media.calls.get c) : (s.media.rtp rs).arg = some c := by
  have forward : ∀ u : Sys, (rtpForward u rs mb).media.calls = u.media.calls := by
    intro u
    rcases rtpForward_cases u rs mb with ⟨-, eq⟩ | ⟨_, -, eq⟩ <;> rw [eq]
    rfl
  rcases rtpRecvHandler_cases run with rfl | rfl | ⟨c', call', telev, -, named, -, rfl | ⟨f, -, rfl⟩⟩
  · exact absurd rfl changed
  · exact absurd (by rw [forward]) changed
  · exact absurd (by rw [forward]; rfl) changed
  · by_cases here : c = c'
    · rw [here, named]
    · exact absurd (Heap.get_modify_ne here) changed

/-- In every reachable state the free sessions are clean and held by no call, no
two calls hold one session, and a session whose packets are listened to names
the live call that holds it. So a packet on any session is handled without a
fault, and touches no call but that one. -/
theorem session_ownership (reach : dialer.Reachable s) :
    (∀ rs ∈ s.media.rtpSessions, Clean (s.media.rtp rs) ∧
      ∀ c call, s.media.calls.get c = some call → call.rtpSess ≠ some rs) ∧
    (∀ c c' call call' rs, s.media.calls.get c = some call → s.media.calls.get c' = some call' →
      call.rtpSess = some rs → call'.rtpSess = some rs → c = c') ∧
    (∀ rs, (s.media.rtp rs).televRecv = true → ∃ c call, (s.media.rtp rs).arg = some c ∧
      s.media.calls.get c = some call ∧ call.rtpSess = some rs) ∧
    ∀ rs mb, ∃ s', rtpRecvHandler s rs mb = .ok s' ∧
      ∀ c, s'.media.calls.get c ≠ s.media.calls.get c →
        ∃ call, s.media.calls.get c = some call ∧ call.rtpSess = some rs := by
  obtain ⟨ans, inv⟩ := reachable_inv reach
  refine ⟨fun rs free => ⟨inv.sound.pool.clean rs free, fun c call live holds => ?_⟩,
    fun c c' call call' rs live live' holds holds' => inv.sound.holder_unique live holds live' holds',
    fun rs on => ?_, fun rs mb => ?_⟩
  · exact inv.sound.busy (inv.sound.arg_of live holds) free
  · obtain ⟨c, named⟩ := inv.sound.listens rs on
    obtain ⟨call, live, holds⟩ := inv.sound.owner rs c named
    exact ⟨c, call, named, live, holds⟩
  · obtain ⟨s', run⟩ := inv.rtpRecvHandler_ok rs mb
    exact ⟨s', run, fun c changed => inv.sound.owner rs c (rtpRecvHandler_calls run changed)⟩

/-- Two contacts are being called on the sessions 0 and 1. -/
theorem session_ownership_dialled : ∃ s, dialer.Reachable s ∧
    s.media.rtpSessions.length = 2 ∧ ∀ rs ∈ s.media.rtpSessions, Clean (s.media.rtp rs) := by
  obtain ⟨h, s, run, free⟩ := Lts.replay_exists SysInit Sys.next (s := Sys.boot 4 "/audio")
    [.pull oneCampaign, .message 100 fun _ => {}] (fun _ s => s.media.rtpSessions.length == 2)
    ⟨4, "/audio", by decide, rfl⟩ (by decide)
  exact ⟨s, run.reachable, beq_iff_eq.mp free,
    fun rs mem => ((session_ownership run.reachable).1 rs mem).1⟩

/-! ## Packets stay within one call -/

/-- The sessions `rs` and `t` are those of the main call of a destination and of
its PBX leg, and the two were answered from `a` and `b`. -/
structure LegsOfOneCall (h : List (Sys × Event)) (s : Sys) (rs : SessionId) (a : Addr)
    (t : SessionId) (b : Addr) : Prop where
  owners : ∃ d dest c call leg legCall, s.book.dests.get d = some dest ∧ dest.call = some c ∧
    s.media.calls.get c = some call ∧ call.pbxCall = some leg ∧
    s.media.calls.get leg = some legCall ∧ call.rtpSess = some rs ∧ legCall.rtpSess = some t ∧
    (s.media.rtp rs).arg = some c ∧ (s.media.rtp t).arg = some leg ∧
    Answered h c a ∧ Answered h leg b
  mainAddr : (s.media.rtp rs).remoteIp = some a
  legAddr : (s.media.rtp t).remoteIp = some b

theorem Inv.legs {h : List (Sys × Event)} {leg : CallId} {legCall : Call} (inv : Inv (Answered h) s)
    (live : s.media.calls.get c = some call) (hasLeg : call.pbxCall = some leg)
    (liveLeg : s.media.calls.get leg = some legCall) (answered : legCall.rtpDest.isSome = true)
    (holds : call.rtpSess = some rs) (holdsLeg : legCall.rtpSess = some t) :
    ∃ a b, LegsOfOneCall h s rs a t b := by
  obtain ⟨mainAnswered, -⟩ := inv.sound.leg c call leg live hasLeg
  obtain ⟨a, isA⟩ := Option.isSome_iff_exists.mp mainAnswered
  obtain ⟨b, isB⟩ := Option.isSome_iff_exists.mp answered
  obtain ⟨d, -, owned⟩ := inv.sound.owned_of_leg live hasLeg
  obtain ⟨dest, liveDest, has⟩ := owner_eq_some owned
  exact ⟨a, b, ⟨d, dest, c, call, leg, legCall, liveDest, has, live, hasLeg, liveLeg, holds,
      holdsLeg, inv.sound.arg_of live holds, inv.sound.arg_of liveLeg holdsLeg,
      (inv.phase c call live).heard a isA, (inv.phase leg legCall liveLeg).heard b isB⟩,
    inv.sound.peer c call rs a live holds isA, inv.sound.peer leg legCall t b liveLeg holdsLeg isB⟩

theorem Inv.bridge {h : List (Sys × Event)} (inv : Inv (Answered h) s)
    (linked : (s.media.rtp rs).remote = some t) :
    (s.media.rtp t).remote = some rs ∧ (s.media.rtp rs).inUse = true ∧
      (s.media.rtp t).inUse = true ∧
      ∃ a b, LegsOfOneCall h s rs a t b ∨ LegsOfOneCall h s t b rs a := by
  obtain ⟨back, c, call, leg, legCall, live, hasLeg, liveLeg, answered, holds⟩ :=
    inv.sound.bridge rs t linked
  have used : ∀ {p : CallId} {call' : Call} {u : SessionId}, s.media.calls.get p = some call' →
      call'.rtpSess = some u → (s.media.rtp u).inUse = true := by
    intro p call' u live' holds'
    obtain ⟨v, holdsV, -, inUse⟩ := inv.sound.session p call' live'
    obtain rfl := Option.some.inj (holds'.symm.trans holdsV)
    exact inUse
  rcases holds with ⟨holds, holdsLeg⟩ | ⟨holds, holdsLeg⟩
  · obtain ⟨a, b, legs⟩ := inv.legs live hasLeg liveLeg answered holds holdsLeg
    exact ⟨back, used live holds, used liveLeg holdsLeg, a, b, .inl legs⟩
  · obtain ⟨a, b, legs⟩ := inv.legs live hasLeg liveLeg answered holds holdsLeg
    exact ⟨back, used liveLeg holdsLeg, used live holds, b, a, .inr legs⟩

theorem rtpRecvHandler_sends (run : rtpRecvHandler s rs mb = .ok s') :
    s'.media.wire = s.media.wire ∨ ∃ t, (s.media.rtp rs).remote = some t ∧
      s'.media.wire = s.media.wire ++ [.datagram t (s.media.rtp t).remoteIp mb] := by
  have forward : ∀ u : Sys, u.media.wire = s.media.wire →
      (∀ t, (u.media.rtp t).remote = (s.media.rtp t).remote ∧
        (u.media.rtp t).remoteIp = (s.media.rtp t).remoteIp) →
      (rtpForward u rs mb).media.wire = s.media.wire ∨ ∃ t, (s.media.rtp rs).remote = some t ∧
        (rtpForward u rs mb).media.wire =
          s.media.wire ++ [.datagram t (s.media.rtp t).remoteIp mb] := by
    intro u wire same
    rcases rtpForward_cases u rs mb with ⟨-, eq⟩ | ⟨t, linked, eq⟩
    · exact .inl (by rw [eq, wire])
    · exact .inr ⟨t, (same rs).1.symm.trans linked, by rw [eq, ← (same t).2, ← wire]; rfl⟩
  have telev : ∀ (tel : Option Telev) (u : SessionId),
      ((s.setSession rs fun r => { r with telev := tel }).media.rtp u).remote =
        (s.media.rtp u).remote ∧
      ((s.setSession rs fun r => { r with telev := tel }).media.rtp u).remoteIp =
        (s.media.rtp u).remoteIp := by
    intro tel u
    rw [Sys.setSession, rtp_setSession]
    split
    next here => rw [here]; exact ⟨rfl, rfl⟩
    next => exact ⟨rfl, rfl⟩
  rcases rtpRecvHandler_cases run with rfl | rfl | ⟨_, _, tel, -, -, -, rfl | ⟨f, -, rfl⟩⟩
  · exact .inl rfl
  · exact forward s rfl fun _ => ⟨rfl, rfl⟩
  · exact forward _ rfl (telev tel)
  · exact .inl rfl

/-- In every run the links between sessions are symmetric and are those between
the two legs of the call of one destination, both answered in this run, and the
addresses of the two sessions are those of their answers. A packet is forwarded
over such a link only, and unchanged. -/
theorem bridge_isolation {h : List (Sys × Event)} (run : dialer.Execution h s) :
    (∀ rs t, (s.media.rtp rs).remote = some t →
      (s.media.rtp t).remote = some rs ∧ (s.media.rtp rs).inUse = true ∧
        (s.media.rtp t).inUse = true ∧
        ∃ a b, LegsOfOneCall h s rs a t b ∨ LegsOfOneCall h s t b rs a) ∧
    ∀ rs mb s', rtpRecvHandler s rs mb = .ok s' → s'.media.wire = s.media.wire ∨
      ∃ t a b, (LegsOfOneCall h s rs a t b ∨ LegsOfOneCall h s t b rs a) ∧
        s'.media.wire = s.media.wire ++ [.datagram t (some b) mb] := by
  have inv := execution_inv run
  refine ⟨fun rs t linked => inv.bridge linked, fun rs mb s' handled => ?_⟩
  rcases rtpRecvHandler_sends handled with quiet | ⟨t, linked, sent⟩
  · exact .inl quiet
  · obtain ⟨-, -, -, a, b, legs⟩ := inv.bridge linked
    have address : (s.media.rtp t).remoteIp = some b := by
      rcases legs with legs | legs
      · exact legs.legAddr
      · exact legs.mainAddr
    rw [address] at sent
    exact .inr ⟨t, a, b, legs, sent⟩

/-- A campaign without an audio file joins its answered calls to the PBX. -/
def joinCampaign : Snapshot :=
  { oneCampaign with
    campaigns := some [{
      id := 1, frequency := 2, gatewayId := 1, pbxGatewayId := 1, pbxNumber := some "600" }] }

/-- The first contact answers, is forwarded, and the PBX answers. -/
def joinedCall : List Event :=
  [.pull joinCampaign, .message 100 fun _ => {},
    .establish 0 { answer := { raddr := 55 }, now := 105 }, .destTimer 0 106 {},
    .establish 2 { answer := { raddr := 66 }, now := 108 }]

theorem bridge_isolation_joined : ∃ h s, dialer.Execution h s ∧ (s.media.rtp 0).remote = some 2 ∧
    (s.media.rtp 2).remote = some 0 := by
  obtain ⟨h, s, run, linked⟩ := Lts.replay_exists SysInit Sys.next (s := Sys.boot 4 "/audio")
    joinedCall (fun _ s => (s.media.rtp 0).remote == some 2) ⟨4, "/audio", by decide, rfl⟩ (by decide)
  have isTwo : (s.media.rtp 0).remote = some 2 := beq_iff_eq.mp linked
  exact ⟨h, s, run, isTwo, ((bridge_isolation run).1 0 2 isTwo).1⟩

end Autodialer
