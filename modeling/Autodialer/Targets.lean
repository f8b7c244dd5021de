import Autodialer.Faults
import Autodialer.Gateways
import Autodialer.Listening
import Autodialer.Listing

/-!
# The targets of forwarded calls

A call is forwarded to the gateway and the number of the action whose key was pressed,
or of its campaign if it joins the PBX. They are looked up in three places at three
times: an action gets them when it is read, a call joins the PBX if they are there when
it is placed, and a pass reads those of the campaign anew.

* `run_targets`: no null pointer is followed to them as long as no key of an action
  without a target is pressed and no pass takes the target of a live call away.
* `press_faults`: an action that names an unknown gateway has none, and `on_call_end` follows
  the null pointer after its key was pressed.
-/

namespace Autodialer

variable {s s' t : Sys} {e : Event} {d : DestId} {c : CallId} {dest : Destination}
  {camp camp' : Campaign} {call call' : Call} {now : Time} {env : AllocEnv}
  {ans : CallId → Addr → Prop} {h : List (Sys × Event)}

/-! ## The property -/

/-- The action has a gateway and a number. -/
def Action.Complete (action : Action) : Prop :=
  action.gateway.isSome = true ∧ action.dest.isSome = true

/-- The pointers to the gateway and the number are there that `on_call_end` follows for the
call: those of its action after a key was pressed, and these two of its campaign otherwise. -/
structure HasTarget (actions : Heap Action) (call : Call) (gateway : Option GatewayId)
    (number : Option String) : Prop where
  event : call.eventReceived = true →
    ∃ a, call.action = some a ∧ ∀ action, actions.get a = some action → action.Complete
  noEvent : call.eventReceived = false → gateway.isSome = true ∧ number.isSome = true

/-- Whenever `on_call_end` looks at a call it finds the pointers that it follows. -/
structure Targeted (s : Sys) : Prop where
  /-- No null pointer is followed at all. -/
  followed : ∀ d now env o, s.enabled (.destTimer d now env) = true →
    s.run (.destTimer d now env) ≠ .error (.null o)
  forwards : ∀ d now env dest camp c call, s.enabled (.destTimer d now env) = true →
    s.book.dests.get d = some dest → s.book.camps.get dest.cp = some camp → dest.call = some c →
    s.media.calls.get c = some call → call.callStatus = .established → AwaitsForwarding camp call →
    HasTarget s.actions call camp.pbxGateway camp.pbxNumber
  records : ∀ d now env dest camp c call, s.enabled (.destTimer d now env) = true →
    s.book.dests.get d = some dest → s.book.camps.get dest.cp = some camp → dest.call = some c →
    s.media.calls.get c = some call → call.pbxCall.isSome = true →
    endRules (s.disarmDest d) d now env = .ok ((s.disarmDest d).setCall c Call.forceEnd) →
    HasTarget s.actions call camp.gateway camp.pbxNumber

/-! ## The conditions on the steps -/

/-- The packet completes the key of an action of type 0 that has no gateway or no number,
in a call that goes on. -/
def PicksBare (s : Sys) (e : Event) : Prop :=
  ∃ rs mb c call a action, e = .rtp rs mb ∧ (s.media.rtp rs).televRecv = true ∧
    (s.media.rtp rs).arg = some c ∧ s.media.calls.get c = some call ∧
    call.eventReceived = false ∧ call.ended = false ∧ Picks s rs mb call a action ∧
    action.actionType = 0 ∧ ¬ action.Complete

/-- A pass reads a row of the campaign of a live call that joins the PBX, and the row has no
number, or its gateways are not there after the rows of the gateways. The PBX gateway does not
matter any more after the call has been forwarded. -/
def Unroutes (s : Sys) (e : Event) : Prop :=
  ∃ snap gateways rows row d dest camp c call, e = .pull snap ∧ snap.gateways = some gateways ∧
    snap.campaigns = some rows ∧ row ∈ rows ∧ s.book.dests.get d = some dest ∧
    s.book.camps.get dest.cp = some camp ∧ camp.campaignId = row.id ∧ dest.call = some c ∧
    s.media.calls.get c = some call ∧ call.joinPbx = true ∧
    ¬ (call.ended = true ∧ call.pbxCall = none) ∧
    (row.pbxNumber = none ∨ s.uriAfter gateways row.gatewayId = none ∨
      (call.forwarded = false ∧ s.uriAfter gateways row.pbxGatewayId = none))

/-! ## Calls with a key press -/

/-- The call has ended before it was forwarded. -/
def Call.Lost (call : Call) : Prop := call.ended = true ∧ call.pbxCall = none

/-- A lost call stays so. -/
theorem CallWrite.lost (write : CallWrite s c call e call') (lost : call.Lost) : call'.Lost := by
  cases write with
  | kept | progress | again | played | answered => exact lost
  | noFormat | closed => exact ⟨rfl, lost.2⟩
  | pressed =>
    refine ⟨?_, lost.2⟩
    unfold Call.press
    dsimp only
    split
    · rfl
    · exact lost.1
  | forwarded _ notEnded => cases lost.1.symm.trans notEnded

theorem CallWrite.notForwarded (write : CallWrite s c call e call')
    (fresh : call'.forwarded = false) : call.forwarded = false := by
  cases write with
  | forwarded => cases fresh
  | _ => exact fresh

/-- A key is pressed only in a call that does not join the PBX, and unless the call is lost its
action is complete. -/
structure Aimed (actions : Heap Action) (call : Call) : Prop where
  event : call.eventReceived = true → ∃ a, call.action = some a ∧ a < actions.next ∧
    (call.Lost ∨ ∀ action, actions.get a = some action → action.Complete)
  joins : call.joinPbx = true → call.eventReceived = false
  leg : call.pbxCall.isSome = true → call.eventReceived = true ∨ call.joinPbx = true

theorem Aimed.unwritten {actions actions' : Heap Action} (aimed : Aimed actions call)
    (same : actions.Unwritten actions') : Aimed actions' call where
  event pressed := by
    obtain ⟨a, isAction, old, complete⟩ := aimed.event pressed
    refine ⟨a, isAction, Nat.lt_of_lt_of_le old same.1,
      complete.imp_right fun complete action live => ?_⟩
    exact complete action (same.2 a action old live)
  joins := aimed.joins
  leg := aimed.leg

theorem NewCall.aimed {actions : Heap Action} (isNew : NewCall e call) : Aimed actions call := by
  cases isNew with
  | main => exact ⟨nofun, fun _ => rfl, nofun⟩
  | leg => exact ⟨nofun, fun _ => rfl, nofun⟩

theorem Aimed.write (aimed : Aimed s.actions call) (unheard : Unheard s.media)
    (live : s.media.calls.get c = some call) (notBare : ¬ PicksBare s e)
    (write : CallWrite s c call e call') : Aimed s.actions call' := by
  obtain ⟨event, joins, leg⟩ := aimed
  cases write with
  | kept | progress | again | played => exact ⟨event, joins, leg⟩
  | noFormat | closed =>
    refine ⟨fun pressed => ?_, joins, leg⟩
    obtain ⟨a, isAction, old, complete⟩ := event pressed
    exact ⟨a, isAction, old, complete.imp_left fun lost => ⟨rfl, lost.2⟩⟩
  | answered => exact ⟨event, joins, leg⟩
  | @pressed rs mb d dest camp a action on named quiet isArg liveDest liveCamp mem liveAction picks =>
    have noJoin : call.joinPbx = false := unheard rs c call on named live
    have noLeg : call.pbxCall = none := by
      rw [← Option.not_isSome_iff_eq_none]
      intro some
      rcases leg some with pressed | joined
      · rw [quiet] at pressed
        cases pressed
      · rw [noJoin] at joined
        cases joined
    refine ⟨fun _ => ⟨a, rfl, Heap.lt_next liveAction, ?_⟩, fun joined => ?_, fun _ => .inl rfl⟩
    · rcases Nat.eq_zero_or_pos action.actionType with zero | positive
      · cases hungUp : call.ended with
        | true => exact .inl ⟨by simp [Call.press, hungUp], noLeg⟩
        | false =>
          refine .inr fun action' live' => ?_
          cases liveAction.symm.trans live'
          by_contra incomplete
          exact notBare ⟨rs, mb, c, call, a, action, rfl, on, named, live, quiet, hungUp, picks, zero,
            incomplete⟩
      · exact .inl ⟨if_pos positive, noLeg⟩
    · rw [show (call.press a action).joinPbx = call.joinPbx from rfl, noJoin] at joined
      cases joined
  | forwarded owned notEnded _ _ called =>
    refine ⟨fun pressed => ?_, joins, fun _ => called⟩
    obtain ⟨a, isAction, old, lost | complete⟩ := event pressed
    · cases lost.1.symm.trans notEnded
    · exact ⟨a, isAction, old, .inr complete⟩

theorem step_aimed (inv : Inv ans s) (unheard : Unheard s.media)
    (aimed : EveryCall (Aimed s.actions) s.media) (notBare : ¬ PicksBare s e)
    (step : dialer.step s e s') : EveryCall (Aimed s'.actions) s'.media := by
  have kept : EveryCall (Aimed s.actions) s'.media :=
    step_everyCall inv aimed step (fun _ isNew => isNew.aimed)
      fun _ _ _ live aimed write => aimed.write unheard live notBare write
  have same : s.actions.Unwritten s'.actions := by
    cases main : e.isMain with
    | true => exact .of_eq (mainStep_config inv main step).actions
    | false =>
      obtain ⟨snap, rfl, run⟩ := pass_of_step step main
      exact pull_unwritten run
  exact fun c call live => (kept c call live).unwritten same

/-! ## Calls that join the PBX -/

/-- The campaign has all that `on_call_end` will look for there, for a call that joins the
PBX. -/
structure Serves (camp : Campaign) (call : Call) : Prop where
  gateway : ¬ call.Lost → camp.gateway.isSome = true
  number : ¬ call.Lost → camp.pbxNumber.isSome = true
  pbxGateway : ¬ call.Lost → call.forwarded = false → camp.pbxGateway.isSome = true

/-- The campaigns serve the live calls that join the PBX. -/
def Routed (s : Sys) : Prop :=
  ∀ d dest camp c call, s.book.dests.get d = some dest → s.book.camps.get dest.cp = some camp →
    dest.call = some c → s.media.calls.get c = some call → call.joinPbx = true → Serves camp call

theorem Serves.write (serves : Serves camp call) (write : CallWrite s c call e call') :
    Serves camp call' where
  gateway notLost := serves.gateway fun lost => notLost (write.lost lost)
  number notLost := serves.number fun lost => notLost (write.lost lost)
  pbxGateway notLost fresh :=
    serves.pbxGateway (fun lost => notLost (write.lost lost)) (write.notForwarded fresh)

theorem Serves.settings (serves : Serves camp call) (same : SameSettings camp camp') :
    Serves camp' call := by
  obtain ⟨_, _, _, _, rfl⟩ := same
  exact ⟨serves.gateway, serves.number, serves.pbxGateway⟩

/-- The call of `d` was its call before. -/
def SameCall (s s' : Sys) (d : DestId) : Prop :=
  ∀ dest' c call', s'.book.dests.get d = some dest' → dest'.call = some c →
    s'.media.calls.get c = some call' → ∃ dest, s.book.dests.get d = some dest ∧
      dest.cp = dest'.cp ∧ dest.call = some c ∧ s.media.calls.get c = some call'

theorem Routed.serves (routed : Routed s) (steady : Steady s.book s'.book) (same : SameCall s s' d)
    (live' : s'.book.dests.get d = some dest) (liveCamp' : s'.book.camps.get dest.cp = some camp)
    (has : dest.call = some c) (liveCall' : s'.media.calls.get c = some call)
    (joins : call.joinPbx = true) : Serves camp call := by
  obtain ⟨old, live, onCp, hasOld, liveCall⟩ := same dest c call live' has liveCall'
  obtain ⟨oldCamp, liveCamp, settings⟩ := steady dest.cp camp liveCamp'
  rw [← onCp] at liveCamp
  exact (routed d old oldCamp c call live liveCamp hasOld liveCall joins).settings settings

theorem Routed.of_same (routed : Routed s) (steady : Steady s.book s'.book)
    (same : ∀ d, SameCall s s' d) : Routed s' := fun d _ _ _ _ live' liveCamp' has liveCall' joins =>
  routed.serves steady (same d) live' liveCamp' has liveCall' joins

/-- A call is placed on the gateway of its campaign, and joins the PBX if the campaign names
one. -/
theorem placed_serves {r : Alloc} {f : Call → Call} (calls : Calls s now env d dest r)
    (ok : r.err = false) (isCall : r.callp = some c) (liveCamp : s.book.camps.get dest.cp = some camp)
    (joins : Joins camp f) (live : (r.media.setCall c f).calls.get c = some call)
    (joined : call.joinPbx = true) : Serves camp call := by
  obtain ⟨_, g, _, liveCamp₀, hasGateway, -, placing⟩ := calls
  cases liveCamp.symm.trans liveCamp₀
  obtain ⟨rfl, rs, new, done⟩ := callAlloc_placed placing ok isCall
  rw [calls_setCall, done.calls, Heap.modify_alloc_next, Heap.get_alloc_next] at live
  obtain rfl := Option.some.inj live
  have pbx : camp.pbxGateway.isSome = true ∧ camp.pbxNumber.isSome = true := by
    refine (joins new joined).resolve_left fun already => ?_
    obtain ⟨pt, sess, rfl⟩ := done.new
    cases already
  exact ⟨fun _ => by rw [hasGateway]; rfl, fun _ => pbx.2, fun _ _ => pbx.1⟩

theorem DialResult.routed {env : DialEnv} {destroyed : Bool} (inv : Inv ans s) (routed : Routed s)
    (live : s.book.dests.get d = some dest) (result : DialResult s now env d dest s' destroyed) :
    Routed s' := by
  have grows := result.grows (.message now fun _ => env)
  have relisted : Steady s.book s'.book := .relisted result.relisted
  intro d' dest' camp' c call' live' liveCamp' has liveCall' joins
  rcases eq_or_ne d' d with rfl | ne
  · cases result with
    | skipped => exact routed d' dest' camp' c call' live' liveCamp' has liveCall' joins
    | destroyed =>
      rw [Book.remove_dests, if_pos rfl] at live'
      cases live'
    | undone =>
      have undone := (Heap.get_modify_self ..).symm.trans live'
      rw [live] at undone
      cases undone
      cases has
    | @placed r p camp f call idle calls ok isCall liveCamp _ _ livePlaced joinsPbx =>
      have dialled := (Heap.get_modify_self ..).symm.trans live'
      rw [live] at dialled
      cases dialled
      cases has
      cases livePlaced.symm.trans liveCall'
      cases liveCamp.symm.trans liveCamp'
      exact placed_serves calls ok isCall liveCamp joinsPbx livePlaced joins
  · refine routed.serves relisted (fun dest' c call' live' has liveCall' => ?_) live' liveCamp' has
      liveCall' joins
    rw [result.others ne] at live'
    refine ⟨dest', live', rfl, has, ?_⟩
    obtain ⟨call, liveCall, -⟩ := inv.sound.owned d' c ((owner_of_live live').trans has)
    rcases grows.new c call' liveCall' with old | ⟨above, -⟩
    · exact old
    · exact absurd (Heap.lt_next liveCall) (Nat.not_lt.mpr above)

theorem startFakeCalling_routed {cp : CampId} {env : DestId → DialEnv} (inv : Inv ans s)
    (routed : Routed s) (run : startFakeCalling s cp now env = .ok s') : Routed s' := by
  refine startFakeCalling_rule (I := Routed) ?_ ?_ ?_ routed run
  · exact fun t f routed flags => routed.of_same (.flags flags)
      fun d dest' c call' live' has liveCall' => ⟨dest', live', rfl, has, liveCall'⟩
  · intro book routed filled
    have rearranged := fillProcessl_rearranged filled
    refine routed.of_same (.relisted (.rearranged rearranged))
      fun d dest' c call' live' has liveCall' => ?_
    obtain ⟨dest, le, live, rfl⟩ := rearranged.of_dest live'
    exact ⟨dest, live, rfl, has, liveCall'⟩
  · intro d t dest t' destroyed reached routed live result
    obtain ⟨_, loop⟩ := reached.dialling inv
    exact result.routed loop.inv routed live

theorem readTail_number {row : CampaignRow} {gateway pbxGateway : Option GatewayId}
    (number : row.pbxNumber ≠ none) :
    (camp.readTail row gateway pbxGateway).pbxNumber.isSome = true := by
  show (if strCaseEq row.pbxNumber camp.pbxNumber then camp.pbxNumber else row.pbxNumber).isSome = true
  obtain ⟨n, isNumber⟩ := Option.ne_none_iff_exists'.mp number
  rw [isNumber]
  split
  next same =>
    cases old : camp.pbxNumber with
    | none =>
      rw [old] at same
      cases same
    | some => rfl
  next => rfl

theorem pull_routed {snap : Snapshot} (inv : Inv ans s) (catalogued : Catalogued s)
    (routed : Routed s) (routes : ¬ Unroutes s (.pull snap)) (run : pullGroups s snap = .ok s') :
    Routed s' := by
  intro d dest camp' c call live' liveCamp' has liveCall' joins
  have liveCall : s.media.calls.get c = some call := (pull_frees run).left c call liveCall'
  rcases pull_dests run live' with live | ⟨-, row, cp, rfl⟩
  · obtain ⟨_, camp, -, -, liveCamp, -⟩ := inv.partition.linked d dest live
    refine (pull_camp (P := fun camp => Serves camp call) run liveCamp
      (routed d dest camp c call live liveCamp has liveCall joins) ?_
      (fun _ _ _ serves => ⟨serves.gateway, serves.number, serves.pbxGateway⟩) liveCamp').2
    intro gateways rows t hasGateways hasRows pulled row mem old gateway pbxGateway isRow found
      foundPbx _
    have kept : ¬ call.Lost → ¬ (row.pbxNumber = none ∨ s.uriAfter gateways row.gatewayId = none ∨
        (call.forwarded = false ∧ s.uriAfter gateways row.pbxGatewayId = none)) :=
      fun notLost missing => routes ⟨snap, gateways, rows, row, d, dest, camp, c, call, rfl,
        hasGateways, hasRows, mem, live, liveCamp, isRow.symm, has, liveCall, joins, notLost,
        missing⟩
    have reads : ∀ {id o}, findGateway t id t.gatewayList = .ok o →
        s.uriAfter gateways id ≠ none → o.isSome = true := by
      intro id o found there
      rw [Option.isSome_iff_ne_none, Ne, findGateway_uriOf found, pullGateways_uriOf catalogued pulled]
      exact there
    exact
      { gateway := fun notLost => reads found fun lost => kept notLost (.inr (.inl lost))
        number := fun notLost => readTail_number fun none => kept notLost (.inl none)
        pbxGateway := fun notLost fresh => reads foundPbx fun lost =>
          kept notLost (.inr (.inr ⟨fresh, lost⟩)) }
  · cases has

/-- The step is no tick, and `d` and its call were there before. -/
theorem Routed.written (routed : Routed s) (inv : Inv ans s) (step : dialer.step s e s')
    (steady : Steady s.book s'.book) (live : s.book.dests.get d = some dest) (has : dest.call = some c)
    (liveCamp' : s'.book.camps.get dest.cp = some camp) (liveCall' : s'.media.calls.get c = some call)
    (joins : call.joinPbx = true) : Serves camp call := by
  obtain ⟨oldCamp, liveCamp, settings⟩ := steady dest.cp camp liveCamp'
  obtain ⟨before, liveBefore, -⟩ := inv.sound.owned d c ((owner_of_live live).trans has)
  rcases step_calls inv step liveCall' with ⟨old, liveCall, write⟩ | ⟨above, -⟩
  · rw [write.joinPbx] at joins
    have serves := routed d dest oldCamp c old live liveCamp has liveCall joins
    exact (serves.write write).settings settings
  · exact absurd (Heap.lt_next liveBefore) (Nat.not_lt.mpr above)

theorem step_routed (inv : Inv ans s) (catalogued : Catalogued s) (routed : Routed s)
    (routes : ¬ Unroutes s e) (step : dialer.step s e s') : Routed s' := by
  cases step_cases step with
  | pulled run => exact pull_routed inv catalogued routed routes run
  | @ticked _ cp _ _ t _ ticks run =>
    have starts : Inv ans t := inv.ticks ticks
    obtain ⟨f, msgq, torn, lost, flags, rfl⟩ := ticks.state
    refine startFakeCalling_routed starts ?_ run
    exact routed.of_same (.flags flags)
      fun d dest' c call' live' has liveCall' => ⟨dest', live', rfl, has, liveCall'⟩
  | @supervised d now env dest _ live armed run =>
    have steady := mainStep_steady inv rfl step
    intro d' dest' camp' c call' live' liveCamp' has liveCall' joins
    rcases eq_or_ne d' d with rfl | ne
    · rcases inv.supervised_self live armed run with gone | rearmed | requeued
      · cases gone.symm.trans live'
      · cases rearmed.symm.trans live'
        exact routed.written inv step steady live has liveCamp' liveCall' joins
      · cases requeued.symm.trans live'
        cases has
    · rw [inv.supervised_others live armed run ne] at live'
      exact routed.written inv step steady live' has liveCamp' liveCall' joins
  | calledBack | lost =>
    intro d dest camp c call live' liveCamp' has liveCall' joins
    exact routed.written inv step (.refl _) live' has liveCamp' liveCall' joins

/-! ## The handler -/

/-- A null pointer is followed. -/
def IsNull (fault : Fault) : Prop := ∃ o, fault = .null o

/-- Only `null` is a fault of this kind. -/
theorem not_isNull {fault : Fault} (other : ∀ o, fault ≠ .null o) : ¬ IsNull fault := by
  rintro ⟨o, isNull⟩
  exact other o isNull

theorem not_isNull_dangling (o : Obj) : ¬ IsNull (.dangling o) :=
  not_isNull fun _ => Fault.noConfusion

theorem isNull_spares : Spares IsNull where
  call := not_isNull_dangling _
  destination := not_isNull_dangling _
  campaign := not_isNull_dangling _
  wild := not_isNull fun _ => Fault.noConfusion
  nested := not_isNull fun _ => Fault.noConfusion

/-- After a key was pressed both places follow the action and its gateway. -/
theorem HasTarget.pressed_avoids {gateway : Option GatewayId} {number : Option String}
    (target : HasTarget s.actions call gateway number) (pressed : call.eventReceived = true) :
    Fallible.Avoids IsNull (do
      let a ← nonNull .action call.action
      let action ← load .action s.actions a
      let g ← nonNull .gateway action.gateway
      let gateway ← load .gateway s.gateways g
      pure (gateway, action.dest)) := by
  obtain ⟨a, isAction, complete⟩ := target.event pressed
  rw [isAction, nonNull_some, Fallible.ok_bind]
  refine .bind (.get? (not_isNull_dangling _) _) fun action loaded => ?_
  obtain ⟨g, isGateway⟩ := Option.isSome_iff_exists.mp (complete action (load_eq_ok.mp loaded)).1
  rw [isGateway, nonNull_some, Fallible.ok_bind]
  exact .bind (.get? (not_isNull_dangling _) _) fun _ _ => .pure _

theorem HasTarget.forwards (target : HasTarget s.actions call camp.pbxGateway camp.pbxNumber)
    (liveCamp : s.book.camps.get dest.cp = some camp) :
    Fallible.Avoids IsNull (forwardTarget s dest call) := by
  unfold forwardTarget
  cases pressed : call.eventReceived with
  | true => exact target.pressed_avoids pressed
  | false =>
    obtain ⟨g, isGateway⟩ := Option.isSome_iff_exists.mp (target.noEvent pressed).1
    simp only [Bool.false_eq_true, if_false, Sys.loadCamp, load, liveCamp, Fallible.get?_some,
      Fallible.ok_bind, isGateway, nonNull_some]
    exact .bind (.get? (not_isNull_dangling _) _) fun _ _ => .pure _

theorem HasTarget.records (target : HasTarget s.actions call camp.gateway camp.pbxNumber) :
    Fallible.Avoids IsNull (recordTarget s camp call) := by
  unfold recordTarget
  cases pressed : call.eventReceived with
  | true => exact target.pressed_avoids pressed
  | false =>
    obtain ⟨g, isGateway⟩ := Option.isSome_iff_exists.mp (target.noEvent pressed).1
    rw [if_neg Bool.false_ne_true, isGateway, nonNull_some, Fallible.ok_bind]
    exact .bind (.get? (not_isNull_dangling _) _) fun _ _ => .pure _

/-- A call that is not lost, and that a key was pressed in or that joins the PBX, has a target if
its campaign serves it. -/
theorem Aimed.hasTarget {gateway : Option GatewayId} {number : Option String}
    (aimed : Aimed s.actions call) (notLost : ¬ call.Lost)
    (called : call.eventReceived = true ∨ call.joinPbx = true)
    (serves : call.joinPbx = true → gateway.isSome = true ∧ number.isSome = true) :
    HasTarget s.actions call gateway number where
  event pressed := by
    obtain ⟨a, isAction, -, lost | complete⟩ := aimed.event pressed
    · exact absurd lost notLost
    · exact ⟨a, isAction, complete⟩
  noEvent quiet := serves (called.resolve_left fun pressed => by cases quiet.symm.trans pressed)

theorem targeted_of (inv : Inv ans s) (aimed : EveryCall (Aimed s.actions) s.media)
    (routed : Routed s) : Targeted s := by
  have forwards : ∀ d dest camp c call, s.book.dests.get d = some dest →
      s.book.camps.get dest.cp = some camp → dest.call = some c → s.media.calls.get c = some call →
      AwaitsForwarding camp call → HasTarget s.actions call camp.pbxGateway camp.pbxNumber := by
    intro d dest camp c call live liveCamp has liveCall awaits
    have notLost : ¬ call.Lost := fun lost => by cases lost.1.symm.trans awaits.notEnded
    refine (aimed c call liveCall).hasTarget notLost awaits.called fun joins => ?_
    have serves := routed d dest camp c call live liveCamp has liveCall joins
    exact ⟨serves.pbxGateway notLost awaits.notForwarded, serves.number notLost⟩
  have records : ∀ d dest camp c call, s.book.dests.get d = some dest →
      s.book.camps.get dest.cp = some camp → dest.call = some c → s.media.calls.get c = some call →
      call.pbxCall.isSome = true → HasTarget s.actions call camp.gateway camp.pbxNumber := by
    intro d dest camp c call live liveCamp has liveCall leg
    have notLost : ¬ call.Lost := fun lost => by rw [lost.2] at leg; cases leg
    refine (aimed c call liveCall).hasTarget notLost ((aimed c call liveCall).leg leg) fun joins => ?_
    have serves := routed d dest camp c call live liveCamp has liveCall joins
    exact ⟨serves.gateway notLost, serves.number notLost⟩
  refine ⟨fun d now env o enabled failed => ?_, ?_, ?_⟩
  · obtain ⟨dest, live, armed⟩ := pending_dest enabled
    obtain ⟨c, call, has, liveCall⟩ := inv.supervised_call live armed
    refine onCallEnd_avoids (s := s.disarmDest d) isNull_spares (dests_disarmDest live) has liveCall
      (fun camp liveCamp _ awaits => ?_) (fun camp liveCamp leg _ => ?_) (.null o) failed ⟨o, rfl⟩
    · exact HasTarget.forwards (s := s.disarmDest d)
        (forwards d dest camp c call live liveCamp has liveCall awaits) liveCamp
    · exact HasTarget.records (s := s.disarmDest d)
        (records d dest camp c call live liveCamp has liveCall leg)
  · intro d _ _ dest camp c call _ live liveCamp has liveCall _ awaits
    exact forwards d dest camp c call live liveCamp has liveCall awaits
  · intro d _ _ dest camp c call _ live liveCamp has liveCall leg _
    exact records d dest camp c call live liveCamp has liveCall leg

/-! ## Runs -/

/-- In a run in which no key of an action without a target is pressed and no pass takes the
target of a live call away, `on_call_end` always finds the pointers that it follows. -/
theorem run_targets (run : dialer.Execution h s) (complete : ∀ x ∈ h, ¬ PicksBare x.1 x.2)
    (routes : ∀ x ∈ h, ¬ Unroutes x.1 x.2) : Targeted s := by
  obtain ⟨inv, -, -, aimed, routed⟩ := run.induct
    (C := fun s e => ¬ PicksBare s e ∧ ¬ Unroutes s e)
    (I := fun h s => Inv (Answered h) s ∧ Unheard s.media ∧ Catalogued s ∧
      EveryCall (Aimed s.actions) s.media ∧ Routed s)
    (fun x mem => ⟨complete x mem, routes x mem⟩)
    (fun _ init => by
      have inv := execution_inv ⟨_, init, .nil⟩
      obtain ⟨n, audioPath, -, rfl⟩ := init
      exact ⟨inv, fun _ _ _ _ _ live => (by cases live), .boot n audioPath,
        fun _ _ live => (by cases live), fun _ _ _ _ _ live => (by cases live)⟩)
    fun _ _ _ _ _ ⟨inv, unheard, catalogued, aimed, routed⟩ step ⟨notBare, routes⟩ =>
      ⟨step_inv inv step, unheard.step inv step, step_catalogued inv catalogued step,
        step_aimed inv unheard aimed notBare step, step_routed inv catalogued routed routes step⟩
  exact targeted_of inv aimed routed

/-- The step is no packet, and no pass but one that finds no destinations. -/
def harmless (x : Sys × Event) : Bool :=
  match x.2 with
  | .pull _ => x.1.book.dests.next = 0
  | .rtp _ _ => false
  | _ => true

theorem conditions_of_harmless {x : Sys × Event} (test : harmless x = true) :
    ¬ PicksBare x.1 x.2 ∧ ¬ Unroutes x.1 x.2 := by
  obtain ⟨s, e⟩ := x
  constructor
  · rintro ⟨rs, mb, _, _, _, _, rfl, -⟩
    cases test
  · rintro ⟨snap, _, _, _, d, _, _, _, _, rfl, -, -, -, live, -⟩
    have none : s.book.dests.next = 0 := of_decide_eq_true test
    exact absurd (Heap.lt_next live) (by rw [none]; exact Nat.not_lt_zero d)

/-- A call joins the PBX and is forwarded. -/
theorem run_targets_forwarded : ∃ h s, dialer.Execution h s ∧
    (s.media.calls.get 0).any (fun call => call.joinPbx && call.forwarded) = true ∧ Targeted s := by
  obtain ⟨h, s, run, test⟩ := Lts.replay_exists SysInit Sys.next (s := Sys.boot 4 "/audio")
    (answeredShort ++ [.destTimer 0 106 {}])
    (fun h s => (s.media.calls.get 0).any (fun call => call.joinPbx && call.forwarded) &&
      h.all harmless) ⟨4, "/audio", by decide, rfl⟩ (by decide)
  obtain ⟨forwarded, all⟩ := Bool.and_eq_true_iff.mp test
  have conditions := fun x mem => conditions_of_harmless (List.all_eq_true.mp all x mem)
  exact ⟨h, s, run, forwarded, run_targets run (fun x mem => (conditions x mem).1)
    fun x mem => (conditions x mem).2⟩

/-- The key 1 of `oneCampaign` forwards the call on a gateway that the table does not have. -/
def bareKey : Snapshot :=
  { oneCampaign with
    actions := fun _ => some [{ keyPress := 1, action := 0, actionData := some "9,200" }] }

/-- The contact answers at 105 and presses the key. -/
def pressedBare : List Event :=
  [.pull bareKey, .message 100 fun _ => {},
    .establish 0 { answer := { raddr := 55 }, now := 105 },
    .rtp 0 ([0x80, 101] ++ List.replicate 10 0 ++ [1, 0x80, 0, 0])]

theorem press_faults : ∃ h s, dialer.Execution h s ∧ s.enabled (.destTimer 0 106 {}) = true ∧
    s.run (.destTimer 0 106 {}) = .error (.null .gateway) := by
  obtain ⟨h, s, run, test⟩ := Lts.replay_exists SysInit Sys.next (s := Sys.boot 4 "/audio") pressedBare
    (fun _ s => s.enabled (.destTimer 0 106 {}) &&
      Fallible.fault? (s.run (.destTimer 0 106 {})) = some (.null .gateway))
    ⟨4, "/audio", by decide, rfl⟩ (by decide)
  obtain ⟨enabled, fault⟩ := Bool.and_eq_true_iff.mp test
  exact ⟨h, s, run, enabled, Fallible.fault?_eq_some.mp (of_decide_eq_true fault)⟩

end Autodialer
