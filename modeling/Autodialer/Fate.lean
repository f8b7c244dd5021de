import Autodialer.Contacts
import Autodialer.Sessions

/-!
# What becomes of a destination

A destination stays on a list of its campaign until it is destroyed, and there
are four ways in which it is destroyed. One of them is meant for contacts that
have answered, but it goes by the duration of the last leg of the call.

* `destination_fate`: why a destination is destroyed.
* `answered_final_iff`: when an answered contact is done with.
-/

namespace Autodialer

variable {s s' t : Sys} {d : DestId} {c : CallId} {cp : CampId} {dest : Destination} {camp : Campaign}
  {call : Call} {now : Time} {ans : CallId → Addr → Prop}

/-! ## Ends of calls -/

/-- The retry limit of the campaign has been reached. -/
def Spent (camp : Campaign) (dest : Destination) : Prop :=
  0 < camp.maxTry ∧ camp.maxTry ≤ dest.tryCount

/-- The timer handler of `d` finds its call `c` ended after the rules. -/
structure Ends (s : Sys) (d : DestId) (now : Time) (env : AllocEnv) (dest : Destination)
    (camp : Campaign) (c : CallId) (call : Call) : Prop where
  live : s.book.dests.get d = some dest
  liveCamp : s.book.camps.get dest.cp = some camp
  has : dest.call = some c
  liveCall : s.media.calls.get c = some call
  halted : ∃ t call', endRules (s.disarmDest d) d now env = .ok t ∧
    t.media.calls.get c = some call' ∧ call'.ended = true

theorem Ends.of_ended {env : AllocEnv} (live : s.book.dests.get d = some dest)
    (liveCamp : s.book.camps.get dest.cp = some camp) (has : dest.call = some c)
    (liveCall : s.media.calls.get c = some call)
    (ruled : endRules (s.disarmDest d) d now env = .ok ((s.disarmDest d).setCall c Call.forceEnd)) :
    Ends s d now env dest camp c call := by
  have after : ((s.disarmDest d).setCall c Call.forceEnd).media.calls.get c =
      some call.forceEnd := by
    simp [Sys.setCall, liveCall]
  exact ⟨live, liveCamp, has, liveCall, _, _, ruled, after, rfl⟩

theorem lasted_established {duration : Int} (phase : AllInPhase ans s.media)
    (live : s.media.calls.get c = some call) (lasted : Lasted s.media now call duration)
    (positive : 0 < duration) : call.callStatus = .established := by
  unfold Lasted at lasted
  cases hasLeg : call.pbxCall with
  | some leg => exact ((phase c call live).forwarded (by rw [hasLeg]; rfl)).1
  | none =>
    rw [hasLeg] at lasted
    by_contra notUp
    have zero : call.duration now = 0 := if_neg notUp
    rw [show duration = call.duration now from lasted, zero] at positive
    exact absurd positive (by decide)

theorem EndResult.others {env : AllocEnv} {e : DestId} (partition : Partition s.book)
    (live : s.book.dests.get d = some dest) (result : EndResult s now env d dest c call s')
    (ne : e ≠ d) : s'.book.dests.get e = s.book.dests.get e := by
  cases result with
  | rearmed _ rules =>
    rw [rules.frame]
    exact Heap.get_modify_ne ne
  | destroyed => exact (Book.remove_dests e).trans (if_neg ne)
  | requeued =>
    obtain ⟨r, -, on, -⟩ := partition.linked d dest live
    exact (Book.setDest_moveTo_dests live on _ e).trans (if_neg ne)

/-- The supervision of one destination leaves the others alone. -/
theorem Inv.supervised_others {env : AllocEnv} {e : DestId} (inv : Inv ans s)
    (live : s.book.dests.get d = some dest) (armed : dest.tmr = true)
    (run : onCallEnd (s.disarmDest d) d now env = .ok s') (ne : e ≠ d) :
    s'.book.dests.get e = s.book.dests.get e := by
  obtain ⟨c, call, -, -, result⟩ := inv.supervised_cases live armed run
  have partition : Partition (s.disarmDest d).book := inv.partition.setDest fun _ _ => ⟨rfl, rfl⟩
  exact (result.others partition (dests_disarmDest live) ne).trans (Heap.get_modify_ne ne)

/-- The destination is supervised again. -/
theorem rearmed_dest {env : AllocEnv} {halted : Bool} (live : s.book.dests.get d = some dest)
    (rules : RulesResult (s.disarmDest d) now env d c call t halted) :
    (t.setDest d fun dest => { dest with tmr := true }).book.dests.get d =
      some { dest with tmr := true } := by
  rw [rules.frame]
  exact (Heap.get_modify_self ..).trans (congrArg _ (dests_disarmDest live))

/-- The destination is back on its list, without its call. -/
theorem Inv.requeued_dest (inv : Inv ans s) (live : s.book.dests.get d = some dest) :
    (((s.disarmDest d).book.setDest d fun dest => { dest with call := none }).moveTo d
      (.destinations dest.cp)).dests.get d =
        some { dest with tmr := false, call := none, le := some (.destinations dest.cp) } := by
  obtain ⟨r, -, on, -⟩ := inv.partition.linked d dest live
  have moved := Book.setDest_moveTo_dests (f := fun dest => { dest with call := none })
    (dests_disarmDest live) on (.destinations dest.cp) d
  rwa [if_pos rfl] at moved

/-- What the supervision of a destination makes of it. -/
theorem Inv.supervised_self {env : AllocEnv} (inv : Inv ans s)
    (live : s.book.dests.get d = some dest) (armed : dest.tmr = true)
    (run : onCallEnd (s.disarmDest d) d now env = .ok s') :
    s'.book.dests.get d = none ∨ s'.book.dests.get d = some { dest with tmr := true } ∨
      s'.book.dests.get d =
        some { dest with tmr := false, call := none, le := some (.destinations dest.cp) } := by
  obtain ⟨c, call, -, -, result⟩ := inv.supervised_cases live armed run
  cases result with
  | rearmed _ rules => exact .inr (.inl (rearmed_dest live rules))
  | destroyed => exact .inl ((Book.remove_dests d).trans (if_pos rfl))
  | requeued =>
    have back := inv.requeued_dest live
    exact .inr (.inr back)

/-! ## Why a destination is destroyed -/

/-- The destination is on a list of the campaign. -/
def Kept (s : Sys) (d : DestId) (cp : CampId) : Prop :=
  ∃ dest camp, s.book.dests.get d = some dest ∧ dest.cp = cp ∧ s.book.camps.get cp = some camp ∧
    d ∈ camp.destinations ++ camp.processl

/-- The event `e` makes a tick of the campaign of `d` in which `call_alloc` is
called for `d` and fails. -/
def Refuses (s : Sys) (d : DestId) (cp : CampId) (e : Event) : Prop :=
  ∃ now env t u dest r, Ticks s cp now env e t ∧ TickReaches t cp now env d u ∧
    u.book.dests.get d = some dest ∧ dest.call = none ∧ Calls u now (env d).alloc d dest r ∧
    r.err = true

/-- Why the destination `d` is destroyed in a step to `s'`. -/
inductive Loss (s : Sys) (d : DestId) (dest : Destination) : Event → Sys → Prop
  | answered {now : Time} {env : AllocEnv} {camp : Campaign} {c : CallId} {call : Call} {s' : Sys} :
      Ends s d now env dest camp c call → call.callStatus = .established →
      Loss s d dest (.destTimer d now env) s'
  | spent {now : Time} {env : AllocEnv} {camp : Campaign} {c : CallId} {call : Call} {s' : Sys} :
      Ends s d now env dest camp c call → Spent camp dest →
      Loss s d dest (.destTimer d now env) s'
  /-- Its campaign is destroyed too. -/
  | stopped {snap : Snapshot} {s' : Sys} : s'.book.camps.get dest.cp = none →
      Loss s d dest (.pull snap) s'
  | refused {e : Event} {s' : Sys} : Refuses s d dest.cp e → Loss s d dest e s'

theorem Inv.kept (inv : Inv ans s) (live : s.book.dests.get d = some dest) : Kept s d dest.cp := by
  obtain ⟨r, camp, -, isCp, liveCamp, mem⟩ := inv.partition.linked d dest live
  refine ⟨dest, camp, live, rfl, liveCamp, List.mem_append.mpr ?_⟩
  cases r with
  | destinations => exact .inl mem
  | processl => exact .inr mem

theorem readCampaign_loss {row : CampaignRow} (inv : Inv ans s)
    (run : readCampaign s cp row = .ok s') (live : s.book.dests.get d = some dest)
    (gone : s'.book.dests.get d = none) : s'.book.camps.get dest.cp = none := by
  obtain ⟨camp, -, ⟨-, -, run⟩ | ⟨-, gateway, pbxGateway, rfl⟩⟩ := readCampaign_cases run
  · have head : Inv ans (s.setCamp cp fun camp => camp.readHead row) :=
      inv.setCamp fun _ => ⟨rfl, rfl, rfl⟩
    obtain ⟨dests, camps⟩ := memDerefCampaign_book head.partition run
    have here : dest.cp = cp := by
      by_contra other
      rw [dests] at gone
      have kept : (s.setCamp cp fun camp => camp.readHead row).book.dests.get d = some dest := live
      simp [kept, Option.filter, other] at gone
    rw [camps, if_pos here]
  · have kept : s.book.dests.get d = none := gone
    rw [live] at kept
    cases kept

/-- A campaign that is gone stays gone. -/
theorem readCampaign_later {row : CampaignRow} (run : readCampaign s cp row = .ok s') :
    s.book.camps.Later s'.book.camps := by
  obtain ⟨camp, -, ⟨-, -, run⟩ | ⟨-, gateway, pbxGateway, rfl⟩⟩ := readCampaign_cases run
  · obtain ⟨_, t, -, flushed, rfl⟩ := memDerefCampaign_cases run
    obtain ⟨-, camps, -⟩ := flushDests_book flushed
    have head : s.book.camps.Later (s.setCamp cp fun camp => camp.readHead row).book.camps :=
      .modify _ _ _
    refine head.trans ?_
    show Heap.Later _ (t.book.camps.free cp)
    rw [camps]
    exact .free _ _
  · exact .modify _ _ _

theorem pullCampaign_later {row : CampaignRow} (run : pullCampaign s row = .ok s') :
    s.book.camps.Later s'.book.camps := by
  rcases pullCampaign_cases run with ⟨rfl, -⟩ | ⟨cp, -, -, run⟩ | ⟨-, -, run⟩
  · exact .refl _
  · exact readCampaign_later run
  · exact (Heap.Later.alloc s.book.camps {}).trans (readCampaign_later run)

theorem Rearranged.laterCamps {b b' : Book} (change : Rearranged b b') : b.camps.Later b'.camps := by
  refine ⟨Nat.le_of_eq change.nextCamp.symm, fun cp _ dead => ?_⟩
  obtain ⟨ds, ps, eq⟩ := change.camps cp
  rw [eq, dead]
  rfl

theorem pullService_later {calls : Nat → Option (List CallRow)}
    {actions : Nat → Option (List ActionRow)} (run : pullService calls actions s cp = .ok s') :
    s.book.camps.Later s'.book.camps := by
  obtain ⟨camp, -, ⟨rfl, -⟩ | ⟨-, rows, acts, l, -, -, rfl⟩⟩ := pullService_cases run
  · exact .refl _
  · have loaded : s.book.camps.Later (rows.foldl (loadContact cp) s.book).camps := by
      refine List.foldlRecOn (motive := fun b : Book => s.book.camps.Later b.camps) rows _ (.refl _)
        fun b later row _ => later.trans ?_
      exact (Rearranged.append { b with dests := b.dests.alloc _ } _ _).laterCamps
    exact loaded.trans (.modify _ _ _)

/-- A pass destroys a destination together with its campaign only. -/
theorem pull_loss {snap : Snapshot} (inv : Inv ans s) (run : pullGroups s snap = .ok s')
    (live : s.book.dests.get d = some dest) (gone : s'.book.dests.get d = none) :
    s'.book.camps.get dest.cp = none := by
  have old : dest.cp < s.book.camps.next := by
    obtain ⟨_, camp, -, -, liveCamp, -⟩ := inv.partition.linked d dest live
    exact Heap.lt_next liveCamp
  -- a row may destroy the campaign, which is then dead for the rest of the pass
  have account : Inv ans s' ∧ s.book.camps.Later s'.book.camps ∧
      ((∃ dest', s'.book.dests.get d = some dest' ∧ dest'.cp = dest.cp) ∨
        s'.book.camps.get dest.cp = none) := by
    refine pullGroups_rule (I := fun t => Inv ans t ∧ s.book.camps.Later t.book.camps ∧
      ((∃ dest', t.book.dests.get d = some dest' ∧ dest'.cp = dest.cp) ∨
        t.book.camps.get dest.cp = none)) ?_ ?_ ?_ ⟨inv, .refl _, .inl ⟨dest, live, rfl⟩⟩ run
    · rintro t row t' ⟨inv, later, fate⟩ run
      refine ⟨inv.gateway run, ?_⟩
      rw [pullGateway_frame run]
      exact ⟨later, fate⟩
    · rintro t row t' ⟨inv, later, fate⟩ run
      have camps := pullCampaign_later run
      refine ⟨inv.campaign run, later.trans camps, ?_⟩
      rcases fate with ⟨dest', live', onCp⟩ | dead
      · cases now : t'.book.dests.get d with
        | some dest'' =>
          have same := (pullCampaign_fewer run).onward.same d dest' dest'' live' now
          exact .inl ⟨dest'', rfl, same.2.trans onCp⟩
        | none =>
          refine .inr ?_
          rw [← onCp]
          rcases pullCampaign_cases run with ⟨rfl, -⟩ | ⟨cp, -, -, run⟩ | ⟨-, -, run⟩
          · rw [live'] at now
            cases now
          · exact readCampaign_loss inv run live' now
          · exact readCampaign_loss inv.createCamp run live' now
      · exact .inr (camps.2 _ (Nat.lt_of_lt_of_le old later.1) dead)
    · rintro calls actions t cp t' ⟨inv, later, fate⟩ - run
      have camps := pullService_later run
      refine ⟨inv.service run, later.trans camps, ?_⟩
      rcases fate with ⟨dest', live', onCp⟩ | dead
      · refine .inl ?_
        obtain ⟨camp, -, ⟨rfl, -⟩ | ⟨-, rows, acts, l, -, -, rfl⟩⟩ := pullService_cases run
        · exact ⟨dest', live', onCp⟩
        · exact ⟨dest', loadContacts_live cp rows live', onCp⟩
      · exact .inr (camps.2 _ (Nat.lt_of_lt_of_le old later.1) dead)
  obtain ⟨-, -, ⟨dest', live', -⟩ | dead⟩ := account
  · rw [gone] at live'
    cases live'
  · exact dead

/-- A tick destroys only a destination of its campaign that it gets no call for. -/
theorem tick_loss {e : Event} {env : DestId → DialEnv} (ticks : Ticks s cp now env e t)
    (run : startFakeCalling t cp now env = .ok s') (inv : Inv ans s)
    (live : s.book.dests.get d = some dest) (gone : s'.book.dests.get d = none) :
    Refuses s d dest.cp e := by
  have starts : Inv ans t := inv.ticks ticks
  have liveStart : t.book.dests.get d = some dest := by
    obtain ⟨f, msgq, torn, lost, -, rfl⟩ := ticks.state
    exact live
  have fate : (∃ dest', s'.book.dests.get d = some dest' ∧ dest'.cp = dest.cp) ∨
      Refuses s d dest.cp e := by
    refine startFakeCalling_rule (I := fun t => (∃ dest', t.book.dests.get d = some dest' ∧
      dest'.cp = dest.cp) ∨ Refuses s d dest.cp e) ?_ ?_ ?_ (.inl ⟨dest, liveStart, rfl⟩) run
    · intro u f fate _
      exact fate
    · intro book fate filled
      rcases fate with ⟨dest', live', onCp⟩ | refuses
      · obtain ⟨le, live''⟩ := (fillProcessl_rearranged filled).dest_of live'
        exact .inl ⟨_, live'', onCp⟩
      · exact .inr refuses
    · intro d' u dest₀ u' destroyed reached fate live₀ result
      rcases fate with ⟨dest', live', onCp⟩ | refuses
      · by_cases here : d = d'
        · subst here
          obtain rfl := Option.some.inj (live₀.symm.trans live')
          cases result with
          | skipped => exact .inl ⟨dest₀, live', onCp⟩
          | @destroyed r idle calls err noCall =>
            -- the loop dials destinations of the campaign that is ticked
            obtain ⟨_, loop⟩ := reached.dialling starts
            obtain ⟨dest₁, live₁, onCp', -⟩ := loop.on d List.mem_cons_self
            obtain rfl := Option.some.inj (live'.symm.trans live₁)
            obtain rfl : cp = dest.cp := onCp'.symm.trans onCp
            exact .inr ⟨now, env, t, u, dest₀, r, ticks, reached, live', idle, calls, err⟩
          | undone =>
            exact .inl ⟨dest₀.undone now, (Heap.get_modify_self ..).trans (by rw [live']; rfl), onCp⟩
          | @placed _ c =>
            exact .inl ⟨dest₀.dialled c now, (Heap.get_modify_self ..).trans (by rw [live']; rfl), onCp⟩
        · exact .inl ⟨dest', by rw [result.others here, live'], onCp⟩
      · exact .inr refuses
  rcases fate with ⟨dest', live', -⟩ | refuses
  · rw [gone] at live'
    cases live'
  · exact refuses

theorem supervised_loss {env : AllocEnv} (inv : Inv ans s) (armed : dest.tmr = true)
    (run : onCallEnd (s.disarmDest d) d now env = .ok s')
    (live : s.book.dests.get d = some dest) (gone : s'.book.dests.get d = none) :
    Loss s d dest (.destTimer d now env) s' := by
  obtain ⟨c, call, has, liveCall, result⟩ := inv.supervised_cases live armed run
  cases result with
  | rearmed _ rules => cases (rearmed_dest live rules).symm.trans gone
  | @destroyed camp duration db media ruled liveCamp lasted rec why dropped =>
    have ends : Ends s d now env dest camp c call := .of_ended live liveCamp has liveCall ruled
    rcases why with spent | answered
    · exact .spent ends spent
    · exact .answered ends (lasted_established inv.phase liveCall lasted answered)
  | requeued => cases (inv.requeued_dest live).symm.trans gone

/-- Between two steps of a run a destination stays on a list of its campaign, or
it is destroyed: because its contact answered, because the retry limit has been
reached, together with its campaign, or in a tick that gets no call for it. -/
theorem destination_fate {h : List (Sys × Event)} {e : Event} (run : dialer.Execution h s)
    (step : dialer.step s e s') (live : s.book.dests.get d = some dest) :
    Kept s' d dest.cp ∨ (s'.book.dests.get d = none ∧ Loss s d dest e s') := by
  have inv := execution_inv run
  cases now : s'.book.dests.get d with
  | some dest' =>
    have same := (step_onward inv step).same d dest dest' live now
    exact .inl (same.2 ▸ (step_inv inv step).kept now)
  | none =>
    refine .inr ⟨rfl, ?_⟩
    cases step_cases step with
    | pulled run => exact .stopped (pull_loss inv run live now)
    | ticked ticks run => exact .refused (tick_loss ticks run inv live now)
    | @supervised d' _ _ _ _ live' armed run =>
      by_cases here : d = d'
      · subst here
        obtain rfl := Option.some.inj (live.symm.trans live')
        exact supervised_loss inv armed run live now
      · rw [inv.supervised_others live' armed run here, live] at now
        cases now
    | calledBack | lost =>
      have kept : s.book.dests.get d = none := now
      rw [live] at kept
      cases kept

/-- No socket is left for the RTP of the first contact. -/
def noSocket : DestId → DialEnv := fun _ => { alloc := { rtpAlloc := false } }

theorem destination_fate_refused : ∃ h s s' dest, dialer.Execution h s ∧
    dialer.step s (.message 100 noSocket) s' ∧ s.book.dests.get 0 = some dest ∧
    (Kept s' 0 dest.cp ∨
      (s'.book.dests.get 0 = none ∧ Loss s 0 dest (.message 100 noSocket) s')) := by
  obtain ⟨h, s, run, test⟩ := Lts.replay_exists SysInit Sys.next (s := Sys.boot 4 "/audio")
    [.pull oneCampaign]
    (fun _ s => (s.book.dests.get 0).isSome && (s.next (.message 100 noSocket)).isSome)
    ⟨4, "/audio", by decide, rfl⟩ (by decide)
  rw [Bool.and_eq_true, Option.isSome_iff_exists, Option.isSome_iff_exists] at test
  obtain ⟨⟨dest, live⟩, s', step⟩ := test
  exact ⟨h, s, s', dest, run, step, live, destination_fate run step live⟩

/-- The tick destroys a contact whose call was never placed, and its campaign goes
on without it. -/
theorem destination_dropped : ∃ h s s' dest camp, dialer.Execution h s ∧
    dialer.step s (.message 100 noSocket) s' ∧ s.book.dests.get 0 = some dest ∧
    s'.book.dests.get 0 = none ∧ s'.book.camps.get dest.cp = some camp := by
  obtain ⟨h, s, run, test⟩ := Lts.replay_exists SysInit Sys.next (s := Sys.boot 4 "/audio")
    [.pull oneCampaign]
    (fun _ s => (s.book.dests.get 0).any fun dest => (s.next (.message 100 noSocket)).any fun s' =>
      (s'.book.dests.get 0).isNone && (s'.book.camps.get dest.cp).isSome)
    ⟨4, "/audio", by decide, rfl⟩ (by decide)
  obtain ⟨dest, live, test⟩ := (Option.any_eq_true ..).mp test
  obtain ⟨s', step, test⟩ := (Option.any_eq_true ..).mp test
  rw [Bool.and_eq_true, Option.isNone_iff_eq_none, Option.isSome_iff_exists] at test
  obtain ⟨gone, camp, liveCamp⟩ := test
  exact ⟨h, s, s', dest, camp, run, step, live, gone, liveCamp⟩

/-! ## When an answered contact is done with -/

/-- The clock has moved on since the call was established; of a call with a PBX
leg this is asked of the leg. -/
def Talked (m : Media) (now : Time) (call : Call) : Prop :=
  match call.pbxCall with
  | none => 0 < toInt32 (now - call.establishTm)
  | some leg => ∃ legCall, m.calls.get leg = some legCall ∧ legCall.callStatus = .established ∧
      0 < toInt32 (now - legCall.establishTm)

/-- The call that the handler finds ended was established. -/
structure EndsAnswered (s : Sys) (d : DestId) (now : Time) (env : AllocEnv) (dest : Destination)
    (camp : Campaign) (c : CallId) (call : Call) : Prop
    extends Ends s d now env dest camp c call where
  answered : call.callStatus = .established

/-- The duration that the handler goes by is positive. -/
theorem Lasted.positive_iff {m : Media} {duration : Int} (answered : call.callStatus = .established)
    (lasted : Lasted m now call duration) : 0 < duration ↔ Talked m now call := by
  unfold Lasted at lasted
  unfold Talked
  cases hasLeg : call.pbxCall with
  | none =>
    rw [hasLeg] at lasted
    rw [show duration = call.duration now from lasted, Call.duration, if_pos answered]
  | some leg =>
    rw [hasLeg] at lasted
    obtain ⟨legCall, liveLeg, rfl⟩ := lasted
    rw [Call.duration]
    split
    next up =>
      refine ⟨fun positive => ⟨legCall, liveLeg, up, positive⟩, ?_⟩
      rintro ⟨_, live, -, positive⟩
      obtain rfl := Option.some.inj (liveLeg.symm.trans live)
      exact positive
    next notUp =>
      refine ⟨fun positive => absurd positive (by decide), ?_⟩
      rintro ⟨_, live, up, -⟩
      obtain rfl := Option.some.inj (liveLeg.symm.trans live)
      exact absurd up notUp

/-- The handler destroys the destination if its contact is spent or has talked. -/
theorem EndsAnswered.gone_iff {env : AllocEnv} (ends : EndsAnswered s d now env dest camp c call)
    (inv : Inv ans s) (step : dialer.step s (.destTimer d now env) s') :
    s'.book.dests.get d = none ↔ Spent camp dest ∨ Talked s.media now call := by
  cases inv.timer_cases ends.live ends.has ends.liveCall step with
  | @rearmed t ruled rules =>
    obtain ⟨t', after', ruled', liveOver, ended⟩ := ends.halted
    obtain rfl := Except.ok.inj (ruled.symm.trans ruled')
    obtain ⟨after, liveAfter, notEnded, -⟩ := rules.call_after ends.liveCall
    obtain rfl := Option.some.inj (liveAfter.symm.trans liveOver)
    rw [ended] at notEnded
    cases notEnded
  | @destroyed camp' duration db media _ liveCamp lasted _ why =>
    obtain rfl := Option.some.inj (ends.liveCamp.symm.trans liveCamp)
    refine iff_of_true ((Book.remove_dests d).trans (if_pos rfl)) ?_
    exact why.imp_right (lasted.positive_iff ends.answered).mp
  | @requeued camp' duration db media _ liveCamp lasted _ why =>
    obtain rfl := Option.some.inj (ends.liveCamp.symm.trans liveCamp)
    refine iff_of_false (fun gone => ?_) fun done => why ?_
    · cases (inv.requeued_dest ends.live).symm.trans gone
    · exact done.imp_right (lasted.positive_iff ends.answered).mpr

/-- Throughout a run the destination of every answered call that ends is destroyed
with it, never to be on a list of destinations again, exactly when each of these
contacts is spent or has talked. -/
theorem answered_final_iff {h : List (Sys × Event)} (run : dialer.Execution h s) :
    (∀ h₁ h₂ t d now env dest camp c call, h = h₁ ++ (t, .destTimer d now env) :: h₂ →
      EndsAnswered t d now env dest camp c call → ∀ u, Lts.Visits h₂ s u →
      u.book.dests.get d = none ∧ ∀ cp camp, u.book.camps.get cp = some camp →
        d ∉ camp.destinations) ↔
    ∀ t d now env dest camp c call, (t, .destTimer d now env) ∈ h →
      EndsAnswered t d now env dest camp c call → Spent camp dest ∨ Talked t.media now call := by
  constructor
  · intro final t d now env dest camp c call mem ends
    obtain ⟨h₁, h₂, u, split, before, step, rest⟩ := run.step_of_mem mem
    have gone := (final h₁ h₂ t d now env dest camp c call split ends u rest.visits_start).1
    exact (ends.gone_iff (execution_inv before) step).mp gone
  · intro meets h₁ h₂ t d now env dest camp c call split ends u visit
    obtain ⟨v, before, step, rest⟩ := (split ▸ run).split
    obtain ⟨k, later⟩ := rest.of_visits visit
    have done := meets t d now env dest camp c call (by simp [split]) ends
    have inv := execution_inv before
    have gone := (ends.gone_iff inv step).mpr done
    have reach := before.reachable.step step
    have old : d < v.book.dests.next :=
      Nat.lt_of_lt_of_le (Heap.lt_next ends.live) (step_onward inv step).later.1
    have stays := (run_onward reach later).dead old gone
    obtain ⟨ans, inv⟩ := reachable_inv (reach.run later)
    refine ⟨stays, fun cp camp live mem => ?_⟩
    obtain ⟨dest', live', -⟩ := inv.partition.on_destinations live mem
    rw [stays] at live'
    cases live'

/-- The first contact answers, is forwarded, and hangs up before the PBX answers. -/
def unansweredLeg : List Event :=
  [.pull joinCampaign, .message 100 fun _ => {},
    .establish 0 { answer := { raddr := 55 }, now := 105 }, .destTimer 0 106 {},
    .close 0 false 200]

theorem answered_final_iff_hungUp : ∃ h s, dialer.Execution h s ∧ h.length = 6 ∧
    ((∀ h₁ h₂ t d now env dest camp c call, h = h₁ ++ (t, .destTimer d now env) :: h₂ →
      EndsAnswered t d now env dest camp c call → ∀ u, Lts.Visits h₂ s u →
      u.book.dests.get d = none ∧ ∀ cp camp, u.book.camps.get cp = some camp →
        d ∉ camp.destinations) ↔
    ∀ t d now env dest camp c call, (t, .destTimer d now env) ∈ h →
      EndsAnswered t d now env dest camp c call →
      Spent camp dest ∨ Talked t.media now call) := by
  obtain ⟨h, s, run, test⟩ := Lts.replay_exists SysInit Sys.next (s := Sys.boot 4 "/audio")
    (unansweredLeg ++ [.destTimer 0 170 {}]) (fun h _ => h.length == 6)
    ⟨4, "/audio", by decide, rfl⟩ (by decide)
  exact ⟨h, s, run, beq_iff_eq.mp test, answered_final_iff run⟩

/-- A contact that was on the line for more than a minute goes back on the list of
destinations. -/
theorem answered_redialled : ∃ h s s' dest camp c call camp', dialer.Execution h s ∧
    EndsAnswered s 0 170 {} dest camp c call ∧ dialer.step s (.destTimer 0 170 {}) s' ∧
    s'.book.camps.get dest.cp = some camp' ∧ 0 ∈ camp'.destinations := by
  obtain ⟨h, s, run, test⟩ := Lts.replay_exists SysInit Sys.next (s := Sys.boot 4 "/audio")
    unansweredLeg
    (fun _ s => (s.book.dests.get 0).any fun dest => (s.book.camps.get dest.cp).any fun _ =>
      dest.call.any fun c => (s.media.calls.get c).any fun call =>
        call.callStatus = .established &&
        (endRules (s.disarmDest 0) 0 170 {}).toOption.any fun t =>
          (t.media.calls.get c).any fun after => after.ended &&
          (s.next (.destTimer 0 170 {})).any fun s' =>
            (s'.book.camps.get dest.cp).any fun camp' => camp'.destinations.elem 0)
    ⟨4, "/audio", by decide, rfl⟩ (by decide)
  simp only [Option.any_eq_true, Bool.and_eq_true, decide_eq_true_eq, List.elem_iff] at test
  obtain ⟨dest, live, camp, liveCamp, c, has, call, liveCall, up, t, ruled, after, liveAfter, ended,
    s', step, camp', liveCamp', mem⟩ := test
  have rules : endRules (s.disarmDest 0) 0 170 {} = .ok t := by
    cases result : endRules (s.disarmDest 0) 0 170 {} with
    | error fault =>
      rw [result] at ruled
      cases ruled
    | ok t' =>
      rw [result] at ruled
      cases ruled
      rfl
  exact ⟨h, s, s', dest, camp, c, call, camp', run,
    ⟨⟨live, liveCamp, has, liveCall, t, after, rules, liveAfter, ended⟩, up⟩, step, liveCamp', mem⟩

end Autodialer
