import Autodialer.Invariant
import Mathlib.Data.List.Perm.Subperm

/-!
# The lists of a campaign through a run

The process list of a campaign is filled up to its call limit and never above
it. As long as no start message tears the list of timers, every timer with a
handler is called. With the invariant of the dialer this gives the whole account
of the lists, the calls and the timers of a campaign.

* `step_within`: a step keeps the process list within a bound on the call limit.
* `step_whole`: only a start message tears the list of timers.
* `campaign_lists`: the account for every run whose start messages leave it whole.
* `campaign_lists_torn`: a second start message, and a live call has no timer.
-/

namespace Autodialer

variable {s s' : Sys} {b b' : Book} {d : DestId} {cp cp' : CampId} {r : Ring} {L : Nat}
  {now : Time}

/-- The process list of `cp` has at most `L` elements. -/
def Within (cp : CampId) (L : Nat) (b : Book) : Prop :=
  ∀ camp, b.camps.get cp = some camp → camp.processl.length ≤ L

/-- The call limit of `cp` is at most `L`. -/
def Limited (cp : CampId) (L : Nat) (b : Book) : Prop :=
  ∀ camp, b.camps.get cp = some camp → camp.callLimit ≤ L

theorem Ring.destinations_ne (cp cp' : CampId) : Ring.destinations cp ≠ .processl cp' := nofun

namespace Within

/-- The write does not lengthen the process list. -/
theorem setCamp {f : Campaign → Campaign} (inv : Within cp L b)
    (shorter : ∀ camp, (f camp).processl.length ≤ camp.processl.length) :
    Within cp L (b.setCamp cp' f) := by
  intro camp live
  rw [Book.camps_setCamp, Heap.get_modify] at live
  split at live
  · obtain ⟨old, liveOld, rfl⟩ := Option.map_eq_some_iff.mp live
    exact Nat.le_trans (shorter old) (inv old liveOld)
  · exact inv camp live

theorem unlink (inv : Within cp L b) (d : DestId) : Within cp L (listUnlink b d) := by
  unfold listUnlink
  split
  · exact inv
  next r _ =>
    refine setCamp (b := b.setDest d _) inv fun camp => ?_
    cases r with
    | destinations => exact Nat.le_refl _
    | processl => exact List.length_erase_le

theorem append (inv : Within cp L b) (other : r ≠ .processl cp) (d : DestId) :
    Within cp L (listAppend b r d) := by
  unfold listAppend
  split
  · exact inv
  · intro camp live
    rw [Book.camps_setCamp, Heap.get_modify] at live
    split at live
    next here =>
      obtain ⟨old, liveOld, rfl⟩ := Option.map_eq_some_iff.mp live
      cases r with
      | destinations => exact inv old liveOld
      | processl cp' => exact absurd (congrArg Ring.processl here.symm) other
    next => exact inv camp live

theorem appendProcessl (room : ∀ camp, b.camps.get cp = some camp → camp.processl.length < L)
    (d : DestId) : Within cp L (listAppend b (.processl cp) d) := by
  unfold listAppend
  split
  · exact fun camp live => Nat.le_of_lt (room camp live)
  · intro camp live
    rw [Book.camps_setCamp, Heap.get_modify] at live
    split at live
    · obtain ⟨old, liveOld, rfl⟩ := Option.map_eq_some_iff.mp live
      simpa [Campaign.edit, Nat.succ_le_iff] using room old liveOld
    · exact Nat.le_of_lt (room camp live)

theorem remove (inv : Within cp L b) (d : DestId) : Within cp L (b.remove d) := inv.unlink d

theorem setDest (inv : Within cp L b) (d : DestId) (f : Destination → Destination) :
    Within cp L (b.setDest d f) := inv

end Within

theorem Limited.rearranged (inv : Limited cp L b) (change : Rearranged b b') : Limited cp L b' := by
  intro camp live
  obtain ⟨old, ds, ps, liveOld, rfl⟩ := change.of_camp live
  exact inv old liveOld

/-! ## Steps -/

/-- A destination is selected while there is room. -/
theorem Within.select {camp : Campaign} (inv : Within cp L b) (limited : Limited cp L b)
    (live : b.camps.get cp' = some camp) (room : camp.processl.length < camp.callLimit)
    (d : DestId) : Within cp L (b.moveTo d (.processl cp')) := by
  by_cases here : cp' = cp
  · subst here
    refine Within.appendProcessl (fun camp' live' => ?_) d
    have before : Within cp' camp.processl.length b := fun camp'' live'' => by
      obtain rfl := Option.some.inj (live.symm.trans live'')
      exact Nat.le_refl _
    exact Nat.lt_of_le_of_lt (before.unlink d camp' live')
      (Nat.lt_of_lt_of_le room (limited camp live))
  · exact (inv.unlink d).append (fun eq => here (Ring.processl.inj eq)) d

theorem fillProcessl_within (within : Within cp L b) (limited : Limited cp L b)
    (run : fillProcessl b cp' now = .ok b') : Within cp L b' := by
  rcases fillProcessl_cases run with rfl | ⟨camp, order, live, -, room, run⟩
  · exact within
  · have start : Within cp L (b.setCamp cp' fun camp => { camp with destinations := order }) :=
      within.setCamp fun _ => Nat.le_refl _
    obtain ⟨_, inv, -⟩ := selectLoop_rule (I := fun _ b => Within cp L b ∧ Limited cp L b)
      (fun _ _ _ inv => inv)
      (fun d _ b _ _ ⟨inv, limited⟩ _ live room _ =>
        ⟨inv.select limited live room d, limited.rearranged (Rearranged.moveTo b d _)⟩)
      ⟨start, limited.rearranged (Rearranged.order b cp' order)⟩
      (by simp [live]; exact room) run
    exact inv

theorem DialResult.within {env : DialEnv} {dest : Destination} {destroyed : Bool}
    (result : DialResult s now env d dest s' destroyed) (within : Within cp L s.book) :
    Within cp L s'.book := by
  cases result with
  | skipped => exact within
  | destroyed => exact within.remove d
  | undone => exact within
  | placed => exact within

theorem Flags.within {f : Campaign → Campaign} (flags : Flags f) (within : Within cp L b) :
    Within cp L (b.setCamp cp' f) :=
  within.setCamp fun camp => by
    obtain ⟨isRunning, tmr, eq⟩ := flags camp
    rw [eq]

theorem Flags.limited {f : Campaign → Campaign} (flags : Flags f) (limited : Limited cp L b) :
    Limited cp L (b.setCamp cp' f) := by
  intro camp live
  rw [Book.camps_setCamp, Heap.get_modify] at live
  split at live
  · obtain ⟨old, liveOld, rfl⟩ := Option.map_eq_some_iff.mp live
    obtain ⟨isRunning, tmr, eq⟩ := flags old
    rw [eq]
    exact limited old liveOld
  · exact limited camp live

theorem startFakeCalling_within {env : DestId → DialEnv} (within : Within cp L s.book)
    (limited : Limited cp L s.book) (run : startFakeCalling s cp' now env = .ok s') :
    Within cp L s'.book :=
  startFakeCalling_rule (I := fun t => Within cp L t.book) (fun _ _ within flags => flags.within within)
    (fun _ within filled => fillProcessl_within within limited filled)
    (fun _ _ _ _ _ _ within _ result => result.within within) within run

theorem onCallEnd_within {env : AllocEnv} {dest : Destination} {c : CallId} {call : Call}
    (result : EndResult s now env d dest c call s') (within : Within cp L s.book) :
    Within cp L s'.book := by
  cases result with
  | rearmed _ rules =>
    rw [rules.frame]
    exact within
  | destroyed => exact within.remove d
  | requeued =>
    exact ((within.setDest d _).unlink d).append (Ring.destinations_ne _ _) d

theorem memDerefCampaign_within (within : Within cp L s.book)
    (run : memDerefCampaign s cp' = .ok s') : Within cp L s'.book := by
  obtain ⟨camp, t, -, flushed, rfl⟩ := memDerefCampaign_cases run
  obtain ⟨-, camps, -⟩ := flushDests_book flushed
  intro camp live
  change (t.book.camps.free cp').get cp = some camp at live
  rw [camps, Heap.get_free] at live
  split at live
  · cases live
  · exact within camp live

theorem pull_within {snap : Snapshot} (within : Within cp L s.book)
    (run : pullGroups s snap = .ok s') : Within cp L s'.book := by
  have read : ∀ {s s' : Sys} {cp'} {row : CampaignRow}, Within cp L s.book →
      readCampaign s cp' row = .ok s' → Within cp L s'.book := by
    intro s s' cp' row within run
    obtain ⟨camp, -, ⟨-, -, run⟩ | ⟨-, gateway, pbxGateway, rfl⟩⟩ := readCampaign_cases run
    · have head : Within cp L (s.setCamp cp' fun camp => camp.readHead row).book :=
        within.setCamp fun _ => Nat.le_refl _
      exact memDerefCampaign_within head run
    · exact within.setCamp fun _ => Nat.le_refl _
  refine pullGroups_rule (I := fun s => Within cp L s.book) ?_ ?_ ?_ within run
  · intro s row s' within run
    rw [pullGateway_frame run]
    exact within
  · intro s row s' within run
    rcases pullCampaign_cases run with ⟨rfl, -⟩ | ⟨cp', -, -, run⟩ | ⟨-, -, run⟩
    · exact within
    · exact read within run
    · refine read (fun camp live => ?_) run
      rcases createCamp_camps live with ⟨-, rfl⟩ | ⟨-, live⟩
      · exact Nat.zero_le L
      · exact within camp live
  · intro calls actions s cp' s' within _ run
    obtain ⟨camp, -, ⟨rfl, -⟩ | ⟨-, rows, acts, l, -, -, rfl⟩⟩ := pullService_cases run
    · exact within
    · have loaded : Within cp L (rows.foldl (loadContact cp') s.book) := by
        refine List.foldlRecOn rows _ within fun b within row _ => ?_
        have added : ∀ dest, Within cp L { b with dests := b.dests.alloc dest } := fun _ => within
        exact (added _).append (Ring.destinations_ne cp' cp) _
      exact loaded.setCamp fun _ => Nat.le_refl _

/-- A step that starts with the call limit of `cp` at most `L` keeps its process
list within `L`. -/
theorem step_within {ans : CallId → Addr → Prop} {e : Event} (inv : Inv ans s)
    (within : Within cp L s.book) (limited : Limited cp L s.book) (step : dialer.step s e s') :
    Within cp L s'.book := by
  cases step_cases step with
  | pulled run => exact pull_within within run
  | @ticked _ cp' _ _ _ _ ticks run =>
    obtain ⟨f, msgq, torn, lost, flags, rfl⟩ := ticks.state
    have starts : Within cp L (s.book.setCamp cp' f) := flags.within within
    have limitedStart : Limited cp L (s.book.setCamp cp' f) := flags.limited limited
    exact startFakeCalling_within starts limitedStart run
  | supervised live armed run =>
    obtain ⟨c, call, -, -, result⟩ := inv.supervised_cases live armed run
    exact onCallEnd_within result within
  | calledBack => exact within
  | lost => exact within

/-- A run whose steps start with the call limit of `cp` at most `L` ends with the
process list within `L`. -/
theorem run_within {h : List (Sys × Event)} (run : dialer.Execution h s)
    (limited : ∀ x ∈ h, Limited cp L x.1.book) : Within cp L s.book :=
  (run.induct (C := fun s _ => Limited cp L s.book)
    (I := fun h s => Inv (Answered h) s ∧ Within cp L s.book) limited
    (fun _ ⟨n, audioPath, _, eq⟩ => eq ▸ ⟨Inv.boot n audioPath, nofun⟩)
    (fun _ _ _ _ _ ⟨inv, within⟩ step limited =>
      ⟨step_inv inv step, step_within inv within limited step⟩)).2

/-! ## The list of timers -/

/-- The start message finds the timer of its campaign armed, and zeroes it on the list of
timers. -/
def Tears (s : Sys) (e : Event) : Prop :=
  ∃ now env id cp rest, e = .message now env ∧ s.msgq = (id, cp) :: rest ∧
    s.armed (.camp cp) = true

/-- No timer was zeroed on the list of timers, and none is lost. -/
structure Whole (s : Sys) : Prop where
  torn : s.torn = false
  lost : s.lost = []

theorem Whole.pending (whole : Whole s) (tmr : TimerId) : s.pending tmr = s.armed tmr := by
  rw [Sys.pending, whole.lost]
  exact Bool.and_true _

/-- The list of timers is as it was. -/
structure SameTimers (s s' : Sys) : Prop where
  torn : s'.torn = s.torn
  lost : s'.lost = s.lost

namespace SameTimers

theorem refl (s : Sys) : SameTimers s s := ⟨rfl, rfl⟩

theorem trans {u : Sys} (first : SameTimers s s') (second : SameTimers s' u) : SameTimers s u :=
  ⟨second.torn.trans first.torn, second.lost.trans first.lost⟩

theorem whole (same : SameTimers s s') (whole : Whole s) : Whole s' :=
  ⟨same.torn.trans whole.torn, same.lost.trans whole.lost⟩

end SameTimers

theorem DialResult.timers {env : DialEnv} {dest : Destination} {destroyed : Bool}
    (result : DialResult s now env d dest s' destroyed) : SameTimers s s' := by
  cases result <;> exact ⟨rfl, rfl⟩

theorem startFakeCalling_timers {env : DestId → DialEnv}
    (run : startFakeCalling s cp now env = .ok s') : SameTimers s s' :=
  startFakeCalling_rule (I := SameTimers s) (fun _ _ same _ => same.trans ⟨rfl, rfl⟩)
    (fun _ same _ => same.trans ⟨rfl, rfl⟩)
    (fun _ _ _ _ _ _ same _ result => same.trans result.timers) (.refl s) run

theorem EndResult.timers {env : AllocEnv} {dest : Destination} {c : CallId} {call : Call}
    (result : EndResult s now env d dest c call s') : SameTimers s s' := by
  cases result with
  | rearmed _ rules =>
    rw [rules.frame]
    exact ⟨rfl, rfl⟩
  | destroyed => exact ⟨rfl, rfl⟩
  | requeued => exact ⟨rfl, rfl⟩

theorem readCampaign_timers {row : CampaignRow} (run : readCampaign s cp row = .ok s') :
    SameTimers s s' := by
  obtain ⟨camp, -, ⟨-, -, run⟩ | ⟨-, gateway, pbxGateway, rfl⟩⟩ := readCampaign_cases run
  · obtain ⟨_, t, -, flushed, rfl⟩ := memDerefCampaign_cases run
    have frame := flushDests_frame flushed
    have flushes : SameTimers s t := by
      rw [frame]
      exact ⟨rfl, rfl⟩
    exact flushes.trans ⟨rfl, rfl⟩
  · exact ⟨rfl, rfl⟩

theorem pull_timers {snap : Snapshot} (run : pullGroups s snap = .ok s') : SameTimers s s' := by
  refine pullGroups_rule (I := SameTimers s) ?_ ?_ ?_ (.refl s) run
  · intro t row t' same run
    rw [pullGateway_frame run]
    exact same.trans ⟨rfl, rfl⟩
  · intro t row t' same run
    rcases pullCampaign_cases run with ⟨rfl, -⟩ | ⟨cp', -, -, run⟩ | ⟨-, -, run⟩
    · exact same
    · exact same.trans (readCampaign_timers run)
    · have created : SameTimers t t.createCamp := ⟨rfl, rfl⟩
      exact same.trans (created.trans (readCampaign_timers run))
  · intro calls actions t cp' t' same _ run
    obtain ⟨camp, -, ⟨rfl, -⟩ | ⟨-, rows, acts, l, -, -, rfl⟩⟩ := pullService_cases run
    · exact same
    · exact same.trans ⟨rfl, rfl⟩

/-- Only a start message tears the list of timers. -/
theorem step_whole {ans : CallId → Addr → Prop} {e : Event} (inv : Inv ans s) (whole : Whole s)
    (spares : ¬ Tears s e) (step : dialer.step s e s') : Whole s' := by
  cases step_cases step with
  | pulled run => exact (pull_timers run).whole whole
  | @ticked _ cp now env t _ ticks run =>
    refine (startFakeCalling_timers run).whole ?_
    cases ticks with
    | timer => exact ⟨whole.torn, whole.lost⟩
    | @message id rest queue =>
      have idle : s.armed (.camp cp) = false := by
        rw [Bool.eq_false_iff]
        exact fun armed => spares ⟨now, env, id, cp, rest, rfl, queue, armed⟩
      rw [startCamp_eq, idle, Bool.or_false, whole.lost]
      exact ⟨whole.torn, rfl⟩
  | @supervised d _ _ _ _ live armed run =>
    obtain ⟨_, _, -, -, result⟩ := inv.supervised_cases live armed run
    have disarmed : SameTimers s (s.disarmDest d) := ⟨rfl, rfl⟩
    exact (disarmed.trans result.timers).whole whole
  | calledBack => exact ⟨whole.torn, whole.lost⟩
  | lost torn =>
    rw [whole.torn] at torn
    cases torn

/-- The list of timers is whole after a run whose start messages all find the timers of their
campaigns unarmed. -/
theorem run_whole {h : List (Sys × Event)} (run : dialer.Execution h s)
    (spares : ∀ x ∈ h, ¬ Tears x.1 x.2) : Whole s :=
  (run.induct (C := fun s e => ¬ Tears s e) (I := fun h s => Inv (Answered h) s ∧ Whole s) spares
    (fun _ ⟨n, audioPath, _, eq⟩ => eq ▸ ⟨Inv.boot n audioPath, rfl, rfl⟩)
    (fun _ _ _ _ _ ⟨inv, whole⟩ step spares =>
      ⟨step_inv inv step, step_whole inv whole spares step⟩)).2

/-! ## The account of a campaign -/

/-- The call `c` is the main call of a destination of the campaign `cp`. -/
def IsMainCall (s : Sys) (cp : CampId) (c : CallId) : Prop :=
  ∃ call d dest, s.media.calls.get c = some call ∧ call.ispbxcall = false ∧ call.arg = some d ∧
    s.book.dests.get d = some dest ∧ dest.cp = cp

/-- The destinations, calls and timers of the campaign `cp`. -/
structure CampaignAccount (s : Sys) (cp : CampId) (camp : Campaign) : Prop where
  /-- A destination of the campaign is on one of its two lists, once. -/
  once : ∀ d dest, s.book.dests.get d = some dest → dest.cp = cp →
    (camp.destinations ++ camp.processl).count d = 1
  member : ∀ d ∈ camp.destinations ++ camp.processl,
    ∃ dest, s.book.dests.get d = some dest ∧ dest.cp = cp
  waiting : ∀ d ∈ camp.destinations,
    ∃ dest, s.book.dests.get d = some dest ∧ dest.call = none ∧ dest.tmr = false
  armed : ∀ d dest, s.book.dests.get d = some dest → dest.cp = cp →
    (dest.call ≠ none ↔ s.pending (.dest d) = true)
  /-- A main call is supervised by its destination. -/
  supervised : ∀ c, IsMainCall s cp c →
    ∃ d dest, s.book.dests.get d = some dest ∧ dest.call = some c ∧ s.pending (.dest d) = true

variable {camp : Campaign} {ans : CallId → Addr → Prop} {c : CallId}

theorem Inv.processl_of_call {dest : Destination} (inv : Inv ans s)
    (liveCamp : s.book.camps.get cp = some camp) (live : s.book.dests.get d = some dest)
    (onCp : dest.cp = cp) (has : dest.call = some c) : d ∈ camp.processl := by
  obtain ⟨r, camp', on, isCp, liveCamp', mem⟩ := inv.partition.linked d dest live
  obtain rfl := Option.some.inj (liveCamp.symm.trans (onCp ▸ liveCamp'))
  cases r with
  | processl => exact mem
  | destinations cp' =>
    obtain rfl : cp' = dest.cp := isCp
    rw [(inv.supervised d dest live).waiting on] at has
    cases has

/-- The main call and its destination. -/
theorem Inv.dest_of_mainCall (inv : Inv ans s) (main : IsMainCall s cp c) :
    ∃ d dest, s.book.dests.get d = some dest ∧ dest.cp = cp ∧ dest.call = some c := by
  obtain ⟨call, d, dest, live, notPbx, isArg, liveDest, onCp⟩ := main
  obtain ⟨e, isE, ⟨-, owned⟩ | isLeg⟩ := inv.sound.role c call live
  · obtain rfl := Option.some.inj (isArg.symm.trans isE)
    exact ⟨d, dest, liveDest, onCp, (owner_of_live liveDest).symm.trans owned⟩
  · rw [isLeg.ispbxcall] at notPbx
    cases notPbx

/-- On a whole list of timers a destination has a call exactly if its timer is going to fire. -/
theorem Inv.pending_dest (inv : Inv ans s) (whole : Whole s) {dest : Destination}
    (live : s.book.dests.get d = some dest) : s.pending (.dest d) = dest.call.isSome := by
  rw [whole.pending, (inv.supervised d dest live).armed, Sys.armed, live, Option.any_some]

theorem Inv.account (inv : Inv ans s) (whole : Whole s) (live : s.book.camps.get cp = some camp) :
    CampaignAccount s cp camp where
  once d dest liveDest onCp := by
    subst onCp
    have distinct : (camp.destinations ++ camp.processl).Nodup := by
      refine List.nodup_append.mpr ⟨inv.partition.nodup _ camp (.destinations _) live rfl,
        inv.partition.nodup _ camp (.processl _) live rfl, fun a mem b mem' eq => ?_⟩
      subst eq
      obtain ⟨dest₁, live₁, -, on₁⟩ := inv.partition.on_destinations live mem
      obtain ⟨dest₂, live₂, -, on₂⟩ := inv.partition.on_processl live mem'
      obtain rfl := Option.some.inj (live₁.symm.trans live₂)
      rw [on₁] at on₂
      cases on₂
    obtain ⟨r, camp', -, -, live', mem⟩ := inv.partition.linked d dest liveDest
    obtain rfl := Option.some.inj (live.symm.trans live')
    refine List.count_eq_one_of_mem distinct (List.mem_append.mpr ?_)
    cases r with
    | destinations => exact .inl mem
    | processl => exact .inr mem
  member d mem := by
    rcases List.mem_append.mp mem with mem | mem
    · obtain ⟨dest, liveDest, onCp, -⟩ := inv.partition.on_destinations live mem
      exact ⟨dest, liveDest, onCp⟩
    · obtain ⟨dest, liveDest, onCp, -⟩ := inv.partition.on_processl live mem
      exact ⟨dest, liveDest, onCp⟩
  waiting d mem := by
    obtain ⟨dest, liveDest, onCp, on⟩ := inv.partition.on_destinations live mem
    have supervised := inv.supervised d dest liveDest
    have idle := supervised.waiting (by rw [on, onCp])
    exact ⟨dest, liveDest, idle, by rw [← supervised.armed, idle]; rfl⟩
  armed d dest liveDest _ := by
    rw [inv.pending_dest whole liveDest, Option.isSome_iff_ne_none]
  supervised c main := by
    obtain ⟨d, dest, liveDest, -, has⟩ := inv.dest_of_mainCall main
    exact ⟨d, dest, liveDest, has, by rw [inv.pending_dest whole liveDest, has]; rfl⟩

/-- The main calls of a campaign are not more than its process list is long. -/
theorem Inv.mainCalls_le (inv : Inv ans s) (live : s.book.camps.get cp = some camp)
    {calls : List CallId} (distinct : calls.Nodup) (main : ∀ c ∈ calls, IsMainCall s cp c) :
    calls.length ≤ camp.processl.length := by
  have sub : calls ⊆ camp.processl.filterMap s.book.owner := by
    intro c mem
    obtain ⟨d, dest, liveDest, onCp, has⟩ := inv.dest_of_mainCall (main c mem)
    exact List.mem_filterMap.mpr ⟨d, inv.processl_of_call live liveDest onCp has,
      (owner_of_live liveDest).trans has⟩
  exact Nat.le_trans (distinct.subperm sub).length_le (List.length_filterMap_le _ _)

/-- In a run whose start messages all find the timers of their campaigns unarmed, every state has
a full account of each campaign in `services`; the supervision of a call never finds its destination
without one; and a campaign whose call limit is `L` throughout the run has at most `L` main calls. -/
theorem campaign_lists {h : List (Sys × Event)} (run : dialer.Execution h s)
    (spares : ∀ x ∈ h, ¬ Tears x.1 x.2) (mem : cp ∈ s.services) :
    ∃ camp, s.book.camps.get cp = some camp ∧ CampaignAccount s cp camp ∧
      (∀ d now env, s.enabled (.destTimer d now env) = true →
        ∃ dest c call, s.book.dests.get d = some dest ∧ dest.call = some c ∧
          s.media.calls.get c = some call) ∧
      ∀ L, (∀ t, Lts.Visits h s t → ∀ camp, t.book.camps.get cp = some camp → camp.callLimit = L) →
        camp.processl.length ≤ L ∧
          ∀ calls : List CallId, calls.Nodup → (∀ c ∈ calls, IsMainCall s cp c) → calls.length ≤ L := by
  have inv := execution_inv run
  obtain ⟨camp, live⟩ := (inv.rostered.mem cp).mp mem
  refine ⟨camp, live, inv.account (run_whole run spares) live, ?_, ?_⟩
  · intro d now env enabled
    obtain ⟨dest, liveDest, armed⟩ := pending_dest enabled
    have hasCall := (inv.supervised d dest liveDest).armed
    rw [armed] at hasCall
    obtain ⟨c, has⟩ := Option.isSome_iff_exists.mp hasCall
    obtain ⟨call, liveCall, -⟩ := inv.sound.owned d c ((owner_of_live liveDest).trans has)
    exact ⟨dest, c, call, liveDest, has, liveCall⟩
  · intro L constant
    have within : Within cp L s.book := run_within run fun x mem camp live =>
      Nat.le_of_eq (constant x.1 (.inr ⟨x.2, mem⟩) camp live)
    exact ⟨within camp live, fun calls distinct main =>
      Nat.le_trans (inv.mainCalls_le live distinct main) (within camp live)⟩

/-- The step is no start message, or there is no campaign with an armed timer yet. -/
def spares (x : Sys × Event) : Bool :=
  match x.2 with
  | .message _ _ => x.1.msgq.all fun msg => !x.1.armed (.camp msg.2)
  | _ => true

theorem not_tears {x : Sys × Event} (test : spares x = true) : ¬ Tears x.1 x.2 := by
  obtain ⟨s, e⟩ := x
  rintro ⟨now, env, id, cp, rest, rfl, queue, armed⟩
  have idle := List.all_eq_true.mp test (id, cp) (by rw [queue]; exact List.mem_cons_self)
  simp only [armed] at idle
  cases idle

/-- A database with one active campaign of two contacts. -/
def oneCampaign : Snapshot where
  gateways := some [{
    id := 1, uristr := "sip:trunk@10.0.0.9:5060;prefix=;codec=0",
    sipUri := some { user := some "trunk", codec := some 0 } }]
  campaigns := some [{
    id := 1, frequency := 2, fileName := some "offer.gsm", maxCallRetry := 1, gatewayId := 1,
    pbxGatewayId := 1, pbxNumber := some "600" }]
  calls _ := some [{ id := 7, contactNumber := some "100" }, { id := 8, contactNumber := some "101" }]
  actions _ := some []

/-- Both contacts of `oneCampaign` are being called. -/
theorem campaign_lists_dialled : ∃ h s camp, dialer.Execution h s ∧ 0 ∈ s.services ∧
    s.book.camps.get 0 = some camp ∧ CampaignAccount s 0 camp := by
  obtain ⟨h, s, run, test⟩ := Lts.replay_exists SysInit Sys.next (s := Sys.boot 4 "/audio")
    [.pull oneCampaign, .message 100 fun _ => {}] (fun h s => s.services.elem 0 && h.all spares)
    ⟨4, "/audio", by decide, rfl⟩ (by decide)
  obtain ⟨listed, spared⟩ := Bool.and_eq_true_iff.mp test
  have mem : 0 ∈ s.services := List.elem_iff.mp listed
  obtain ⟨camp, live, account, -⟩ := campaign_lists run
    (fun x isStep => not_tears (List.all_eq_true.mp spared x isStep)) mem
  exact ⟨h, s, camp, run, mem, live, account⟩

/-- Two passes come before the main loop takes the first message. At 109 the timers of the contacts
fire late and are armed again behind that of the campaign; then the second message zeroes the timer
of the campaign and starts it again, and the timers behind it are lost
(`Scheduled.tmrInit_restarted`). -/
def startedTwice : List Event :=
  [.pull oneCampaign, .pull oneCampaign, .message 100 fun _ => {}, .destTimer 0 109 {},
    .destTimer 1 109 {}, .message 109 fun _ => {}, .lose (.dest 0)]

/-- The first contact has a live call, and no timer is going to look after it. -/
theorem campaign_lists_torn : ∃ h s camp dest call, dialer.Execution h s ∧ 0 ∈ s.services ∧
    s.book.camps.get 0 = some camp ∧ s.book.dests.get 0 = some dest ∧ dest.cp = 0 ∧
    dest.call = some 0 ∧ s.media.calls.get 0 = some call ∧ call.sess = .live ∧
    s.pending (.dest 0) = false ∧ ¬ CampaignAccount s 0 camp := by
  obtain ⟨h, s, run, test⟩ := Lts.replay_exists SysInit Sys.next (s := Sys.boot 4 "/audio")
    startedTwice (fun _ s => s.services.elem 0 && (s.book.camps.get 0).isSome &&
      ((s.book.dests.get 0).any fun dest => dest.cp == 0 && dest.call == some 0) &&
      ((s.media.calls.get 0).any fun call => call.sess == .live) && !s.pending (.dest 0))
    ⟨4, "/audio", by decide, rfl⟩ (by decide)
  simp only [Bool.and_eq_true, Option.any_eq_true, beq_iff_eq, Option.isSome_iff_exists,
    Bool.not_eq_true'] at test
  obtain ⟨⟨⟨⟨listed, camp, live⟩, dest, liveDest, onCp, has⟩, call, liveCall, up⟩, idle⟩ := test
  refine ⟨h, s, camp, dest, call, run, List.elem_iff.mp listed, live, liveDest, onCp, has, liveCall,
    up, idle, fun account => ?_⟩
  have pending := (account.armed 0 dest liveDest onCp).mp (by rw [has]; exact Option.some_ne_none 0)
  rw [idle] at pending
  cases pending

end Autodialer
