import Autodialer.Listing

/-!
# The time between two attempts

An attempt leaves the destination with its time and a positive number of tries.
While the retry delay runs the selection passes the destination by, so it stays
on the list of destinations, where no dial loop finds it.

* `attempts_spaced`: two attempts are at least the time between retries apart, as
  long as this time fits into 16 bits and the first attempt does not bring the
  number of tries back to 0.
* `attempts_close`: a time of 1093 minutes between retries is cut to 44 seconds.
-/

namespace Autodialer

variable {s s' t : Sys} {e : Event} {b b' : Book} {k m : Nat} {d : DestId} {cp : CampId}
  {dest : Destination} {camp : Campaign} {now since : Time} {h : List (Sys × Event)}
  {ans : CallId → Addr → Prop}

/-! ## Attempts -/

/-- The time that a tick reads from the clock. -/
def Event.tickTime : Event → Option Time
  | .message now _ | .campTimer _ now _ => some now
  | _ => none

/-- The rows of the campaign `k` that a pass reads have the time `m` between retries. -/
def Event.HoldsRetries (k m : Nat) : Event → Prop
  | .pull snap => ∀ rows, snap.campaigns = some rows →
      ∀ row ∈ rows, row.id = k → row.timeBetweenRetries = m
  | _ => True

/-- A tick at `now` gives `d` a call and arms its timer. -/
structure Attempt (d : DestId) (now : Time) (s : Sys) (e : Event) (s' : Sys) : Prop where
  tick : e.tickTime = some now
  unarmed : ∀ dest, s.book.dests.get d = some dest → dest.tmr = false
  armed : ∃ dest, s'.book.dests.get d = some dest ∧ dest.tmr = true

theorem Ticks.tickTime {env : DestId → DialEnv} (ticks : Ticks s cp now env e t) :
    e.tickTime = some now := by
  cases ticks with
  | message | timer => rfl

theorem ticked_of_tickTime (tick : e.tickTime = some now) (step : dialer.step s e s') :
    ∃ cp env t, Ticks s cp now env e t ∧ startFakeCalling t cp now env = .ok s' := by
  cases step_cases step with
  | pulled => cases tick
  | supervised => cases tick
  | @ticked _ cp clock env t _ ticks run =>
    obtain rfl : clock = now := Option.some.inj (ticks.tickTime.symm.trans tick)
    exact ⟨cp, env, t, ticks, run⟩
  | calledBack callback =>
    cases e with
    | message | campTimer => cases callback
    | _ => cases tick
  | lost => cases tick

/-! ## The campaign of a destination -/

/-- The destination `d`, if it is live, belongs to the campaign `k`. -/
def ContactOf (k : Nat) (d : DestId) (b : Book) : Prop :=
  d < b.dests.next ∧ ∀ dest, b.dests.get d = some dest →
    ∃ camp, b.camps.get dest.cp = some camp ∧ camp.campaignId = k

theorem ContactOf.step (contact : ContactOf k d s.book) (inv : Inv ans s)
    (partition : Partition s'.book) (step : dialer.step s e s') : ContactOf k d s'.book := by
  have onward : Onward s.book s'.book := step_onward inv step
  refine ⟨Nat.lt_of_lt_of_le contact.1 onward.later.1, fun dest' live' => ?_⟩
  obtain ⟨_, camp', -, -, liveCamp', -⟩ := partition.linked d dest' live'
  cases live : s.book.dests.get d with
  | none =>
    rw [onward.dead contact.1 live] at live'
    cases live'
  | some dest =>
    obtain ⟨camp, liveCamp, isK⟩ := contact.2 dest live
    obtain ⟨-, onCp⟩ := onward.same d dest dest' live live'
    rw [onCp] at liveCamp' ⊢
    exact ⟨camp', liveCamp', (step_ids inv step liveCamp liveCamp').trans isK⟩

/-! ## The retry delay -/

/-- The retry delay of the campaign `k`, as `pull_groups` computes it from the time
`m` between retries. -/
def Delays (k m : Nat) (b : Book) : Prop :=
  ∀ cp camp, b.camps.get cp = some camp → camp.campaignId = k → camp.retryDelay = m * 60 % 2 ^ 16

theorem Delays.read {row : CampaignRow} (holds : row.id = k → row.timeBetweenRetries = m)
    (delays : ∀ cp' camp, cp' ≠ cp → s.book.camps.get cp' = some camp → camp.campaignId = k →
      camp.retryDelay = m * 60 % 2 ^ 16)
    (run : readCampaign s cp row = .ok s') : Delays k m s'.book := by
  intro cp' camp' live' isK
  rcases readCampaign_origin run live' with ⟨ne, live⟩ | ⟨-, _, _, _, -, -, -, rfl⟩
  · exact delays cp' camp' ne live isK
  · show row.timeBetweenRetries * 60 % 2 ^ 16 = m * 60 % 2 ^ 16
    rw [holds isK]

theorem Delays.row {row : CampaignRow} (delays : Delays k m s.book)
    (holds : row.id = k → row.timeBetweenRetries = m) (run : pullCampaign s row = .ok s') :
    Delays k m s'.book := by
  rcases pullCampaign_cases run with ⟨rfl, -⟩ | ⟨cp, -, -, run⟩ | ⟨-, -, run⟩
  · exact delays
  · exact .read holds (fun cp' camp _ live => delays cp' camp live) run
  · refine .read holds (fun cp' camp ne live => delays cp' camp ?_) run
    rcases createCamp_camps live with ⟨new, -⟩ | ⟨-, old⟩
    · exact absurd new ne
    · exact old

theorem Delays.pull {snap : Snapshot} (delays : Delays k m s.book)
    (holds : Event.HoldsRetries k m (.pull snap)) (run : pullGroups s snap = .ok s') :
    Delays k m s'.book := by
  rcases pullGroups_cases run with ⟨-, rfl⟩ | ⟨gateways, t, -, gatewaysRun, rest⟩
  · exact delays
  · have start : Delays k m t.book := by
      rw [pullGateways_book gatewaysRun]
      exact delays
    rcases rest with ⟨-, rfl⟩ | ⟨rows, u, answered, campaignsRun, servicesRun⟩
    · exact start
    · have read : Delays k m u.book ∧ ∀ row ∈ ([] : List CampaignRow), row.id = k →
          row.timeBetweenRetries = m :=
        Fallible.foldlM_rule (I := fun rest u => Delays k m u.book ∧ ∀ row ∈ rest, row.id = k →
            row.timeBetweenRetries = m)
          (fun row rest t t' ⟨delays, holds⟩ run =>
            ⟨delays.row (holds row List.mem_cons_self) run,
              fun row mem => holds row (List.mem_cons_of_mem _ mem)⟩)
          ⟨start, holds rows answered⟩ campaignsRun
      refine Fallible.foldlM_rule (I := fun _ u => Delays k m u.book)
        (fun cp _ t t' delays run cp' camp' live' isK => ?_) read.1 servicesRun
      rcases pullService_origin run live' with live | ⟨-, camp, _, _, live, -, -, rfl⟩
      · exact delays cp' camp' live isK
      · exact delays cp camp live isK

theorem Delays.step (delays : Delays k m s.book) (inv : Inv ans s) (holds : e.HoldsRetries k m)
    (step : dialer.step s e s') : Delays k m s'.book := by
  cases main : e.isMain with
  | true =>
    intro cp camp' live' isK
    obtain ⟨camp, live, _, _, _, _, rfl⟩ := mainStep_steady inv main step cp camp' live'
    exact delays cp camp live isK
  | false =>
    obtain ⟨snap, rfl, run⟩ := pass_of_step step main
    exact delays.pull holds run

/-! ## While the delay runs -/

/-- Since its attempt at `since` the destination was not tried, and it waits on the
list of destinations unless it still has its call. -/
structure Destination.RestsSince (dest : Destination) (since : Time) : Prop where
  lastTry : dest.lastTry = since
  tried : 0 < dest.tryCount
  waiting : dest.call = none → dest.le = some (.destinations dest.cp)

theorem Destination.RestsSince.waitsForRetry (rests : dest.RestsSince since)
    (early : now - since < camp.retryDelay) : waitsForRetry camp dest now = true := by
  simp only [Autodialer.waitsForRetry, rests.lastTry, rests.tried, early, decide_true,
    Bool.and_self]

/-- The selection passes by a destination that waits for its retry. -/
theorem fillProcessl_passes (live : b.dests.get d = some dest)
    (waits : ∀ camp, b.camps.get cp = some camp → d ∈ camp.destinations →
      waitsForRetry camp dest now = true)
    (run : fillProcessl b cp now = .ok b') : b'.dests.get d = some dest := by
  rcases fillProcessl_cases run with rfl | ⟨camp, order, liveCamp, perm, room, run⟩
  · exact live
  · have start : (b.setCamp cp fun camp => { camp with destinations := order }).dests.get d =
          some dest ∧ Relisted b (b.setCamp cp fun camp => { camp with destinations := order }) ∧
        ∀ e ∈ order, e ∈ camp.destinations :=
      ⟨live, .rearranged (.order b cp order), fun e mem => perm.mem_iff.mp mem⟩
    obtain ⟨_, kept, -⟩ := selectLoop_rule (I := fun rest b'' =>
        b''.dests.get d = some dest ∧ Relisted b b'' ∧ ∀ e ∈ rest, e ∈ camp.destinations)
      (fun _ _ _ ⟨live, relisted, within⟩ =>
        ⟨live, relisted, fun e mem => within e (List.mem_cons_of_mem _ mem)⟩)
      (fun d' rest b'' dest' camp'' ⟨live'', relisted, within⟩ live' liveCamp'' _ due => by
        obtain ⟨old, _, _, liveOld, rfl⟩ := relisted.of_camp liveCamp''
        cases liveCamp.symm.trans liveOld
        refine ⟨?_, relisted.trans (.rearranged (.moveTo b'' d' _)),
          fun e mem => within e (List.mem_cons_of_mem _ mem)⟩
        rcases eq_or_ne d d' with rfl | ne
        · cases live''.symm.trans live'
          have waiting : waitsForRetry camp dest now = true :=
            waits camp liveCamp (within d List.mem_cons_self)
          exact absurd (waiting.symm.trans due) (by decide)
        · rw [Book.moveTo_dests_ne ne, live''])
      start (by simp [liveCamp]; exact room) run
    exact kept

/-- A tick leaves the destination alone while its retry delay runs. -/
theorem tick_rests {env : DestId → DialEnv} (inv : Inv ans s) (ticks : Ticks s cp now env e t)
    (run : startFakeCalling t cp now env = .ok s') (live : s.book.dests.get d = some dest)
    (rests : dest.RestsSince since) (liveCamp : s.book.camps.get dest.cp = some camp)
    (early : now - since < camp.retryDelay) : s'.book.dests.get d = some dest := by
  have starts : Inv ans t := inv.ticks ticks
  obtain ⟨f, msgq, torn, lost, flags, state⟩ := ticks.state
  have liveStart : t.book.dests.get d = some dest := by
    rw [state]
    exact live
  refine startFakeCalling_rule (I := fun u => u.book.dests.get d = some dest) ?_ ?_ ?_ liveStart run
  · exact fun _ _ kept _ => kept
  · refine fun book live filled => fillProcessl_passes live (fun camp' liveCamp' mem => ?_) filled
    obtain ⟨dest', live', onCp, -⟩ := starts.partition.on_destinations liveCamp' mem
    cases live.symm.trans live'
    have delay : camp'.retryDelay = camp.retryDelay := by
      rw [state] at liveCamp'
      have written : (s.book.camps.modify cp f).get cp = some camp' := liveCamp'
      rw [Heap.get_modify_self, ← onCp, liveCamp] at written
      obtain ⟨_, _, eq⟩ := flags camp
      rw [Option.map_some, eq] at written
      cases written
      rfl
    exact rests.waitsForRetry (by rw [delay]; exact early)
  · intro d' u dest' u' destroyed reached live live' result
    rcases eq_or_ne d d' with rfl | ne
    · cases live.symm.trans live'
      obtain ⟨_, loop⟩ := reached.dialling starts
      obtain ⟨dest'', live'', onCp, on⟩ := loop.on d List.mem_cons_self
      cases live.symm.trans live''
      have busy : dest.call ≠ none := by
        intro idle
        rw [rests.waiting idle] at on
        cases on
      cases result with
      | skipped => exact live
      | destroyed idle => exact absurd idle busy
      | undone idle => exact absurd idle busy
      | placed idle => exact absurd idle busy
    · rw [result.others ne]
      exact live

/-- The supervision leaves the time of the last attempt and the number of tries alone,
and puts the destination back on its list when it takes its call away. -/
theorem supervised_rests {env : AllocEnv} {e : DestId} {dest' : Destination} (inv : Inv ans s)
    (live : s.book.dests.get e = some dest) (armed : dest.tmr = true)
    (run : onCallEnd (s.disarmDest e) e now env = .ok s')
    (rests : ∀ dest, s.book.dests.get d = some dest → dest.RestsSince since)
    (live' : s'.book.dests.get d = some dest') : dest'.RestsSince since := by
  rcases eq_or_ne d e with rfl | ne
  · obtain ⟨lastTry, tried, waiting⟩ := rests dest live
    rcases inv.supervised_self live armed run with gone | rearmed | requeued
    · cases gone.symm.trans live'
    · cases rearmed.symm.trans live'
      exact ⟨lastTry, tried, waiting⟩
    · cases requeued.symm.trans live'
      exact ⟨lastTry, tried, fun _ => rfl⟩
  · rw [inv.supervised_others live armed run ne] at live'
    exact rests dest' live'

/-- What is known of the destination `d` of the campaign `k` while its retry delay
runs since its attempt at `since`. -/
structure Resting (k m : Nat) (d : DestId) (since : Time) (b : Book) : Prop where
  delays : Delays k m b
  contact : ContactOf k d b
  rests : ∀ dest, b.dests.get d = some dest → dest.RestsSince since

theorem Resting.tick {env : DestId → DialEnv} (resting : Resting k m d since s.book)
    (inv : Inv ans s) (ticks : Ticks s cp now env e t)
    (run : startFakeCalling t cp now env = .ok s') (step : dialer.step s e s')
    (early : now - since < (m * 60 % 2 ^ 16 : Nat)) :
    s'.book.dests.get d = s.book.dests.get d := by
  cases live : s.book.dests.get d with
  | none => exact (step_onward inv step).dead resting.contact.1 live
  | some dest =>
    obtain ⟨camp, liveCamp, isK⟩ := resting.contact.2 dest live
    refine tick_rests inv ticks run live (resting.rests dest live) liveCamp ?_
    rw [resting.delays dest.cp camp liveCamp isK]
    exact early

theorem Resting.quiet (resting : Resting k m d since s.book) (inv : Inv ans s)
    (step : dialer.step s e s') (early : now - since < (m * 60 % 2 ^ 16 : Nat)) :
    ¬ Attempt d now s e s' := by
  rintro ⟨tick, unarmed, dest, live', armed⟩
  obtain ⟨cp, env, t, ticks, run⟩ := ticked_of_tickTime tick step
  rw [resting.tick inv ticks run step early] at live'
  rw [unarmed dest live'] at armed
  cases armed

theorem Resting.step (resting : Resting k m d since s.book) (inv : Inv ans s)
    (partition : Partition s'.book) (holds : e.HoldsRetries k m)
    (early : ∀ now, e.tickTime = some now → now - since < (m * 60 % 2 ^ 16 : Nat))
    (step : dialer.step s e s') : Resting k m d since s'.book where
  delays := resting.delays.step inv holds step
  contact := resting.contact.step inv partition step
  rests := by
    intro dest' live'
    cases step_cases step with
    | pulled run =>
      rcases pull_dests run live' with old | ⟨above, -⟩
      · exact resting.rests dest' old
      · exact absurd resting.contact.1 (Nat.not_lt.mpr above)
    | ticked ticks run =>
      have soon := early _ ticks.tickTime
      rw [resting.tick inv ticks run step soon] at live'
      exact resting.rests dest' live'
    | supervised live armed run => exact supervised_rests inv live armed run resting.rests live'
    | calledBack => exact resting.rests dest' live'
    | lost => exact resting.rests dest' live'

/-! ## After an attempt -/

/-- A tick gives a destination without a call its time and one more try along with
the call. -/
theorem tick_attempts {env : DestId → DialEnv} {dest' : Destination}
    (run : startFakeCalling s cp now env = .ok s') (live : s.book.dests.get d = some dest)
    (unarmed : dest.tmr = false) (live' : s'.book.dests.get d = some dest')
    (armed : dest'.tmr = true) :
    dest'.lastTry = now ∧ dest'.tryCount = (dest.tryCount + 1) % 2 ^ 8 ∧ dest'.call ≠ none := by
  -- by the tick it is given a call once, or it is as before up to an undone try
  have account : ∀ dest', s'.book.dests.get d = some dest' →
      (dest'.tmr = false ∧ dest'.tryCount % 2 ^ 8 = dest.tryCount % 2 ^ 8) ∨
      (dest'.lastTry = now ∧ dest'.tryCount = (dest.tryCount + 1) % 2 ^ 8 ∧ dest'.call ≠ none) := by
    refine startFakeCalling_rule (I := fun u => ∀ dest', u.book.dests.get d = some dest' →
      (dest'.tmr = false ∧ dest'.tryCount % 2 ^ 8 = dest.tryCount % 2 ^ 8) ∨
      (dest'.lastTry = now ∧ dest'.tryCount = (dest.tryCount + 1) % 2 ^ 8 ∧ dest'.call ≠ none))
      ?_ ?_ ?_ ?_ run
    · exact fun _ _ account _ => account
    · intro book account filled dest' live'
      obtain ⟨old, le, liveOld, rfl⟩ := (fillProcessl_rearranged filled).of_dest live'
      exact account old liveOld
    · intro d' u old u' destroyed _ account liveOld result dest' live'
      rcases eq_or_ne d d' with rfl | ne
      · have before := account old liveOld
        cases result with
        | skipped => exact account dest' live'
        | destroyed =>
          rw [Book.remove_dests, if_pos rfl] at live'
          cases live'
        | undone idle =>
          obtain rfl : dest' = old.undone now :=
            Option.some.inj (live'.symm.trans ((Heap.get_modify_self ..).trans (by rw [liveOld]; rfl)))
          rcases before with ⟨off, same⟩ | ⟨-, -, busy⟩
          · refine .inl ⟨off, ?_⟩
            show ((old.tryCount + 1) % 2 ^ 8 + 2 ^ 8 - 1) % 2 ^ 8 % 2 ^ 8 = dest.tryCount % 2 ^ 8
            omega
          · exact absurd idle busy
        | @placed _ c _ _ _ idle =>
          obtain rfl : dest' = old.dialled c now :=
            Option.some.inj (live'.symm.trans ((Heap.get_modify_self ..).trans (by rw [liveOld]; rfl)))
          rcases before with ⟨-, same⟩ | ⟨-, -, busy⟩
          · refine .inr ⟨rfl, ?_, fun none => by cases none⟩
            show (old.tryCount + 1) % 2 ^ 8 = (dest.tryCount + 1) % 2 ^ 8
            omega
          · exact absurd idle busy
      · rw [result.others ne] at live'
        exact account dest' live'
    · intro dest' live'
      cases live.symm.trans live'
      exact .inl ⟨unarmed, rfl⟩
  rcases account dest' live' with ⟨off, -⟩ | attempted
  · rw [off] at armed
    cases armed
  · exact attempted

/-- An attempt starts the retry delay, unless the number of tries comes back to 0. -/
theorem Attempt.rests (attempt : Attempt d now s e s') (step : dialer.step s e s')
    (live : s.book.dests.get d = some dest) (noWrap : (dest.tryCount + 1) % 2 ^ 8 ≠ 0) :
    ∀ dest', s'.book.dests.get d = some dest' → dest'.RestsSince now := by
  intro dest' live'
  obtain ⟨cp, env, t, ticks, run⟩ := ticked_of_tickTime attempt.tick step
  obtain ⟨f, msgq, torn, lost, -, state⟩ := ticks.state
  have liveStart : t.book.dests.get d = some dest := by
    rw [state]
    exact live
  obtain ⟨after, liveAfter, armed⟩ := attempt.armed
  cases live'.symm.trans liveAfter
  obtain ⟨lastTry, tries, busy⟩ :=
    tick_attempts run liveStart (attempt.unarmed dest live) live' armed
  exact ⟨lastTry, tries ▸ Nat.pos_of_ne_zero noWrap, fun idle => absurd idle busy⟩

/-! ## Runs -/

theorem Resting.run (between : dialer.Run s h t) (reach : dialer.Reachable s)
    (resting : Resting k m d since s.book) (holds : ∀ x ∈ h, x.2.HoldsRetries k m)
    (early : ∀ x ∈ h, ∀ now, x.2.tickTime = some now → now - since < (m * 60 % 2 ^ 16 : Nat)) :
    Resting k m d since t.book := by
  induction between with
  | nil => exact resting
  | @snoc h t u e before last ih =>
    have resting : Resting k m d since t.book :=
      ih (fun x mem => holds x (List.mem_append_left _ mem))
        fun x mem => early x (List.mem_append_left _ mem)
    obtain ⟨_, inv⟩ := reachable_inv (reach.run before)
    obtain ⟨_, after⟩ := reachable_inv ((reach.run before).step last)
    have new : (t, e) ∈ h ++ [(t, e)] := List.mem_append_right h (List.mem_singleton_self _)
    exact resting.step inv after.partition (holds _ new) (early _ new) last

theorem execution_delays (run : dialer.Execution h s) (holds : ∀ x ∈ h, x.2.HoldsRetries k m) :
    Delays k m s.book := by
  have account := run.induct (C := fun _ e => e.HoldsRetries k m)
    (I := fun _ s => Inv.Any s ∧ Delays k m s.book) holds
    (fun _ ⟨n, audioPath, _, eq⟩ => eq ▸ ⟨.boot n audioPath, fun _ _ live => by cases live⟩)
    (fun _ s e _ _ ⟨inv, delays⟩ step holds =>
      ⟨step_inv_hears inv (.anything s e) step, delays.step inv holds step⟩)
  exact account.2

/-- Every attempt but the one that brings the number of tries of its destination back to 0 is
followed by the time between retries, as long as this is at most 1092 minutes. -/
theorem attempts_spaced (run : dialer.Execution h s) (fits : 60 * m < 2 ^ 16)
    (holds : ∀ x ∈ h, x.2.HoldsRetries k m)
    (clock : (h.filterMap fun x => x.2.tickTime).Pairwise (· ≤ ·)) :
    ∀ h₁ u e h₂ v e' h₃ u' v' t₁ t₂ dest camp, h = h₁ ++ (u, e) :: h₂ ++ (v, e') :: h₃ →
      dialer.step u e u' → Attempt d t₁ u e u' → dialer.step v e' v' → Attempt d t₂ v e' v' →
      u.book.dests.get d = some dest → u.book.camps.get dest.cp = some camp →
      camp.campaignId = k → (dest.tryCount + 1) % 2 ^ 8 ≠ 0 → 60 * (m : Int) ≤ t₂ - t₁ := by
  intro h₁ u e h₂ v e' h₃ u' v' t₁ t₂ dest camp eq step first step' second live liveCamp isK noWrap
  subst eq
  by_contra soon
  have early : t₂ - t₁ < (m * 60 % 2 ^ 16 : Nat) := by
    have whole : m * 60 % 2 ^ 16 = 60 * m := by omega
    rw [whole]
    push_cast
    exact Int.not_le.mp soon
  rw [List.append_assoc, List.cons_append] at run holds clock
  obtain ⟨u'', run₁, taken, rest⟩ := run.split
  obtain rfl : u'' = u' := Option.some.inj (taken.symm.trans step)
  obtain ⟨v'', between, taken', -⟩ := rest.split
  obtain rfl : v'' = v' := Option.some.inj (taken'.symm.trans step')
  have reach : dialer.Reachable u'' := (run₁.snoc step).reachable
  obtain ⟨_, invU⟩ := reachable_inv run₁.reachable
  obtain ⟨_, invU'⟩ := reachable_inv reach
  -- no tick between the two attempts is later than the second one
  have within : ∀ x ∈ h₂, ∀ now, x.2.tickTime = some now → now ≤ t₂ := by
    intro x mem now tick
    have later := (List.pairwise_cons.mp (List.pairwise_append.mp
      (List.pairwise_filterMap.mp clock)).2.1).2
    exact (List.pairwise_append.mp later).2.2 x mem (v, e') List.mem_cons_self now tick t₂ second.tick
  have holdsFirst : ∀ x ∈ h₁, x.2.HoldsRetries k m := fun x mem =>
    holds x (List.mem_append_left _ mem)
  have holdsRest : ∀ x ∈ (u, e) :: (h₂ ++ (v, e') :: h₃), x.2.HoldsRetries k m := fun x mem =>
    holds x (List.mem_append_right _ mem)
  have contact : ContactOf k d u.book :=
    ⟨Heap.lt_next live, fun dest' live' => by
      cases live.symm.trans live'
      exact ⟨camp, liveCamp, isK⟩⟩
  -- the first attempt lays the contact to rest, and nothing before the delay wakes it
  have start : Resting k m d t₁ u''.book :=
    { delays := (execution_delays run₁ holdsFirst).step invU (holdsRest _ List.mem_cons_self) step
      contact := contact.step invU invU'.partition step
      rests := first.rests step live noWrap }
  have resting : Resting k m d t₁ v.book := by
    refine start.run between reach (fun x mem => ?_) fun x mem now tick => ?_
    · exact holdsRest x (List.mem_cons_of_mem _ (List.mem_append_left _ mem))
    · exact Int.lt_of_le_of_lt (Int.sub_le_sub_right (within x mem now tick) t₁) early
  obtain ⟨_, invV⟩ := reachable_inv (reach.run between)
  exact resting.quiet invV step' early second

/-- The campaign of `oneCampaign` with this time between retries, and no limit on them. -/
def retryEvery (m : Nat) : Snapshot :=
  { oneCampaign with
    campaigns := some [{
      id := 1, frequency := 2, fileName := some "offer.gsm", gatewayId := 1,
      timeBetweenRetries := m }] }

/-- A run whose passes read the time `m` between retries, in which the first contact is
called at 100 and the next time at `later`. -/
structure Redial (m : Nat) (later : Time) (h h₁ : List (Sys × Event)) (u u' : Sys)
    (h₂ : List (Sys × Event)) (v v' : Sys) : Prop where
  eq : h = h₁ ++ (u, .message 100 fun _ => {}) :: h₂ ++ [(v, .campTimer 0 later fun _ => {})]
  run : dialer.Execution h v'
  holds : ∀ x ∈ h, x.2.HoldsRetries 1 m
  clock : (h.filterMap fun x => x.2.tickTime).Pairwise (· ≤ ·)
  dials : dialer.step u (.message 100 fun _ => {}) u'
  first : Attempt 0 100 u (.message 100 fun _ => {}) u'
  between : ∀ x ∈ h₂, ∀ now t, dialer.step x.1 x.2 t → ¬ Attempt 0 now x.1 x.2 t
  redials : dialer.step v (.campTimer 0 later fun _ => {}) v'
  second : Attempt 0 later v (.campTimer 0 later fun _ => {}) v'
  contact : ∃ dest camp, u.book.dests.get 0 = some dest ∧ u.book.camps.get dest.cp = some camp ∧
    camp.campaignId = 1 ∧ dest.tryCount = 0

theorem attempt_of_armed (tick : e.tickTime = some now) (before : s.armed (.dest d) = false)
    (after : s'.armed (.dest d) = true) : Attempt d now s e s' where
  tick := tick
  unarmed := by
    intro dest live
    rw [Sys.armed, live] at before
    exact before
  armed := by
    obtain ⟨dest, live, armed⟩ := (Option.any_eq_true ..).mp after
    exact ⟨dest, live, armed⟩

/-- The first call fails at once, and the tick at 110 leaves the contact alone. -/
def redials (m : Nat) (later : Time) : Bool :=
  ((Sys.boot 4 "/audio").next (.pull (retryEvery m))).any fun u =>
    (u.next (.message 100 fun _ => {})).any fun u' => (u'.next (.close 0 true 0)).any fun a =>
      (a.next (.destTimer 0 101 {})).any fun b => (b.next (.campTimer 0 110 fun _ => {})).any fun v =>
        (v.next (.campTimer 0 later fun _ => {})).any fun v' =>
          (!u.armed (.dest 0) && u'.armed (.dest 0) && !v.armed (.dest 0) && v'.armed (.dest 0)) &&
            (u.book.dests.get 0).any fun dest => dest.tryCount = 0 &&
              (u.book.camps.get dest.cp).any fun camp => camp.campaignId = 1

theorem redial_of_test (m : Nat) (later : Time) (late : 110 ≤ later) (test : redials m later = true) :
    ∃ h h₁ u u' h₂ v v', Redial m later h h₁ u u' h₂ v v' := by
  unfold redials at test
  simp only [Option.any_eq_true, Bool.and_eq_true, Bool.not_eq_true', decide_eq_true_eq] at test
  obtain ⟨u, read, u', dials, a, closes, b, ends, v, passes, v', redials, ⟨⟨⟨off, on⟩, off'⟩, on'⟩,
    dest, live, tries, camp, liveCamp, isOne⟩ := test
  have boots : dialer.Execution [] (Sys.boot 4 "/audio") :=
    ⟨_, ⟨4, "/audio", by decide, rfl⟩, .nil⟩
  refine ⟨_, [(Sys.boot 4 "/audio", .pull (retryEvery m))], u, u',
    [(u', .close 0 true 0), (a, .destTimer 0 101 {}), (b, .campTimer 0 110 fun _ => {})], v, v',
    { eq := rfl
      run := (((((boots.snoc read).snoc dials).snoc closes).snoc ends).snoc passes).snoc redials
      holds := ?_, clock := ?_, dials := dials, first := attempt_of_armed rfl off on
      between := ?_, redials := redials, second := attempt_of_armed rfl off' on'
      contact := ⟨dest, camp, live, liveCamp, isOne, tries⟩ }⟩
  · intro x mem
    simp only [List.cons_append, List.nil_append, List.mem_cons, List.not_mem_nil, or_false] at mem
    rcases mem with rfl | rfl | rfl | rfl | rfl | rfl
    · intro rows answered row mem _
      cases answered
      cases List.mem_singleton.mp mem
      rfl
    all_goals trivial
  · show [100, 110, later].Pairwise (· ≤ ·)
    have afterFirst : 100 ≤ later := Int.le_trans (by decide) late
    simp [late, afterFirst]
  · intro x mem now t step attempt
    simp only [List.mem_cons, List.not_mem_nil, or_false] at mem
    rcases mem with rfl | rfl | rfl
    · cases attempt.tick
    · cases attempt.tick
    · cases Option.some.inj (passes.symm.trans step)
      obtain ⟨dest, live, armed⟩ := attempt.armed
      rw [Sys.armed, live] at off'
      exact absurd (armed.symm.trans off') (by decide)

/-- One minute between retries is kept. -/
theorem attempts_spaced_minute : ∃ h h₁ u u' h₂ v v', Redial 1 160 h h₁ u u' h₂ v v' ∧
    60 * ((1 : Nat) : Int) ≤ 160 - 100 := by
  obtain ⟨h, h₁, u, u', h₂, v, v', redial⟩ := redial_of_test 1 160 (by decide) (by decide)
  obtain ⟨dest, camp, live, liveCamp, isOne, tries⟩ := redial.contact
  refine ⟨h, h₁, u, u', h₂, v, v', redial, ?_⟩
  exact attempts_spaced redial.run (by decide) redial.holds redial.clock h₁ u _ h₂ v _ [] u' v'
    100 160 dest camp redial.eq redial.dials redial.first redial.redials redial.second live liveCamp
    isOne (by rw [tries]; decide)

/-- 1093 minutes are 65580 seconds, of which 16 bits keep 44. -/
theorem attempts_close : ∃ h h₁ u u' h₂ v v', Redial 1093 154 h h₁ u u' h₂ v v' ∧
    (154 : Int) - 100 < 60 * (1093 : Nat) := by
  obtain ⟨h, h₁, u, u', h₂, v, v', redial⟩ :=
    redial_of_test 1093 154 (by decide) (by decide)
  exact ⟨h, h₁, u, u', h₂, v, v', redial, by decide⟩

end Autodialer
