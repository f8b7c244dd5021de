import Autodialer.CallSpec
import Autodialer.Tick

/-!
# What a campaign tick does

The tick is a sequence of moves to the process list, each made while there is
room, and then one `dialDest` for each element of that list. `DialResult` is
the list of everything `dialDest` can do; `dialLoop_rule` and
`selectLoop_rule` are the invariant rules of the two loops.
-/

namespace Autodialer

variable {s s' : Sys} {d : DestId} {c : CallId} {cp : CampId} {dest : Destination}
  {now : Time}

/-! ## Destroying a destination -/

/-- A destination is destroyed together with its call. -/
theorem memDerefDest_cases (live : s.book.dests.get d = some dest)
    (run : memDerefDest s d = .ok s') :
    ∃ media, (match dest.call with
        | some c => memDerefCall callDepth s.media c = .ok media
        | none => media = s.media) ∧
      s' = { s with media := media, book := s.book.remove d } := by
  rw [memDerefDest, Sys.loadDest, load, live, Fallible.get?_some, Fallible.ok_bind] at run
  cases has : dest.call with
  | none =>
    rw [has] at run
    cases run
    exact ⟨s.media, rfl, rfl⟩
  | some c =>
    rw [has] at run
    obtain ⟨media, ended, rest⟩ := Fallible.bind_eq_ok.mp run
    cases rest
    exact ⟨media, ended, rfl⟩

theorem memDerefDest_idle (live : s.book.dests.get d = some dest) (idle : dest.call = none) :
    memDerefDest s d = .ok { s with book := s.book.remove d } := by
  rw [memDerefDest, Sys.loadDest, load, live, Fallible.get?_some, Fallible.ok_bind, idle]
  rfl

/-! ## Dialling one destination -/

/-- There is something to do with an answered call: an audio file to play, or a
PBX to join. -/
def hasTarget (audioPath : String) (camp : Campaign) (access : Bool) : Bool :=
  match camp.fileName with
  | some fileName => (audioFile audioPath fileName).isSome && access
  | none => camp.pbxGateway.isSome && camp.pbxNumber.isSome

/-- The write says what the call is for and nothing else. -/
def Tags (f : Call → Call) : Prop :=
  ∀ call, ∃ audio joinPbx, f call = { call with audio := audio, joinPbx := joinPbx }

/-- The write lets a call join the PBX only if the campaign has a PBX gateway and number. -/
def Joins (camp : Campaign) (f : Call → Call) : Prop :=
  ∀ call, (f call).joinPbx = true →
    call.joinPbx = true ∨ (camp.pbxGateway.isSome = true ∧ camp.pbxNumber.isSome = true)

theorem Sys.setCall_id (s : Sys) (c : CallId) : s.setCall c (fun call => call) = s := by
  rw [Sys.setCall, Media.setCall, Heap.modify_eq_self fun _ _ => rfl]

theorem dialTarget_eq (s : Sys) (camp : Campaign) (d : DestId) (c : CallId) (access : Bool) :
    ∃ f, Tags f ∧ Joins camp f ∧ dialTarget s camp d c access =
      if hasTarget s.audioPath camp access then pure (s.setCall c f)
      else dropCall (s.setCall c f) d c := by
  unfold dialTarget hasTarget
  cases camp.fileName with
  | some fileName =>
    exact ⟨_, fun call => ⟨audioFile s.audioPath fileName, call.joinPbx, rfl⟩, fun _ => .inl, rfl⟩
  | none =>
    by_cases pbx : (camp.pbxGateway.isSome && camp.pbxNumber.isSome) = true
    · refine ⟨fun call => { call with joinPbx := true }, fun call => ⟨call.audio, true, rfl⟩,
        fun _ _ => .inr (Bool.and_eq_true_iff.mp pbx), ?_⟩
      simp only [pbx, if_true]
    · rw [Bool.not_eq_true] at pbx
      refine ⟨fun call => call, fun call => ⟨call.audio, call.joinPbx, rfl⟩, fun _ => .inl, ?_⟩
      simp only [pbx, Sys.setCall_id, Bool.false_eq_true, if_false]

/-- The destination after a call has been placed for it. -/
def Destination.dialled (dest : Destination) (c : CallId) (now : Time) : Destination :=
  { dest with
    call := some c, tryCount := (dest.tryCount + 1) % 2 ^ 8, lastTry := now, tmr := true }

/-- The destination after its call has been dropped for want of a target. -/
def Destination.undone (dest : Destination) (now : Time) : Destination :=
  { dest with
    call := none, tryCount := ((dest.tryCount + 1) % 2 ^ 8 + 2 ^ 8 - 1) % 2 ^ 8, lastTry := now }

/-- `call_alloc` is called for the destination on the gateway of its campaign, and
returns `r`. -/
def Calls (s : Sys) (now : Time) (env : AllocEnv) (d : DestId) (dest : Destination) (r : Alloc) :
    Prop :=
  ∃ camp g gateway, s.book.camps.get dest.cp = some camp ∧ camp.gateway = some g ∧
    s.gateways.get g = some gateway ∧
    callAlloc s.media env now none dest.dest gateway.sipUri false 0 d = .ok r

/-- What `dialDest` can do to the destination `d`; the flag says that it was
destroyed. -/
inductive DialResult (s : Sys) (now : Time) (env : DialEnv) (d : DestId) (dest : Destination) :
    Sys → Bool → Prop
  /-- There is a call already, or no gateway. -/
  | skipped : DialResult s now env d dest s false
  /-- `call_alloc` has failed. -/
  | destroyed {r : Alloc} : dest.call = none → Calls s now env.alloc d dest r →
      r.err = true → r.callp = none →
      DialResult s now env d dest { s with media := r.media, book := s.book.remove d } true
  /-- The call was dropped again because it has no target. -/
  | undone {r : Alloc} {c : CallId} {camp : Campaign} {f : Call → Call}
      {media : Media} : dest.call = none → Calls s now env.alloc d dest r →
      r.err = false → r.callp = some c → s.book.camps.get dest.cp = some camp →
      hasTarget s.audioPath camp env.access = false → Tags f →
      memDerefCall callDepth (r.media.setCall c f) c = .ok media →
      DialResult s now env d dest
        { s with media := media, book := s.book.setDest d fun dest => dest.undone now } false
  | placed {r : Alloc} {c : CallId} {camp : Campaign} {f : Call → Call}
      {call : Call} : dest.call = none → Calls s now env.alloc d dest r →
      r.err = false → r.callp = some c → s.book.camps.get dest.cp = some camp →
      hasTarget s.audioPath camp env.access = true → Tags f →
      (r.media.setCall c f).calls.get c = some call → Joins camp f →
      DialResult s now env d dest
        { s with
          media := r.media.setCall c f
          book := s.book.setDest d fun dest => dest.dialled c now
          db := dbExec s.db
            (.status call.callStatus 0 call.connectTm call.establishTm dest.destId) } false

theorem dropCall_cases (run : dropCall s d c = .ok s') :
    ∃ media, memDerefCall callDepth s.media c = .ok media ∧
      s' = { s with
        media := media
        book := s.book.setDest d fun dest => { dest with call := none } } := by
  obtain ⟨media, ended, rest⟩ := Fallible.bind_eq_ok.mp run
  cases rest
  exact ⟨media, ended, rfl⟩

theorem updateCallStatus_cases {arg : Option DestId} (run : updateCallStatus s arg = .ok s') :
    ∃ d dest c call, arg = some d ∧ s.book.dests.get d = some dest ∧ dest.call = some c ∧
      s.media.calls.get c = some call ∧
      s' = s.exec (.status call.callStatus 0 call.connectTm call.establishTm dest.destId) := by
  obtain ⟨d, isArg, run⟩ := Fallible.bind_eq_ok.mp run
  obtain ⟨dest, live, run⟩ := Fallible.bind_eq_ok.mp run
  obtain ⟨c, has, run⟩ := Fallible.bind_eq_ok.mp run
  obtain ⟨call, liveCall, run⟩ := Fallible.bind_eq_ok.mp run
  exact ⟨d, dest, c, call, nonNull_eq_ok.mp isArg, load_eq_ok.mp live, nonNull_eq_ok.mp has,
    load_eq_ok.mp liveCall, (Fallible.pure_eq_ok.mp run).symm⟩

theorem dialPlaced_cases {env : DialEnv} (live : s.book.dests.get d = some dest)
    (has : dest.call = some c) (run : dialPlaced s now env d c = .ok s') :
    ∃ camp f, s.book.camps.get dest.cp = some camp ∧ Tags f ∧ Joins camp f ∧
      ((hasTarget s.audioPath camp env.access = true ∧
        ∃ call, (s.media.setCall c f).calls.get c = some call ∧
          s' = { s with
            media := s.media.setCall c f
            book := s.book.setDest d fun dest => { dest with
              tryCount := (dest.tryCount + 1) % 2 ^ 8, lastTry := now, tmr := true }
            db := dbExec s.db
              (.status call.callStatus 0 call.connectTm call.establishTm dest.destId) }) ∨
      (hasTarget s.audioPath camp env.access = false ∧
        ∃ media, memDerefCall callDepth (s.media.setCall c f) c = .ok media ∧
          s' = { s with
            media := media, book := s.book.setDest d fun dest => dest.undone now })) := by
  generalize tried : (s.setDest d fun dest =>
    { dest with tryCount := (dest.tryCount + 1) % 2 ^ 8, lastTry := now }) = t at run
  have liveTried : t.book.dests.get d =
      some { dest with tryCount := (dest.tryCount + 1) % 2 ^ 8, lastTry := now } := by
    simp [← tried, Sys.setDest, live]
  simp only [dialPlaced, tried, Sys.loadDest, load, liveTried, Fallible.get?_some,
    Fallible.ok_bind] at run
  obtain ⟨camp, liveCamp, run⟩ := Fallible.bind_eq_ok.mp run
  obtain ⟨f, tags, joins, dialled⟩ := dialTarget_eq t camp d c env.access
  refine ⟨camp, f, by simpa [← tried, Sys.setDest, Sys.loadCamp] using liveCamp, tags, joins, ?_⟩
  rw [dialled] at run
  have path : t.audioPath = s.audioPath := by rw [← tried]; rfl
  rw [path] at run
  rcases target : hasTarget s.audioPath camp env.access with _ | _
  · refine .inr ⟨rfl, ?_⟩
    rw [target] at run
    obtain ⟨t', dropped, run⟩ := Fallible.bind_eq_ok.mp run
    obtain ⟨media, ended, rfl⟩ := dropCall_cases dropped
    have liveTarget : (t.setCall c f).book.dests.get d = _ := liveTried
    simp only [Book.dests_setDest, Heap.get_modify_self, liveTarget, Option.map_some,
      Fallible.get?_some, Fallible.ok_bind] at run
    cases run
    subst tried
    refine ⟨media, ended, ?_⟩
    simp [Sys.setDest, Sys.setCall, Book.setDest, Heap.modify_modify, Destination.undone]
  · refine .inl ⟨rfl, ?_⟩
    rw [target, if_pos rfl] at run
    have liveTarget : (t.setCall c f).book.dests.get d = _ := liveTried
    simp only [pure_bind, liveTarget, Fallible.get?_some, Fallible.ok_bind, has] at run
    obtain ⟨e, dest', c', call, isArg, live', has', liveCall, rfl⟩ := updateCallStatus_cases run
    obtain rfl := Option.some.inj isArg
    rw [Sys.setDest, Book.dests_setDest, Heap.get_modify_self, liveTarget] at live'
    cases live'
    obtain rfl : c = c' := Option.some.inj (has.symm.trans has')
    subst tried
    refine ⟨call, liveCall, ?_⟩
    simp [Sys.exec, Sys.setDest, Sys.setCall, Book.setDest, Heap.modify_modify]

theorem dialDest_cases {env : DialEnv} {destroyed : Bool} (live : s.book.dests.get d = some dest)
    (run : dialDest s now env d = .ok (s', destroyed)) :
    DialResult s now env d dest s' destroyed := by
  rw [dialDest, Sys.loadDest, load, live, Fallible.get?_some, Fallible.ok_bind] at run
  split at run
  · cases run
    exact .skipped
  next idle =>
    obtain ⟨camp, liveCamp, run⟩ := Fallible.bind_eq_ok.mp run
    split at run
    · cases run
      exact .skipped
    next g hasGateway =>
      obtain ⟨gateway, liveGateway, run⟩ := Fallible.bind_eq_ok.mp run
      obtain ⟨r, placing, run⟩ := Fallible.bind_eq_ok.mp run
      rw [idle] at placing
      have calls : Calls s now env.alloc d dest r :=
        ⟨camp, g, gateway, load_eq_ok.mp liveCamp, hasGateway, load_eq_ok.mp liveGateway, placing⟩
      rcases callAlloc_cases placing with failed | ⟨rs, call, done⟩
      · have noCall := failed.noCall rfl
        have same : s.book.setDest d (fun dest => { dest with call := r.callp }) = s.book := by
          rw [Book.setDest, Heap.modify_eq_self fun dest' live' => ?_]
          rw [live] at live'
          cases live'
          rw [noCall, ← idle]
        simp only [Sys.setDest, same, failed.err, if_true] at run
        rw [memDerefDest_idle (s := { s with media := r.media }) live idle] at run
        cases run
        exact .destroyed idle calls failed.err noCall
      · simp only [done.err, done.callp, nonNull_some, Fallible.ok_bind, Bool.false_eq_true,
          if_false] at run
        obtain ⟨t, placed, run⟩ := Fallible.bind_eq_ok.mp run
        cases run
        have livePlaced : (s.book.setDest d fun dest =>
            { dest with call := some s.media.calls.next }).dests.get d =
              some { dest with call := some s.media.calls.next } := by
          simp [live]
        obtain ⟨camp', f, liveCamp', tags, joins, outcome⟩ := dialPlaced_cases livePlaced rfl placed
        rcases outcome with ⟨target, call', liveCall, rfl⟩ | ⟨target, media, ended, rfl⟩
        · have result := DialResult.placed idle calls done.err done.callp liveCamp' target tags
            liveCall joins
          simpa [Sys.setDest, Book.setDest, Heap.modify_modify, Destination.dialled] using result
        · have result := DialResult.undone idle calls done.err done.callp liveCamp' target tags
            ended
          simpa [Sys.setDest, Book.setDest, Heap.modify_modify, Destination.undone] using result

/-! ## The loops -/

/-- The invariant rule of the loop that selects destinations: `I rest b` holds of
the destinations still to be looked at. Every move finds room on the process
list, and what is moved does not wait for its retry. -/
theorem selectLoop_rule {I : List DestId → Book → Prop}
    (skip : ∀ d rest b, I (d :: rest) b → I rest b)
    (move : ∀ d rest b dest camp, I (d :: rest) b → b.dests.get d = some dest →
      b.camps.get cp = some camp → camp.processl.length < camp.callLimit →
      waitsForRetry camp dest now = false → I rest (b.moveTo d (.processl cp)))
    {order : List DestId} {b b' : Book} (start : I order b)
    (room : ∀ camp, b.camps.get cp = some camp → camp.processl.length < camp.callLimit)
    (run : selectLoop cp now order b = .ok b') : ∃ rest, I rest b' := by
  induction order generalizing b with
  | nil =>
    cases run
    exact ⟨[], start⟩
  | cons d rest ih =>
    obtain ⟨dest, live, run⟩ := Fallible.bind_eq_ok.mp run
    obtain ⟨camp, liveCamp, run⟩ := Fallible.bind_eq_ok.mp run
    rw [load_eq_ok] at live liveCamp
    split at run
    · exact ih (skip d rest b start) room run
    next due =>
      have moved := move d rest b dest camp start live liveCamp (room camp liveCamp)
        (Bool.eq_false_iff.mpr due)
      obtain ⟨camp', liveCamp', run⟩ := Fallible.bind_eq_ok.mp run
      rw [load_eq_ok] at liveCamp'
      split at run
      · cases run
        exact ⟨rest, moved⟩
      next notFull =>
        refine ih moved (fun camp'' live'' => ?_) run
        obtain rfl : camp' = camp'' := Option.some.inj (liveCamp'.symm.trans live'')
        omega

/-- The list of destinations is sorted, and then some of it is moved to the
process list. -/
theorem fillProcessl_cases {b b' : Book} (run : fillProcessl b cp now = .ok b') :
    b' = b ∨ ∃ camp order, b.camps.get cp = some camp ∧ order.Perm camp.destinations ∧
      camp.processl.length < camp.callLimit ∧
      selectLoop cp now order (b.setCamp cp fun camp => { camp with destinations := order }) =
        .ok b' := by
  obtain ⟨camp, live, run⟩ := Fallible.bind_eq_ok.mp run
  rw [load_eq_ok] at live
  split at run
  next room =>
    refine .inr ⟨camp, _, live, ?_, room, run⟩
    exact listSort_perm _ _ _
  next =>
    cases run
    exact .inl rfl

theorem fillProcessl_rearranged {b b' : Book} (run : fillProcessl b cp now = .ok b') :
    Rearranged b b' := by
  rcases fillProcessl_cases run with rfl | ⟨camp, order, live, -, room, run⟩
  · exact Rearranged.refl _
  · obtain ⟨_, change⟩ := selectLoop_rule (I := fun _ b' => Rearranged b b')
      (fun _ _ _ change => change)
      (fun d _ b' _ _ change _ _ _ _ => change.trans (Rearranged.moveTo b' d _))
      (Rearranged.order b cp order) (by simp [live]; exact room) run
    exact change

/-- The dial loop over `l` from `s` gets to the rest of its list in another state.
It goes on after a destroyed destination if the freed link still leads there. -/
inductive Dials (now : Time) (env : DestId → DialEnv) (l : List DestId) (s : Sys) :
    List DestId → Sys → Prop
  | start : Dials now env l s l s
  | next {d : DestId} {rest : List DestId} {t t' : Sys} {destroyed : Bool} :
      Dials now env l s (d :: rest) t → dialDest t now (env d) d = .ok (t', destroyed) →
      (destroyed = true → (env d).freed = .stale) → Dials now env l s rest t'

/-- The invariant rule of the dial loop. -/
theorem dialLoop_rule {env : DestId → DialEnv} {I : List DestId → Sys → Prop} {l : List DestId}
    (dial : ∀ d rest t dest t' destroyed, Dials now env l s (d :: rest) t → I (d :: rest) t →
      t.book.dests.get d = some dest → DialResult t now (env d) d dest t' destroyed → I rest t')
    (start : I l s) (run : dialLoop now env l s = .ok s') : ∃ rest, I rest s' := by
  have go : ∀ rest t, Dials now env l s rest t → I rest t → dialLoop now env rest t = .ok s' →
      ∃ rest, I rest s' := by
    intro rest
    induction rest with
    | nil =>
      intro t _ holds run
      cases run
      exact ⟨[], holds⟩
    | cons d rest ih =>
      intro t reached holds run
      obtain ⟨⟨t', destroyed⟩, dialled, run⟩ := Fallible.bind_eq_ok.mp run
      have live : ∃ dest, t.book.dests.get d = some dest := by
        obtain ⟨dest, live, -⟩ := Fallible.bind_eq_ok.mp dialled
        exact ⟨dest, load_eq_ok.mp live⟩
      obtain ⟨dest, live⟩ := live
      have next := dial d rest t dest t' destroyed reached holds live (dialDest_cases live dialled)
      dsimp only at run
      split at run
      · split at run
        · cases run
          exact ⟨rest, next⟩
        next stale => exact ih t' (reached.next dialled fun _ => stale) next run
        · cases run
      next kept => exact ih t' (reached.next dialled fun gone => absurd gone kept) next run
  exact go l s .start start run

/-- A tick stops the campaign, or fills its process list and dials. -/
theorem startFakeCalling_cases {env : DestId → DialEnv}
    (run : startFakeCalling s cp now env = .ok s') :
    ∃ camp, s.book.camps.get cp = some camp ∧
      ((camp.campaignStatus ≠ 2 ∧ s' = s.setCamp cp fun camp => { camp with isRunning := false }) ∨
        (camp.campaignStatus = 2 ∧ ∃ book camp' t, fillProcessl s.book cp now = .ok book ∧
          book.camps.get cp = some camp' ∧
          dialLoop now env camp'.processl { s with book := book } = .ok t ∧
          s' = t.setCamp cp fun camp => { camp with tmr := true })) := by
  obtain ⟨camp, live, run⟩ := Fallible.bind_eq_ok.mp run
  refine ⟨camp, load_eq_ok.mp live, ?_⟩
  split at run
  next stopped =>
    cases run
    exact .inl ⟨stopped, rfl⟩
  next running =>
    obtain ⟨book, filled, run⟩ := Fallible.bind_eq_ok.mp run
    obtain ⟨camp', live', run⟩ := Fallible.bind_eq_ok.mp run
    obtain ⟨t, dialled, run⟩ := Fallible.bind_eq_ok.mp run
    cases run
    exact .inr ⟨not_not.mp running, book, camp', t, filled, load_eq_ok.mp live', dialled, rfl⟩

/-- In the tick of `cp` from `s` the dial loop gets to `d` in the state `t`. -/
def TickReaches (s : Sys) (cp : CampId) (now : Time) (env : DestId → DialEnv) (d : DestId)
    (t : Sys) : Prop :=
  ∃ camp book camp' rest, s.book.camps.get cp = some camp ∧ camp.campaignStatus = 2 ∧
    fillProcessl s.book cp now = .ok book ∧ book.camps.get cp = some camp' ∧
    Dials now env camp'.processl { s with book := book } (d :: rest) t

/-- The write says whether the campaign is running and whether its timer is armed,
and nothing else. -/
def Flags (f : Campaign → Campaign) : Prop :=
  ∀ camp, ∃ isRunning tmr, f camp = { camp with isRunning := isRunning, tmr := tmr }

/-- The invariant rule of a tick. -/
theorem startFakeCalling_rule {env : DestId → DialEnv} {I : Sys → Prop}
    (flags : ∀ t f, I t → Flags f → I (t.setCamp cp f))
    (fill : ∀ book, I s → fillProcessl s.book cp now = .ok book → I { s with book := book })
    (dial : ∀ d t dest t' destroyed, TickReaches s cp now env d t → I t →
      t.book.dests.get d = some dest → DialResult t now (env d) d dest t' destroyed → I t')
    (start : I s) (run : startFakeCalling s cp now env = .ok s') : I s' := by
  obtain ⟨camp, live, ⟨-, rfl⟩ | ⟨active, book, camp', t, filled, live', dialled, rfl⟩⟩ :=
    startFakeCalling_cases run
  · exact flags s _ start fun camp => ⟨false, camp.tmr, rfl⟩
  · obtain ⟨_, done⟩ := dialLoop_rule (I := fun _ t => I t)
      (fun d rest t dest t' destroyed reached =>
        dial d t dest t' destroyed ⟨camp, book, camp', rest, live, active, filled, live', reached⟩)
      (fill book start filled) dialled
    exact flags t _ done fun camp => ⟨camp.isRunning, true, rfl⟩

end Autodialer
